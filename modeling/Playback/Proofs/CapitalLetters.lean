import Playback.Proofs.CaseRuns
/-!
# Capital letters stay capital

A text in capital letters has itself for capital letters, also where one letter has several for its
capital form, and capital letters are blank only where the letters were.
-/

namespace Playback.Proofs.CapitalLetters

open CaseRuns Text

/-! ## Code points -/

/-- The letters whose capital form takes several characters. -/
def expanded : List Nat := upperExpansions.map (·.1)

def Capital (n : Nat) : Prop := Rests expanded upperRuns n

instance : DecidablePred Capital := inferInstanceAs (DecidablePred (Rests expanded upperRuns))

theorem settled_upperRuns : Settled expanded upperRuns where
  lands := by decide +kernel
  apart := by decide +kernel

theorem capital_expansions : ∀ e ∈ upperExpansions, 128 ≤ e.1 ∧ e.2 ≠ [] ∧
    ∀ n ∈ e.2, Capital (Char.ofNat n).toNat ∧ isBlank (Char.ofNat n) = false := by
  decide +kernel

theorem toUpper_ofNat : ∀ n < 128, (Char.ofNat n).toUpper = Char.ofNat (mapByRuns upperRuns n) := by
  decide +kernel

/-! ## Characters -/

section Characters

variable {c d : Char}

/-- A letter has one capital, or several that the table of expansions gives. -/
theorem upperChar_cases (c : Char) :
    (c.toNat ∉ expanded ∧ upperChar c = [Char.ofNat (mapByRuns upperRuns c.toNat)]) ∨
      ∃ e ∈ upperExpansions, e.1 = c.toNat ∧ upperChar c = e.2.map Char.ofNat := by
  unfold upperChar
  split
  · rename_i hascii
    refine .inl ⟨fun hmem => ?_, ?_⟩
    · obtain ⟨e, he, hcode⟩ := List.mem_map.1 hmem
      have hfar := (capital_expansions e he).1
      omega
    · have htable := toUpper_ofNat c.toNat hascii
      rw [Char.ofNat_toNat] at htable
      rw [htable]
  · cases hlookup : upperExpansions.lookup c.toNat with
    | none =>
      refine .inl ⟨fun hmem => ?_, rfl⟩
      obtain ⟨e, he, hcode⟩ := List.mem_map.1 hmem
      have hmiss := List.lookup_eq_none_iff.1 hlookup e he
      simp [hcode] at hmiss
    | some ns =>
      obtain ⟨before, after, hsplit, -⟩ := List.lookup_eq_some_iff.1 hlookup
      refine .inr ⟨(c.toNat, ns), ?_, rfl, rfl⟩
      rw [hsplit]
      exact List.mem_append_right _ List.mem_cons_self

theorem upperChar_of_capital (h : Capital c.toNat) : upperChar c = [c] := by
  obtain ⟨-, hone⟩ | ⟨e, he, hcode, -⟩ := upperChar_cases c
  · rw [hone, mapByRuns, h.2]
    exact congrArg (fun c => [c]) (Char.ofNat_toNat c)
  · exact absurd (List.mem_map.2 ⟨e, he, hcode⟩) h.1

theorem capital_of_mem_upperChar (h : d ∈ upperChar c) : Capital d.toNat := by
  obtain ⟨hsingle, hone⟩ | ⟨e, he, -, hseveral⟩ := upperChar_cases c
  · rw [hone, List.mem_singleton] at h
    rw [h, settled_upperRuns.toNat_mapByRuns]
    exact settled_upperRuns.rests_mapByRuns hsingle
  · rw [hseveral] at h
    obtain ⟨n, hn, rfl⟩ := List.mem_map.1 h
    exact ((capital_expansions e he).2.2 n hn).1

theorem isBlank_of_mem_upperChar (hc : isBlank c = false) (h : d ∈ upperChar c) :
    isBlank d = false := by
  obtain ⟨-, hone⟩ | ⟨e, he, -, hseveral⟩ := upperChar_cases c
  · rw [hone, List.mem_singleton] at h
    rw [h]
    exact settled_upperRuns.isBlank_mapByRuns hc
  · rw [hseveral] at h
    obtain ⟨n, hn, rfl⟩ := List.mem_map.1 h
    exact ((capital_expansions e he).2.2 n hn).2

theorem upperChar_ne_nil : upperChar c ≠ [] := by
  obtain ⟨-, hone⟩ | ⟨e, he, -, hseveral⟩ := upperChar_cases c
  · rw [hone]
    exact List.cons_ne_nil _ _
  · rw [hseveral, ne_eq, List.map_eq_nil_iff]
    exact (capital_expansions e he).2.1

end Characters

/-! ## Texts -/

section Texts

variable {s : String}

theorem toList_toUpper (s : String) : (toUpper s).toList = s.toList.flatMap upperChar := by
  rw [toUpper, String.toList_ofList]

theorem toUpper_append (s t : String) : toUpper (s ++ t) = toUpper s ++ toUpper t := by
  apply String.toList_injective
  rw [toList_toUpper, String.toList_append, String.toList_append, toList_toUpper, toList_toUpper,
    List.flatMap_append]

def AllCapital (s : String) : Prop := ∀ c ∈ s.toList, Capital c.toNat

theorem allCapital_toUpper (s : String) : AllCapital (toUpper s) := by
  intro d hd
  rw [toList_toUpper] at hd
  obtain ⟨c, -, hc⟩ := List.mem_flatMap.1 hd
  exact capital_of_mem_upperChar hc

theorem flatMap_upperChar {cs : List Char} (h : ∀ c ∈ cs, Capital c.toNat) :
    cs.flatMap upperChar = cs := by
  induction cs with
  | nil => rfl
  | cons c rest ih =>
    rw [List.flatMap_cons, upperChar_of_capital (h c List.mem_cons_self),
      ih fun d hd => h d (List.mem_cons_of_mem _ hd)]
    rfl

theorem toUpper_of_allCapital (h : AllCapital s) : toUpper s = s := by
  rw [toUpper, flatMap_upperChar h, String.ofList_toList]

theorem head_toUpper (h : ∀ c ∈ s.toList.head?, isBlank c = false) :
    ∀ d ∈ (toUpper s).toList.head?, isBlank d = false := by
  rw [toList_toUpper]
  cases hs : s.toList with
  | nil => exact fun d hd => by cases hd
  | cons c rest =>
    rw [hs] at h
    intro d hd
    rw [List.flatMap_cons, List.head?_append_of_ne_nil _ upperChar_ne_nil] at hd
    exact isBlank_of_mem_upperChar (h c rfl) (List.mem_of_mem_head? hd)

end Texts

end Playback.Proofs.CapitalLetters
