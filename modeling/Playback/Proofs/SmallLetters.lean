import Playback.Registry
import Playback.Proofs.CaseRuns
/-!
# Small letters stay small

A text in small letters has itself for small letters, and small letters are blank only where the
letters were. So the key of an application is its own key.
-/

namespace Playback.Proofs.SmallLetters

open CaseRuns Names Letters Text

/-! ## Code points -/

/-- A code point without a small partner, other than the one whose small form has two characters. -/
def Small (n : Nat) : Prop := n ≠ 0x130 ∧ lowerRuns.find? (·.covers n) = none

instance : DecidablePred Small := fun n =>
  inferInstanceAs (Decidable (n ≠ 0x130 ∧ lowerRuns.find? (·.covers n) = none))

theorem settled_lowerRuns : Settled [0x130] lowerRuns where
  lands := by decide +kernel
  apart := by decide +kernel

theorem toLower_ofNat : ∀ n < 128, (Char.ofNat n).toLower = Char.ofNat (mapByRuns lowerRuns n) := by
  decide +kernel

/-- Small partners have no small partners of their own. -/
theorem small_mapByRuns {n : Nat} (hn : n ≠ 0x130) : Small (mapByRuns lowerRuns n) := by
  obtain ⟨hne, hnone⟩ := settled_lowerRuns.rests_mapByRuns (List.mem_singleton.not.2 hn)
  exact ⟨List.mem_singleton.not.1 hne, hnone⟩

/-! ## Characters -/

section Characters

variable {c d : Char}

theorem lowerChar_dotted (h : c.toNat = 0x130) : lowerChar c = ['i', Char.ofNat 0x307] := by
  simp [lowerChar, h]

theorem lowerChar_eq (h : c.toNat ≠ 0x130) :
    lowerChar c = [Char.ofNat (mapByRuns lowerRuns c.toNat)] := by
  unfold lowerChar
  split
  · rename_i hascii
    have htable := toLower_ofNat c.toNat hascii
    rw [Char.ofNat_toNat] at htable
    rw [htable]
  · rw [if_neg (by simpa using h)]

theorem lowerChar_of_small (h : Small c.toNat) : lowerChar c = [c] := by
  rw [lowerChar_eq h.1, mapByRuns, h.2]
  exact congrArg (fun c => [c]) (Char.ofNat_toNat c)

theorem small_of_mem_lowerChar (h : d ∈ lowerChar c) : Small d.toNat := by
  by_cases hdotted : c.toNat = 0x130
  · rw [lowerChar_dotted hdotted, List.mem_pair] at h
    obtain rfl | rfl := h
    · decide +kernel
    · decide +kernel
  · rw [lowerChar_eq hdotted, List.mem_singleton] at h
    rw [h, settled_lowerRuns.toNat_mapByRuns]
    exact small_mapByRuns hdotted

theorem isBlank_of_mem_lowerChar (hc : isBlank c = false) (h : d ∈ lowerChar c) :
    isBlank d = false := by
  by_cases hdotted : c.toNat = 0x130
  · rw [lowerChar_dotted hdotted, List.mem_pair] at h
    obtain rfl | rfl := h <;> rfl
  · rw [lowerChar_eq hdotted, List.mem_singleton] at h
    rw [h]
    exact settled_lowerRuns.isBlank_mapByRuns hc

end Characters

/-! ## Texts -/

/-- The small form of a character between the ones before it, last first, and the ones after it. -/
def smallForm (before : List Char) (c : Char) (rest : List Char) : List Char :=
  if c.toNat == 0x3A3 then
    [if meetsLetter before && !meetsLetter rest then Char.ofNat 0x3C2 else Char.ofNat 0x3C3]
  else lowerChar c

theorem lowerFrom_cons (before : List Char) (c : Char) (rest : List Char) :
    lowerFrom before (c :: rest) = smallForm before c rest ++ lowerFrom (c :: before) rest := rfl

section Forms

variable {before rest : List Char} {c d : Char}

theorem smallForm_of_small (h : Small c.toNat) : smallForm before c rest = [c] := by
  have hsigma : ¬(c.toNat == 0x3A3) = true := by
    intro hsigma
    rw [eq_of_beq hsigma] at h
    revert h
    decide +kernel
  rw [smallForm, if_neg hsigma, lowerChar_of_small h]

theorem small_of_mem_smallForm (h : d ∈ smallForm before c rest) : Small d.toNat := by
  unfold smallForm at h
  split at h
  · rw [List.mem_singleton] at h
    rw [h]
    split
    · decide +kernel
    · decide +kernel
  · exact small_of_mem_lowerChar h

theorem isBlank_of_mem_smallForm (hc : isBlank c = false) (h : d ∈ smallForm before c rest) :
    isBlank d = false := by
  unfold smallForm at h
  split at h
  · rw [List.mem_singleton] at h
    rw [h]
    split <;> rfl
  · exact isBlank_of_mem_lowerChar hc h

theorem smallForm_ne_nil : smallForm before c rest ≠ [] := by
  unfold smallForm
  split
  · exact List.cons_ne_nil _ _
  · unfold lowerChar
    split
    · exact List.cons_ne_nil _ _
    · split <;> exact List.cons_ne_nil _ _

end Forms

theorem small_of_mem_lowerFrom {cs before : List Char} {d : Char}
    (h : d ∈ lowerFrom before cs) : Small d.toNat := by
  induction cs generalizing before with
  | nil => cases h
  | cons c rest ih =>
    rw [lowerFrom_cons] at h
    obtain h | h := List.mem_append.1 h
    · exact small_of_mem_smallForm h
    · exact ih h

theorem lowerFrom_of_small {cs : List Char} (h : ∀ c ∈ cs, Small c.toNat) (before : List Char) :
    lowerFrom before cs = cs := by
  induction cs generalizing before with
  | nil => rfl
  | cons c rest ih =>
    rw [lowerFrom_cons, smallForm_of_small (h c List.mem_cons_self),
      ih fun d hd => h d (List.mem_cons_of_mem _ hd)]
    rfl

/-- Small letters have themselves for small letters. -/
theorem toLower_toLower (s : String) : toLower (toLower s) = toLower s := by
  have hsmall : ∀ c ∈ (toLower s).toList, Small c.toNat := by
    intro c hc
    rw [toLower, String.toList_ofList] at hc
    exact small_of_mem_lowerFrom hc
  rw [toLower, lowerFrom_of_small hsmall, String.ofList_toList]

theorem lowerFrom_ne_nil {cs : List Char} (h : cs ≠ []) (before : List Char) :
    lowerFrom before cs ≠ [] := by
  cases cs with
  | nil => exact absurd rfl h
  | cons c rest =>
    rw [lowerFrom_cons, ne_eq, List.append_eq_nil_iff]
    exact fun hnil => smallForm_ne_nil hnil.1

/-! ## Blanks around small letters -/

structure Trimmed (cs : List Char) : Prop where
  head : ∀ c ∈ cs.head?, isBlank c = false
  last : ∀ c ∈ cs.getLast?, isBlank c = false

theorem dropWhile_eq_self {p : Char → Bool} {l : List Char} :
    l.dropWhile p = l ↔ ∀ c ∈ l.head?, p c = false := by
  rw [List.dropWhile_eq_self_iff]
  cases l with
  | nil => simp
  | cons c rest => simp

theorem trimChars_of_trimmed {cs : List Char} (h : Trimmed cs) : trimChars cs = cs := by
  have hlast : ∀ c ∈ cs.reverse.head?, isBlank c = false := by
    rw [List.head?_reverse]
    exact h.last
  rw [trimChars, dropWhile_eq_self.2 h.head, dropWhile_eq_self.2 hlast, List.reverse_reverse]

theorem trimmed_trimChars (cs : List Char) : Trimmed (trimChars cs) where
  head := by
    apply dropWhile_eq_self.1
    rw [trimChars_eq]
    exact dropWhile_rdropWhile_dropWhile isBlank cs
  last := by
    rw [trimChars, List.getLast?_reverse]
    exact dropWhile_eq_self.1 (List.dropWhile_idempotent _ _)

theorem last_lowerFrom {cs : List Char} (h : ∀ c ∈ cs.getLast?, isBlank c = false)
    (before : List Char) : ∀ d ∈ (lowerFrom before cs).getLast?, isBlank d = false := by
  induction cs generalizing before with
  | nil => exact fun d hd => by cases hd
  | cons c rest ih =>
    intro d hd
    rw [lowerFrom_cons] at hd
    by_cases hrest : rest = []
    · subst hrest
      apply isBlank_of_mem_smallForm (h c rfl)
      rw [lowerFrom, List.append_nil] at hd
      exact List.mem_of_getLast? hd
    · rw [List.getLast?_append_of_ne_nil _ (lowerFrom_ne_nil hrest _)] at hd
      apply ih _ _ d hd
      rw [List.getLast?_cons_of_ne_nil hrest] at h
      exact h

theorem trimmed_lowerFrom {cs : List Char} (h : Trimmed cs) (before : List Char) :
    Trimmed (lowerFrom before cs) where
  head := by
    cases cs with
    | nil => exact fun d hd => by cases hd
    | cons c rest =>
      intro d hd
      rw [lowerFrom_cons, List.head?_append_of_ne_nil _ smallForm_ne_nil] at hd
      exact isBlank_of_mem_smallForm (h.head c rfl) (List.mem_of_mem_head? hd)
  last := last_lowerFrom h.last before

theorem trim_toLower_trim (s : String) :
    trim (toLower (trim s)) = toLower (trim s) := by
  have hsmall := trimmed_lowerFrom (trimmed_trimChars s.toList) []
  rw [toLower, trim, trim, String.toList_ofList, String.toList_ofList,
    trimChars_of_trimmed hsmall]

theorem key_key (app : String) : Registry.key (Registry.key app) = Registry.key app := by
  unfold Registry.key
  rw [trim_toLower_trim, toLower_toLower]

end Playback.Proofs.SmallLetters
