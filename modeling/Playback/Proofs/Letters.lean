import Playback.Proofs.Names
/-!
# Small letters of ASCII names

Full case mapping and the one that knows ASCII letters only agree on ASCII text. Of all other
characters the Kelvin sign alone becomes an ASCII letter, so that two names with the same small
letters, one of them in ASCII, are the same up to ASCII letter case unless it occurs in the other.
The other way round, any two names that are the same up to ASCII letter case have the same small
letters.
-/

namespace Playback.Proofs.Letters

open Names

def IsAscii (s : String) : Prop := ∀ c ∈ s.toList, c.toNat < 128

-- of the letters of the text only, not of all characters
instance (s : String) : Decidable (IsAscii s) := List.decidableBAll _ s.toList

/-- The Kelvin sign, whose small letter is that of the letter K. -/
def kelvin : Char := Char.ofNat 8490

/-! ## Characters -/

theorem lowerRuns_far : ∀ r ∈ Text.lowerRuns, r.last < 128 ∨ (r.first = 8490 ∧ r.last = 8490) ∨
    (128 ≤ r.first + r.shift ∧ (r.last + r.shift < 0xD800 ∨
      0xE000 ≤ r.first + r.shift ∧ r.last + r.shift < 0x110000)) := by
  decide +kernel

theorem toNat_ofNat {n : Nat} (h : n < 0xD800 ∨ 0xE000 ≤ n ∧ n < 0x110000) :
    (Char.ofNat n).toNat = n := by
  have hvalid : n.isValidChar := by
    rcases h with h | ⟨hlow, hhigh⟩
    · exact .inl h
    · exact .inr ⟨by omega, hhigh⟩
  rw [Char.ofNat, dif_pos hvalid]
  rfl

theorem toNat_lowered {n : Nat} (hn : 128 ≤ n) (hkelvin : n ≠ 8490) (hvalid : n.isValidChar) :
    128 ≤ (Char.ofNat (Text.mapByRuns Text.lowerRuns n)).toNat := by
  unfold Text.mapByRuns
  cases hfind : Text.lowerRuns.find? (·.covers n) with
  | none =>
    dsimp only
    rw [toNat_ofNat]
    · exact hn
    · rcases hvalid with h | ⟨h, hhigh⟩
      · exact .inl h
      · exact .inr ⟨by omega, hhigh⟩
  | some r =>
    have hcovers : r.first ≤ n ∧ n ≤ r.last := by
      have hfound := List.find?_some hfind
      simp only [Text.CaseRun.covers, Bool.and_eq_true, decide_eq_true_eq] at hfound
      exact hfound.1
    dsimp only [Text.CaseRun.partner]
    rcases lowerRuns_far r (List.mem_of_find?_eq_some hfind) with h | h | ⟨hfar, hends⟩
    · omega
    · omega
    · rw [toNat_ofNat]
      · omega
      · rcases hends with h | ⟨hlow, hhigh⟩
        · exact .inl (by omega)
        · exact .inr ⟨by omega, by omega⟩

theorem toNat_toLower_of_ascii {c : Char} (h : c.toNat < 128) : c.toLower.toNat < 128 := by
  unfold Char.toLower
  split
  · rename_i hupper
    have hhigh : c.toNat ≤ 90 := UInt32.le_iff_toNat_le.1 hupper.2
    show (c.val + 32).toNat < 128
    rw [UInt32.toNat_add, Nat.mod_eq_of_lt (by show c.toNat + 32 < _; omega)]
    show c.toNat + 32 < 128
    omega
  · exact h

theorem toLower_of_not_ascii {c : Char} (h : 128 ≤ c.toNat) : c.toLower = c := by
  unfold Char.toLower
  split
  · rename_i hupper
    have hhigh : c.toNat ≤ 90 := UInt32.le_iff_toNat_le.1 hupper.2
    omega
  · rfl

theorem lowerChar_of_ascii {c : Char} (h : c.toNat < 128) : Text.lowerChar c = [c.toLower] := by
  rw [Text.lowerChar, if_pos h]

/-- A character outside ASCII has a small form that is not all ASCII. -/
theorem lowerChar_far {c : Char} (h : 128 ≤ c.toNat) (hkelvin : c ≠ kelvin) :
    ∃ d ∈ Text.lowerChar c, 128 ≤ d.toNat := by
  unfold Text.lowerChar
  rw [if_neg (by omega)]
  split
  · exact ⟨Char.ofNat 0x307, by simp, by decide⟩
  · refine ⟨_, List.mem_singleton.2 rfl, toNat_lowered h ?_ c.valid⟩
    intro hnumber
    apply hkelvin
    rw [kelvin, ← hnumber, Char.ofNat_toNat]

/-! ## Texts -/

section Texts

variable {s name text : String} {cs before : List Char}

theorem lowerFrom_of_ascii (h : ∀ c ∈ cs, c.toNat < 128) (before : List Char) :
    Text.lowerFrom before cs = cs.map Char.toLower := by
  induction cs generalizing before with
  | nil => rfl
  | cons c rest ih =>
    have hc := h c List.mem_cons_self
    have hsigma : ¬ (c.toNat == 0x3A3) = true := by
      rw [beq_iff_eq]
      omega
    rw [Text.lowerFrom]
    rw [if_neg hsigma, lowerChar_of_ascii hc, ih fun d hd => h d (List.mem_cons_of_mem _ hd)]
    rfl

theorem isEmpty_toLower (s : String) : (Text.toLower s).isEmpty = s.isEmpty := by
  have hsome : ∀ c, Text.lowerChar c ≠ [] := by
    intro c
    unfold Text.lowerChar
    split
    · exact List.cons_ne_nil _ _
    · split <;> exact List.cons_ne_nil _ _
  rw [Bool.eq_iff_iff, String.isEmpty_iff, String.isEmpty_iff, Text.toLower]
  constructor
  · intro hempty
    cases hs : s.toList with
    | nil => exact String.toList_eq_nil_iff.1 hs
    | cons c rest =>
      rw [hs, Text.lowerFrom, String.ofList_eq_empty_iff, List.append_eq_nil_iff] at hempty
      have hsmall := hempty.1
      split at hsmall
      · cases hsmall
      · exact absurd hsmall (hsome c)
  · rintro rfl
    rfl

theorem ascii_of_lowerFrom (hkelvin : kelvin ∉ cs) (before : List Char)
    (h : ∀ d ∈ Text.lowerFrom before cs, d.toNat < 128) : ∀ c ∈ cs, c.toNat < 128 := by
  induction cs generalizing before with
  | nil => exact fun c hc => absurd hc List.not_mem_nil
  | cons c rest ih =>
    rw [Text.lowerFrom] at h
    intro d hd
    rcases List.mem_cons.1 hd with rfl | hd
    · by_contra hfar
      have hd : d ≠ kelvin := fun heq => hkelvin (List.mem_cons.2 (.inl heq.symm))
      obtain ⟨small, hsmall, hlarge⟩ : ∃ small ∈ (if (d.toNat == 0x3A3) = true then
          [if Text.meetsLetter before && !Text.meetsLetter rest then Char.ofNat 0x3C2
            else Char.ofNat 0x3C3] else Text.lowerChar d), 128 ≤ small.toNat := by
        split
        · refine ⟨_, List.mem_singleton.2 rfl, ?_⟩
          split <;> decide
        · exact lowerChar_far (by omega) hd
      have hascii := h small (List.mem_append_left _ hsmall)
      omega
    · apply ih (fun hmem => hkelvin (List.mem_cons_of_mem _ hmem)) (c :: before) _ d hd
      exact fun small hsmall => h small (List.mem_append_right _ hsmall)

theorem toLower_of_ascii (h : IsAscii s) : Text.toLower s = Text.foldAscii s := by
  rw [Text.toLower, lowerFrom_of_ascii h, Text.foldAscii]

theorem isAscii_of_toLower (hkelvin : kelvin ∉ s.toList) (h : IsAscii (Text.toLower s)) :
    IsAscii s := by
  apply ascii_of_lowerFrom hkelvin []
  unfold IsAscii at h
  rw [Text.toLower, String.toList_ofList] at h
  exact h

theorem isAscii_foldAscii : IsAscii (Text.foldAscii s) ↔ IsAscii s := by
  unfold IsAscii
  rw [Text.foldAscii, String.toList_ofList]
  constructor
  · intro h c hc
    have hlower := h c.toLower (List.mem_map_of_mem hc)
    by_contra hfar
    rw [toLower_of_not_ascii (by omega)] at hlower
    exact hfar hlower
  · intro h c hc
    obtain ⟨d, hd, rfl⟩ := List.mem_map.1 hc
    exact toNat_toLower_of_ascii (h d hd)

/-- A name in ASCII has the small letters of a text exactly if they agree up to letter case. -/
theorem toLower_eq_iff (hname : IsAscii name) (hkelvin : kelvin ∉ text.toList) :
    Text.toLower name = Text.toLower text ↔ Text.sameName name text := by
  rw [Text.sameName_iff, toLower_of_ascii hname]
  constructor
  · intro h
    have htext : IsAscii text := by
      apply isAscii_of_toLower hkelvin
      rw [← h]
      exact isAscii_foldAscii.2 hname
    rw [h, toLower_of_ascii htext]
  · intro h
    have htext : IsAscii text := by
      rw [← isAscii_foldAscii, ← h, isAscii_foldAscii]
      exact hname
    rw [h, toLower_of_ascii htext]

end Texts

/-! ## Texts that differ in ASCII letter case -/

theorem toLower_cases (c : Char) :
    (65 ≤ c.toNat ∧ c.toNat ≤ 90 ∧ c.toLower.toNat = c.toNat + 32) ∨ c.toLower = c := by
  unfold Char.toLower
  split
  · rename_i hupper
    have hlow : 65 ≤ c.toNat := UInt32.le_iff_toNat_le.1 hupper.1
    have hhigh : c.toNat ≤ 90 := UInt32.le_iff_toNat_le.1 hupper.2
    refine .inl ⟨hlow, hhigh, ?_⟩
    show (c.val + 32).toNat = c.val.toNat + 32
    rw [UInt32.toNat_add]
    exact Nat.mod_eq_of_lt (by show c.toNat + 32 < _; omega)
  · exact .inr rfl

theorem toLower_toLower_char (c : Char) : c.toLower.toLower = c.toLower := by
  rcases toLower_cases c with ⟨hlow, hhigh, hcode⟩ | hsame
  · rcases toLower_cases c.toLower with ⟨-, hagain, -⟩ | hsame
    · omega
    · exact hsame
  · rw [hsame, hsame]

theorem caseIgnorable_apart : ∀ r ∈ Text.caseIgnorable,
    r.2 < 65 ∨ (90 < r.1 ∧ r.2 < 97) ∨ 122 < r.1 := by
  decide +kernel

/-- A letter and its small form are both passed over or not, and both are letters or not. -/
theorem inRanges_toLower (c : Char) :
    Text.inRanges Text.caseIgnorable c.toLower.toNat = Text.inRanges Text.caseIgnorable c.toNat ∧
      Text.inRanges Text.caseBearing c.toLower.toNat =
        Text.inRanges Text.caseBearing c.toNat := by
  rcases toLower_cases c with ⟨hlow, hhigh, hcode⟩ | hsame
  · rw [hcode]
    have hpassed : ∀ n, 65 ≤ n ∧ n ≤ 90 ∨ 97 ≤ n ∧ n ≤ 122 →
        Text.inRanges Text.caseIgnorable n = false := by
      intro n hn
      rw [Text.inRanges, List.any_eq_false]
      intro r hr
      have hapart := caseIgnorable_apart r hr
      simp only [Bool.and_eq_true, decide_eq_true_eq]
      omega
    have hletter : ∀ n, 65 ≤ n ∧ n ≤ 90 ∨ 97 ≤ n ∧ n ≤ 122 →
        Text.inRanges Text.caseBearing n = true := by
      intro n hn
      rw [Text.inRanges, List.any_eq_true]
      rcases hn with hn | hn
      · exact ⟨(65, 90), by decide, by simpa using hn⟩
      · exact ⟨(97, 122), by decide, by simpa using hn⟩
    constructor
    · rw [hpassed _ (.inl ⟨hlow, hhigh⟩), hpassed _ (.inr (by omega))]
    · rw [hletter _ (.inl ⟨hlow, hhigh⟩), hletter _ (.inr (by omega))]
  · rw [hsame]
    exact ⟨rfl, rfl⟩

theorem lowerChar_toLower (c : Char) : Text.lowerChar c.toLower = Text.lowerChar c := by
  by_cases hascii : c.toNat < 128
  · rw [lowerChar_of_ascii hascii, lowerChar_of_ascii (toNat_toLower_of_ascii hascii),
      toLower_toLower_char]
  · rw [toLower_of_not_ascii (by omega)]

theorem meetsLetter_map_toLower (cs : List Char) :
    Text.meetsLetter (cs.map Char.toLower) = Text.meetsLetter cs := by
  have hpassed : (fun c => Text.inRanges Text.caseIgnorable c.toNat) ∘ Char.toLower =
      fun c => Text.inRanges Text.caseIgnorable c.toNat :=
    funext fun c => (inRanges_toLower c).1
  unfold Text.meetsLetter
  rw [List.dropWhile_map, hpassed]
  cases cs.dropWhile fun c => Text.inRanges Text.caseIgnorable c.toNat with
  | nil => rfl
  | cons c rest => exact (inRanges_toLower c).2

theorem isSigma_toLower (c : Char) : (c.toLower.toNat == 0x3A3) = (c.toNat == 0x3A3) := by
  rcases toLower_cases c with ⟨hlow, hhigh, hcode⟩ | hsame
  · rw [Bool.eq_iff_iff, beq_iff_eq, beq_iff_eq]
    omega
  · rw [hsame]

theorem lowerFrom_map_toLower (cs before : List Char) :
    Text.lowerFrom (before.map Char.toLower) (cs.map Char.toLower) = Text.lowerFrom before cs := by
  induction cs generalizing before with
  | nil => rfl
  | cons c rest ih =>
    rw [List.map_cons, Text.lowerFrom, Text.lowerFrom]
    rw [isSigma_toLower, meetsLetter_map_toLower, meetsLetter_map_toLower, lowerChar_toLower,
      ← List.map_cons, ih]

theorem toLower_foldAscii (s : String) : Text.toLower (Text.foldAscii s) = Text.toLower s := by
  rw [Text.toLower, Text.foldAscii, String.toList_ofList, Text.toLower]
  exact congrArg String.ofList (lowerFrom_map_toLower s.toList [])

theorem toLower_of_sameName {a b : String} (h : Text.sameName a b) :
    Text.toLower a = Text.toLower b := by
  rw [← toLower_foldAscii a, Text.sameName_iff.1 h, toLower_foldAscii]

end Playback.Proofs.Letters
