import Playback.Decimal.Amount
import Playback.Proofs.Decimals
import Playback.Proofs.Names
/-!
# Amounts in texts

What the numerals without a sign stand for, and which texts write an amount at all: blanks do not
matter, and a second point spoils it.
-/

namespace Playback.Proofs.Amounts

open Decimals Doubles Json.Reader Names

/-! ## Numerals -/

def unsigned? (negative : Bool) (body : List Char) : Option Binary64 :=
  let (whole, rest) := spanDigits body
  match rest with
  | [] => if whole.isEmpty then none else some (.ofDecimal negative (digitsValue whole) 0)
  | '.' :: fraction =>
    if fraction.all Char.isDigit && !(whole.isEmpty && fraction.isEmpty) then
      some (.ofDecimal negative (digitsValue (whole ++ fraction)) (-fraction.length))
    else none
  | _ => none

theorem ofNumeral_eq (cs : List Char) :
    ∃ negative body, Binary64.ofNumeral? cs = unsigned? negative body := by
  unfold Binary64.ofNumeral?
  split
  rename_i negative body _
  exact ⟨negative, body, rfl⟩

theorem ofNumeral_of_digit {c : Char} (hc : c.isDigit = true) (cs : List Char) :
    Binary64.ofNumeral? (c :: cs) = unsigned? false (c :: cs) := by
  unfold Binary64.ofNumeral?
  split
  rename_i negative body hsign
  split at hsign
  · rename_i heq
    cases heq
    exact absurd hc (by decide)
  · rename_i heq
    cases heq
    exact absurd hc (by decide)
  · cases hsign
    rfl

theorem ofDecimal_ne_nan (negative : Bool) (n : Nat) (e : Int) :
    Binary64.ofDecimal negative n e ≠ .nan := by
  have hden : 0 < 10 ^ (-e).toNat := by positivity
  rw [ofDecimal_eq]
  rcases ofRatio_regular negative (n * 10 ^ e.toNat) hden with h | ⟨m, k, h, -⟩
  · rw [h]
    rintro ⟨⟩
  · rw [h]
    rintro ⟨⟩

theorem unsigned_ne_nan (negative : Bool) (body : List Char) :
    unsigned? negative body ≠ some .nan := by
  unfold unsigned?
  dsimp only
  -- digits alone, digits around a point, and no numeral
  split
  · split
    · rintro ⟨⟩
    · exact fun h => ofDecimal_ne_nan _ _ _ (Option.some.inj h)
  · split
    · exact fun h => ofDecimal_ne_nan _ _ _ (Option.some.inj h)
    · rintro ⟨⟩
  · rintro ⟨⟩

theorem ofNumeral_ne_nan (cs : List Char) : Binary64.ofNumeral? cs ≠ some .nan := by
  obtain ⟨negative, body, h⟩ := ofNumeral_eq cs
  rw [h]
  exact unsigned_ne_nan negative body

section Digits

variable {whole : List Char} (hwhole : Digits whole) (hne : whole ≠ [])

include hwhole hne

theorem ofNumeral_append (rest : List Char) :
    Binary64.ofNumeral? (whole ++ rest) = unsigned? false (whole ++ rest) := by
  cases whole with
  | nil => exact absurd rfl hne
  | cons c cs => exact ofNumeral_of_digit (hwhole c List.mem_cons_self) _

theorem ofNumeral_digits :
    Binary64.ofNumeral? whole = some (.ofDecimal false (digitsValue whole) 0) := by
  have hspan : spanDigits (whole ++ []) = (whole, []) := spanDigits_append hwhole (by simp)
  have hnumeral := ofNumeral_append hwhole hne []
  rw [List.append_nil] at hspan hnumeral
  rw [hnumeral, unsigned?, hspan]
  simp [hne]

theorem ofNumeral_point (fraction : List Char) :
    Binary64.ofNumeral? (whole ++ '.' :: fraction) =
      if fraction.all Char.isDigit then
        some (.ofDecimal false (digitsValue (whole ++ fraction)) (-fraction.length))
      else none := by
  have hspan : spanDigits (whole ++ '.' :: fraction) = (whole, '.' :: fraction) := by
    apply spanDigits_append hwhole
    rintro c ⟨⟩
    rfl
  rw [ofNumeral_append hwhole hne, unsigned?, hspan]
  simp [hne]

end Digits

/-! ## Amounts -/

theorem isBlank_of_isAmountChar {c : Char} (h : Amount.isAmountChar c = true) :
    Text.isBlank c = false := by
  simp only [Amount.isAmountChar, Bool.or_eq_true, beq_iff_eq] at h
  rcases h with (((h | rfl) | rfl) | rfl) | rfl
  · rw [Char.isDigit, Bool.and_eq_true, decide_eq_true_eq, decide_eq_true_eq] at h
    have hlow : 48 ≤ c.toNat := UInt32.le_iff_toNat_le.1 h.1
    have hhigh : c.toNat ≤ 57 := UInt32.le_iff_toNat_le.1 h.2
    unfold Text.isBlank
    simp
    omega
  all_goals rfl

section AmountChars

variable {cs : List Char} (h : ∀ c ∈ cs, Amount.isAmountChar c = true)

include h

theorem filter_blanks_of_amountChars : cs.filter (fun c => !Text.isBlank c) = cs := by
  rw [List.filter_eq_self]
  intro c hc
  rw [isBlank_of_isAmountChar (h c hc)]
  rfl

/-- A text of signs, digits and separators is a numeral once the separators are in order. -/
theorem ofText_of_amountChars (hne : cs ≠ []) :
    Amount.ofText? (String.ofList cs) = Binary64.ofNumeral? (Amount.normalize cs) := by
  unfold Amount.ofText?
  rw [String.toList_ofList, filter_blanks_of_amountChars h, if_neg]
  simp [hne, List.all_eq_true.2 h]

end AmountChars

theorem ofText_ne_nan (s : String) : Amount.ofText? s ≠ some .nan := by
  unfold Amount.ofText?
  dsimp only
  split
  · rintro ⟨⟩
  · exact ofNumeral_ne_nan _

theorem filter_dropWhile {α : Type} (p : α → Bool) (l : List α) :
    (l.dropWhile p).filter (fun x => !p x) = l.filter fun x => !p x := by
  induction l with
  | nil => rfl
  | cons x rest ih =>
    by_cases hx : p x = true
    · rw [List.dropWhile_cons_of_pos hx, List.filter_cons_of_neg (by simp [hx]), ih]
    · rw [List.dropWhile_cons_of_neg hx]

theorem filter_trimChars (cs : List Char) :
    (Text.trimChars cs).filter (fun c => !Text.isBlank c) =
      cs.filter fun c => !Text.isBlank c := by
  rw [Text.trimChars, List.filter_reverse, filter_dropWhile, ← List.filter_reverse,
    List.reverse_reverse, filter_dropWhile]

theorem trim_of_amountChars {cs : List Char} (h : ∀ c ∈ cs, Amount.isAmountChar c = true) :
    Text.trim (String.ofList cs) = String.ofList cs := by
  have htrimmed : ∀ c ∈ Text.trimChars cs, Amount.isAmountChar c = true :=
    fun c hc => h c ((trimChars_sublist cs).subset hc)
  rw [Text.trim, String.toList_ofList, ← filter_blanks_of_amountChars htrimmed, filter_trimChars,
    filter_blanks_of_amountChars h]

theorem ofText_trim (s : String) : Amount.ofText? (Text.trim s) = Amount.ofText? s := by
  unfold Amount.ofText?
  rw [Text.trim, String.toList_ofList, filter_trimChars]

end Playback.Proofs.Amounts
