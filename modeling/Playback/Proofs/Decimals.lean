import Mathlib.Data.List.TakeDrop
import Playback.Json.Reader
import Playback.Json.Writer
import Playback.Proofs.Doubles
/-!
# Decimals that spell doubles

The shortest decimal of a double reads back as that double, and so does every literal of the same
value, whether it is written with a point, with zeros or with an exponent.
-/

namespace Playback.Proofs.Decimals

open Doubles Json.Reader

/-! ## The value of a decimal -/

theorem ofDecimal_eq (negative : Bool) (n : Nat) (e : Int) :
    Binary64.ofDecimal negative n e =
      Binary64.ofRatio negative (n * 10 ^ e.toNat) (10 ^ (-e).toNat) := by
  unfold Binary64.ofDecimal
  split
  · rename_i he
    have hzero : (-e).toNat = 0 := by omega
    rw [hzero, Nat.pow_zero, Nat.pow_eq]
  · rename_i he
    have hzero : e.toNat = 0 := by omega
    rw [hzero, Nat.pow_zero, Nat.mul_one, Nat.pow_eq]

theorem ofDecimal_mul_pow (negative : Bool) (n k : Nat) (e : Int) :
    Binary64.ofDecimal negative (n * 10 ^ k) (e - k) = Binary64.ofDecimal negative n e := by
  rw [ofDecimal_eq, ofDecimal_eq]
  apply ofRatio_congr (by positivity) (by positivity)
  have hexponents : k + (e - k).toNat + (-e).toNat = e.toNat + (-(e - k)).toNat := by omega
  calc n * 10 ^ k * 10 ^ (e - k).toNat * 10 ^ (-e).toNat
      = n * 10 ^ (k + (e - k).toNat + (-e).toNat) := by rw [pow_add, pow_add]; ring
    _ = n * 10 ^ e.toNat * 10 ^ (-(e - k)).toNat := by rw [hexponents, pow_add]; ring

theorem ofDecimal_dropZeros (negative : Bool) (bound : Nat) (d : Decimal) :
    Binary64.ofDecimal negative (d.dropZeros bound).digits (d.dropZeros bound).exponent =
      Binary64.ofDecimal negative d.digits d.exponent := by
  induction bound generalizing d with
  | zero => rfl
  | succ bound ih =>
    unfold Decimal.dropZeros
    split
    · rename_i hzero
      have hdigits : d.digits / 10 * 10 ^ 1 = d.digits := by omega
      have hexponent : d.exponent + 1 - (1 : Nat) = d.exponent := by omega
      rw [ih, ← ofDecimal_mul_pow negative (d.digits / 10) 1 (d.exponent + 1), hdigits, hexponent]
    · rfl

theorem ofDecimal_signed {n m : Nat} {k e : Int}
    (h : Binary64.ofDecimal false n k = .finite false m e) (negative : Bool) :
    Binary64.ofDecimal negative n k = .finite negative m e := by
  rw [ofDecimal_eq] at h ⊢
  exact ofRatio_signed h negative

/-! ## The shortest decimal of a double -/

section Shortest

variable {m : Nat} {e : Int} (h : Regular m e)

include h

theorem ofDecimal_exact :
    Binary64.ofDecimal false (Decimal.exact m e).digits (Decimal.exact m e).exponent =
      .finite false m e := by
  rw [ofDecimal_eq]
  apply ofRatio_exact h (by positivity)
  unfold Decimal.exact
  split
  · rename_i he
    obtain ⟨k, rfl⟩ := Int.eq_ofNat_of_zero_le he
    simp
  · rename_i he
    obtain ⟨k, hk⟩ := Int.eq_ofNat_of_zero_le (show 0 ≤ -e by omega)
    obtain rfl : e = -(k : Int) := by omega
    have hten : (10 : ℚ) ^ k = 5 ^ k * 2 ^ k := by rw [← mul_pow]; norm_num
    simp only [neg_neg, Int.toNat_natCast, Nat.pow_eq, zpow_neg, zpow_natCast]
    rw [show (-(k : Int)).toNat = 0 by omega]
    push_cast
    rw [hten]
    field_simp

omit h in
/-- What is taken from a grid is what was looked for, or else comes from the finer grids. -/
theorem of_find {P : Decimal → Prop} {f : Decimal → Bool} (hf : ∀ d, f d = true → P d)
    {other : Decimal} (hother : P other) (grid : List Decimal) :
    P (match grid.find? f with
      | some d => d
      | none => other) := by
  cases hfind : grid.find? f with
  | none => exact hother
  | some d => exact hf d (List.find?_some hfind)

theorem ofDecimal_shortestFrom (tie : Tie) (places : List Nat) :
    Binary64.ofDecimal false (Decimal.shortestFrom tie m e places).digits
      (Decimal.shortestFrom tie m e places).exponent = .finite false m e := by
  induction places with
  | nil => exact ofDecimal_exact h
  | cons p rest ih =>
    exact of_find (P := fun d => Binary64.ofDecimal false d.digits d.exponent = .finite false m e)
      (fun d hd => eq_of_beq hd) ih _

theorem ofDecimal_shortest (tie : Tie) :
    Binary64.ofDecimal false (Decimal.shortest tie m e).digits
      (Decimal.shortest tie m e).exponent = .finite false m e := by
  unfold Decimal.shortest
  split
  · rename_i hzero
    subst hzero
    obtain hnormal | rfl := h.normal
    · exact absurd hnormal (by decide)
    · rfl
  · rw [ofDecimal_dropZeros]
    exact ofDecimal_shortestFrom h tie _

end Shortest

/-! ## Digits -/

theorem digitsValue_eq (cs : List Char) : digitsValue cs = Nat.ofDigitChars 10 cs 0 := by
  have hstep : (fun n (c : Char) => n * 10 + (c.toNat - 48)) =
      fun n c => 10 * n + (c.toNat - '0'.toNat) := by
    funext n c
    rw [Nat.mul_comm]
    rfl
  rw [digitsValue, Nat.ofDigitChars_eq_foldl, hstep]

theorem digitsValue_append (as bs : List Char) :
    digitsValue (as ++ bs) = digitsValue as * 10 ^ bs.length + digitsValue bs := by
  rw [digitsValue_eq, digitsValue_eq, digitsValue_eq, Nat.ofDigitChars_append,
    Nat.ofDigitChars_eq_ofDigitChars_zero, Nat.mul_comm]

theorem digitsValue_toDigits (n : Nat) : digitsValue (Nat.toDigits 10 n) = n := by
  rw [digitsValue_eq, Nat.ofDigitChars_ten_toDigits]

theorem digitsValue_zeros (k : Nat) : digitsValue (List.replicate k '0') = 0 := by
  rw [digitsValue_eq, Nat.ofDigitChars_replicate_zero, Nat.mul_zero]

def Digits (cs : List Char) : Prop := ∀ c ∈ cs, c.isDigit = true

theorem digits_append {as bs : List Char} (has : Digits as) (hbs : Digits bs) :
    Digits (as ++ bs) := by
  intro c hc
  obtain hc | hc := List.mem_append.1 hc
  · exact has c hc
  · exact hbs c hc

theorem digits_toDigits (n : Nat) : Digits (Nat.toDigits 10 n) :=
  fun _ hc => Nat.isDigit_of_mem_toDigits (by decide) (by decide) hc

theorem digits_zeros (k : Nat) : Digits (List.replicate k '0') := by
  intro c hc
  rw [List.eq_of_mem_replicate hc]
  rfl

theorem isDigit_bounds {c : Char} (h : c.isDigit = true) : 48 ≤ c.toNat ∧ c.toNat ≤ 57 := by
  rw [Char.isDigit, Bool.and_eq_true, decide_eq_true_eq, decide_eq_true_eq] at h
  exact ⟨UInt32.le_iff_toNat_le.1 h.1, UInt32.le_iff_toNat_le.1 h.2⟩

theorem digitsValue_singleton (c : Char) : digitsValue [c] = c.toNat - 48 := by
  simp [digitsValue]

theorem digitsValue_lt {cs : List Char} (h : Digits cs) : digitsValue cs < 10 ^ cs.length := by
  induction cs using List.reverseRecOn with
  | nil => decide
  | append_singleton cs c ih =>
    have hlt := ih fun d hd => h d (List.mem_append_left [c] hd)
    have hdigit := isDigit_bounds (h c (by simp))
    rw [digitsValue_append, digitsValue_singleton, List.length_append, List.length_singleton,
      Nat.pow_succ]
    omega

/-! ## Literals -/

theorem two_pow_le_ten_pow {a b : Nat} (h : a ≤ 3 * b) : 2 ^ a ≤ 10 ^ b := by
  calc 2 ^ a ≤ 2 ^ (3 * b) := Nat.pow_le_pow_right (by decide) h
    _ = 8 ^ b := by rw [Nat.pow_mul]
    _ ≤ 10 ^ b := Nat.pow_le_pow_left (by decide) b

theorem mul_two_pow_lt {n l b c k : Nat} (hn : n < 10 ^ l) (hb : b + 1 ≤ 3 * c)
    (hk : l + c ≤ k) : 2 * (n * 2 ^ b) < 10 ^ k := by
  calc 2 * (n * 2 ^ b) = n * 2 ^ (b + 1) := by ring
    _ < 10 ^ l * 2 ^ (b + 1) := Nat.mul_lt_mul_of_pos_right hn (Nat.two_pow_pos _)
    _ ≤ 10 ^ l * 10 ^ c := Nat.mul_le_mul_left _ (two_pow_le_ten_pow hb)
    _ = 10 ^ (l + c) := by rw [Nat.pow_add]
    _ ≤ 10 ^ k := Nat.pow_le_pow_right (by decide) hk

/-- The exponents that are decided without being computed are decided rightly. -/
theorem literalDouble_eq {ds : List Char} (h : Digits ds) (negative : Bool) (exponent : Int) :
    literalDouble? negative ds exponent =
      match Binary64.ofDecimal negative (digitsValue ds) exponent with
      | .infinite _ => none
      | x => some x := by
  have hlt := digitsValue_lt h
  unfold literalDouble?
  dsimp only
  by_cases hzero : digitsValue ds = 0
  · have hvalue : Binary64.ofDecimal negative 0 exponent = .zero negative := by
      rw [ofDecimal_eq, Nat.zero_mul]
      rfl
    rw [if_pos hzero, hzero, hvalue]
    rfl
  · rw [if_neg hzero]
    split
    · rename_i hsmall
      obtain ⟨k, hk⟩ := Int.eq_ofNat_of_zero_le (show 0 ≤ -exponent by omega)
      have hbound : 2 * (digitsValue ds * 2 ^ 1074) < 10 ^ k :=
        mul_two_pow_lt (c := 401) hlt (by decide) (by omega)
      have hvalue : Binary64.ofDecimal negative (digitsValue ds) exponent = .zero negative := by
        rw [ofDecimal_eq, hk, show exponent.toNat = 0 by omega, Nat.pow_zero, Nat.mul_one]
        exact ofRatio_small (k := 1074) rfl hbound
      rw [hvalue]
      rfl
    · split
      · rename_i hlarge
        obtain ⟨k, rfl⟩ := Int.eq_ofNat_of_zero_le (show 0 ≤ exponent by omega)
        have hbound : 1 * 2 ^ 1024 ≤ digitsValue ds * 10 ^ k := by
          calc 1 * 2 ^ 1024 ≤ 1 * 10 ^ k :=
                Nat.mul_le_mul_left 1 (two_pow_le_ten_pow (by omega))
            _ ≤ digitsValue ds * 10 ^ k := Nat.mul_le_mul_right _ (Nat.pos_of_ne_zero hzero)
        have hvalue : Binary64.ofDecimal negative (digitsValue ds) k = .infinite negative := by
          rw [ofDecimal_eq, show (-(k : Int)).toNat = 0 by omega, Nat.pow_zero, Int.toNat_natCast]
          exact ofRatio_large (k := 1024) rfl Nat.one_pos hbound
        rw [hvalue]
      · rfl

theorem literalDouble_eq_some {ds : List Char} (h : Digits ds) {m : Nat} {e exponent : Int}
    (hvalue : Binary64.ofDecimal false (digitsValue ds) exponent = .finite false m e)
    (negative : Bool) :
    literalDouble? negative ds exponent = some (.finite negative m e) := by
  rw [literalDouble_eq h, ofDecimal_signed hvalue]

/-! ## Numbers in front of a text -/

/-- A text that does not go on with a character of a number. -/
def Ends (rest : List Char) : Prop :=
  ∀ c, rest.head? = some c → c.isDigit = false ∧ c ≠ '.' ∧ c ≠ 'e' ∧ c ≠ 'E'

structure Whole (ds : List Char) : Prop where
  digits : Digits ds
  nonempty : ds ≠ []
  lead : ds.length = 1 ∨ ds.head? ≠ some '0'

structure Fraction (ds : List Char) : Prop where
  digits : Digits ds
  nonempty : ds ≠ []

def fractionText : Option (List Char) → List Char
  | none => []
  | some ds => '.' :: ds

def exponentText : Option Int → List Char
  | none => []
  | some i => 'e' :: (if i < 0 then '-' else '+') :: Nat.toDigits 10 i.natAbs

theorem spanDigits_append {ds rest : List Char} (hds : Digits ds)
    (hrest : ∀ c, rest.head? = some c → c.isDigit = false) :
    spanDigits (ds ++ rest) = (ds, rest) := by
  rw [spanDigits, List.span_eq_takeWhile_dropWhile, List.takeWhile_append_of_pos hds,
    List.dropWhile_append_of_pos hds]
  cases rest with
  | nil => simp
  | cons c rest =>
    have hc := hrest c rfl
    simp [hc]

theorem fractionPart_text {f : Option (List Char)} {rest : List Char}
    (hf : ∀ ds, f = some ds → Fraction ds)
    (hrest : ∀ c, rest.head? = some c → c.isDigit = false ∧ c ≠ '.') :
    fractionPart? (fractionText f ++ rest) = some (f, rest) := by
  cases f with
  | none =>
    cases rest with
    | nil => rfl
    | cons c rest =>
      have hpoint := (hrest c rfl).2
      simp only [fractionText, List.nil_append]
      unfold fractionPart?
      split
      · rename_i heq
        exact absurd (List.cons.inj heq).1 hpoint
      · rfl
  | some ds =>
    have hds := hf ds rfl
    have hspan := spanDigits_append hds.digits fun c hc => (hrest c hc).1
    simp only [fractionText, List.cons_append, fractionPart?, hspan]
    cases hcases : ds with
    | nil => exact absurd hcases hds.nonempty
    | cons d ds => rfl

theorem exponentPart_text {x : Option Int} {rest : List Char} (hrest : Ends rest) :
    exponentPart? (exponentText x ++ rest) = some (x, rest) := by
  cases x with
  | none =>
    cases rest with
    | nil => rfl
    | cons c rest =>
      obtain ⟨-, -, he, hE⟩ := hrest c rfl
      simp [exponentText, exponentPart?, he, hE]
  | some i =>
    have hspan := spanDigits_append (digits_toDigits i.natAbs) fun c hc => (hrest c hc).1
    have hvalue := digitsValue_toDigits i.natAbs
    have hne : Nat.toDigits 10 i.natAbs ≠ [] := Nat.toDigits_ne_nil
    rw [exponentText]
    generalize Nat.toDigits 10 i.natAbs = ds at hspan hvalue hne
    cases ds with
    | nil => exact absurd rfl hne
    | cons d ds =>
      rw [List.cons_append] at hspan
      by_cases hi : i < 0
      · have habs : -|i| = i := by rw [abs_of_neg hi, neg_neg]
        simp [exponentPart?, hi, hspan, hvalue, habs]
      · simp [exponentPart?, hi, hspan, hvalue, not_lt.1 hi]

theorem head_of_parts {f : Option (List Char)} {x : Option Int} {rest : List Char}
    (hrest : Ends rest) :
    ∀ c, (fractionText f ++ (exponentText x ++ rest)).head? = some c → c.isDigit = false := by
  intro c hc
  cases f with
  | some ds =>
    obtain rfl : '.' = c := by simpa [fractionText] using hc
    rfl
  | none =>
    cases x with
    | some i =>
      obtain rfl : 'e' = c := by simpa [fractionText, exponentText] using hc
      rfl
    | none => exact (hrest c (by simpa [fractionText, exponentText] using hc)).1

theorem head_of_exponent {x : Option Int} {rest : List Char} (hrest : Ends rest) :
    ∀ c, (exponentText x ++ rest).head? = some c → c.isDigit = false ∧ c ≠ '.' := by
  intro c hc
  cases x with
  | some i =>
    obtain rfl : 'e' = c := by simpa [exponentText] using hc
    exact ⟨rfl, by decide⟩
  | none =>
    obtain ⟨hdigit, hpoint, -, -⟩ := hrest c (by simpa [exponentText] using hc)
    exact ⟨hdigit, hpoint⟩

def literalNumber? (negative : Bool) (whole : List Char) :
    Option (List Char) → Option Int → Option Json.Number
  | none, none =>
    let n := digitsValue whole
    if negative then
      if n ≠ 0 ∧ n ≤ 2 ^ 63 then some (.int (-n))
      else (literalDouble? true whole 0).map .double
    else if n < UInt64.size then some (.int n)
    else (literalDouble? false whole 0).map .double
  | f, x =>
    (literalDouble? negative (whole ++ f.getD []) (x.getD 0 - (f.getD []).length)).map .double

section Literals

variable {whole : List Char} (hwhole : Whole whole) {rest : List Char} (hrest : Ends rest)
  (negative : Bool)

include hwhole

theorem lead_of_whole :
    (whole.isEmpty || (decide (whole.length > 1) && whole.head? == some '0')) = false := by
  have hne := hwhole.nonempty
  obtain hone | hlead := hwhole.lead
  · simp [hne, hone]
  · simp [hne, hlead]

include hrest

theorem unsignedNumber_text {f : Option (List Char)} {x : Option Int}
    (hf : ∀ ds, f = some ds → Fraction ds) :
    unsignedNumber? negative (whole ++ (fractionText f ++ (exponentText x ++ rest))) =
      (literalNumber? negative whole f x).map fun n => (n, rest) := by
  have hspan := spanDigits_append hwhole.digits (head_of_parts (f := f) (x := x) hrest)
  unfold unsignedNumber?
  rw [hspan]
  dsimp only
  rw [lead_of_whole hwhole, if_neg Bool.false_ne_true,
    fractionPart_text hf (head_of_exponent hrest)]
  simp only [Option.bind_eq_bind, Option.bind_some, exponentPart_text hrest]
  cases f with
  | none =>
    cases x with
    | none =>
      simp only [literalNumber?, Nat.pow_eq]
      split
      · split <;> simp [Function.comp_def]
      · split <;> simp [Function.comp_def]
    | some i => simp [literalNumber?, Function.comp_def]
  | some ds => simp [literalNumber?, Function.comp_def]

theorem unsignedNumber_double {f : Option (List Char)} {x : Option Int}
    (hf : ∀ ds, f = some ds → Fraction ds) (hsome : f.isSome = true ∨ x.isSome = true) {m : Nat}
    {e : Int}
    (hvalue : Binary64.ofDecimal false (digitsValue (whole ++ f.getD []))
      (x.getD 0 - (f.getD []).length) = .finite false m e) :
    unsignedNumber? negative (whole ++ (fractionText f ++ (exponentText x ++ rest))) =
      some (.double (.finite negative m e), rest) := by
  have hdigits : Digits (whole ++ f.getD []) := by
    apply digits_append hwhole.digits
    cases f with
    | none => exact fun c hc => absurd hc List.not_mem_nil
    | some ds => exact (hf ds rfl).digits
  have hnumber : literalNumber? negative whole f x = some (.double (.finite negative m e)) := by
    unfold literalNumber?
    split
    · simp at hsome
    · rw [literalDouble_eq_some hdigits hvalue]
      rfl
  rw [unsignedNumber_text hwhole hrest negative hf, hnumber]
  rfl

theorem unsignedNumber_whole :
    unsignedNumber? negative (whole ++ rest) =
      (literalNumber? negative whole none none).map fun n => (n, rest) :=
  unsignedNumber_text hwhole hrest negative (f := none) (x := none) fun ds hds => by cases hds

end Literals

/-! ## Doubles as they are written -/

theorem head_toDigits {n : Nat} (h : 0 < n) : (Nat.toDigits 10 n).head? ≠ some '0' := by
  induction n using Nat.strong_induction_on with
  | _ n ih =>
    rw [Nat.toDigits_eq_if (by decide)]
    split
    · simpa using h.ne'
    · rw [List.head?_append_of_ne_nil _ Nat.toDigits_ne_nil]
      exact ih (n / 10) (by omega) (by omega)

theorem whole_toDigits (n : Nat) : Whole (Nat.toDigits 10 n) := by
  refine ⟨digits_toDigits n, Nat.toDigits_ne_nil, ?_⟩
  obtain rfl | hn := Nat.eq_zero_or_pos n
  · exact .inl (by rw [Nat.toDigits_zero]; rfl)
  · exact .inr (head_toDigits hn)

theorem whole_take {cs : List Char} (h : Whole cs) {k : Nat} (hk : 0 < k) : Whole (cs.take k) := by
  refine ⟨fun c hc => h.digits c (List.mem_of_mem_take hc), ?_, ?_⟩
  · rw [ne_eq, List.take_eq_nil_iff, not_or]
    exact ⟨hk.ne', h.nonempty⟩
  · obtain hone | hlead := h.lead
    · left
      rw [List.length_take]
      omega
    · right
      rwa [List.head?_take, if_neg hk.ne']

theorem fraction_drop {cs : List Char} (h : Digits cs) {k : Nat} (hk : k < cs.length) :
    Fraction (cs.drop k) := by
  refine ⟨fun c hc => h c (List.mem_of_mem_drop hc), ?_⟩
  rw [ne_eq, List.drop_eq_nil_iff]
  omega

/-- The text is a literal with a point or an exponent, of the value of the decimal. -/
def Spells (text : List Char) (d : Decimal) : Prop :=
  ∃ whole f x, text = whole ++ (fractionText f ++ exponentText x) ∧ Whole whole ∧
    (∀ ds, f = some ds → Fraction ds) ∧ (f.isSome = true ∨ x.isSome = true) ∧
    Binary64.ofDecimal false (digitsValue (whole ++ f.getD [])) (x.getD 0 - (f.getD []).length) =
      Binary64.ofDecimal false d.digits d.exponent

section Spelling

variable {d : Decimal}

/-- A whole number gets a point and a zero. -/
theorem spells_integral (hd : 0 < d.digits) (he : 0 ≤ d.exponent) :
    Spells (d.positional ++ ['.', '0']) d := by
  obtain ⟨k, hk⟩ := Int.eq_ofNat_of_zero_le he
  have hwhole : Whole (Nat.toDigits 10 d.digits ++ List.replicate k '0') := by
    refine ⟨digits_append (digits_toDigits _) (digits_zeros k), ?_, .inr ?_⟩
    · simp [Nat.toDigits_ne_nil]
    · rw [List.head?_append_of_ne_nil _ Nat.toDigits_ne_nil]
      exact head_toDigits hd
  have hvalue : digitsValue (Nat.toDigits 10 d.digits ++ List.replicate k '0' ++ ['0']) =
      d.digits * 10 ^ (k + 1) := by
    rw [List.append_assoc, ← List.replicate_succ', digitsValue_append, digitsValue_toDigits,
      digitsValue_zeros, List.length_replicate, Nat.add_zero]
  refine ⟨_, some ['0'], none, ?_, hwhole, fun ds hds => ?_, .inl rfl, ?_⟩
  · rw [Decimal.positional, if_pos he, hk, Int.toNat_natCast]
    simp [fractionText, exponentText, Decimal.digitChars]
  · cases hds
    exact ⟨digits_zeros 1, by simp⟩
  · rw [Option.getD_some, hvalue, hk, ← ofDecimal_mul_pow false d.digits (k + 1) k]
    congr 1
    simp

/-- The point stands among the digits. -/
theorem spells_pointed (he : d.exponent < 0)
    (hpoint : 0 < (Nat.toDigits 10 d.digits).length + d.exponent) : Spells d.positional d := by
  have hwhole := whole_toDigits d.digits
  have hvalue := digitsValue_toDigits d.digits
  unfold Decimal.positional Decimal.digitChars
  generalize Nat.toDigits 10 d.digits = cs at *
  obtain ⟨k, hk⟩ := Int.eq_ofNat_of_zero_le hpoint.le
  have hkpos : 0 < k := by omega
  refine ⟨_, some (cs.drop k), none, ?_, whole_take hwhole hkpos, fun ds hds => ?_, .inl rfl, ?_⟩
  · simp [hk, hkpos, not_le.2 he, fractionText, exponentText]
  · cases hds
    exact fraction_drop hwhole.digits (by omega)
  · have hexponent : (0 : Int) - (cs.drop k).length = d.exponent := by
      rw [List.length_drop]
      omega
    rw [Option.getD_some, Option.getD_none, List.take_append_drop, hvalue, hexponent]

/-- All digits stand behind the point. -/
theorem spells_fraction (hpoint : (Nat.toDigits 10 d.digits).length + d.exponent ≤ 0) :
    Spells d.positional d := by
  have hdigits := digits_toDigits d.digits
  have hvalue := digitsValue_toDigits d.digits
  have hne : Nat.toDigits 10 d.digits ≠ [] := Nat.toDigits_ne_nil
  unfold Decimal.positional Decimal.digitChars
  generalize Nat.toDigits 10 d.digits = cs at *
  have hlength := List.length_pos_of_ne_nil hne
  obtain ⟨k, hk⟩ := Int.eq_ofNat_of_zero_le (show 0 ≤ -(cs.length + d.exponent) by omega)
  have hwhole : Whole ['0'] := ⟨digits_zeros 1, by simp, .inl rfl⟩
  have hfraction : Fraction (List.replicate k '0' ++ cs) :=
    ⟨digits_append (digits_zeros k) hdigits, by simp [hne]⟩
  have hdigitsValue : digitsValue (['0'] ++ (List.replicate k '0' ++ cs)) = d.digits := by
    rw [← List.append_assoc, List.singleton_append, ← List.replicate_succ, digitsValue_append,
      digitsValue_zeros, hvalue, Nat.zero_mul, Nat.zero_add]
  refine
    ⟨['0'], some (List.replicate k '0' ++ cs), none, ?_, hwhole, fun ds hds => ?_, .inl rfl, ?_⟩
  · have hneg : ¬0 ≤ d.exponent := by omega
    have hpos : ¬0 < (cs.length : Int) + d.exponent := by omega
    rw [if_neg hneg, if_neg hpos, hk, Int.toNat_natCast]
    simp [fractionText, exponentText]
  · cases hds
    exact hfraction
  · have hexponent : (0 : Int) - (List.replicate k '0' ++ cs).length = d.exponent := by
      rw [List.length_append, List.length_replicate]
      omega
    rw [Option.getD_some, Option.getD_none, hdigitsValue, hexponent]

/-- One digit, or one digit before the point, and an exponent. -/
theorem spells_scientific {i : Int}
    (hi : i = (Nat.toDigits 10 d.digits).length + d.exponent - 1) :
    Spells ((if (Nat.toDigits 10 d.digits).length = 1 then Nat.toDigits 10 d.digits
      else (Nat.toDigits 10 d.digits).take 1 ++ '.' :: (Nat.toDigits 10 d.digits).drop 1) ++
        exponentText (some i)) d := by
  have hvalue := digitsValue_toDigits d.digits
  have hwhole := whole_toDigits d.digits
  generalize Nat.toDigits 10 d.digits = cs at *
  have hlength := List.length_pos_of_ne_nil hwhole.nonempty
  by_cases hone : cs.length = 1
  · refine ⟨cs, none, some i, ?_, hwhole, fun ds hds => ?_, .inr rfl, ?_⟩
    · rw [if_pos hone]
      rfl
    · cases hds
    · have hexponent : i - ([] : List Char).length = d.exponent := by
        rw [List.length_nil]
        omega
      rw [Option.getD_none, Option.getD_some, List.append_nil, hvalue, hexponent]
  · have hfirst := whole_take hwhole Nat.one_pos
    refine ⟨cs.take 1, some (cs.drop 1), some i, ?_, hfirst, fun ds hds => ?_, .inl rfl, ?_⟩
    · rw [if_neg hone]
      simp [fractionText]
    · cases hds
      exact fraction_drop hwhole.digits (by omega)
    · have hexponent : i - (cs.drop 1).length = d.exponent := by
        rw [List.length_drop]
        omega
      rw [Option.getD_some, Option.getD_some, List.take_append_drop, hvalue, hexponent]

end Spelling

/-! ## Reading what was written -/

theorem unsignedNumber_spelled {text rest : List Char} {d : Decimal} (htext : Spells text d)
    (hrest : Ends rest) {m : Nat} {e : Int}
    (hvalue : Binary64.ofDecimal false d.digits d.exponent = .finite false m e) (negative : Bool) :
    unsignedNumber? negative (text ++ rest) = some (.double (.finite negative m e), rest) := by
  obtain ⟨whole, f, x, rfl, hwhole, hf, hsome, hsame⟩ := htext
  rw [List.append_assoc, List.append_assoc]
  exact unsignedNumber_double hwhole hrest negative hf hsome (hsame.trans hvalue)

theorem spells_body {m : Nat} {e : Int} (h : Regular m e) (negative : Bool) :
    ∃ body d, (Json.doubleText negative m e).toList = (if negative then '-' :: body else body) ∧
      Spells body d ∧ Binary64.ofDecimal false d.digits d.exponent = .finite false m e := by
  obtain rfl | hm := Nat.eq_zero_or_pos m
  · have hzero : Spells ['0', '.', '0'] ⟨0, 0⟩ :=
      ⟨['0'], some ['0'], none, rfl, ⟨digits_zeros 1, by simp, .inl rfl⟩, fun ds hds => by
        cases hds
        exact ⟨digits_zeros 1, by simp⟩, .inl rfl, by rfl⟩
    refine ⟨_, _, ?_, hzero, ?_⟩
    · simp [Json.doubleText]
    · obtain hnormal | rfl := h.normal
      · exact absurd hnormal (by decide)
      · rfl
  · have hread := ofDecimal_shortest h .even
    unfold Json.doubleText
    generalize Decimal.shortest .even m e = d at hread
    have hd : 0 < d.digits := by
      rw [Nat.pos_iff_ne_zero]
      intro hzero
      rw [hzero, ofDecimal_eq, Nat.zero_mul] at hread
      cases hread
      exact absurd hm (lt_irrefl _)
    simp only [if_neg hm.ne', String.toList_ofList]
    obtain ⟨point, hpoint⟩ : ∃ p : Int, p = (Decimal.digitChars d.digits).length + d.exponent :=
      ⟨_, rfl⟩
    rw [← hpoint]
    by_cases hintegral : 0 ≤ d.exponent ∧ point ≤ 16
    · exact ⟨_, d, by rw [if_pos hintegral], spells_integral hd hintegral.1, hread⟩
    · by_cases hplain : -5 < point ∧ point ≤ 16
      · have hneg : d.exponent < 0 := by omega
        refine ⟨d.positional, d, by rw [if_neg hintegral, if_pos hplain], ?_, hread⟩
        by_cases hamong : 0 < point
        · exact spells_pointed hneg (by rwa [hpoint] at hamong)
        · exact spells_fraction (by rw [hpoint, not_lt] at hamong; exact hamong)
      · have hscientific := spells_scientific (d := d) (i := point - 1) (by rw [hpoint]; rfl)
        refine ⟨_, d, ?_, hscientific, hread⟩
        rw [if_neg hintegral, if_neg hplain]
        rfl

/-! ## Numbers -/

theorem number_of_whole {whole : List Char} (h : Whole whole) (rest : List Char) :
    number? (whole ++ rest) = unsignedNumber? false (whole ++ rest) := by
  cases hcases : whole with
  | nil => exact absurd hcases h.nonempty
  | cons c cs =>
    have hc := h.digits c (by simp [hcases])
    rw [List.cons_append]
    unfold number?
    split
    · rename_i heq
      rw [(List.cons.inj heq).1] at hc
      cases hc
    · rfl

theorem number_double {m : Nat} {e : Int} (h : Regular m e) (negative : Bool) {rest : List Char}
    (hrest : Ends rest) :
    number? ((Json.doubleText negative m e).toList ++ rest) =
      some (.double (.finite negative m e), rest) := by
  obtain ⟨body, d, hbody, hspells, hread⟩ := spells_body h negative
  have hunsigned := unsignedNumber_spelled hspells hrest hread negative
  cases negative with
  | false =>
    obtain ⟨whole, f, x, rfl, hwhole, -⟩ := hspells
    rw [hbody, if_neg Bool.false_ne_true, List.append_assoc, number_of_whole hwhole,
      ← List.append_assoc]
    exact hunsigned
  | true =>
    rw [hbody, if_pos rfl]
    exact hunsigned

theorem toList_toString (i : Int) :
    (toString i).toList =
      if i < 0 then '-' :: Nat.toDigits 10 i.natAbs else Nat.toDigits 10 i.natAbs := by
  rw [Int.toString_eq_repr, Int.repr_eq_if]
  by_cases hi : i < 0
  · have habs : (-i).toNat = i.natAbs := by omega
    rw [if_neg (not_le.2 hi), if_pos hi, habs]
    simp
  · have habs : i.toNat = i.natAbs := by omega
    rw [if_pos (not_lt.1 hi), if_neg hi, habs, Nat.toList_repr]

theorem number_int {i : Int} (hlow : -(2 : Int) ^ 63 ≤ i) (hhigh : i < 2 ^ 64) {rest : List Char}
    (hrest : Ends rest) : number? ((toString i).toList ++ rest) = some (.int i, rest) := by
  have hwhole := whole_toDigits i.natAbs
  rw [toList_toString]
  split
  · rename_i hneg
    have hread : literalNumber? true (Nat.toDigits 10 i.natAbs) none none = some (.int i) := by
      have habs : -(i.natAbs : Int) = i := by omega
      have hbound : i.natAbs ≠ 0 ∧ i.natAbs ≤ 2 ^ 63 := by omega
      simp only [literalNumber?, digitsValue_toDigits, if_true, habs, if_pos hbound]
    show unsignedNumber? true (Nat.toDigits 10 i.natAbs ++ rest) = _
    rw [unsignedNumber_whole hwhole hrest, hread]
    rfl
  · rename_i hpos
    have hread : literalNumber? false (Nat.toDigits 10 i.natAbs) none none = some (.int i) := by
      have habs : (i.natAbs : Int) = i := by omega
      have hbound : i.natAbs < UInt64.size := by
        show i.natAbs < 2 ^ 64
        omega
      simp only [literalNumber?, digitsValue_toDigits, habs, if_pos hbound]
      exact if_neg Bool.false_ne_true
    rw [number_of_whole hwhole, unsignedNumber_whole hwhole hrest, hread]
    rfl

end Playback.Proofs.Decimals
