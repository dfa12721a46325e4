import Mathlib.Algebra.Order.Field.Power
import Mathlib.Algebra.Order.Floor.Semifield
import Mathlib.Data.Int.Log
import Mathlib.Data.Rat.Floor
import Mathlib.Tactic.FieldSimp
import Mathlib.Tactic.GCongr
import Mathlib.Tactic.Linarith
import Mathlib.Tactic.Positivity
import Mathlib.Tactic.Ring
import Playback.Decimal.Binary64
/-!
# Doubles and the ratios they round

Rounding looks at a ratio, not at the two numbers that write it. What it gives is a double in its
one form, or infinite, and a ratio that is a double is rounded to that double.
-/

namespace Playback.Proofs.Doubles

/-- A finite double in its one form: the mantissa has 53 digits, or fewer at the least exponent. -/
structure Regular (m : Nat) (e : Int) : Prop where
  mantissa : m < 2 ^ 53
  least : Binary64.minExponent ≤ e
  greatest : e ≤ Binary64.maxExponent
  normal : 2 ^ 52 ≤ m ∨ e = Binary64.minExponent

/-! ## The binary magnitude of a ratio -/

section Magnitude

variable {num den : Nat}

theorem two_zpow_le_iff (hden : 0 < den) (k : Int) :
    (2 : ℚ) ^ k ≤ (num : ℚ) / den ↔
      if 0 ≤ k then den * Nat.pow 2 k.toNat ≤ num else den ≤ num * Nat.pow 2 (-k).toNat := by
  have hpos : (0 : ℚ) < den := by exact_mod_cast hden
  rw [le_div_iff₀ hpos]
  split
  · rename_i hk
    obtain ⟨n, rfl⟩ := Int.eq_ofNat_of_zero_le hk
    rw [zpow_natCast, Int.toNat_natCast, Nat.pow_eq, mul_comm]
    exact_mod_cast Iff.rfl
  · rename_i hk
    obtain ⟨n, hn⟩ := Int.eq_ofNat_of_zero_le (show 0 ≤ -k by omega)
    obtain rfl : k = -(n : Int) := by omega
    rw [neg_neg, Int.toNat_natCast, zpow_neg, zpow_natCast, Nat.pow_eq,
      inv_mul_le_iff₀ (by positivity), mul_comm]
    exact_mod_cast Iff.rfl

theorem log_eq_of_bounds {r : ℚ} (hr : 0 < r) {k : Int} (hlow : (2 : ℚ) ^ k ≤ r)
    (hhigh : r < (2 : ℚ) ^ (k + 1)) : Int.log 2 r = k := by
  have hle := (Int.zpow_le_iff_le_log Nat.one_lt_two hr).1 hlow
  have hlt := (Int.lt_zpow_iff_log_lt Nat.one_lt_two hr).1 hhigh
  omega

theorem ratio_bounds (hnum : 0 < num) (hden : 0 < den) :
    (2 : ℚ) ^ ((num.log2 : Int) - den.log2 - 1) ≤ (num : ℚ) / den ∧
      (num : ℚ) / den < (2 : ℚ) ^ ((num.log2 : Int) - den.log2 + 1) := by
  have hpos : (0 : ℚ) < den := by exact_mod_cast hden
  have hnumLow : (2 : ℚ) ^ num.log2 ≤ num := by exact_mod_cast Nat.log2_self_le hnum.ne'
  have hnumHigh : (num : ℚ) < 2 ^ (num.log2 + 1) := by exact_mod_cast Nat.lt_log2_self
  have hdenLow : (2 : ℚ) ^ den.log2 ≤ den := by exact_mod_cast Nat.log2_self_le hden.ne'
  have hdenHigh : (den : ℚ) < 2 ^ (den.log2 + 1) := by exact_mod_cast Nat.lt_log2_self
  have hlow : (2 : ℚ) ^ ((num.log2 : Int) - den.log2 - 1) = 2 ^ num.log2 / 2 ^ (den.log2 + 1) := by
    rw [sub_sub, zpow_sub₀ two_ne_zero, zpow_natCast]
    exact_mod_cast rfl
  have hhigh : (2 : ℚ) ^ ((num.log2 : Int) - den.log2 + 1) = 2 ^ (num.log2 + 1) / 2 ^ den.log2 := by
    rw [sub_add_eq_add_sub, zpow_sub₀ two_ne_zero, zpow_natCast]
    exact_mod_cast rfl
  rw [hlow, hhigh, div_le_div_iff₀ (by positivity) hpos, div_lt_div_iff₀ hpos (by positivity)]
  constructor
  · gcongr
  · calc
      (num : ℚ) * 2 ^ den.log2 < 2 ^ (num.log2 + 1) * 2 ^ den.log2 := by gcongr
      _ ≤ 2 ^ (num.log2 + 1) * den := by gcongr

theorem floorLog2_eq (hnum : 0 < num) (hden : 0 < den) :
    floorLog2 num den = Int.log 2 ((num : ℚ) / den) := by
  have hpos : (0 : ℚ) < (num : ℚ) / den := by
    have : (0 : ℚ) < num := by exact_mod_cast hnum
    have : (0 : ℚ) < den := by exact_mod_cast hden
    positivity
  obtain ⟨hlow, hhigh⟩ := ratio_bounds hnum hden
  have hreached :
      (2 : ℚ) ^ ((num.log2 : Int) - den.log2) ≤ (num : ℚ) / den ↔ _ := two_zpow_le_iff hden _
  by_cases hk : (2 : ℚ) ^ ((num.log2 : Int) - den.log2) ≤ (num : ℚ) / den
  · rw [log_eq_of_bounds hpos hk hhigh]
    exact if_pos (hreached.1 hk)
  · rw [log_eq_of_bounds hpos hlow (by rw [sub_add_cancel]; exact not_le.1 hk)]
    exact if_neg fun h => hk (hreached.2 h)

theorem floorLog2_bounds (hnum : 0 < num) (hden : 0 < den) :
    (2 : ℚ) ^ floorLog2 num den ≤ (num : ℚ) / den ∧
      (num : ℚ) / den < (2 : ℚ) ^ (floorLog2 num den + 1) := by
  have hpos : (0 : ℚ) < (num : ℚ) / den := by
    have : (0 : ℚ) < num := by exact_mod_cast hnum
    have : (0 : ℚ) < den := by exact_mod_cast hden
    positivity
  rw [floorLog2_eq hnum hden]
  exact ⟨Int.zpow_log_le_self Nat.one_lt_two hpos, Int.lt_zpow_succ_log_self Nat.one_lt_two _⟩

theorem floorLog2_mul_left {k : Nat} (hk : 0 < k) (hnum : 0 < num) (hden : 0 < den) :
    floorLog2 (k * num) (k * den) = floorLog2 num den := by
  have hne : (k : ℚ) ≠ 0 := by exact_mod_cast hk.ne'
  rw [floorLog2_eq (Nat.mul_pos hk hnum) (Nat.mul_pos hk hden), floorLog2_eq hnum hden,
    Nat.cast_mul, Nat.cast_mul, mul_div_mul_left _ _ hne]

end Magnitude

/-! ## Rounding to an integer -/

section Rounding

variable {num den : Nat}

theorem roundDiv_mul_left {k : Nat} (hk : 0 < k) :
    roundDiv (k * num) (k * den) = roundDiv num den := by
  have hdouble : ∀ r, 2 * (k * r) = k * (2 * r) := fun r => by ring
  simp only [roundDiv, Nat.mul_div_mul_left _ _ hk, Nat.mul_mod_mul_left, hdouble,
    Nat.mul_lt_mul_left hk]

theorem roundDiv_eq_zero (h : 2 * num < den) : roundDiv num den = 0 := by
  have hlt : num < den := by omega
  simp [roundDiv, Nat.div_eq_of_lt hlt, Nat.mod_eq_of_lt hlt, h]

theorem roundDiv_le {n : Nat} (hden : 0 < den) (h : num ≤ n * den) : roundDiv num den ≤ n := by
  have hdiv := Nat.div_add_mod num den
  have hmod := Nat.mod_lt num hden
  have hle : num / den ≤ n := Nat.div_le_of_le_mul (by rw [Nat.mul_comm]; exact h)
  obtain hlt | heq := hle.lt_or_eq
  · simp only [roundDiv]
    split
    · omega
    · split
      · omega
      · split <;> omega
  · -- the quotient is reached only without a rest
    have hzero : num % den = 0 := by
      rw [heq, Nat.mul_comm] at hdiv
      omega
    simp [roundDiv, hzero, hden, heq]

theorem le_roundDiv {n : Nat} (hden : 0 < den) (h : n * den ≤ num) : n ≤ roundDiv num den := by
  have hle : n ≤ num / den := (Nat.le_div_iff_mul_le hden).2 h
  simp only [roundDiv]
  split
  · exact hle
  · split
    · omega
    · split <;> omega

end Rounding

/-! ## Rounding to a double -/

section Ratio

variable {negative : Bool} {num den : Nat}

/-- The ratio rounded to a multiple of a power of two. -/
def mantissaAt (num den : Nat) (e : Int) : Nat :=
  if 0 ≤ e then roundDiv num (den * Nat.pow 2 e.toNat)
  else roundDiv (num * Nat.pow 2 (-e).toNat) den

def exponentOf (num den : Nat) : Int := max Binary64.minExponent (floorLog2 num den - 52)

theorem ofRatio_eq (hnum : 0 < num) :
    Binary64.ofRatio negative num den =
      if mantissaAt num den (exponentOf num den) = 2 ^ 53 then
        if Binary64.maxExponent < exponentOf num den + 1 then .infinite negative
        else .finite negative (2 ^ 52) (exponentOf num den + 1)
      else if Binary64.maxExponent < exponentOf num den then .infinite negative
      else if mantissaAt num den (exponentOf num den) = 0 then .zero negative
      else .finite negative (mantissaAt num den (exponentOf num den)) (exponentOf num den) := by
  have hrounded : Binary64.ofRatio negative num den =
      let p := if mantissaAt num den (exponentOf num den) = Nat.pow 2 53 then
          (Nat.pow 2 52, exponentOf num den + 1)
        else (mantissaAt num den (exponentOf num den), exponentOf num den)
      if Binary64.maxExponent < p.2 then .infinite negative
      else if p.1 = 0 then .zero negative
      else .finite negative p.1 p.2 := if_neg hnum.ne'
  rw [hrounded, Nat.pow_eq, Nat.pow_eq]
  by_cases hfull : mantissaAt num den (exponentOf num den) = 2 ^ 53
  · simp only [hfull, if_true, (Nat.two_pow_pos 52).ne', if_false]
  · simp only [hfull, if_false]

theorem mantissaAt_mul_left {k : Nat} (hk : 0 < k) (e : Int) :
    mantissaAt (k * num) (k * den) e = mantissaAt num den e := by
  simp only [mantissaAt, Nat.mul_assoc, roundDiv_mul_left hk]

theorem ofRatio_mul_left {k : Nat} (hk : 0 < k) (hden : 0 < den) :
    Binary64.ofRatio negative (k * num) (k * den) = Binary64.ofRatio negative num den := by
  obtain rfl | hnum := Nat.eq_zero_or_pos num
  · rfl
  · have hexponent : exponentOf (k * num) (k * den) = exponentOf num den := by
      rw [exponentOf, exponentOf, floorLog2_mul_left hk hnum hden]
    rw [ofRatio_eq (Nat.mul_pos hk hnum), ofRatio_eq hnum, hexponent, mantissaAt_mul_left hk]

theorem ofRatio_congr {num' den' : Nat} (hden : 0 < den) (hden' : 0 < den')
    (h : num * den' = num' * den) :
    Binary64.ofRatio negative num den = Binary64.ofRatio negative num' den' := by
  rw [← ofRatio_mul_left hden' hden, ← ofRatio_mul_left hden hden', Nat.mul_comm den' num, h,
    Nat.mul_comm num' den, Nat.mul_comm den' den]

theorem ratio_eq_mul_zpow (hden : 0 < den) (n : Nat) (e : Int) :
    (n * (2 : ℚ) ^ e) * den =
      if 0 ≤ e then ((n * (den * Nat.pow 2 e.toNat) : Nat) : ℚ)
      else ((n * den : Nat) : ℚ) / (Nat.pow 2 (-e).toNat : Nat) := by
  split
  · rename_i he
    obtain ⟨k, rfl⟩ := Int.eq_ofNat_of_zero_le he
    rw [zpow_natCast, Int.toNat_natCast, Nat.pow_eq]
    push_cast
    ring
  · rename_i he
    obtain ⟨k, hk⟩ := Int.eq_ofNat_of_zero_le (show 0 ≤ -e by omega)
    obtain rfl : e = -(k : Int) := by omega
    rw [neg_neg, Int.toNat_natCast, zpow_neg, zpow_natCast, Nat.pow_eq]
    push_cast
    field_simp

theorem mantissaAt_le (hden : 0 < den) {n : Nat} {e : Int}
    (h : (num : ℚ) / den ≤ n * 2 ^ e) : mantissaAt num den e ≤ n := by
  have hpos : (0 : ℚ) < den := by exact_mod_cast hden
  rw [div_le_iff₀ hpos, ratio_eq_mul_zpow hden] at h
  unfold mantissaAt
  split
  · rename_i he
    rw [if_pos he] at h
    exact roundDiv_le (Nat.mul_pos hden (Nat.two_pow_pos _)) (by exact_mod_cast h)
  · rename_i he
    rw [if_neg he, le_div_iff₀ (by exact_mod_cast Nat.two_pow_pos _)] at h
    exact roundDiv_le hden (by exact_mod_cast h)

theorem le_mantissaAt (hden : 0 < den) {n : Nat} {e : Int}
    (h : n * (2 : ℚ) ^ e ≤ (num : ℚ) / den) : n ≤ mantissaAt num den e := by
  have hpos : (0 : ℚ) < den := by exact_mod_cast hden
  rw [le_div_iff₀ hpos, ratio_eq_mul_zpow hden] at h
  unfold mantissaAt
  split
  · rename_i he
    rw [if_pos he] at h
    exact le_roundDiv (Nat.mul_pos hden (Nat.two_pow_pos _)) (by exact_mod_cast h)
  · rename_i he
    rw [if_neg he, div_le_iff₀ (by exact_mod_cast Nat.two_pow_pos _)] at h
    exact le_roundDiv hden (by exact_mod_cast h)

theorem two_zpow_split (k : Nat) (e : Int) : (2 : ℚ) ^ ((k : Int) + e) = (2 ^ k : Nat) * 2 ^ e := by
  rw [zpow_add₀ two_ne_zero, zpow_natCast]
  push_cast
  rfl

theorem mantissaAt_exponentOf (hnum : 0 < num) (hden : 0 < den) :
    mantissaAt num den (exponentOf num den) ≤ 2 ^ 53 ∧
      (2 ^ 52 ≤ mantissaAt num den (exponentOf num den) ∨
        exponentOf num den = Binary64.minExponent) := by
  obtain ⟨hlow, hhigh⟩ := floorLog2_bounds hnum hden
  have hexponent : floorLog2 num den - 52 ≤ exponentOf num den := le_max_right _ _
  constructor
  · apply mantissaAt_le hden
    rw [← two_zpow_split]
    exact hhigh.le.trans (zpow_le_zpow_right₀ one_le_two (by push_cast; omega))
  · obtain hmax | hmax := max_choice Binary64.minExponent (floorLog2 num den - 52)
    · exact .inr hmax
    · left
      apply le_mantissaAt hden
      rw [← two_zpow_split, exponentOf, hmax]
      refine le_of_eq_of_le ?_ hlow
      congr 1
      push_cast
      ring

theorem regular_zero : Regular 0 Binary64.minExponent :=
  ⟨by decide, le_refl _, by decide, .inr rfl⟩

/-- Rounding gives a double in its one form, or overflows. -/
theorem ofRatio_regular (negative : Bool) (num : Nat) (hden : 0 < den) :
    Binary64.ofRatio negative num den = .infinite negative ∨
      ∃ m e, Binary64.ofRatio negative num den = .finite negative m e ∧ Regular m e := by
  obtain rfl | hnum := Nat.eq_zero_or_pos num
  · exact .inr ⟨0, _, rfl, regular_zero⟩
  · obtain ⟨hle, hnormal⟩ := mantissaAt_exponentOf hnum hden
    have hleast : Binary64.minExponent ≤ exponentOf num den := le_max_left _ _
    rw [ofRatio_eq hnum]
    split
    · split
      · exact .inl rfl
      · rename_i hmax
        exact .inr ⟨_, _, rfl, by decide, by omega, not_lt.1 hmax, .inl le_rfl⟩
    · rename_i hfull
      split
      · exact .inl rfl
      · rename_i hmax
        split
        · exact .inr ⟨0, _, rfl, regular_zero⟩
        · exact .inr ⟨_, _, rfl, lt_of_le_of_ne hle hfull, hleast, not_lt.1 hmax, hnormal⟩

/-- A ratio within the range of the doubles does not overflow. -/
theorem ofRatio_finite (negative : Bool) (hden : 0 < den) {k : Nat} (hk : k ≤ 1023)
    (h : num < den * 2 ^ k) :
    ∃ m e, Binary64.ofRatio negative num den = .finite negative m e ∧ Regular m e := by
  obtain hinfinite | hfinite := ofRatio_regular negative num hden
  · exfalso
    obtain rfl | hnum := Nat.eq_zero_or_pos num
    · cases hinfinite
    · have hpos : (0 : ℚ) < den := by exact_mod_cast hden
      have hratio : (num : ℚ) / den < 2 ^ (k : Int) := by
        rw [div_lt_iff₀ hpos, mul_comm]
        exact_mod_cast h
      have hlog : floorLog2 num den < k :=
        (zpow_lt_zpow_iff_right₀ one_lt_two).1 ((floorLog2_bounds hnum hden).1.trans_lt hratio)
      have hexponent : exponentOf num den ≤ 970 := max_le (by decide) (by omega)
      have hmax : Binary64.maxExponent = 971 := rfl
      rw [ofRatio_eq hnum, if_neg (by omega : ¬Binary64.maxExponent < exponentOf num den + 1),
        if_neg (by omega : ¬Binary64.maxExponent < exponentOf num den)] at hinfinite
      split at hinfinite
      · cases hinfinite
      · split at hinfinite <;> cases hinfinite
  · exact hfinite

/-- A ratio that is a double is rounded to it. -/
theorem ofRatio_exact {m : Nat} {e : Int} (h : Regular m e) (hden : 0 < den)
    (hratio : (num : ℚ) / den = m * 2 ^ e) :
    Binary64.ofRatio negative num den = .finite negative m e := by
  have hpos : (0 : ℚ) < den := by exact_mod_cast hden
  obtain rfl | hm := Nat.eq_zero_or_pos m
  · obtain hnormal | rfl := h.normal
    · exact absurd hnormal (by decide)
    · have hzero : (num : ℚ) = 0 := by
        rw [Nat.cast_zero, zero_mul, div_eq_zero_iff] at hratio
        exact hratio.resolve_right hpos.ne'
      obtain rfl : num = 0 := by exact_mod_cast hzero
      rfl
  · have hmpos : (0 : ℚ) < m := by exact_mod_cast hm
    have hnum : 0 < num := by
      have : (0 : ℚ) < (num : ℚ) / den := by
        rw [hratio]
        exact mul_pos hmpos (by positivity)
      exact_mod_cast (div_pos_iff_of_pos_right hpos).1 this
    have hexponent : exponentOf num den = e := by
      obtain ⟨hlow, hhigh⟩ := floorLog2_bounds hnum hden
      rw [hratio] at hlow hhigh
      have hbelow : (m : ℚ) * 2 ^ e < 2 ^ (53 + e) := by
        rw [show (53 : Int) = ((53 : Nat) : Int) from rfl, two_zpow_split]
        gcongr
        exact h.mantissa
      have hle : floorLog2 num den < 53 + e :=
        (zpow_lt_zpow_iff_right₀ one_lt_two).1 (hlow.trans_lt hbelow)
      have hleast := h.least
      obtain hnormal | hsmall := h.normal
      · have habove : (2 : ℚ) ^ (52 + e) ≤ m * 2 ^ e := by
          rw [show (52 : Int) = ((52 : Nat) : Int) from rfl, two_zpow_split]
          gcongr
        have hge : 52 + e < floorLog2 num den + 1 :=
          (zpow_lt_zpow_iff_right₀ one_lt_two).1 (habove.trans_lt hhigh)
        rw [exponentOf]
        omega
      · rw [exponentOf]
        omega
    have hmantissa : mantissaAt num den e = m :=
      le_antisymm (mantissaAt_le hden hratio.le) (le_mantissaAt hden hratio.ge)
    have hfull := h.mantissa
    rw [ofRatio_eq hnum, hexponent, hmantissa, if_neg hfull.ne, if_neg (not_lt.2 h.greatest),
      if_neg hm.ne']

theorem ofRatio_small {k : Nat} (hk : Binary64.minExponent = -(k : Int))
    (h : 2 * (num * 2 ^ k) < den) : Binary64.ofRatio negative num den = .zero negative := by
  obtain rfl | hnum := Nat.eq_zero_or_pos num
  · rfl
  · have hden : 0 < den := by omega
    have hpos : (0 : ℚ) < den := by exact_mod_cast hden
    have hratio : (num : ℚ) / den < 2 ^ (-(k : Int)) := by
      rw [zpow_neg, zpow_natCast, div_lt_iff₀ hpos, inv_mul_eq_div, lt_div_iff₀ (by positivity)]
      have hlt : num * 2 ^ k < den := by omega
      exact_mod_cast hlt
    have hlog : floorLog2 num den < -k := by
      rw [floorLog2_eq hnum hden]
      exact (Int.lt_zpow_iff_log_lt Nat.one_lt_two (by positivity)).1 (by exact_mod_cast hratio)
    have hexponent : exponentOf num den = -k := by
      rw [exponentOf, hk]
      omega
    have hmantissa : mantissaAt num den (-k) = 0 := by
      unfold mantissaAt
      split
      · rename_i hnonneg
        obtain rfl : k = 0 := by omega
        exact roundDiv_eq_zero (by simpa using h)
      · rw [neg_neg, Int.toNat_natCast]
        exact roundDiv_eq_zero h
    have hle : ¬Binary64.maxExponent < -k := by
      rw [Binary64.maxExponent]
      omega
    rw [ofRatio_eq hnum, hexponent, hmantissa, if_neg (Nat.two_pow_pos 53).ne, if_neg hle,
      if_pos rfl]

theorem ofRatio_large {k : Nat} (hk : Binary64.maxExponent + 53 = k) (hden : 0 < den)
    (h : den * 2 ^ k ≤ num) : Binary64.ofRatio negative num den = .infinite negative := by
  have hnum : 0 < num := (Nat.mul_pos hden (Nat.two_pow_pos k)).trans_le h
  have hpos : (0 : ℚ) < den := by exact_mod_cast hden
  have hratio : (2 : ℚ) ^ (k : Int) ≤ (num : ℚ) / den := by
    rw [le_div_iff₀ hpos, mul_comm]
    exact_mod_cast h
  have hlog : (k : Int) ≤ floorLog2 num den := by
    rw [floorLog2_eq hnum hden]
    exact (Int.zpow_le_iff_le_log Nat.one_lt_two (by positivity)).1 (by exact_mod_cast hratio)
  have hexponent : Binary64.maxExponent < exponentOf num den := by
    rw [exponentOf]
    omega
  have hnext : Binary64.maxExponent < exponentOf num den + 1 := hexponent.trans (Int.lt_succ _)
  rw [ofRatio_eq hnum, if_pos hexponent, if_pos hnext]
  exact ite_self _

theorem ofRatio_signed {m : Nat} {e : Int} (h : Binary64.ofRatio false num den = .finite false m e)
    (negative : Bool) : Binary64.ofRatio negative num den = .finite negative m e := by
  obtain rfl | hnum := Nat.eq_zero_or_pos num
  · cases h
    rfl
  · rw [ofRatio_eq hnum] at h ⊢
    split at h
    · rename_i hfull
      split at h
      · cases h
      · rename_i hbound
        cases h
        rw [if_pos hfull, if_neg hbound]
    · rename_i hfull
      split at h
      · cases h
      · rename_i hbound
        rw [if_neg hfull, if_neg hbound]
        split at h
        · rename_i hzero
          cases h
          rw [if_pos hzero]
          rfl
        · rename_i hzero
          cases h
          rw [if_neg hzero]

end Ratio

theorem ofInt_regular {i : Int} (h : i.natAbs < 2 ^ 65) :
    ∃ m e, Binary64.ofInt i = .finite (decide (i < 0)) m e ∧ Regular m e :=
  ofRatio_finite _ Nat.one_pos (by decide : 65 ≤ 1023) (by rwa [Nat.one_mul])

end Playback.Proofs.Doubles
