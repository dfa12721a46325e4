import Mathlib.Order.Monotone.Basic
import Mathlib.Order.WithBotTop
import Playback.Comparison
import Playback.Proofs.Amounts
/-!
# Comparators

Two texts are compared as numbers if both write one, and as trimmed texts otherwise. Either way one
of them comes first or they are the same, and this order decides all six standard comparators. A
text counts as the number it writes, or else as what is left of it without the blanks around it; two
texts are the same if they count as the same.
-/

namespace Playback.Proofs.Comparators

open Amounts

/-! ## The order of doubles -/

def signed (negative : Bool) (m : Nat) (e : Int) : ℚ :=
  (if negative then -(m : ℚ) else m) * 2 ^ e

/-- The number that a double stands for. The infinite ones lie below and above all rationals. -/
def worth? : Binary64 → Option (WithBotTop ℚ)
  | .nan => none
  | .infinite negative => some (if negative then ⊥ else ⊤)
  | .finite negative m e => some (signed negative m e)

theorem compare_map {α β : Type} [LinearOrder α] [LinearOrder β] {f : α → β} (hf : StrictMono f)
    (a b : α) : compare (f a) (f b) = compare a b := by
  rw [← cmp_eq_compare, ← cmp_eq_compare, hf.cmp_map_eq]

theorem scaledTo_mul (negative : Bool) (m : Nat) {e g : Int} (h : g ≤ e) :
    (Binary64.scaledTo g negative m e : ℚ) * 2 ^ g = signed negative m e := by
  obtain ⟨k, hk⟩ := Int.eq_ofNat_of_zero_le (show 0 ≤ e - g by omega)
  have hpow : (2 : ℚ) ^ e = 2 ^ k * 2 ^ g := by
    rw [show e = k + g by omega, zpow_add₀ two_ne_zero, zpow_natCast]
  unfold Binary64.scaledTo signed
  rw [hk, Int.toNat_natCast, Nat.pow_eq, hpow, ← mul_assoc]
  cases negative <;> simp

/-- Two mantissas that are written for one exponent are in the order of the numbers. -/
theorem compare_scaledTo (s t : Bool) (m n : Nat) {e f g : Int} (he : g ≤ e) (hf : g ≤ f) :
    compare (Binary64.scaledTo g s m e) (Binary64.scaledTo g t n f) =
      compare (signed s m e) (signed t n f) := by
  have hscale : StrictMono fun i : Int => (i : ℚ) * 2 ^ g := fun i j hij =>
    mul_lt_mul_of_pos_right (Int.cast_lt.2 hij) (by positivity)
  rw [← scaledTo_mul s m he, ← scaledTo_mul t n hf]
  exact (compare_map hscale _ _).symm

theorem compare?_eq (x y : Binary64) :
    x.compare? y = (worth? x).bind fun v => (worth? y).map fun w => compare v w := by
  cases x with
  | nan => rfl
  | infinite s =>
    cases y with
    | nan => cases s <;> rfl
    | infinite t => cases s <;> cases t <;> rfl
    | finite t n f => cases s <;> rfl
  | finite s m e =>
    cases y with
    | nan => rfl
    | infinite t => cases t <;> rfl
    | finite t n f =>
      have hscaled := compare_scaledTo s t m n (min_le_left e f) (min_le_right e f)
      have hcoe := compare_map WithBotTop.coe_strictMono (signed s m e) (signed t n f)
      exact congrArg some (hscaled.trans hcoe.symm)

/-! ## Numbers in texts -/

def number? (s : String) : Option (WithBotTop ℚ) := (Amount.ofText? s).bind worth?

theorem number_cases (s : String) :
    (Amount.ofText? s = none ∧ number? s = none) ∨
      ∃ x v, Amount.ofText? s = some x ∧ worth? x = some v ∧ number? s = some v := by
  unfold number?
  cases h : Amount.ofText? s with
  | none => exact .inl ⟨rfl, rfl⟩
  | some x =>
    cases x with
    | nan => exact absurd h (ofText_ne_nan s)
    | infinite negative => exact .inr ⟨_, _, rfl, rfl, rfl⟩
    | finite negative m e => exact .inr ⟨_, _, rfl, rfl, rfl⟩

theorem number_congr {a b : String} (h : Text.trim a = Text.trim b) : number? a = number? b := by
  rw [number?, number?, ← ofText_trim a, h, ofText_trim]

/-! ## The order of texts -/

def order (a b : String) : Ordering :=
  match number? a, number? b with
  | some v, some w => compare v w
  | _, _ => compare (Text.trim a) (Text.trim b)

theorem textOrder_eq (a b : String) : textOrder a b = some (order a b) := by
  unfold textOrder order
  rcases number_cases a with ⟨ha, hv⟩ | ⟨x, v, ha, hx, hv⟩
  · rw [ha, hv]
  · rcases number_cases b with ⟨hb, hw⟩ | ⟨y, w, hb, hy, hw⟩
    · rw [ha, hb, hv, hw]
    · rw [ha, hb, hv, hw]
      dsimp only
      rw [compare?_eq, hx, hy]
      rfl

theorem order_swap (a b : String) : (order a b).swap = order b a := by
  unfold order
  cases number? a with
  | none =>
    cases number? b <;> exact Std.OrientedOrd.eq_swap.symm
  | some v =>
    cases number? b <;> exact Std.OrientedOrd.eq_swap.symm

/-- What a text counts as: the number it writes, or the text without the blanks around it. -/
def reading (s : String) : WithBotTop ℚ ⊕ String :=
  match number? s with
  | some v => .inl v
  | none => .inr (Text.trim s)

theorem order_eq_iff (a b : String) : order a b = .eq ↔ reading a = reading b := by
  have htext : compare (Text.trim a) (Text.trim b) = .eq ↔ Text.trim a = Text.trim b :=
    Std.LawfulEqOrd.compare_eq_iff_eq
  unfold order reading
  cases ha : number? a with
  | none =>
    cases hb : number? b with
    | none => rw [htext, Sum.inr.injEq]
    | some w =>
      refine htext.trans (iff_of_false (fun h => ?_) (by rintro ⟨⟩))
      rw [number_congr h, hb] at ha
      cases ha
  | some v =>
    cases hb : number? b with
    | none =>
      refine htext.trans (iff_of_false (fun h => ?_) (by rintro ⟨⟩))
      rw [number_congr h, hb] at ha
      cases ha
    | some w => rw [compare_eq_iff_eq, Sum.inl.injEq]

/-! ## Standard comparators -/

def standard : List Operator := [.eq, .ne, .lt, .le, .gt, .ge]

/-- The comparator is true of the two texts. -/
def Holds (op : Operator) (a b : String) : Prop := evaluate op a b = .ok true

/-- How the standard comparators of two texts depend on each other. -/
structure Consistent (a b : String) : Prop where
  decided : ∀ op ∈ standard, ∃ truth, evaluate op a b = .ok truth
  ordered : textOrder a b ≠ none
  one : ∃! op, op ∈ [Operator.lt, .eq, .gt] ∧ Holds op a b
  ne_iff : Holds .ne a b ↔ ¬Holds .eq a b
  le_iff : Holds .le a b ↔ ¬Holds .gt a b
  ge_iff : Holds .ge a b ↔ ¬Holds .lt a b
  lt_comm : Holds .lt a b ↔ Holds .gt b a
  le_comm : Holds .le a b ↔ Holds .ge b a

theorem evaluate_standard {op : Operator} (h : op ∈ standard) (a b : String) :
    evaluate op a b = .ok (op.holdsOf (order a b)) := by
  have hne : op ≠ .period := by
    rintro rfl
    revert h
    decide
  unfold evaluate
  cases op with
  | period => exact absurd rfl hne
  | _ => simp only [textOrder_eq]

theorem holds_iff {op : Operator} (h : op ∈ standard) (a b : String) :
    Holds op a b ↔ op.holdsOf (order a b) = true := by
  rw [Holds, evaluate_standard h, Except.ok.injEq]

theorem mem_standard {op : Operator} (h : op ∈ [Operator.lt, .eq, .gt]) : op ∈ standard := by
  revert op
  decide

theorem existsUnique_holdsOf (o : Ordering) :
    ∃! op, op ∈ [Operator.lt, .eq, .gt] ∧ op.holdsOf o = true := by
  cases o with
  | lt => exact ⟨.lt, by decide, fun op => by cases op <;> decide⟩
  | eq => exact ⟨.eq, by decide, fun op => by cases op <;> decide⟩
  | gt => exact ⟨.gt, by decide, fun op => by cases op <;> decide⟩

theorem consistent (a b : String) : Consistent a b where
  decided op hop := ⟨_, evaluate_standard hop a b⟩
  ordered := by
    rw [textOrder_eq]
    exact Option.some_ne_none _
  one := by
    obtain ⟨op, ⟨hop, hholds⟩, hunique⟩ := existsUnique_holdsOf (order a b)
    refine ⟨op, ⟨hop, (holds_iff (mem_standard hop) a b).2 hholds⟩, fun other h => ?_⟩
    exact hunique other ⟨h.1, (holds_iff (mem_standard h.1) a b).1 h.2⟩
  ne_iff := by
    rw [holds_iff (by decide), holds_iff (by decide)]
    cases order a b <;> decide
  le_iff := by
    rw [holds_iff (by decide), holds_iff (by decide)]
    cases order a b <;> decide
  ge_iff := by
    rw [holds_iff (by decide), holds_iff (by decide)]
    cases order a b <;> decide
  lt_comm := by
    rw [holds_iff (by decide), holds_iff (by decide), ← order_swap a b]
    cases order a b <;> decide
  le_comm := by
    rw [holds_iff (by decide), holds_iff (by decide), ← order_swap a b]
    cases order a b <;> decide

theorem holds_eq_iff (a b : String) : Holds .eq a b ↔ reading a = reading b := by
  rw [holds_iff (by decide), ← order_eq_iff]
  cases order a b <;> decide

/-- The standard comparators of any two texts are consistent, equality is an equivalence of all
texts, and no text writes a number without an order. -/
theorem comparators_consistent :
    (∀ a b, Consistent a b) ∧ Equivalence (Holds .eq) ∧ ∀ s, Amount.ofText? s ≠ some .nan := by
  refine ⟨consistent, ⟨fun a => ?_, fun h => ?_, fun hab hbc => ?_⟩, ofText_ne_nan⟩
  · rw [holds_eq_iff]
  · rw [holds_eq_iff] at h ⊢
    exact h.symm
  · rw [holds_eq_iff] at hab hbc ⊢
    exact hab.trans hbc

end Playback.Proofs.Comparators
