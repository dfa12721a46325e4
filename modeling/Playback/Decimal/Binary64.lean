/-!
# Binary floating point of 64 bits

A double is kept as sign, mantissa and exponent, and every operation is exact arithmetic followed by
one rounding to the nearest double, a half going to the even mantissa.
-/

namespace Playback

/-- A double: `finite s m e` stands for `± m · 2 ^ e`. -/
inductive Binary64 where
  | nan
  | infinite (negative : Bool)
  | finite (negative : Bool) (mantissa : Nat) (exponent : Int)
  deriving DecidableEq, Repr, Inhabited

/-- The quotient rounded to the nearest integer, a half to the even one. -/
def roundDiv (num den : Nat) : Nat :=
  let q := num / den
  let r := num % den
  if 2 * r < den then q
  else if den < 2 * r then q + 1
  else if q % 2 = 0 then q else q + 1

/-- The greatest `k` with `2 ^ k ≤ num / den`, for positive `num` and `den`. -/
def floorLog2 (num den : Nat) : Int :=
  let k : Int := (num.log2 : Int) - den.log2
  let reached := if 0 ≤ k then den * Nat.pow 2 k.toNat ≤ num else den ≤ num * Nat.pow 2 (-k).toNat
  if reached then k else k - 1

namespace Binary64

def minExponent : Int := -1074

def maxExponent : Int := 971

def zero (negative : Bool) : Binary64 := .finite negative 0 minExponent

def ofRatio (negative : Bool) (num den : Nat) : Binary64 :=
  if num = 0 then zero negative
  else
    let e := max minExponent (floorLog2 num den - 52)
    let m :=
      if 0 ≤ e then roundDiv num (den * Nat.pow 2 e.toNat)
      else roundDiv (num * Nat.pow 2 (-e).toNat) den
    let (m, e) := if m = Nat.pow 2 53 then (Nat.pow 2 52, e + 1) else (m, e)
    if maxExponent < e then .infinite negative
    else if m = 0 then zero negative
    else .finite negative m e

def ofDecimal (negative : Bool) (digits : Nat) (exponent : Int) : Binary64 :=
  if 0 ≤ exponent then ofRatio negative (digits * Nat.pow 10 exponent.toNat) 1
  else ofRatio negative digits (Nat.pow 10 (-exponent).toNat)

def ofInt (i : Int) : Binary64 := ofRatio (i < 0) i.natAbs 1

def ofNat (n : Nat) : Binary64 := ofRatio false n 1

/-- The double nearest to `i · 2 ^ e`; `negativeZero` is the sign of a zero. -/
def ofScaled (i : Int) (e : Int) (negativeZero : Bool) : Binary64 :=
  if i = 0 then zero negativeZero
  else if 0 ≤ e then ofRatio (i < 0) (i.natAbs * Nat.pow 2 e.toNat) 1
  else ofRatio (i < 0) i.natAbs (Nat.pow 2 (-e).toNat)

def isFinite : Binary64 → Bool
  | .finite .. => true
  | _ => false

def neg : Binary64 → Binary64
  | .nan => .nan
  | .infinite s => .infinite !s
  | .finite s m e => .finite (!s) m e

def scaledTo (e' : Int) (negative : Bool) (m : Nat) (e : Int) : Int :=
  let n : Int := (m * Nat.pow 2 (e - e').toNat : Nat)
  if negative then -n else n

def add : Binary64 → Binary64 → Binary64
  | .nan, _ | _, .nan => .nan
  | .infinite s, .infinite t => if s = t then .infinite s else .nan
  | .infinite s, _ => .infinite s
  | _, .infinite t => .infinite t
  | .finite s m e, .finite t n f =>
    let g := min e f
    ofScaled (scaledTo g s m e + scaledTo g t n f) g (s && t && m == 0 && n == 0)

def sub (x y : Binary64) : Binary64 := x.add y.neg

def mul : Binary64 → Binary64 → Binary64
  | .nan, _ | _, .nan => .nan
  | .infinite s, .infinite t => .infinite (s != t)
  | .infinite s, .finite t n _ => if n = 0 then .nan else .infinite (s != t)
  | .finite s m _, .infinite t => if m = 0 then .nan else .infinite (s != t)
  | .finite s m e, .finite t n f =>
    if 0 ≤ e + f then ofRatio (s != t) (m * n * Nat.pow 2 (e + f).toNat) 1
    else ofRatio (s != t) (m * n) (Nat.pow 2 (-(e + f)).toNat)

def div : Binary64 → Binary64 → Binary64
  | .nan, _ | _, .nan => .nan
  | .infinite _, .infinite _ => .nan
  | .infinite s, .finite t _ _ => .infinite (s != t)
  | .finite s _ _, .infinite t => zero (s != t)
  | .finite s m e, .finite t n f =>
    if n = 0 then if m = 0 then .nan else .infinite (s != t)
    else if 0 ≤ e - f then ofRatio (s != t) (m * Nat.pow 2 (e - f).toNat) n
    else ofRatio (s != t) m (n * Nat.pow 2 (f - e).toNat)

instance : Add Binary64 := ⟨add⟩
instance : Sub Binary64 := ⟨sub⟩
instance : Mul Binary64 := ⟨mul⟩
instance : Div Binary64 := ⟨div⟩

/-- The order of two doubles as numbers; not-a-number has none. -/
def compare? : Binary64 → Binary64 → Option Ordering
  | .nan, _ | _, .nan => none
  | .infinite s, .infinite t =>
    some (if s = t then .eq else if s then .lt else .gt)
  | .infinite s, .finite .. => some (if s then .lt else .gt)
  | .finite .., .infinite t => some (if t then .gt else .lt)
  | .finite s m e, .finite t n f =>
    let g := min e f
    some (compare (scaledTo g s m e) (scaledTo g t n f))

/-- The integer part, cut toward zero and kept within `lo` and `hi`; not-a-number becomes zero. -/
def truncate (lo hi : Int) : Binary64 → Int
  | .nan => 0
  | .infinite s => if s then lo else hi
  | .finite s m e =>
    let n : Nat := if 0 ≤ e then m * Nat.pow 2 e.toNat else m / Nat.pow 2 (-e).toNat
    max lo (min hi (if s then -(n : Int) else n))

end Binary64

end Playback
