import Playback.Decimal.Binary64
/-!
# Shortest decimals

The decimal with the fewest digits that reads back as a given double, and of those the nearest.
-/

namespace Playback

structure Decimal where
  digits : Nat
  exponent : Int
  deriving DecidableEq, Repr

/-- Which of two equally near decimals is taken. -/
inductive Tie where
  | even
  | up
  deriving DecidableEq, Repr

namespace Decimal

def magnitude (num den : Nat) : Int :=
  let p := (floorLog2 num den * 30102999566398).fdiv 100000000000000 + 1
  let reached := if 0 ≤ p then den * Nat.pow 10 p.toNat ≤ num else den ≤ num * Nat.pow 10 (-p).toNat
  if reached then p + 1 else p

/-- The two neighbours of `num / den` on the grid of multiples of `10 ^ unit`, the nearer first. -/
def neighbours (tie : Tie) (num den : Nat) (unit : Int) : List Decimal :=
  let (num, den) :=
    if 0 ≤ unit then (num, den * Nat.pow 10 unit.toNat) else (num * Nat.pow 10 (-unit).toNat, den)
  let q := num / den
  let r := num % den
  let lower : Decimal := ⟨q, unit⟩
  let upper : Decimal := ⟨q + 1, unit⟩
  let downFirst : Bool :=
    if 2 * r = den then tie == .even && q % 2 == 0 else decide (2 * r < den)
  if downFirst then [lower, upper] else [upper, lower]

def dropZeros : Nat → Decimal → Decimal
  | 0, d => d
  | n + 1, d =>
    if d.digits ≠ 0 ∧ d.digits % 10 = 0 then dropZeros n ⟨d.digits / 10, d.exponent + 1⟩ else d

def exact (m : Nat) (e : Int) : Decimal :=
  if 0 ≤ e then ⟨m * Nat.pow 2 e.toNat, 0⟩ else ⟨m * Nat.pow 5 (-e).toNat, e⟩

/-- The first decimal on ever finer grids that reads back as `m · 2 ^ e`; all digits where none of
the grids has one. -/
def shortestFrom (tie : Tie) (m : Nat) (e : Int) : List Nat → Decimal
  | [] => exact m e
  | places :: rest =>
    let (num, den) := if 0 ≤ e then (m * Nat.pow 2 e.toNat, 1) else (m, Nat.pow 2 (-e).toNat)
    let grid := neighbours tie num den (magnitude num den - places)
    match grid.find? fun d => Binary64.ofDecimal false d.digits d.exponent == .finite false m e with
    | some d => d
    | none => shortestFrom tie m e rest

/-- The shortest decimal that reads back as `m · 2 ^ e`. Seventeen digits always suffice. -/
def shortest (tie : Tie) (m : Nat) (e : Int) : Decimal :=
  if m = 0 then ⟨0, 0⟩ else dropZeros 400 (shortestFrom tie m e (List.range' 1 17))

def digitChars (n : Nat) : List Char := Nat.toDigits 10 n

def positional (d : Decimal) : List Char :=
  let cs := digitChars d.digits
  if 0 ≤ d.exponent then cs ++ List.replicate d.exponent.toNat '0'
  else
    let point := (cs.length : Int) + d.exponent
    if 0 < point then cs.take point.toNat ++ '.' :: cs.drop point.toNat
    else '0' :: '.' :: List.replicate (-point).toNat '0' ++ cs

end Decimal

/-- A double in positional notation with the fewest digits that read back: no exponent, and no point
for an integral value. -/
def Binary64.plain : Binary64 → String
  | .nan => "NaN"
  | .infinite s => if s then "-inf" else "inf"
  | .finite s m e =>
    let cs := (Decimal.shortest .up m e).positional
    String.ofList (if s then '-' :: cs else cs)

end Playback
