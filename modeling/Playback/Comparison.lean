import Playback.Day
import Playback.Decimal.Amount
import Playback.Fault
import Playback.Geometry
import Playback.Json.Writer
import Playback.Text.Case
/-!
# Comparisons

A recorded comparison `[kind, operator, left, right]` and the truth of an operator over two texts.
-/

namespace Playback

inductive Operator where
  | eq
  | ne
  | lt
  | le
  | gt
  | ge
  /-- Both sides are days, the right one at least a week before the left one. -/
  | period
  deriving DecidableEq, Repr, Inhabited

namespace Operator

def symbol : Operator → String
  | eq => "=="
  | ne => "!="
  | lt => "<"
  | le => "<="
  | gt => ">"
  | ge => ">="
  | period => "periodo"

def ofText (s : String) : Except Fault Operator :=
  let s := Text.toLower (Text.trim s)
  match [eq, ne, lt, le, gt, ge, period].find? fun op => op.symbol == s with
  | some op => .ok op
  | none => .error (.invalidComparator s)

end Operator

def parseDay (s : String) : Except Fault Day :=
  match Day.ofText? s with
  | some d => .ok d
  | none => .error (.invalidDate s)

/-- The order of two texts: as numbers if both write one, else as trimmed texts. -/
def textOrder (a b : String) : Option Ordering :=
  match Amount.ofText? a, Amount.ofText? b with
  | some x, some y => x.compare? y
  | _, _ => some (compare (Text.trim a) (Text.trim b))

def Operator.holdsOf : Operator → Ordering → Bool
  | eq, o => o == .eq
  | ne, o => o != .eq
  | lt, o => o == .lt
  | le, o => o != .gt
  | gt, o => o == .gt
  | ge, o => o != .lt
  | period, o => o != .lt

def evaluate (op : Operator) (a b : String) : Except Fault Bool :=
  match op with
  | .period => do
    let first ← parseDay a
    let second ← parseDay b
    .ok (decide (second.number ≤ first.number ∧ second.number + 7 ≤ first.number))
  | op =>
    match textOrder a b with
    | some o => .ok (op.holdsOf o)
    | none => .ok false

/-- Attribute names are recorded with a point in front, which is not part of the name. -/
def stripReference (name : String) : String :=
  match Text.trimChars name.toList with
  | '.' :: rest => String.ofList rest
  | cs => String.ofList cs

inductive Operand where
  | read (area : Area)
  | question (name : String)
  deriving DecidableEq, Repr, Inhabited

namespace Operand

def letter : Operand → Char
  | read _ => 'R'
  | question _ => 'Q'

def ofJson (letter : Char) (v : Json) : Except Fault Operand :=
  if letter == 'R' then
    match Area.ofJson? v with
    | some a => .ok (.read a)
    | none => .error (.invalidCommand ("bad read area " ++ v.compact))
  else if letter == 'Q' then
    match v with
    | .str s => .ok (.question (stripReference s))
    | _ => .error (.invalidCommand ("question operand must be a name, got " ++ v.compact))
  else .error (.invalidVariableKind (String.ofList [letter]))

def toJson : Operand → Json
  | read a => a.toJson
  | question name => .str ("." ++ name)

def label (o : Operand) (side : Nat) : String :=
  String.ofList [o.letter.toLower] ++ toString side

end Operand

structure Comparison where
  op : Operator
  lhs : Operand
  rhs : Operand
  deriving DecidableEq, Repr, Inhabited

namespace Comparison

def kind (c : Comparison) : String := String.ofList [c.lhs.letter, c.rhs.letter]

/-- A comparison from its four parts; the kind is two letters, `R` or `Q`. -/
def ofParts (kind op : String) (lhs rhs : Json) : Except Fault Comparison := do
  let isKind (c : Char) : Bool := c == 'R' || c == 'Q'
  match (Text.toUpper (Text.trim kind)).toList with
  | [left, right] =>
    if isKind left && isKind right then
      let op ← Operator.ofText op
      let lhs ← Operand.ofJson left lhs
      let rhs ← Operand.ofJson right rhs
      .ok ⟨op, lhs, rhs⟩
    else .error (.invalidVariableKind kind)
  | _ => .error (.invalidVariableKind kind)

def ofJson (v : Json) : Except Fault Comparison :=
  match v with
  | .arr [kind, op, lhs, rhs] =>
    match kind, op with
    | .str kind, .str op => ofParts kind op lhs rhs
    | .str _, op => .error (.invalidComparator op.compact)
    | kind, _ => .error (.invalidVariableKind kind.compact)
  | v => .error (.invalidCommand ("comparison must be [kind, op, lhs, rhs], got " ++ v.compact))

def toJson (c : Comparison) : Json :=
  .arr [.str c.kind, .str c.op.symbol, c.lhs.toJson, c.rhs.toJson]

end Comparison

end Playback
