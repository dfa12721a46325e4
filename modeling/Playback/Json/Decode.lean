import Playback.Json.Value
/-!
# Typed reading of JSON values

Small readers for the shapes the records are made of. A reader answers `none` for a value of another
shape; why it refused is not part of any answer.
-/

namespace Playback.Json

def string? : Json → Option String
  | .str s => some s
  | _ => none

def bool? : Json → Option Bool
  | .bool b => some b
  | _ => none

def intIn? (lo hi : Int) : Json → Option Int
  | .num (.int i) => if lo ≤ i ∧ i ≤ hi then some i else none
  | _ => none

def natUpTo? (max : Nat) (v : Json) : Option Nat := (intIn? 0 max v).map Int.toNat

/-- A double; an integer counts as the double nearest to it. -/
def double? : Json → Option Binary64
  | .num (.int i) => some (.ofInt i)
  | .num (.double x) => some x
  | _ => none

def items? : Json → Option (List Json)
  | .arr items => some items
  | _ => none

def members? : Json → Option (List (String × Json))
  | .obj members => some members
  | _ => none

def list? {α : Type} (read : Json → Option α) (v : Json) : Option (List α) :=
  v.items?.bind (·.mapM read)

def dict? {α : Type} (read : Json → Option α) (v : Json) : Option (Dict α) :=
  match v with
  | .obj members => (members.mapM fun m => (read m.2).map fun a => (m.1, a)).map Dict.ofList
  | _ => none

/-- The fields of a record in the given order, each with its value if there is one. A record is an
object, whose other members do not matter, or an array of its fields in order. -/
def fields? (names : List String) : Json → Option (List (Option Json))
  | .obj members => some (names.map (member? members))
  | .arr items =>
    if items.length ≤ names.length then
      some (items.map some ++ List.replicate (names.length - items.length) none)
    else none
  | _ => none

def isNull : Json → Bool
  | .null => true
  | _ => false

def nonNull? (v : Json) : Option Json := if v.isNull then none else some v

end Playback.Json
