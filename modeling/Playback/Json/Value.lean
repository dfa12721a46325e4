import Playback.Decimal.Binary64
import Playback.Dict
/-!
# JSON values

The value tree, its canonical form and the constructors the encoders share.
-/

namespace Playback

inductive Json.Number where
  | int (i : Int)
  | double (x : Binary64)
  deriving DecidableEq, Repr, Inhabited

/-- A JSON value; an object lists its members as they stand in the text. -/
inductive Json where
  | null
  | bool (b : Bool)
  | num (n : Json.Number)
  | str (s : String)
  | arr (items : List Json)
  | obj (members : List (String × Json))
  deriving Repr, Inhabited

namespace Json

mutual

/-- The same value with the members of every object in the order of their names; of several members
of one name the last remains. -/
def canonical : Json → Json
  | .arr items => .arr (canonicalItems items)
  | .obj members => .obj (Dict.ofList (canonicalMembers members)).entries
  | v => v

def canonicalItems : List Json → List Json
  | [] => []
  | v :: rest => canonical v :: canonicalItems rest

def canonicalMembers : List (String × Json) → List (String × Json)
  | [] => []
  | (name, v) :: rest => (name, canonical v) :: canonicalMembers rest

end

def int (i : Int) : Json := .num (.int i)

def nat (n : Nat) : Json := .num (.int n)

/-- The number for a double; one that is not finite is written as null. -/
def double (x : Binary64) : Json := if x.isFinite then .num (.double x) else .null

def ofStrings (ss : List String) : Json := .arr (ss.map .str)

def ofDict (d : Dict Json) : Json := .obj d.entries

/-- An object of the given members, put in the order of their names. -/
def record (members : List (String × Json)) : Json := .obj (Dict.ofList members).entries

def ofString? : Option String → Json
  | some s => .str s
  | none => .null

def member? (members : List (String × Json)) (name : String) : Option Json :=
  (members.reverse.find? fun m => m.1 == name).map (·.2)

end Json

end Playback
