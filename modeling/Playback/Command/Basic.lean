import Playback.Command.WriteText
import Playback.Question
import Playback.Scroll.Spec
/-!
# Commands

One recorded step of an automation, and the loosely typed entry of a command file that holds it.
-/

namespace Playback

/-- A click happens only when this pixel shows the expected color. -/
structure ColorCondition where
  position : Position
  expected : Color
  deriving DecidableEq, Repr, Inhabited

inductive Command where
  | click (position : Position) (condition : Option ColorCondition)
  | write (text : WriteText)
  | color (position : Position) (expected : Color)
  | read (area : Area) (name : String)
  | compare (comparison : Comparison)
  | scroll (spec : ScrollSpec)
  | paramChange (params : Dict Answer)
  | webhook (params : Dict Answer)
  deriving DecidableEq, Repr, Inhabited

namespace Command

def action : Command → String
  | click .. => "click"
  | write .. => "write"
  | color .. => "color"
  | read .. => "read"
  | compare .. => "compare"
  | scroll .. => "scroll"
  | paramChange .. => "paramChange"
  | webhook .. => "webhook"

end Command

/-- An entry of a command file. -/
structure RawCommand where
  action : String
  position : Option Json
  value : Option Json
  condition : Option Json
  deriving Repr, Inhabited

namespace RawCommand

def ofJson? (v : Json) : Option RawCommand := do
  match ← v.fields? ["action", "position", "value", "condition"] with
  | [some action, position, value, condition] =>
    some ⟨← action.string?, position.bind Json.nonNull?, value.bind Json.nonNull?,
      condition.bind Json.nonNull?⟩
  | _ => none

def toJson (r : RawCommand) : Json :=
  let field (name : String) (v : Option Json) : List (String × Json) :=
    match v with
    | some v => [(name, v)]
    | none => []
  .record (("action", .str r.action) :: field "position" r.position ++ field "value" r.value
    ++ field "condition" r.condition)

end RawCommand

end Playback
