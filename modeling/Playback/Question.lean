import Playback.Day
import Playback.Decimal.Shortest
import Playback.Fault
import Playback.Json.Decode
import Playback.Json.Reader
import Playback.Json.Writer
import Playback.Text.Blank
import Playback.Text.Case
/-!
# Questions

The answers gathered for one task, by attribute name. Names are found exactly or, failing that, with
ASCII letter case overlooked. `Timenow` is never stored: it always reads as the present day.
-/

namespace Playback

inductive Scalar where
  | bool (b : Bool)
  | int (i : Int)
  | float (x : Binary64)
  | text (s : String)
  deriving DecidableEq, Repr, Inhabited

namespace Scalar

def isEmpty : Scalar → Bool
  | text s => Text.blank s
  | _ => false

def asText : Scalar → String
  | bool b => if b then "true" else "false"
  | int i => toString i
  | float x => x.plain
  | text s => s

def toJson : Scalar → Json
  | bool b => .bool b
  | int i => .int i
  | float x => .double x
  | text s => .str s

def ofJson? : Json → Option Scalar
  | .bool b => some (.bool b)
  | .num (.int i) =>
    some (if Int64.minValue.toInt ≤ i ∧ i ≤ Int64.maxValue.toInt then .int i else .float (.ofInt i))
  | .num (.double x) => some (.float x)
  | .str s => some (.text s)
  | _ => none

end Scalar

inductive Answer where
  | list (items : List Scalar)
  | one (value : Scalar)
  deriving DecidableEq, Repr, Inhabited

namespace Answer

def empty : Answer := .list []

def text (s : String) : Answer := .one (.text s)

def bool (b : Bool) : Answer := .one (.bool b)

def isEmpty : Answer → Bool
  | list items => items.all Scalar.isEmpty
  | one v => v.isEmpty

/-- The value as it is typed and compared; a list stands for its last element. -/
def asText : Answer → String
  | list items => (items.getLast?.map Scalar.asText).getD ""
  | one v => v.asText

def bool? : Answer → Option Bool
  | one (.bool b) => some b
  | _ => none

def toJson : Answer → Json
  | list items => .arr (items.map Scalar.toJson)
  | one v => v.toJson

def ofJson? : Json → Option Answer
  | .arr items => (items.mapM Scalar.ofJson?).map .list
  | v => (Scalar.ofJson? v).map .one

/-- The answer with one more element at its end; a lone scalar becomes the first element of a list
unless it is blank. -/
def push (a : Answer) (v : Scalar) : Answer :=
  match a with
  | list items => .list (items ++ [v])
  | one previous => if previous.isEmpty then .list [v] else .list [previous, v]

end Answer

def timenow : String := "Timenow"

def okAttribute : String := "Ok"

/-- The attribute that names the requested operation. -/
def actionAttribute : String := "Action"

def appAttribute : String := "App"

def chosenAttribute : String := "chosen_feature"

/-- Whether the name is a spelling of `Timenow`. -/
def isTimenow (name : String) : Bool := Text.sameName name timenow

structure Question where
  attrs : Dict Answer
  deriving DecidableEq, Repr

namespace Question

def empty : Question := ⟨.empty⟩

instance : Inhabited Question := ⟨empty⟩

/-- The stored answer under this name, or under the first name that differs only in letter case. -/
def stored? (q : Question) (name : String) : Option Answer :=
  match q.attrs.get? name with
  | some a => some a
  | none => (q.attrs.entries.find? fun e => Text.sameName e.1 name).map (·.2)

def get? (q : Question) (today : Day) (name : String) : Option Answer :=
  if isTimenow name then some (.text today.dashed) else q.stored? name

def getText? (q : Question) (today : Day) (name : String) : Option String :=
  (q.get? today name).map Answer.asText

def set (q : Question) (name : String) (a : Answer) : Question :=
  if isTimenow name then q else ⟨q.attrs.insert name a⟩

/-- The question with `v` added to the answer under the first name that agrees up to letter case. -/
def push (q : Question) (name : String) (v : Scalar) : Question :=
  if isTimenow name then q
  else
    let key := (q.attrs.keys.find? fun k => Text.sameName k name).getD name
    ⟨q.attrs.insert key (((q.attrs.get? key).getD .empty).push v)⟩

def reset (q : Question) : Question := ⟨q.attrs.map fun _ => .empty⟩

def ofAttrs (attrs : Dict Answer) : Question :=
  attrs.entries.foldl (fun q e => q.set e.1 e.2) empty

def toJson (q : Question) : Json := .ofDict (q.attrs.map Answer.toJson)

def attrsOfJson? (v : Json) : Option (Dict Answer) := v.dict? Answer.ofJson?

end Question

structure Job where
  question : Question
  filter : String
  deriving DecidableEq, Repr, Inhabited

namespace Job

def operation? (j : Job) : Option String :=
  match j.question.stored? actionAttribute with
  | some a =>
    let name := Text.trim a.asText
    if name.isEmpty then none else some name
  | none => none

def app? (j : Job) : Option String :=
  match j.question.stored? appAttribute with
  | some a =>
    let name := Text.toLower (Text.trim a.asText)
    if name.isEmpty then none else some name
  | none => none

/-- The envelope of a job: the question, written as JSON text of its own, and the filter. -/
def envelope (j : Job) : Json :=
  .obj [("question", .str j.question.toJson.compact), ("filtro", .str j.filter)]

def toText (j : Job) : String := j.envelope.pretty 0

/-- Reads an envelope whose question is JSON text or a plain object. -/
def ofJson (v : Json) : Except Fault Job :=
  let job : Option Job := do
    match ← v.fields? ["question", "filtro"] with
    | [some question, filter] =>
      let filter ← match filter with
        | some v => v.string?
        | none => some ""
      let attrs ← match question with
        | .str text => (Json.read? text).bind Question.attrsOfJson?
        | question => Question.attrsOfJson? question
      some ⟨.ofAttrs attrs, filter⟩
    | _ => none
  match job with
  | some j => .ok j
  | none => .error .json

def ofText (s : String) : Except Fault Job :=
  match Json.parse? s with
  | some v => ofJson v
  | none => .error .json

end Job

end Playback
