import Playback.Document
import Playback.Question
import Playback.Yaml.Scalar
/-!
# The operation catalog

Which screen each operation lives on, which answers it delivers, and which input fields a task may
carry.
-/

namespace Playback

inductive OperationMode where
  | base
  | passive
  | active
  deriving DecidableEq, Repr, Inhabited

namespace OperationMode

def name : OperationMode → String
  | base => "base"
  | passive => "passive"
  | active => "active"

end OperationMode

structure Feature where
  mode : OperationMode
  screen : String
  outputs : List String
  deriving DecidableEq, Repr, Inhabited

structure InputSchema where
  fields : List String
  deriving DecidableEq, Repr, Inhabited

structure Catalog where
  operations : Dict Feature
  inputs : InputSchema
  deriving DecidableEq, Repr, Inhabited

def botIdAttribute : String := "BotId"

def baseOperation : String := "base"

namespace InputSchema

def standard : InputSchema :=
  ⟨["App", "Mode", "Action", "Id", "Listids", "Club", "Chipamount", timenow]⟩

def canonical? (s : InputSchema) (name : String) : Option String :=
  s.fields.find? fun field => Text.sameName field (Text.trim name)

/-- The first blank field or field that repeats an earlier one up to letter case; `seen` holds the
earlier ones in small letters. -/
def checkFields (seen : List String) : List String → Except Fault Unit
  | [] => .ok ()
  | field :: rest =>
    if Text.blank field then .error (.invalidCatalog "blank input field")
    else
      let small := Text.toLower field
      if seen.contains small then
        .error (.invalidCatalog ("duplicate input field '" ++ field ++ "'"))
      else checkFields (small :: seen) rest

def requireField (s : InputSchema) (name : String) : Except Fault Unit :=
  if (s.canonical? name).isSome then .ok ()
  else .error (.invalidCatalog ("input schema must declare '" ++ name ++ "'"))

def validate (s : InputSchema) : Except Fault Unit := do
  checkFields [] s.fields
  s.requireField appAttribute
  s.requireField actionAttribute

def scalarOfJson? : Json → Option Scalar
  | .str s => some (.text (Text.trim s))
  | v => Scalar.ofJson? v

/-- The answer of an input value: null is an empty one, nulls in a list are left out. -/
def answerOfJson? : Json → Option Answer
  | .null => some .empty
  | .arr items => ((items.filter fun v => !v.isNull).mapM scalarOfJson?).map .list
  | v => (scalarOfJson? v).map .one

/-- Puts one entry of an input object into the question. Entries outside the schema and empty values
are passed over, and `Timenow` is never taken. -/
def takeEntry (s : InputSchema) (q : Question) (e : String × Json) : Except Fault Question :=
  match s.canonical? e.1 with
  | none => .ok q
  | some field =>
    if isTimenow field then .ok q
    else
      match answerOfJson? e.2 with
      | some a => .ok (if a.isEmpty then q else q.set field a)
      | none => .error (.invalidCommand
          ("input field '" ++ field ++ "' holds an unsupported value: " ++ e.2.compact))

def buildQuestion (s : InputSchema) (raw : List (String × Json)) (botId : String) :
    Except Fault Question := do
  let q ← raw.foldlM s.takeEntry .empty
  return q.set botIdAttribute (.text botId)

end InputSchema

namespace Catalog

def standard : Catalog where
  operations := .ofList [
    ("base", ⟨.base, "clube", []⟩),
    ("transaction", ⟨.passive, "transacoes", ["Listatransacoes"]⟩),
    ("balance", ⟨.passive, "contador", ["Saldo"]⟩),
    ("members", ⟨.passive, "mesa", ["Membros"]⟩),
    ("club_stats", ⟨.passive, "membros", []⟩),
    ("real_time_stats",
      ⟨.passive, "dados", ["Ganhos", "Mãos", "bb100", "GanhoMTT", "Buyinspinup", "Taxa"]⟩),
    ("send_chips", ⟨.active, "contador", ["Ok", "Saldo"]⟩),
    ("receive_chips", ⟨.active, "contador", ["Ok", "Saldo"]⟩)]
  inputs := .standard

/-- The operation of this name, blanks around it aside: spelled exactly so, or else the first that
differs only in ASCII letter case. -/
def get? (c : Catalog) (operation : String) : Option Feature :=
  let name := Text.trim operation
  match c.operations.get? name with
  | some f => some f
  | none => (c.operations.entries.find? fun e => Text.sameName e.1 name).map (·.2)

def screenOf? (c : Catalog) (operation : String) : Option String :=
  (c.get? operation).map (·.screen)

def operationNames (c : Catalog) : List String := c.operations.keys

def screens (c : Catalog) : List String :=
  (c.operations.values.foldl (fun d f => d.insert f.screen ()) (Dict.empty : Dict Unit)).keys

def checkOperation (name : String) (f : Feature) : Except Fault Unit :=
  if Text.blank name || Text.trim name != name then
    .error (.invalidCatalog ("operation name '" ++ name ++ "' is blank or padded"))
  else if Text.blank f.screen then
    .error (.invalidCatalog ("operation '" ++ name ++ "' has no screen"))
  else
    match f.outputs.find? Text.blank with
    | some output => .error (.invalidCatalog
        ("operation '" ++ name ++ "' declares a blank output field '" ++ output ++ "'"))
    | none => .ok ()

def validate (c : Catalog) : Except Fault Unit := do
  if c.operations.entries.isEmpty then .error (.invalidCatalog "no operations declared")
  match c.operations.get? baseOperation with
  | none => .error (.invalidCatalog ("missing '" ++ baseOperation ++ "' operation"))
  | some f =>
    if f.mode != .base then
      .error (.invalidCatalog ("operation '" ++ baseOperation ++ "' must use mode 'base'"))
  c.operations.entries.forM fun e => checkOperation e.1 e.2
  c.inputs.validate

end Catalog

/-! ## Written forms -/

namespace Feature

def ofDocument? (v : Document) : Option Feature := do
  match ← v.fields? ["mode", "screen", "outputs"] with
  | [some mode, some screen, outputs] =>
    some ⟨← mode.choice? [("base", .base), ("passive", .passive), ("active", .active)],
      ← screen.text?, ← Document.field? (Document.list? Document.text?) [] outputs⟩
  | _ => none

def toJson (f : Feature) : Json :=
  .record [("mode", .str f.mode.name), ("screen", .str f.screen), ("outputs", .ofStrings f.outputs)]

end Feature

namespace InputSchema

def ofDocument? (v : Document) : Option InputSchema := (v.list? Document.text?).map .mk

end InputSchema

namespace Catalog

def ofDocument? (v : Document) : Option Catalog := do
  match ← v.fields? ["operations", "inputs"] with
  | [some operations, inputs] =>
    some ⟨← operations.dict? Feature.ofDocument?,
      ← Document.field? InputSchema.ofDocument? .standard inputs⟩
  | _ => none

def toJson (c : Catalog) : Json :=
  .record [("operations", .ofDict (c.operations.map Feature.toJson)),
    ("inputs", .ofStrings c.inputs.fields)]

/-- A member whose value is a list of texts, one per line, not indented below the name. -/
def yamlTexts (indent : Nat) (name : String) (texts : List String) : String :=
  let margin := String.ofList (List.replicate indent ' ')
  if texts.isEmpty then margin ++ name ++ ": []\n"
  else margin ++ name ++ ":\n" ++ String.join (texts.map fun s =>
    margin ++ "- " ++ Yaml.scalar false (indent + 2) s ++ "\n")

def yamlOperation (name : String) (f : Feature) : String :=
  "  " ++ Yaml.scalar true 2 name ++ ":\n" ++ "    mode: " ++ f.mode.name ++ "\n"
    ++ "    screen: " ++ Yaml.scalar false 6 f.screen ++ "\n" ++ yamlTexts 4 "outputs" f.outputs

def toYaml (c : Catalog) : String :=
  let operations := c.operations.entries.map fun e => yamlOperation e.1 e.2
  (if operations.isEmpty then "operations: \x7b\x7d\n"
    else "operations:\n" ++ String.join operations)
    ++ yamlTexts 0 "inputs" c.inputs.fields

end Catalog

end Playback
