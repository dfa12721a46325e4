import Playback.Command.Basic
/-!
# Decoding and encoding commands

An entry of a command file becomes a command only if every field the action needs is there and well
formed; encoding a command gives an entry that decodes to it.
-/

namespace Playback

namespace RawCommand

def refuse {α : Type} (action detail : String) : Except Fault α :=
  .error (.invalidCommand (action ++ ": " ++ detail))

def required (field : Option Json) (action name : String) : Except Fault Json :=
  match field.bind Json.nonNull? with
  | some v => .ok v
  | none => refuse action ("missing " ++ name)

def parsed {α : Type} (read : Json → Option α) (field : Option Json) (action name : String) :
    Except Fault α := do
  let v ← required field action name
  match read v with
  | some a => .ok a
  | none => refuse action ("bad " ++ name ++ " " ++ v.compact)

/-- The condition of a click: nothing, an empty list, or a position and a color. -/
def parseCondition (field : Option Json) : Except Fault (Option ColorCondition) :=
  match field with
  | none | some .null | some (.arr []) => .ok none
  | some v =>
    let condition : Option ColorCondition := match v with
      | .arr [position, expected] => do
        some ⟨← Position.ofJson? position, ← Color.ofJson? expected⟩
      | _ => none
    match condition with
    | some c => .ok (some c)
    | none => refuse "click" ("bad condition " ++ v.compact)

def parseParam (action : String) (m : String × Json) : Except Fault (String × Answer) :=
  if m.2.isNull then .ok (m.1, .empty)
  else
    match Answer.ofJson? m.2 with
    | some a => .ok (m.1, a)
    | none => refuse action ("bad parameter " ++ m.1)

def parseParams (field : Option Json) (action : String) : Except Fault (Dict Answer) :=
  match field.bind Json.nonNull? with
  | none => .ok .empty
  | some (.obj members) => do
    let params ← members.mapM (parseParam action)
    .ok (Dict.ofList params)
  | some v => refuse action ("parameters must be an object, got " ++ v.compact)

/-- The command of an entry. The action is matched without blanks around it and in small letters. -/
def decode (r : RawCommand) : Except Fault Command := do
  match Text.toLower (Text.trim r.action) with
  | "click" =>
    let position ← parsed Position.ofJson? r.position "click" "position"
    let condition ← parseCondition r.condition
    .ok (.click position condition)
  | "write" =>
    let text ← required r.value "write" "value"
    let text := match text with
      | .str s => s
      | v => v.compact
    .ok (.write (.ofText text))
  | "color" =>
    let position ← parsed Position.ofJson? r.position "color" "position"
    let expected ← parsed Color.ofJson? r.value "color" "value"
    .ok (.color position expected)
  | "read" =>
    let name ← parsed Json.string? r.value "read" "value"
    let name := stripReference name
    if name.isEmpty then refuse "read" "blank attribute name"
    else
      let area ← parsed Area.ofJson? r.position "read" "position"
      .ok (.read area name)
  | "compare" | "compare_variables" =>
    let v ← required r.value "compare" "value"
    let comparison ← Comparison.ofJson v
    .ok (.compare comparison)
  | "scroll" =>
    let v ← required r.value "scroll" "value"
    let spec ← ScrollSpec.ofJson v
    .ok (.scroll spec)
  | "paramchange" | "param_change" =>
    let params ← parseParams r.value "paramChange"
    .ok (.paramChange params)
  | "webhook" =>
    let params ← parseParams r.value "webhook"
    .ok (.webhook params)
  | _ => .error (.invalidCommand ("unknown action '" ++ r.action ++ "'"))

end RawCommand

namespace Command

def dummyPosition : Json := .arr [.int 0, .int 0]

def paramsJson (params : Dict Answer) : Json := .ofDict (params.map Answer.toJson)

/-- The entry of a command file that decodes to the command. -/
def encode (c : Command) : RawCommand :=
  match c with
  | click position condition =>
    let condition := match condition with
      | some c => .arr [c.position.toJson, c.expected.toJson]
      | none => .null
    ⟨c.action, some position.toJson, none, some condition⟩
  | write text => ⟨c.action, some dummyPosition, some (.str text.toText), none⟩
  | color position expected => ⟨c.action, some position.toJson, some expected.toJson, none⟩
  | read area name => ⟨c.action, some area.toJson, some (.str name), none⟩
  | compare comparison => ⟨c.action, some dummyPosition, some comparison.toJson, none⟩
  | scroll spec => ⟨c.action, some dummyPosition, some spec.toJson, none⟩
  | paramChange params | webhook params => ⟨c.action, none, some (paramsJson params), none⟩

def toJson (c : Command) : Json := c.encode.toJson

def ofJson? (v : Json) : Option (Except Fault Command) :=
  (RawCommand.ofJson? v).map RawCommand.decode

end Command

end Playback
