import Playback.Comparison
/-!
# Scroll descriptors

What a search through a scrollable list looks for and where it looks, in its recorded array form
`[target, drag, base, anchors, extra attribute, extra offset]`.
-/

namespace Playback

structure ExtraRead where
  name : String
  /-- Corner-wise offset from the area of the probed row. -/
  offset : Area
  deriving DecidableEq, Repr, Inhabited

structure ScrollSpec where
  target : String
  drag : Area
  base : Area
  /-- Upper edges of the rows probed after the base area. -/
  anchors : List Position
  extra : Option ExtraRead
  deriving DecidableEq, Repr, Inhabited

namespace ScrollSpec

def refuse {α : Type} (v : Json) (what : String) : Except Fault α :=
  .error (.invalidCommand ("scroll " ++ what ++ ": " ++ v.compact))

def attributeName? (v : Json) : Option String :=
  match v with
  | .str s =>
    let name := stripReference s
    if name.isEmpty then none else some name
  | _ => none

def orRefuse {α : Type} (v : Json) (what : String) : Option α → Except Fault α
  | some a => .ok a
  | none => refuse v what

/-- Reads a descriptor. The last two entries are optional and may be null or empty. -/
def ofJson (v : Json) : Except Fault ScrollSpec :=
  match v with
  | .arr (target :: drag :: base :: anchors :: more) => do
    let target ← orRefuse v "target must be a question attribute" (attributeName? target)
    let drag ← orRefuse v "drag area is malformed" (Area.ofJson? drag)
    let base ← orRefuse v "base area is malformed" (Area.ofJson? base)
    let anchors ← orRefuse v "anchors are malformed" (anchors.list? Position.ofJson?)
    match more[0]?.bind attributeName?, more[1]?.bind Json.nonNull? with
    | some name, some offset =>
      let offset ← orRefuse v "extra area is malformed" (Area.ofJson? offset)
      .ok ⟨target, drag, base, anchors, some ⟨name, offset⟩⟩
    | _, _ => .ok ⟨target, drag, base, anchors, none⟩
  | v => refuse v "descriptor must have at least 4 entries"

def toJson (s : ScrollSpec) : Json :=
  let (name, offset) := match s.extra with
    | some e => (.str ("." ++ e.name), e.offset.toJson)
    | none => (.null, .null)
  .arr [.str ("." ++ s.target), s.drag.toJson, s.base.toJson,
    .arr (s.anchors.map Position.toJson), name, offset]

/-- The areas of the rows in the order they are probed: the base area, then one per anchor. -/
def candidates (s : ScrollSpec) : List Area :=
  s.base :: s.anchors.map fun p => s.base.withTop p.y

end ScrollSpec

end Playback
