import Playback.Proofs.Codec
/-!
# Entries as values

A command is written as a value that a text can spell, whatever its numbers are: what is not a
number, or infinite, is written as null.
-/

namespace Playback.Proofs.Entries

open Codec Doubles JsonValues

/-! ## Numbers as a machine has them -/

/-- A double in its one form, be it a number or not. -/
def ProperDouble : Binary64 → Prop
  | .finite _ m e => Regular m e
  | _ => True

structure ProperPosition (p : Position) : Prop where
  x : ProperDouble p.x
  y : ProperDouble p.y

structure ProperArea (a : Area) : Prop where
  start : ProperPosition a.start
  finish : ProperPosition a.finish

def ProperScalar : Scalar → Prop
  | .int i => Int64.minValue.toInt ≤ i ∧ i ≤ Int64.maxValue.toInt
  | .float x => ProperDouble x
  | _ => True

def ProperAnswer : Answer → Prop
  | .list items => ∀ v ∈ items, ProperScalar v
  | .one v => ProperScalar v

def ProperParams (params : Dict Answer) : Prop := ∀ e ∈ params.entries, ProperAnswer e.2

def ProperOperand : Operand → Prop
  | .read area => ProperArea area
  | .question _ => True

structure ProperComparison (c : Comparison) : Prop where
  lhs : ProperOperand c.lhs
  rhs : ProperOperand c.rhs

structure ProperScroll (s : ScrollSpec) : Prop where
  drag : ProperArea s.drag
  base : ProperArea s.base
  anchors : ∀ p ∈ s.anchors, ProperPosition p
  extra : ∀ e, s.extra = some e → ProperArea e.offset

/-- The numbers of the command are numbers of a machine. -/
def ProperCommand : Command → Prop
  | .click position condition =>
    ProperPosition position ∧ ∀ c, condition = some c → ProperPosition c.position
  | .write _ => True
  | .color position _ => ProperPosition position
  | .read area _ => ProperArea area
  | .compare comparison => ProperComparison comparison
  | .scroll spec => ProperScroll spec
  | .paramChange params | .webhook params => ProperParams params

theorem proper_double {x : Binary64} (h : SoundDouble x) : ProperDouble x := by
  cases x with
  | nan => trivial
  | infinite s => trivial
  | finite s m e => exact h

theorem proper_position {p : Position} (h : SoundPosition p) : ProperPosition p :=
  ⟨proper_double h.x, proper_double h.y⟩

theorem proper_area {a : Area} (h : SoundArea a) : ProperArea a :=
  ⟨proper_position h.start, proper_position h.finish⟩

theorem proper_scalar {v : Scalar} (h : SoundScalar v) : ProperScalar v := by
  cases v with
  | bool b => trivial
  | int i => exact h
  | float x => exact proper_double h
  | text s => trivial

theorem proper_answer {a : Answer} (h : SoundAnswer a) : ProperAnswer a := by
  cases a with
  | list items => exact fun v hv => proper_scalar (h v hv)
  | one v => exact proper_scalar h

theorem proper_params {params : Dict Answer} (h : SoundParams params) : ProperParams params :=
  fun e he => proper_answer (h e he)

theorem proper_operand {o : Operand} (h : SoundOperand o) : ProperOperand o := by
  cases o with
  | read area => exact proper_area h
  | question name => trivial

theorem proper_command {c : Command} (h : SoundCommand c) : ProperCommand c := by
  cases c with
  | click position condition =>
    exact ⟨proper_position h.1, fun c hc => proper_position (h.2 c hc)⟩
  | write text => trivial
  | color position expected => exact proper_position h
  | read area name => exact proper_area h.1
  | compare comparison => exact ⟨proper_operand h.lhs, proper_operand h.rhs⟩
  | scroll spec =>
    exact ⟨proper_area h.drag, proper_area h.base, fun p hp => proper_position (h.anchors p hp),
      fun e he => proper_area (h.extra e he).offset⟩
  | paramChange params => exact proper_params h
  | webhook params => exact proper_params h

/-! ## Written numbers -/

theorem textual_double {n : Nat} {x : Binary64} (h : ProperDouble x) :
    Textual n (Json.double x) := by
  cases x with
  | nan => exact .null
  | infinite s => exact .null
  | finite s m e => exact .num h

theorem textual_position {p : Position} (h : ProperPosition p) : Textual 1 p.toJson :=
  textual_pair (textual_double h.x) (textual_double h.y)

theorem textual_area {a : Area} (h : ProperArea a) : Textual 2 a.toJson :=
  textual_pair (textual_position h.start) (textual_position h.finish)

theorem textual_color (c : Color) : Textual 1 c.toJson := faithful_color.textual_write trivial

theorem textual_items {α : Type} {n : Nat} {write : α → Json} {items : List α}
    (h : ∀ a ∈ items, Textual n (write a)) : Textual (n + 1) (.arr (items.map write)) := by
  refine .arr fun v hv => ?_
  obtain ⟨a, ha, rfl⟩ := List.mem_map.1 hv
  exact h a ha

theorem textual_scalar {v : Scalar} (h : ProperScalar v) : Textual 0 v.toJson := by
  cases v with
  | bool b => exact .bool b
  | int i => exact faithful_scalar.textual_write (a := .int i) h
  | float x => exact textual_double h
  | text s => exact .str s

theorem textual_answer {a : Answer} (h : ProperAnswer a) : Textual 1 a.toJson := by
  cases a with
  | list items => exact textual_items fun v hv => textual_scalar (h v hv)
  | one v => exact (textual_scalar h).mono (Nat.zero_le 1)

/-! ## Written commands -/

theorem textual_record {n : Nat} {members : List (String × Json)}
    (h : ∀ m ∈ members, Textual n m.2) : Textual (n + 1) (.record members) :=
  .obj (fun m hm => h m (Names.mem_of_mem_ofList hm)) (Dict.sorted _)

theorem textual_operand {o : Operand} (h : ProperOperand o) : Textual 2 o.toJson := by
  cases o with
  | read area => exact textual_area h
  | question name => exact .str _

theorem textual_comparison {c : Comparison} (h : ProperComparison c) : Textual 3 c.toJson := by
  refine .arr fun v hv => ?_
  simp only [List.mem_cons, List.not_mem_nil, or_false] at hv
  obtain rfl | rfl | rfl | rfl := hv
  · exact .str _
  · exact .str _
  · exact textual_operand h.lhs
  · exact textual_operand h.rhs

theorem textual_cells {s : ScrollSpec} (h : ProperScroll s) {name offset : Json}
    (hname : Textual 2 name) (hoffset : Textual 2 offset) :
    Textual 3 (.arr [.str ("." ++ s.target), s.drag.toJson, s.base.toJson,
      .arr (s.anchors.map Position.toJson), name, offset]) := by
  refine .arr fun v hv => ?_
  simp only [List.mem_cons, List.not_mem_nil, or_false] at hv
  obtain rfl | rfl | rfl | rfl | rfl | rfl := hv
  · exact .str _
  · exact textual_area h.drag
  · exact textual_area h.base
  · exact textual_items fun p hp => textual_position (h.anchors p hp)
  · exact hname
  · exact hoffset

theorem textual_scroll {s : ScrollSpec} (h : ProperScroll s) : Textual 3 s.toJson := by
  unfold ScrollSpec.toJson
  cases hextra : s.extra with
  | none => exact textual_cells h .null .null
  | some e => exact textual_cells h (.str _) (textual_area (h.extra e hextra))

theorem textual_params {params : Dict Answer} (h : ProperParams params) :
    Textual 2 (Command.paramsJson params) := by
  refine .obj (fun m hm => ?_) (Dict.sorted _)
  obtain ⟨e, he, rfl⟩ := List.mem_map.1 hm
  exact textual_answer (h e he)

def fieldMembers (name : String) (field : Option Json) : List (String × Json) :=
  match field with
  | some v => [(name, v)]
  | none => []

theorem toJson_eq (r : RawCommand) :
    r.toJson = .record (("action", .str r.action) :: fieldMembers "position" r.position ++
      fieldMembers "value" r.value ++ fieldMembers "condition" r.condition) := rfl

theorem textual_fieldMembers {n : Nat} {name : String} {field : Option Json}
    (h : ∀ v, field = some v → Textual n v) : ∀ m ∈ fieldMembers name field, Textual n m.2 := by
  intro m hm
  cases field with
  | none => cases hm
  | some v =>
    rw [List.mem_singleton.1 hm]
    exact h v rfl

theorem textual_toJson {n : Nat} {r : RawCommand}
    (hposition : ∀ v, r.position = some v → Textual n v)
    (hvalue : ∀ v, r.value = some v → Textual n v)
    (hcondition : ∀ v, r.condition = some v → Textual n v) : Textual (n + 1) r.toJson := by
  rw [toJson_eq]
  apply textual_record
  intro m hm
  simp only [List.mem_append, List.cons_append, List.mem_cons] at hm
  obtain rfl | (hm | hm) | hm := hm
  · exact .str _
  · exact textual_fieldMembers hposition m hm
  · exact textual_fieldMembers hvalue m hm
  · exact textual_fieldMembers hcondition m hm

theorem textual_dummy : Textual 3 Command.dummyPosition := by
  have hzero : Textual 2 (.int 0) := .num ⟨by decide, by decide⟩
  exact textual_pair hzero hzero

theorem textual_some {n : Nat} {v : Json} (h : Textual n v) :
    ∀ w, some v = some w → Textual n w := by
  rintro w ⟨⟩
  exact h

theorem textual_none {n : Nat} : ∀ w, none = some w → Textual n w := by
  rintro w ⟨⟩

theorem textual_condition {position : Position} {condition : Option ColorCondition}
    (h : ∀ c, condition = some c → ProperPosition c.position) :
    ∀ v, (Command.click position condition).encode.condition = some v → Textual 2 v := by
  cases condition with
  | none => exact textual_some .null
  | some c =>
    have hpixel := textual_position (h c rfl)
    have hcolor := textual_color c.expected
    exact textual_some (textual_pair hpixel hcolor)

theorem textual_encode {c : Command} (h : ProperCommand c) : Textual 4 c.toJson := by
  cases c with
  | click position condition =>
    have hposition := textual_position h.1
    exact textual_toJson (textual_some (hposition.mono (by decide))) textual_none
      fun v hv => (textual_condition h.2 v hv).mono (by decide)
  | write text =>
    exact textual_toJson (textual_some textual_dummy) (textual_some (.str _)) textual_none
  | color position expected =>
    have hposition := textual_position h
    have hcolor := textual_color expected
    exact textual_toJson (textual_some (hposition.mono (by decide)))
      (textual_some (hcolor.mono (by decide))) textual_none
  | read area name =>
    have harea := textual_area h
    exact textual_toJson (textual_some (harea.mono (by decide))) (textual_some (.str _))
      textual_none
  | compare comparison =>
    exact textual_toJson (textual_some textual_dummy) (textual_some (textual_comparison h))
      textual_none
  | scroll spec =>
    exact textual_toJson (textual_some textual_dummy) (textual_some (textual_scroll h)) textual_none
  | paramChange params =>
    have hparams := textual_params h
    exact textual_toJson textual_none (textual_some (hparams.mono (by decide))) textual_none
  | webhook params =>
    have hparams := textual_params h
    exact textual_toJson textual_none (textual_some (hparams.mono (by decide))) textual_none

end Playback.Proofs.Entries
