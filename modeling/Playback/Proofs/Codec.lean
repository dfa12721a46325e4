import Playback.Command.Codec
import Playback.Proofs.JsonValues
import Playback.Proofs.Names
/-!
# Encoding commands

A command that was decoded from an entry of a command file is encoded as an entry that decodes to
it. Decoding drops blanks, points, letter case and fields that do not matter; what is left is
written in a form in which nothing more is dropped. The attribute of a read is the exception: its
point is not put back.
-/

namespace Playback.Proofs.Codec

open JsonValues Names

/-! ## Names of attributes -/

/-- The name is found again behind a point. -/
def Referable (name : String) : Prop := stripReference ("." ++ name) = name

theorem rdropWhile_trimChars (cs : List Char) :
    (Text.trimChars cs).rdropWhile Text.isBlank = Text.trimChars cs := by
  rw [trimChars_eq, List.rdropWhile_idempotent]

theorem trimChars_cons {c : Char} {cs : List Char} (hc : Text.isBlank c = false)
    (hcs : cs.rdropWhile Text.isBlank = cs) : Text.trimChars (c :: cs) = c :: cs := by
  rw [List.rdropWhile_eq_self_iff] at hcs
  rw [trimChars_eq, List.dropWhile_cons_of_neg (by simp [hc]), List.rdropWhile_eq_self_iff]
  intro hne
  cases cs with
  | nil => simpa using hc
  | cons d ds =>
    rw [List.getLast_cons (List.cons_ne_nil d ds)]
    exact hcs (List.cons_ne_nil d ds)

theorem stripReference_point {cs : List Char} (hcs : cs.rdropWhile Text.isBlank = cs) :
    stripReference ("." ++ String.ofList cs) = String.ofList cs := by
  have htrimmed : Text.trimChars ('.' :: cs) = '.' :: cs := trimChars_cons (by decide) hcs
  simp [stripReference, htrimmed]

theorem referable_stripReference (s : String) : Referable (stripReference s) := by
  have htrimmed := rdropWhile_trimChars s.toList
  unfold stripReference
  split
  · rename_i rest hpoint
    rw [hpoint, List.rdropWhile_eq_self_iff] at htrimmed
    apply stripReference_point
    rw [List.rdropWhile_eq_self_iff]
    intro hne
    rw [← List.getLast_cons hne (a := '.')]
    exact htrimmed (List.cons_ne_nil _ _)
  · exact stripReference_point htrimmed

/-! ## Texts to be typed -/

theorem ofText_literal (cs : List Char) :
    WriteText.ofText (WriteText.literal (String.ofList cs)).toText =
      .literal (String.ofList cs) := by
  simp [WriteText.ofText, WriteText.toText, WriteText.unquoted?]

theorem ofText_secret {cs : List Char} (hcs : Text.trimChars cs = cs) :
    WriteText.ofText (WriteText.secret (String.ofList cs)).toText = .secret (String.ofList cs) := by
  simp [WriteText.ofText, WriteText.toText, WriteText.unquoted?, hcs]

theorem ofText_question {name : String} (h : Referable name) :
    WriteText.ofText (WriteText.question name).toText = .question name := by
  have hname : stripReference ("." ++ name) = name := h
  simp [WriteText.ofText, WriteText.toText, WriteText.unquoted?, hname]

theorem ofText_toText_ofText (s : String) :
    WriteText.ofText (WriteText.ofText s).toText = WriteText.ofText s := by
  cases hquoted : WriteText.unquoted? s.toList with
  | some cs =>
    have htext : WriteText.ofText s = .literal (String.ofList cs) := by
      simp [WriteText.ofText, hquoted]
    rw [htext, ofText_literal]
  | none =>
    by_cases hsecret : ∃ cs, s.toList = '$' :: cs
    · obtain ⟨cs, hcs⟩ := hsecret
      have htext : WriteText.ofText s = .secret (String.ofList (Text.trimChars cs)) := by
        rw [WriteText.ofText, hquoted]
        simp only [hcs]
      rw [htext, ofText_secret (trimChars_trimChars cs)]
    · by_cases hpoint : ∃ cs, s.toList = '.' :: cs
      · obtain ⟨cs, hcs⟩ := hpoint
        have htext : WriteText.ofText s = .question (stripReference s) := by
          rw [WriteText.ofText, hquoted]
          simp only [hcs]
        rw [htext, ofText_question (referable_stripReference s)]
      · have htext : WriteText.ofText s = .raw s := by
          unfold WriteText.ofText
          rw [hquoted]
          dsimp only
          split
          · exact absurd ⟨_, ‹_›⟩ hsecret
          · exact absurd ⟨_, ‹_›⟩ hpoint
          · rfl
        rw [htext]
        exact htext

/-! ## Sequences that may be refused -/

section Sequences

variable {ε α β : Type}

theorem ok_bind (a : α) (f : α → Except ε β) : ((.ok a : Except ε α) >>= f) = f a := rfl

theorem bind_eq_ok {x : Except ε α} {f : α → Except ε β} {b : β} :
    (x >>= f) = .ok b ↔ ∃ a, x = .ok a ∧ f a = .ok b := by
  cases x with
  | error e => simp [bind, Except.bind]
  | ok a => simp [bind, Except.bind]

theorem mapM_eq_ok_iff {f : α → Except ε β} {l : List α} {bs : List β} :
    l.mapM f = .ok bs ↔ List.Forall₂ (fun a b => f a = .ok b) l bs := by
  induction l generalizing bs with
  | nil =>
    rw [List.mapM_nil, List.forall₂_nil_left_iff]
    constructor
    · intro h
      cases h
      rfl
    · intro h
      rw [h]
      rfl
  | cons a l ih =>
    rw [List.mapM_cons, bind_eq_ok, List.forall₂_cons_left_iff]
    constructor
    · rintro ⟨b, hb, h⟩
      obtain ⟨rest, hrest, heq⟩ := bind_eq_ok.1 h
      cases heq
      exact ⟨b, rest, hb, ih.1 hrest, rfl⟩
    · rintro ⟨b, rest, hb, hrest, rfl⟩
      exact ⟨b, hb, bind_eq_ok.2 ⟨rest, ih.2 hrest, rfl⟩⟩

theorem forall_of_forall₂ {R : α → β → Prop} {P : α → Prop} {Q : β → Prop} {l : List α}
    {bs : List β} (h : List.Forall₂ R l bs) (hl : ∀ a ∈ l, P a)
    (hstep : ∀ a b, P a → R a b → Q b) : ∀ b ∈ bs, Q b := by
  induction h with
  | nil => simp
  | @cons a b l bs hab _ ih =>
    intro c hc
    obtain rfl | hc := List.mem_cons.1 hc
    · exact hstep a c (hl a List.mem_cons_self) hab
    · exact ih (fun a' ha' => hl a' (List.mem_cons_of_mem a ha')) c hc

end Sequences

/-! ## Comparisons -/

def SoundOperand : Operand → Prop
  | .read area => SoundArea area
  | .question name => Referable name

structure SoundComparison (c : Comparison) : Prop where
  lhs : SoundOperand c.lhs
  rhs : SoundOperand c.rhs

theorem sound_of_operand {letter : Char} {v : Json} {o : Operand} (hv : Sound v)
    (h : Operand.ofJson letter v = .ok o) : SoundOperand o := by
  unfold Operand.ofJson at h
  split at h
  · split at h
    · rename_i harea
      cases h
      exact faithful_area.sound_read hv harea
    · cases h
  · split at h
    · split at h
      · cases h
        exact referable_stripReference _
      · cases h
    · cases h

theorem operand_ofJson_toJson {o : Operand} (h : SoundOperand o) :
    Operand.ofJson o.letter o.toJson = .ok o := by
  cases o with
  | read area => simp [Operand.ofJson, Operand.letter, Operand.toJson, faithful_area.read_write h]
  | question name =>
    have hname : stripReference ("." ++ name) = name := h
    simp [Operand.ofJson, Operand.letter, Operand.toJson, hname]

theorem sound_of_parts {kind op : String} {lhs rhs : Json} {c : Comparison} (hlhs : Sound lhs)
    (hrhs : Sound rhs) (h : Comparison.ofParts kind op lhs rhs = .ok c) : SoundComparison c := by
  unfold Comparison.ofParts at h
  split at h
  · dsimp only at h
    split at h
    · obtain ⟨operator, -, h⟩ := bind_eq_ok.1 h
      obtain ⟨left, hleft, h⟩ := bind_eq_ok.1 h
      obtain ⟨right, hright, h⟩ := bind_eq_ok.1 h
      cases h
      exact ⟨sound_of_operand hlhs hleft, sound_of_operand hrhs hright⟩
    · cases h
  · cases h

theorem sound_of_comparison {v : Json} {c : Comparison} (hv : Sound v)
    (h : Comparison.ofJson v = .ok c) : SoundComparison c := by
  unfold Comparison.ofJson at h
  split at h
  · rename_i kind op lhs rhs
    have hitems : ∀ item ∈ [kind, op, lhs, rhs], Sound item := by
      cases hv
      assumption
    split at h
    · exact sound_of_parts (hitems lhs (by simp)) (hitems rhs (by simp)) h
    · cases h
    · cases h
  · cases h

theorem operator_ofText_symbol (op : Operator) : Operator.ofText op.symbol = .ok op := by
  cases op <;> rfl

theorem letter_cases (o : Operand) : o.letter = 'R' ∨ o.letter = 'Q' := by
  cases o with
  | read area => exact .inl rfl
  | question name => exact .inr rfl

theorem kind_normal (c : Comparison) :
    (Text.toUpper (Text.trim c.kind)).toList = [c.lhs.letter, c.rhs.letter] := by
  rw [Comparison.kind]
  obtain hl | hl := letter_cases c.lhs
  · obtain hr | hr := letter_cases c.rhs
    · rw [hl, hr]
      decide
    · rw [hl, hr]
      decide
  · obtain hr | hr := letter_cases c.rhs
    · rw [hl, hr]
      decide
    · rw [hl, hr]
      decide

theorem comparison_ofJson_toJson {c : Comparison} (h : SoundComparison c) :
    Comparison.ofJson c.toJson = .ok c := by
  have hkind : ∀ o : Operand, (o.letter == 'R' || o.letter == 'Q') = true := by
    intro o
    simpa using letter_cases o
  simp only [Comparison.toJson, Comparison.ofJson, Comparison.ofParts, kind_normal, hkind,
    Bool.and_self, if_true, operator_ofText_symbol, operand_ofJson_toJson h.lhs,
    operand_ofJson_toJson h.rhs]
  rfl

/-! ## Scroll descriptors -/

structure Named (name : String) : Prop where
  referable : Referable name
  nonempty : name.isEmpty = false

structure SoundExtra (e : ExtraRead) : Prop where
  name : Named e.name
  offset : SoundArea e.offset

structure SoundScroll (s : ScrollSpec) : Prop where
  target : Named s.target
  drag : SoundArea s.drag
  base : SoundArea s.base
  anchors : ∀ p ∈ s.anchors, SoundPosition p
  extra : ∀ e, s.extra = some e → SoundExtra e

theorem named_of_attributeName {v : Json} {name : String}
    (h : ScrollSpec.attributeName? v = some name) : Named name := by
  unfold ScrollSpec.attributeName? at h
  split at h
  · dsimp only at h
    split at h
    · cases h
    · rename_i hnonempty
      cases h
      exact ⟨referable_stripReference _, by simpa using hnonempty⟩
  · cases h

theorem attributeName_of_named {name : String} (h : Named name) :
    ScrollSpec.attributeName? (.str ("." ++ name)) = some name := by
  have hname : stripReference ("." ++ name) = name := h.referable
  simp [ScrollSpec.attributeName?, hname, h.nonempty]

theorem orRefuse_eq_ok {α : Type} {v : Json} {what : String} {found : Option α} {a : α} :
    ScrollSpec.orRefuse v what found = .ok a ↔ found = some a := by
  cases found with
  | none => simp [ScrollSpec.orRefuse, ScrollSpec.refuse]
  | some b => simp [ScrollSpec.orRefuse]

theorem sound_of_bind {items : List Json} {i : Nat} {v : Json} (h : ∀ item ∈ items, Sound item)
    (hv : items[i]?.bind Json.nonNull? = some v) : Sound v := by
  obtain ⟨item, hitem, hsame⟩ := Option.bind_eq_some_iff.1 hv
  unfold Json.nonNull? at hsame
  split at hsame
  · cases hsame
  · cases hsame
    exact h v (List.mem_of_getElem? hitem)

theorem sound_of_scroll {v : Json} {s : ScrollSpec} (hv : Sound v)
    (h : ScrollSpec.ofJson v = .ok s) : SoundScroll s := by
  unfold ScrollSpec.ofJson at h
  split at h
  · rename_i target drag base anchors more
    have hitems : ∀ item ∈ target :: drag :: base :: anchors :: more, Sound item := by
      cases hv
      assumption
    obtain ⟨name, hname, h⟩ := bind_eq_ok.1 h
    obtain ⟨dragged, hdragged, h⟩ := bind_eq_ok.1 h
    obtain ⟨first, hfirst, h⟩ := bind_eq_ok.1 h
    obtain ⟨edges, hedges, h⟩ := bind_eq_ok.1 h
    rw [orRefuse_eq_ok] at hname hdragged hfirst hedges
    have hnamed := named_of_attributeName hname
    have hdrag := faithful_area.sound_read (hitems drag (by simp)) hdragged
    have hbase := faithful_area.sound_read (hitems base (by simp)) hfirst
    have hanchors := (faithful_list faithful_position).sound_read (hitems anchors (by simp)) hedges
    split at h
    · rename_i row offset hrow hoffset
      obtain ⟨shift, hshift, h⟩ := bind_eq_ok.1 h
      rw [orRefuse_eq_ok] at hshift
      cases h
      have hmore : ∀ item ∈ more, Sound item := fun item hitem => hitems item (by simp [hitem])
      have hextra : SoundExtra ⟨row, shift⟩ := by
        obtain ⟨item, -, hitem⟩ := Option.bind_eq_some_iff.1 hrow
        exact ⟨named_of_attributeName hitem,
          faithful_area.sound_read (sound_of_bind hmore hoffset) hshift⟩
      refine ⟨hnamed, hdrag, hbase, hanchors, fun e he => ?_⟩
      cases he
      exact hextra
    · cases h
      exact ⟨hnamed, hdrag, hbase, hanchors, fun e he => by cases he⟩
  · cases h

theorem scroll_ofJson_toJson {s : ScrollSpec} (h : SoundScroll s) :
    ScrollSpec.ofJson s.toJson = .ok s := by
  obtain ⟨target, drag, base, anchors, extra⟩ := s
  have htarget := attributeName_of_named h.target
  have hdrag := faithful_area.read_write h.drag
  have hbase := faithful_area.read_write h.base
  have hanchors : Json.list? Position.ofJson? (.arr (anchors.map Position.toJson)) = some anchors :=
    (faithful_list faithful_position).read_write h.anchors
  dsimp only at htarget hdrag hbase
  cases extra with
  | none =>
    simp only [ScrollSpec.toJson, ScrollSpec.ofJson, ScrollSpec.orRefuse, htarget, hdrag, hbase,
      hanchors, ok_bind]
    rfl
  | some e =>
    have hextra := h.extra e rfl
    have hname := attributeName_of_named hextra.name
    have hoffset := faithful_area.read_write hextra.offset
    have hthere : e.offset.toJson.nonNull? = some e.offset.toJson := rfl
    simp only [ScrollSpec.toJson, ScrollSpec.ofJson, ScrollSpec.orRefuse, htarget, hdrag, hbase,
      hanchors, ok_bind, List.getElem?_cons_zero, List.getElem?_cons_succ, Option.bind_some, hname,
      hthere, hoffset]

/-! ## Parameters -/

def SoundParams (params : Dict Answer) : Prop := ∀ e ∈ params.entries, SoundAnswer e.2

theorem sound_of_parseParam {action : String} {m : String × Json} {e : String × Answer}
    (hm : Sound m.2) (h : RawCommand.parseParam action m = .ok e) : SoundAnswer e.2 := by
  unfold RawCommand.parseParam at h
  split at h
  · cases h
    intro v hv
    cases hv
  · split at h
    · rename_i a ha
      cases h
      exact faithful_answer.sound_read hm ha
    · cases h

theorem sound_of_parseParams {field : Option Json} {action : String} {params : Dict Answer}
    (hfield : ∀ v, field = some v → Sound v)
    (h : RawCommand.parseParams field action = .ok params) : SoundParams params := by
  unfold RawCommand.parseParams at h
  split at h
  · cases h
    intro e he
    cases he
  · rename_i members hmembers
    obtain ⟨v, hv, hsame⟩ := Option.bind_eq_some_iff.1 hmembers
    have hsound : ∀ m ∈ members, Sound m.2 := by
      have hobj : v = .obj members := by
        unfold Json.nonNull? at hsame
        split at hsame
        · cases hsame
        · exact Option.some.inj hsame
      have hv := hfield v hv
      rw [hobj] at hv
      cases hv
      assumption
    obtain ⟨parsed, hparsed, h⟩ := bind_eq_ok.1 h
    cases h
    have hall := forall_of_forall₂ (mapM_eq_ok_iff.1 hparsed) hsound
      fun m e hm he => sound_of_parseParam hm he
    exact fun e he => hall e (mem_of_mem_ofList he)
  · cases h

theorem parseParam_toJson {e : String × Answer} (h : SoundAnswer e.2) (action : String) :
    RawCommand.parseParam action (e.1, e.2.toJson) = .ok e := by
  have hread := faithful_answer.read_write h
  have hnull : e.2.toJson.isNull = false := by
    cases hv : e.2.toJson with
    | null =>
      rw [hv] at hread
      cases hread
    | _ => rfl
  simp [RawCommand.parseParam, hnull, hread]

theorem parseParams_paramsJson {params : Dict Answer} (h : SoundParams params) (action : String) :
    RawCommand.parseParams (some (Command.paramsJson params)) action = .ok params := by
  have hmembers : (params.map Answer.toJson).entries.mapM (RawCommand.parseParam action) =
      .ok params.entries := by
    rw [mapM_eq_ok_iff, Dict.map, List.forall₂_map_left_iff, List.forall₂_same]
    exact fun e he => parseParam_toJson (h e he) action
  show (do
    let entries ← (params.map Answer.toJson).entries.mapM (RawCommand.parseParam action)
    .ok (Dict.ofList entries)) = Except.ok params
  rw [hmembers, ok_bind, ofList_entries]

/-! ## Commands -/

def SoundCondition (condition : Option ColorCondition) : Prop :=
  ∀ c, condition = some c → SoundPosition c.position

/-- The values in the command are sound, and the texts and names are in the form that decoding
leaves them in. -/
def SoundCommand : Command → Prop
  | .click position condition => SoundPosition position ∧ SoundCondition condition
  | .write text => WriteText.ofText text.toText = text
  | .color position _ => SoundPosition position
  | .read area name => SoundArea area ∧ Named name
  | .compare comparison => SoundComparison comparison
  | .scroll spec => SoundScroll spec
  | .paramChange params | .webhook params => SoundParams params

structure SoundEntry (r : RawCommand) : Prop where
  position : ∀ v, r.position = some v → Sound v
  value : ∀ v, r.value = some v → Sound v
  condition : ∀ v, r.condition = some v → Sound v

theorem required_eq_ok {field : Option Json} {action name : String} {v : Json} :
    RawCommand.required field action name = .ok v ↔ field = some v ∧ v.isNull = false := by
  cases field with
  | none => simp [RawCommand.required, RawCommand.refuse]
  | some w =>
    cases hnull : w.isNull with
    | true =>
      simp only [RawCommand.required, Json.nonNull?, hnull, Option.bind_some, if_true,
        RawCommand.refuse]
      constructor
      · intro h
        cases h
      · rintro ⟨heq, hv⟩
        cases heq
        rw [hnull] at hv
        cases hv
    | false =>
      simp only [RawCommand.required, Json.nonNull?, hnull, Option.bind_some]
      constructor
      · intro h
        cases h
        exact ⟨rfl, hnull⟩
      · rintro ⟨heq, -⟩
        cases heq
        rfl

theorem parsed_eq_ok {α : Type} {read : Json → Option α} {field : Option Json}
    {action name : String} {a : α} :
    RawCommand.parsed read field action name = .ok a ↔
      ∃ v, field = some v ∧ v.isNull = false ∧ read v = some a := by
  rw [RawCommand.parsed, bind_eq_ok]
  constructor
  · rintro ⟨v, hv, hread⟩
    obtain ⟨hfield, hnull⟩ := required_eq_ok.1 hv
    split at hread
    · rename_i b hb
      cases hread
      exact ⟨v, hfield, hnull, hb⟩
    · cases hread
  · rintro ⟨v, hfield, hnull, hread⟩
    exact ⟨v, required_eq_ok.2 ⟨hfield, hnull⟩, by rw [hread]⟩

theorem sound_of_parsed {α : Type} {n : Nat} {sound : α → Prop} {read : Json → Option α}
    {write : α → Json} (hfaithful : Faithful n sound read write) {field : Option Json}
    {action name : String} {a : α} (hfield : ∀ v, field = some v → Sound v)
    (h : RawCommand.parsed read field action name = .ok a) : sound a := by
  obtain ⟨v, hv, -, hread⟩ := parsed_eq_ok.1 h
  exact hfaithful.sound_read (hfield v hv) hread

theorem sound_of_parseCondition {field : Option Json} {condition : Option ColorCondition}
    (hfield : ∀ v, field = some v → Sound v)
    (h : RawCommand.parseCondition field = .ok condition) : SoundCondition condition := by
  unfold RawCommand.parseCondition at h
  split at h
  · cases h
    intro c hc
    cases hc
  · cases h
    intro c hc
    cases hc
  · cases h
    intro c hc
    cases hc
  · rename_i v _ _ _
    dsimp only at h
    split at h
    · rename_i found hfound
      cases h
      intro c hc
      cases hc
      split at hfound
      · rename_i position expected
        simp only [Option.bind_eq_bind, Option.bind_eq_some_iff, Option.some.injEq] at hfound
        obtain ⟨p, hp, color, -, rfl⟩ := hfound
        exact faithful_position.sound_read (sound_pair (hfield _ rfl)).1 hp
      · cases hfound
    · cases h

theorem sound_of_decode {r : RawCommand} {c : Command} (hr : SoundEntry r) (h : r.decode = .ok c) :
    SoundCommand c := by
  unfold RawCommand.decode at h
  split at h
  case h_1 =>
    obtain ⟨position, hposition, h⟩ := bind_eq_ok.1 h
    obtain ⟨condition, hcondition, h⟩ := bind_eq_ok.1 h
    cases h
    exact ⟨sound_of_parsed faithful_position hr.position hposition,
      sound_of_parseCondition hr.condition hcondition⟩
  case h_2 =>
    obtain ⟨text, -, h⟩ := bind_eq_ok.1 h
    cases h
    exact ofText_toText_ofText _
  case h_3 =>
    obtain ⟨position, hposition, h⟩ := bind_eq_ok.1 h
    obtain ⟨expected, -, h⟩ := bind_eq_ok.1 h
    cases h
    exact sound_of_parsed faithful_position hr.position hposition
  case h_4 =>
    obtain ⟨name, -, h⟩ := bind_eq_ok.1 h
    dsimp only at h
    split at h
    · cases h
    · rename_i hnonempty
      obtain ⟨area, harea, h⟩ := bind_eq_ok.1 h
      cases h
      exact ⟨sound_of_parsed faithful_area hr.position harea,
        referable_stripReference name, by simpa using hnonempty⟩
  case h_5 | h_6 =>
    obtain ⟨v, hv, h⟩ := bind_eq_ok.1 h
    obtain ⟨comparison, hcomparison, h⟩ := bind_eq_ok.1 h
    cases h
    exact sound_of_comparison (hr.value v (required_eq_ok.1 hv).1) hcomparison
  case h_7 =>
    obtain ⟨v, hv, h⟩ := bind_eq_ok.1 h
    obtain ⟨spec, hspec, h⟩ := bind_eq_ok.1 h
    cases h
    exact sound_of_scroll (hr.value v (required_eq_ok.1 hv).1) hspec
  case h_8 | h_9 | h_10 =>
    obtain ⟨params, hparams, h⟩ := bind_eq_ok.1 h
    cases h
    exact sound_of_parseParams hr.value hparams
  case h_11 => cases h

/-! ## Decoding what was encoded -/

theorem parsed_toJson {α : Type} {n : Nat} {sound : α → Prop} {read : Json → Option α}
    {write : α → Json} (hfaithful : Faithful n sound read write) {a : α} (h : sound a)
    (action name : String) (hnull : (write a).isNull = false) :
    RawCommand.parsed read (some (write a)) action name = .ok a :=
  parsed_eq_ok.2 ⟨write a, rfl, hnull, hfaithful.read_write h⟩

theorem parseCondition_written {c : ColorCondition} (h : SoundPosition c.position) :
    RawCommand.parseCondition (some (.arr [c.position.toJson, c.expected.toJson])) =
      .ok (some c) := by
  simp [RawCommand.parseCondition, faithful_position.read_write h,
    faithful_color.read_write (a := c.expected) trivial]

theorem decode_encode_click {position : Position} {condition : Option ColorCondition}
    (hposition : SoundPosition position) (hcondition : SoundCondition condition) :
    (Command.click position condition).encode.decode = .ok (.click position condition) := by
  have haction : Text.toLower (Text.trim "click") = "click" := by decide
  have hparsed := parsed_toJson faithful_position hposition "click" "position" rfl
  cases condition with
  | none =>
    simp [Command.encode, Command.action, RawCommand.decode, haction, hparsed, ok_bind,
      RawCommand.parseCondition]
  | some c =>
    have hwritten := parseCondition_written (hcondition c rfl)
    simp [Command.encode, Command.action, RawCommand.decode, haction, hparsed, ok_bind, hwritten]

theorem decode_encode_read {area : Area} (name : String) (h : SoundArea area) :
    (Command.read area name).encode.decode =
      if (stripReference name).isEmpty then .error (.invalidCommand "read: blank attribute name")
      else .ok (.read area (stripReference name)) := by
  have haction : Text.toLower (Text.trim "read") = "read" := by decide
  have hname : RawCommand.parsed Json.string? (some (.str name)) "read" "value" = .ok name :=
    parsed_eq_ok.2 ⟨.str name, rfl, rfl, rfl⟩
  have harea := parsed_toJson faithful_area h "read" "position" rfl
  have hmessage : "read" ++ ": " ++ "blank attribute name" = "read: blank attribute name" := by
    decide
  simp only [Command.encode, Command.action, RawCommand.decode, haction, hname, ok_bind,
    RawCommand.refuse, harea, hmessage]

/-- A sound command is decoded from its entry, unless it is a read whose name loses its point. -/
theorem decode_encode_of_sound {c : Command} (h : SoundCommand c)
    (hread : ∀ area name, c = .read area name → stripReference name = name) :
    c.encode.decode = .ok c := by
  cases c with
  | click position condition => exact decode_encode_click h.1 h.2
  | write text =>
    have haction : Text.toLower (Text.trim "write") = "write" := by decide
    have htext : WriteText.ofText text.toText = text := h
    simp [Command.encode, Command.action, RawCommand.decode, haction, RawCommand.required,
      Json.nonNull?, Json.isNull, ok_bind, htext]
  | color position expected =>
    have haction : Text.toLower (Text.trim "color") = "color" := by decide
    have hposition := parsed_toJson faithful_position h "color" "position" rfl
    have hexpected := parsed_toJson faithful_color (a := expected) trivial "color" "value" rfl
    simp [Command.encode, Command.action, RawCommand.decode, haction, hposition, hexpected, ok_bind]
  | read area name =>
    have hname := hread area name rfl
    rw [decode_encode_read name h.1, hname, if_neg (by simp [h.2.nonempty])]
  | compare comparison =>
    have haction : Text.toLower (Text.trim "compare") = "compare" := by decide
    have hvalue : RawCommand.required (some comparison.toJson) "compare" "value" =
        .ok comparison.toJson := required_eq_ok.2 ⟨rfl, rfl⟩
    simp [Command.encode, Command.action, RawCommand.decode, haction, hvalue, ok_bind,
      comparison_ofJson_toJson h]
  | scroll spec =>
    have haction : Text.toLower (Text.trim "scroll") = "scroll" := by decide
    have hvalue : RawCommand.required (some spec.toJson) "scroll" "value" = .ok spec.toJson :=
      required_eq_ok.2 ⟨rfl, rfl⟩
    simp [Command.encode, Command.action, RawCommand.decode, haction, hvalue, ok_bind,
      scroll_ofJson_toJson h]
  | paramChange params =>
    have haction : Text.toLower (Text.trim "paramChange") = "paramchange" := by decide
    simp [Command.encode, Command.action, RawCommand.decode, haction, parseParams_paramsJson h,
      ok_bind]
  | webhook params =>
    have haction : Text.toLower (Text.trim "webhook") = "webhook" := by decide
    simp [Command.encode, Command.action, RawCommand.decode, haction, parseParams_paramsJson h,
      ok_bind]

theorem action_of_decode_read {r : RawCommand} {area : Area} {name : String}
    (h : r.decode = .ok (.read area name)) : Text.toLower (Text.trim r.action) = "read" := by
  unfold RawCommand.decode at h
  split at h
  case h_4 haction => exact haction
  case h_1 | h_3 | h_5 | h_6 | h_7 =>
    obtain ⟨_, -, h⟩ := bind_eq_ok.1 h
    obtain ⟨_, -, h⟩ := bind_eq_ok.1 h
    cases h
  case h_2 | h_8 | h_9 | h_10 =>
    obtain ⟨_, -, h⟩ := bind_eq_ok.1 h
    cases h
  case h_11 => cases h

theorem decode_encode {r : RawCommand} {c : Command} (hr : SoundEntry r)
    (haction : Text.toLower (Text.trim r.action) ≠ "read") (h : r.decode = .ok c) :
    c.encode.decode = .ok c := by
  refine decode_encode_of_sound (sound_of_decode hr h) fun area name hc => ?_
  subst hc
  exact absurd (action_of_decode_read h) haction

def quarter : Binary64 := .finite false (2 ^ 52) (-54)

def spot : Position := ⟨.zero false, quarter⟩

def spotJson : Json := .arr [.int 0, .num (.double quarter)]

def patchJson : Json := .arr [spotJson, spotJson]

/-- A search as it may stand in a file: a capital, blanks, one point too many, and an integer as a
coordinate. -/
def untidyScroll : RawCommand :=
  ⟨" Scroll ", none, some (.arr [.str " ..Dia ", patchJson, patchJson, .arr [spotJson],
    .str ". Nomes", patchJson]), none⟩

def tidyScroll : Command :=
  .scroll ⟨".Dia", ⟨spot, spot⟩, ⟨spot, spot⟩, [spot], some ⟨" Nomes", ⟨spot, spot⟩⟩⟩

theorem sound_patchJson : Sound spotJson ∧ Sound patchJson := by
  have hquarter : SoundDouble quarter := ⟨by decide, by decide, by decide, .inl (le_refl _)⟩
  have hspot : Textual 1 spotJson := textual_pair (.num ⟨by decide, by decide⟩) (.num hquarter)
  exact ⟨hspot.sound, (textual_pair hspot hspot).sound⟩

theorem sound_untidyScroll : SoundEntry untidyScroll := by
  obtain ⟨hspot, hpatch⟩ := sound_patchJson
  refine ⟨fun v hv => ?_, fun v hv => ?_, fun v hv => ?_⟩
  · cases hv
  · cases hv
    refine .arr fun item hitem => ?_
    simp only [List.mem_cons, List.not_mem_nil, or_false] at hitem
    obtain rfl | rfl | rfl | rfl | rfl | rfl := hitem
    · exact .str _
    · exact hpatch
    · exact hpatch
    · exact .arr fun v hv => by rwa [List.mem_singleton.1 hv]
    · exact .str _
    · exact hpatch
  · cases hv

theorem decode_untidyScroll :
    untidyScroll.decode = .ok tidyScroll ∧ tidyScroll.encode.decode = .ok tidyScroll := by
  have hdecode : untidyScroll.decode = .ok tidyScroll := by rfl
  exact ⟨hdecode, decode_encode sound_untidyScroll (by decide) hdecode⟩

end Playback.Proofs.Codec
