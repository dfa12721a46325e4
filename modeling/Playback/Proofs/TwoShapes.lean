import Playback.Proofs.JsonText
/-!
# The two shapes of an envelope

The question of an envelope is an object or the text of one. Both make the same job, and neither
makes one if the value is not a question: nesting that is too deep for the reader is too deep for an
answer as well.
-/

namespace Playback.Proofs.TwoShapes

open JsonText JsonValues Json Json.Reader

/-! ## A reader that may go deeper -/

/-- What the reader takes with so much fuel, it also takes where deeper nesting is allowed. -/
structure Deepens (fuel : Nat) : Prop where
  value : ∀ {depth deeper : Nat} {cs : List Char} {r : Json × List Char}, depth ≤ deeper →
    value? fuel depth cs = some r → value? fuel deeper cs = some r
  items : ∀ {depth deeper : Nat} {cs : List Char} {r : List Json × List Char}, depth ≤ deeper →
    Reader.items? fuel depth cs = some r → Reader.items? fuel deeper cs = some r
  members : ∀ {depth deeper : Nat} {cs : List Char} {r : List (String × Json) × List Char},
    depth ≤ deeper →
      Reader.members? fuel depth cs = some r → Reader.members? fuel deeper cs = some r

section Deepening

variable {fuel depth deeper : Nat} {cs : List Char}

theorem Deepens.value_succ (ih : Deepens fuel) {r : Json × List Char} (hle : depth ≤ deeper)
    (h : value? (fuel + 1) depth cs = some r) : value? (fuel + 1) deeper cs = some r := by
  rw [value?] at h ⊢
  generalize skipGap cs = ds at h ⊢
  -- Only the brackets and the braces look at the depth.
  split at h
  case h_2 | h_3 =>
    cases depth with
    | zero => cases h
    | succ depth =>
      obtain ⟨deeper, rfl⟩ := Nat.exists_eq_add_of_lt hle
      dsimp only at h ⊢
      split at h
      · exact h
      · obtain ⟨inner, hinner, heq⟩ := Option.map_eq_some_iff.1 h
        first
        | rw [ih.items (by omega) hinner, Option.map_some, heq]
        | rw [ih.members (by omega) hinner, Option.map_some, heq]
  all_goals exact h

theorem Deepens.items_succ (ih : Deepens fuel) {r : List Json × List Char} (hle : depth ≤ deeper)
    (h : Reader.items? (fuel + 1) depth cs = some r) :
    Reader.items? (fuel + 1) deeper cs = some r := by
  rw [Reader.items?] at h ⊢
  split at h
  · cases h
  · rename_i v rest hv
    rw [ih.value hle hv]
    dsimp only
    split at h
    · obtain ⟨more, hmore, heq⟩ := Option.map_eq_some_iff.1 h
      rw [ih.items hle hmore, Option.map_some, heq]
    · exact h
    · cases h

theorem Deepens.members_succ (ih : Deepens fuel) {r : List (String × Json) × List Char}
    (hle : depth ≤ deeper) (h : Reader.members? (fuel + 1) depth cs = some r) :
    Reader.members? (fuel + 1) deeper cs = some r := by
  rw [Reader.members?] at h ⊢
  split at h
  · split at h
    · cases h
    · split at h
      · split at h
        · cases h
        · rename_i v rest hv
          simp only [ih.value hle hv]
          split at h
          · obtain ⟨more, hmore, heq⟩ := Option.map_eq_some_iff.1 h
            rw [ih.members hle hmore, Option.map_some, heq]
          · exact h
          · cases h
      · cases h
  · cases h

theorem deepens (fuel : Nat) : Deepens fuel := by
  induction fuel with
  | zero =>
    constructor
    · intro depth deeper cs r hle h
      rw [value?] at h
      cases h
    · intro depth deeper cs r hle h
      rw [Reader.items?] at h
      cases h
    · intro depth deeper cs r hle h
      rw [Reader.members?] at h
      cases h
  | succ fuel ih => exact ⟨ih.value_succ, ih.items_succ, ih.members_succ⟩

end Deepening

/-! ## Values and their texts -/

section Texts

variable {n : Nat} {v : Json} (hv : Textual n v)

include hv

/-- If the text of a value is read at all, however deep the value is, then as that value. -/
theorem eq_of_read (l : Layout) {level : Nat} {s : String} {w : Json}
    (hs : s.toList = spell l level v) (h : Json.read? s = some w) : w = v := by
  unfold Json.read? at h
  dsimp only at h
  split at h
  · rename_i u rest hread
    split at h
    · cases h
      have hdeep := (deepens _).value (Nat.le_max_right n maxDepth) hread
      have hspelled := value_spell l v (hv.mono (Nat.le_max_left n maxDepth)) level
        (2 * s.toList.length + 2) [] (by rw [hs]; omega) fun c hc => by cases hc
      rw [List.append_nil, ← hs, hdeep] at hspelled
      exact congrArg Prod.fst (Option.some.inj hspelled)
    · cases h
  · cases h

theorem textual_of_scalar {a : Scalar} (h : Scalar.ofJson? v = some a) : Textual 0 v := by
  cases hv with
  | null => cases h
  | bool b => exact .bool b
  | num hx => exact .num hx
  | str s => exact .str s
  | arr => cases h
  | obj => cases h

theorem textual_of_answer {a : Answer} (h : Answer.ofJson? v = some a) : Textual 1 v := by
  unfold Answer.ofJson? at h
  split at h
  · obtain ⟨items, hitems, -⟩ := Option.map_eq_some_iff.1 h
    cases hv with
    | arr hv =>
      refine .arr fun w hw => ?_
      obtain ⟨a, ha⟩ := exists_of_mem_of_mapM hitems w hw
      exact textual_of_scalar (hv w hw) ha
  · obtain ⟨a, ha, -⟩ := Option.map_eq_some_iff.1 h
    exact (textual_of_scalar hv ha).mono (Nat.zero_le 1)

theorem textual_of_attrs {attrs : Dict Answer} (h : Question.attrsOfJson? v = some attrs) :
    Textual 2 v := by
  unfold Question.attrsOfJson? Json.dict? at h
  split at h
  · obtain ⟨entries, hentries, -⟩ := Option.map_eq_some_iff.1 h
    cases hv with
    | obj hv hsorted =>
      refine .obj (fun m hm => ?_) hsorted
      obtain ⟨e, he⟩ := exists_of_mem_of_mapM hentries m hm
      obtain ⟨a, ha, -⟩ := Option.map_eq_some_iff.1 he
      exact textual_of_answer (hv m hm) ha
  · cases h

theorem attrs_of_text (l : Layout) {level : Nat} {s : String}
    (hs : s.toList = spell l level v) :
    (Json.read? s).bind Question.attrsOfJson? = Question.attrsOfJson? v := by
  cases hread : Json.read? s with
  | some w => rw [Option.bind_some, eq_of_read hv l hs hread]
  | none =>
    cases hattrs : Question.attrsOfJson? v with
    | none => rfl
    | some attrs =>
      have hshallow := (textual_of_attrs hv hattrs).mono (show 2 ≤ maxDepth by decide)
      rw [read_spell l hshallow hs] at hread
      cases hread

end Texts

/-! ## Envelopes -/

/-- What an envelope has besides its question: other members before and behind it, or the items
behind it if it is a list of its fields. -/
inductive Wrapping where
  | members (front back : List (String × Json))
  | items (rest : List Json)

def Wrapping.around : Wrapping → Json → Json
  | .members front back, question => .obj (front ++ ("question", question) :: back)
  | .items rest, question => .arr (question :: rest)

theorem member_append (front back : List (String × Json)) (name : String) :
    Json.member? (front ++ back) name =
      (Json.member? back name).or (Json.member? front name) := by
  unfold Json.member?
  rw [List.reverse_append, List.find?_append, Option.map_or]

theorem member_around (front back : List (String × Json)) (name : String) (v : Json) :
    Json.member? (front ++ (name, v) :: back) name =
      (Json.member? back name).or (some v) := by
  have hself : Json.member? [(name, v)] name = some v := by simp [Json.member?]
  rw [← List.singleton_append, ← List.append_assoc, member_append, member_append, hself,
    Option.some_or]

theorem member_around_of_ne (front back : List (String × Json)) {name other : String}
    (h : name ≠ other) (v : Json) :
    Json.member? (front ++ (name, v) :: back) other = Json.member? (front ++ back) other := by
  have hother : Json.member? [(name, v)] other = none := by simp [Json.member?, h]
  rw [← List.singleton_append, ← List.append_assoc, member_append, member_append, member_append,
    hother, Option.none_or]

/-- The question of an envelope is the one it is put around, unless another member of that name
hides it. -/
theorem fields_around (w : Wrapping) :
    (∃ filter, ∀ question, (w.around question).fields? ["question", "filtro"] =
      some [some question, filter]) ∨
    ∀ question other, (w.around question).fields? ["question", "filtro"] =
      (w.around other).fields? ["question", "filtro"] := by
  cases w with
  | members front back =>
    have hfields (question : Json) :
        (Wrapping.around (.members front back) question).fields? ["question", "filtro"] =
          some [(Json.member? back "question").or (some question),
            Json.member? (front ++ back) "filtro"] := by
      simp only [Wrapping.around, Json.fields?, List.map_cons, List.map_nil, member_around,
        member_around_of_ne front back (show "question" ≠ "filtro" by decide)]
    cases hback : Json.member? back "question" with
    | none =>
      rw [hback] at hfields
      exact .inl ⟨_, hfields⟩
    | some v =>
      rw [hback] at hfields
      exact .inr fun question other => (hfields question).trans (hfields other).symm
  | items rest =>
    cases rest with
    | nil => exact .inl ⟨none, fun question => rfl⟩
    | cons filter rest =>
      cases rest with
      | nil => exact .inl ⟨some filter, fun question => rfl⟩
      | cons v rest => exact .inr fun question other => by simp [Wrapping.around, Json.fields?]

/-- An envelope around a question and the same around the text of it make the same job, or both make
none, whatever the filter and whatever is written besides. -/
theorem two_shapes_agree {n : Nat} {v : Json} (hv : Textual n v) (hstring : ∀ s, v ≠ .str s)
    {text : String} (htext : text = v.compact ∨ ∃ level, text = v.pretty level) (w : Wrapping) :
    Job.ofJson (w.around (.str text)) = Job.ofJson (w.around v) := by
  have hattrs : (Json.read? text).bind Question.attrsOfJson? = Question.attrsOfJson? v := by
    obtain rfl | ⟨level, rfl⟩ := htext
    · exact attrs_of_text hv tight (toList_compact 0 v)
    · exact attrs_of_text hv indented (toList_pretty level v)
  unfold Job.ofJson
  obtain ⟨filter, hfields⟩ | hhidden := fields_around w
  · rw [hfields, hfields]
    dsimp only [Option.bind_eq_bind, Option.bind_some]
    rw [hattrs]
    cases v with
    | str s => exact absurd rfl (hstring s)
    | _ => rfl
  · rw [hhidden (.str text) v]

/-- A question with an integer too large for an answer, which becomes a double, and with a list. -/
def largeNumber : Json :=
  .obj [("Ids", .arr [.num (.int 18446744073709551615), .str "a"]), ("Ok", .bool true)]

theorem textual_largeNumber : Textual 2 largeNumber := by
  refine .obj ?_ (by decide)
  refine List.forall_mem_cons.2 ⟨.arr ?_, List.forall_mem_singleton.2 (.bool true)⟩
  exact List.forall_mem_cons.2
    ⟨.num ⟨by decide, by decide⟩, List.forall_mem_singleton.2 (.str "a")⟩

theorem large_number_agrees :
    Textual 2 largeNumber ∧ (∀ s, largeNumber ≠ .str s) ∧
      Job.ofJson (.obj [("filtro", .str "day"), ("question", .str largeNumber.compact)]) =
        Job.ofJson (.obj [("filtro", .str "day"), ("question", largeNumber)]) :=
  ⟨textual_largeNumber, fun _ => Json.noConfusion,
    two_shapes_agree textual_largeNumber (fun _ => Json.noConfusion) (.inl rfl)
      (.members [("filtro", .str "day")] [])⟩

end Playback.Proofs.TwoShapes
