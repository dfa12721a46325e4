import Playback.Proofs.Envelope
import Playback.Proofs.Schemas
/-!
# Taking input in

The question of an input object has the fields of the schema and the bot, and nothing else: each
field with the last answer that says something. It is built exactly if all that is meant for a field
is plain. Taken in once more, it stays as it is.
-/

namespace Playback.Proofs.Ingestion

open Answers Codec Entries Envelope JsonText JsonValues Names Schemas
open Json.Reader (maxDepth)

/-! ## Values -/

def IsScalar : Json → Prop
  | .bool _ | .num _ | .str _ => True
  | _ => False

/-- Null, a scalar, or a list of scalars and nulls. -/
def Plain : Json → Prop
  | .arr items => ∀ v ∈ items, v = .null ∨ IsScalar v
  | v => v = .null ∨ IsScalar v

def TidyScalar : Scalar → Prop
  | .text s => Text.trim s = s
  | v => SoundScalar v

def Tidy : Answer → Prop
  | .list items => ∀ v ∈ items, TidyScalar v
  | .one v => TidyScalar v

section Values

variable {v : Json} {x : Scalar} {a : Answer}

theorem scalar_isSome_iff : (InputSchema.scalarOfJson? v).isSome ↔ IsScalar v := by
  cases v with
  | num n => cases n <;> simp [InputSchema.scalarOfJson?, Scalar.ofJson?, IsScalar]
  | _ => simp [InputSchema.scalarOfJson?, Scalar.ofJson?, IsScalar]

theorem mapM_isSome_iff {α β : Type} {f : α → Option β} {l : List α} :
    (l.mapM f).isSome ↔ ∀ a ∈ l, (f a).isSome := by
  induction l with
  | nil => simp
  | cons a rest ih =>
    rw [List.forall_mem_cons, ← ih, Option.isSome_iff_exists]
    simp only [mapM_cons_eq_some, Option.isSome_iff_exists]
    constructor
    · rintro ⟨_, b, bs, hb, hbs, -⟩
      exact ⟨⟨b, hb⟩, bs, hbs⟩
    · rintro ⟨⟨b, hb⟩, bs, hbs⟩
      exact ⟨b :: bs, b, bs, hb, hbs, rfl⟩

theorem answer_isSome_iff : (InputSchema.answerOfJson? v).isSome ↔ Plain v := by
  have hone : ∀ v, (∀ items, v ≠ .arr items) → v ≠ .null →
      ((InputSchema.answerOfJson? v).isSome ↔ IsScalar v) := by
    intro v harr hnull
    rw [InputSchema.answerOfJson?.eq_3 v hnull harr, Option.isSome_map, scalar_isSome_iff]
  cases v with
  | null => simp [InputSchema.answerOfJson?, Plain]
  | arr items =>
    rw [InputSchema.answerOfJson?, Option.isSome_map, mapM_isSome_iff, Plain]
    refine forall_congr' fun v => ?_
    rw [List.mem_filter, scalar_isSome_iff]
    cases v <;> simp [Json.isNull, IsScalar]
  | _ =>
    rw [hone _ (by simp) (by simp)]
    simp [Plain, IsScalar]

theorem tidyScalar_sound (h : TidyScalar x) : SoundScalar x := by
  cases x with
  | text s => trivial
  | _ => exact h

theorem tidy_sound (h : Tidy a) : SoundAnswer a := by
  cases a with
  | list items => exact fun v hv => tidyScalar_sound (h v hv)
  | one v => exact tidyScalar_sound h

theorem str_of_text {s : String} (h : Scalar.ofJson? v = some (.text s)) : v = .str s := by
  unfold Scalar.ofJson? at h
  split at h
  · cases h
  · split at h <;> cases h
  · cases h
  · cases h
    rfl
  · cases h

theorem tidyScalar_of_read (hv : Sound v) (h : InputSchema.scalarOfJson? v = some x) :
    TidyScalar x := by
  unfold InputSchema.scalarOfJson? at h
  split at h
  · cases h
    exact trim_trim _
  · rename_i hnot
    have hsound := faithful_scalar.sound_read hv h
    cases x with
    | text s => exact absurd (str_of_text h) (hnot s)
    | _ => exact hsound

theorem tidy_of_read (hv : Sound v) (h : InputSchema.answerOfJson? v = some a) : Tidy a := by
  unfold InputSchema.answerOfJson? at h
  split at h
  · cases h
    exact fun v hv => absurd hv List.not_mem_nil
  · rename_i items
    obtain ⟨found, hfound, rfl⟩ := Option.map_eq_some_iff.1 h
    intro x hx
    obtain ⟨v, hmem, hread⟩ := exists_of_mem_mapM hfound x hx
    cases hv with
    | arr hitems => exact tidyScalar_of_read (hitems v (List.mem_filter.1 hmem).1) hread
  · obtain ⟨x, hx, rfl⟩ := Option.map_eq_some_iff.1 h
    exact tidyScalar_of_read hv hx

theorem scalar_toJson (h : TidyScalar x) : InputSchema.scalarOfJson? x.toJson = some x := by
  cases x with
  | text s => exact congrArg (fun t => some (Scalar.text t)) h
  | bool b => rfl
  | int i => exact faithful_scalar.read_write (a := .int i) h
  | float y =>
    have hread := faithful_scalar.read_write (a := .float y) h
    rw [Scalar.toJson, double_of_sound h] at hread ⊢
    exact hread

theorem isNull_toJson (h : TidyScalar x) : x.toJson.isNull = false := by
  cases x with
  | float y =>
    rw [Scalar.toJson, double_of_sound h]
    rfl
  | _ => rfl

theorem answer_toJson (h : Tidy a) : InputSchema.answerOfJson? a.toJson = some a := by
  cases a with
  | list items =>
    have hall : (items.map Scalar.toJson).filter (fun v => !v.isNull) =
        items.map Scalar.toJson := by
      rw [List.filter_eq_self]
      intro v hv
      obtain ⟨x, hx, rfl⟩ := List.mem_map.1 hv
      rw [isNull_toJson (h x hx), Bool.not_false]
    have hread : (items.map Scalar.toJson).mapM InputSchema.scalarOfJson? = some items :=
      mapM_map_eq_some fun x hx => scalar_toJson (h x hx)
    rw [Answer.toJson, InputSchema.answerOfJson?, hall, hread, Option.map_some]
  | one x =>
    have hread := scalar_toJson h
    have hone : InputSchema.answerOfJson? x.toJson =
        (InputSchema.scalarOfJson? x.toJson).map .one := by
      cases x with
      | float y =>
        rw [Scalar.toJson, double_of_sound h]
        rfl
      | _ => rfl
    rw [Answer.toJson, hone, hread, Option.map_some]

end Values

/-! ## Entries -/

/-- The name is that of a field other than `Timenow`. -/
def Meant (s : InputSchema) (key : String) : Prop :=
  ∃ field ∈ s.fields, Text.sameName field (Text.trim key) ∧ isTimenow field = false

/-- The entry gives the field an answer that says something. -/
structure Gives (s : InputSchema) (e : String × Json) (field : String) (a : Answer) : Prop where
  named : s.canonical? e.1 = some field
  dateless : isTimenow field = false
  read : InputSchema.answerOfJson? e.2 = some a
  telling : a.isEmpty = false

/-- Of the entries that give the field an answer, this one is the last in the order of names. -/
structure Decides (s : InputSchema) (es : List (String × Json)) (e : String × Json)
    (field : String) (a : Answer) : Prop where
  mem : e ∈ es
  gives : Gives s e field a
  last : ∀ later ∈ es, e.1 < later.1 → ∀ b, ¬Gives s later field b

def gift? (s : InputSchema) (e : String × Json) : Option (String × Answer) :=
  match s.canonical? e.1 with
  | none => none
  | some field =>
    if isTimenow field then none
    else ((InputSchema.answerOfJson? e.2).filter fun a => !a.isEmpty).map fun a => (field, a)

section Entries

variable {s : InputSchema} {e : String × Json} {es : List (String × Json)} {field key : String}
variable {a : Answer} {q : Question}

theorem gift_eq_some_iff : gift? s e = some (field, a) ↔ Gives s e field a := by
  unfold gift?
  constructor
  · intro h
    split at h
    · cases h
    · rename_i found hfound
      split at h
      · cases h
      · rename_i hdate
        obtain ⟨b, hb, heq⟩ := Option.map_eq_some_iff.1 h
        obtain ⟨hread, htelling⟩ := Option.filter_eq_some_iff.1 hb
        obtain ⟨rfl, rfl⟩ := Prod.mk.inj heq
        exact ⟨hfound, by simpa using hdate, hread, by simpa using htelling⟩
  · rintro ⟨hnamed, hdate, hread, htelling⟩
    rw [hnamed, hread]
    simp [hdate, Option.filter_some, htelling]

theorem meant_iff :
    Meant s key ↔ ∃ field, s.canonical? key = some field ∧ isTimenow field = false := by
  constructor
  · rintro ⟨field, hfield, hsame, hdate⟩
    obtain ⟨found, hfound⟩ := canonical_isSome_iff.2 ⟨field, hfield, hsame⟩
    have hagain := sameName_trans (sameName_of_canonical hfound) (sameName_symm hsame)
    exact ⟨found, hfound, (ReadBack.isTimenow_congr hagain).trans hdate⟩
  · rintro ⟨field, hfield, hdate⟩
    exact ⟨field, mem_of_canonical hfield, sameName_of_canonical hfield, hdate⟩

theorem takeEntry_eq (h : Meant s e.1 → Plain e.2) :
    s.takeEntry q e = .ok ((gift? s e).elim q fun g => q.set g.1 g.2) := by
  unfold InputSchema.takeEntry gift?
  cases hfield : s.canonical? e.1 with
  | none => rfl
  | some field =>
    dsimp only
    by_cases hdate : isTimenow field = true
    · rw [if_pos hdate, if_pos hdate]
      rfl
    · rw [if_neg hdate, if_neg hdate]
      have hplain := h (meant_iff.2 ⟨field, hfield, by simpa using hdate⟩)
      obtain ⟨a, ha⟩ := Option.isSome_iff_exists.1 (answer_isSome_iff.2 hplain)
      rw [ha]
      by_cases hempty : a.isEmpty = true <;> simp [Option.filter_some, hempty]

theorem takeEntry_error (hmeant : Meant s e.1) (hplain : ¬Plain e.2) :
    ∃ f, s.takeEntry q e = .error f := by
  obtain ⟨field, hfield, hdate⟩ := meant_iff.1 hmeant
  have hnone : InputSchema.answerOfJson? e.2 = none := by
    rw [← Option.not_isSome_iff_eq_none, answer_isSome_iff]
    exact hplain
  unfold InputSchema.takeEntry
  simp [hfield, hdate, hnone]

theorem takeEntries_eq (h : ∀ e ∈ es, Meant s e.1 → Plain e.2) (q : Question) :
    es.foldlM s.takeEntry q =
      .ok ((es.filterMap (gift? s)).foldl (fun q e => q.set e.1 e.2) q) := by
  induction es generalizing q with
  | nil => rfl
  | cons e rest ih =>
    obtain ⟨he, hrest⟩ := List.forall_mem_cons.1 h
    rw [List.foldlM_cons, takeEntry_eq he, ok_bind, ih hrest, List.filterMap_cons]
    cases gift? s e with
    | none => rfl
    | some g => rfl

theorem plain_of_takeEntries {r : Question} (h : es.foldlM s.takeEntry q = .ok r) :
    ∀ e ∈ es, Meant s e.1 → Plain e.2 := by
  induction es generalizing q with
  | nil => exact fun e he => absurd he List.not_mem_nil
  | cons e rest ih =>
    rw [List.foldlM_cons] at h
    obtain ⟨next, hnext, h⟩ := bind_eq_ok.1 h
    refine List.forall_mem_cons.2 ⟨fun hmeant => ?_, ih h⟩
    by_contra hplain
    obtain ⟨f, hf⟩ := takeEntry_error (q := q) hmeant hplain
    rw [hf] at hnext
    cases hnext

theorem build_eq_ok_iff {botId : String} :
    s.buildQuestion es botId = .ok q ↔
      (∀ e ∈ es, Meant s e.1 → Plain e.2) ∧
        q = ⟨(Dict.ofList (es.filterMap (gift? s))).insert botIdAttribute (.text botId)⟩ := by
  have hdateless : ∀ g ∈ es.filterMap (gift? s), isTimenow g.1 = false := by
    intro g hg
    obtain ⟨e, -, he⟩ := List.mem_filterMap.1 hg
    exact (gift_eq_some_iff.1 he).dateless
  have hbuild : (∀ e ∈ es, Meant s e.1 → Plain e.2) → s.buildQuestion es botId =
      .ok ⟨(Dict.ofList (es.filterMap (gift? s))).insert botIdAttribute (.text botId)⟩ := by
    intro h
    rw [InputSchema.buildQuestion, takeEntries_eq h, ok_bind, foldl_set hdateless]
    rfl
  constructor
  · intro h
    obtain ⟨r, hr, -⟩ := bind_eq_ok.1 h
    have hplain := plain_of_takeEntries hr
    rw [hbuild hplain, Except.ok.injEq] at h
    exact ⟨hplain, h.symm⟩
  · rintro ⟨hplain, rfl⟩
    exact hbuild hplain

theorem ofList_gifts_concat (es : List (String × Json)) (last : String × Json) :
    Dict.ofList ((es ++ [last]).filterMap (gift? s)) =
      (gift? s last).elim (Dict.ofList (es.filterMap (gift? s)))
        fun g => (Dict.ofList (es.filterMap (gift? s))).insert g.1 g.2 := by
  rw [List.filterMap_append, List.filterMap_cons, List.filterMap_nil]
  cases gift? s last with
  | none => rw [List.append_nil, Option.elim_none]
  | some g => rw [ofList_append_singleton, Option.elim_some]

theorem get?_gifts_of_gives {last : String × Json} (h : Gives s last field a) :
    (Dict.ofList ((es ++ [last]).filterMap (gift? s))).get? field = some a := by
  rw [ofList_gifts_concat, gift_eq_some_iff.2 h, Option.elim_some, get?_insert_self]

theorem get?_gifts_of_not {last : String × Json} (h : ∀ b, ¬Gives s last field b) :
    (Dict.ofList ((es ++ [last]).filterMap (gift? s))).get? field =
      (Dict.ofList (es.filterMap (gift? s))).get? field := by
  rw [ofList_gifts_concat]
  cases hgift : gift? s last with
  | none => rw [Option.elim_none]
  | some g =>
    rw [Option.elim_some, get?_insert_of_ne]
    rintro rfl
    exact h g.2 (gift_eq_some_iff.1 hgift)

theorem decides_concat_iff {last e : String × Json} (h : ∀ e ∈ es, e.1 < last.1) :
    Decides s (es ++ [last]) e field a ↔
      (e = last ∧ Gives s last field a) ∨
        ((∀ b, ¬Gives s last field b) ∧ Decides s es e field a) := by
  have hmem : last ∈ es ++ [last] := List.mem_append_right _ List.mem_cons_self
  constructor
  · rintro ⟨he, hgives, hnone⟩
    rcases List.mem_append.1 he with hold | hnew
    · exact .inr ⟨hnone last hmem (h e hold), hold, hgives,
        fun later hlater => hnone later (List.mem_append_left _ hlater)⟩
    · rw [List.mem_singleton.1 hnew] at hgives
      exact .inl ⟨List.mem_singleton.1 hnew, hgives⟩
  · rintro (⟨rfl, hgives⟩ | ⟨hnot, hold, hgives, hnone⟩)
    · refine ⟨hmem, hgives, fun later hlater hlt => ?_⟩
      rcases List.mem_append.1 hlater with hbefore | hself
      · exact absurd hlt (String.lt_asymm (h later hbefore))
      · rw [List.mem_singleton.1 hself] at hlt
        exact absurd hlt (String.lt_irrefl _)
    · refine ⟨List.mem_append_left _ hold, hgives, fun later hlater hlt => ?_⟩
      rcases List.mem_append.1 hlater with hbefore | hself
      · exact hnone later hbefore hlt
      · rw [List.mem_singleton.1 hself]
        exact hnot

theorem exists_decides {es : List (String × Json)} (hsorted : es.Pairwise fun a b => a.1 < b.1)
    {e : String × Json} (he : e ∈ es) {a : Answer} (hgives : Gives s e field a) :
    ∃ e' b, Decides s es e' field b := by
  induction es using List.reverseRecOn with
  | nil => exact absurd he List.not_mem_nil
  | append_singleton es last ih =>
    obtain ⟨hes, -, hlast⟩ := List.pairwise_append.1 hsorted
    have hbefore : ∀ e ∈ es, e.1 < last.1 := fun e he => hlast e he last List.mem_cons_self
    by_cases hnew : ∃ b, Gives s last field b
    · obtain ⟨b, hb⟩ := hnew
      exact ⟨last, b, (decides_concat_iff hbefore).2 (.inl ⟨rfl, hb⟩)⟩
    · rw [not_exists] at hnew
      have hold : e ∈ es := by
        rcases List.mem_append.1 he with hold | hself
        · exact hold
        · rw [List.mem_singleton.1 hself] at hgives
          exact absurd hgives (hnew a)
      obtain ⟨e', b, hdecides⟩ := ih hes hold
      exact ⟨e', b, (decides_concat_iff hbefore).2 (.inr ⟨hnew, hdecides⟩)⟩

theorem get?_gifts_iff (hsorted : es.Pairwise fun a b => a.1 < b.1) :
    (Dict.ofList (es.filterMap (gift? s))).get? field = some a ↔
      ∃ e, Decides s es e field a := by
  -- the last entry decides on its field; on all others it leaves what the entries before decide
  induction es using List.reverseRecOn with
  | nil =>
    constructor
    · intro h
      cases h
    · rintro ⟨e, h⟩
      cases h.mem
  | append_singleton es last ih =>
    obtain ⟨hes, -, hlast⟩ := List.pairwise_append.1 hsorted
    have hbefore : ∀ e ∈ es, e.1 < last.1 := fun e he => hlast e he last List.mem_cons_self
    simp only [decides_concat_iff hbefore]
    by_cases hgives : ∃ b, Gives s last field b
    · obtain ⟨b, hb⟩ := hgives
      rw [get?_gifts_of_gives hb, Option.some.injEq]
      constructor
      · rintro rfl
        exact ⟨last, .inl ⟨rfl, hb⟩⟩
      · rintro ⟨e, ⟨-, ha⟩ | ⟨hnot, -⟩⟩
        · exact Option.some.inj (hb.read.symm.trans ha.read)
        · exact absurd hb (hnot b)
    · rw [not_exists] at hgives
      rw [get?_gifts_of_not hgives, ih hes]
      constructor
      · rintro ⟨e, h⟩
        exact ⟨e, .inr ⟨hgives, h⟩⟩
      · rintro ⟨e, ⟨-, ha⟩ | ⟨-, h⟩⟩
        · exact absurd ha (hgives a)
        · exact ⟨e, h⟩

end Entries

/-! ## Questions -/

/-- What becomes of an input object. -/
structure Ingested (s : InputSchema) (raw : Dict Json) (botId : String) (q : Question) : Prop where
  fields : ∀ key ∈ q.attrs.keys,
    key = botIdAttribute ∨ (key ∈ s.fields ∧ s.canonical? key = some key)
  bot : q.attrs.get? botIdAttribute = some (.text botId)
  dateless : ∀ key ∈ q.attrs.keys, isTimenow key = false
  telling : ∀ e ∈ q.attrs.entries, e.1 ≠ botIdAttribute → e.2.isEmpty = false
  decided : ∀ field a, field ≠ botIdAttribute →
    (q.attrs.get? field = some a ↔ ∃ e, Decides s raw.entries e field a)
  again : ∃ members, q.toJson = .obj members ∧
    Json.parse? q.toJson.compact = some (.obj members) ∧ s.buildQuestion members botId = .ok q

section Questions

variable {s : InputSchema} {raw : List (String × Json)} {botId : String}

/-- All that the entries give. -/
def gifts (s : InputSchema) (raw : List (String × Json)) : Dict Answer :=
  .ofList (raw.filterMap (gift? s))

theorem gives_of_mem_gifts {e : String × Answer} (h : e ∈ (gifts s raw).entries) :
    ∃ source ∈ raw, Gives s source e.1 e.2 := by
  obtain ⟨source, hsource, hgift⟩ := List.mem_filterMap.1 (mem_of_mem_ofList h)
  exact ⟨source, hsource, gift_eq_some_iff.1 hgift⟩

theorem ne_botId_of_mem_gifts (hbot : ∀ field ∈ s.fields, ¬Text.sameName field botIdAttribute)
    {e : String × Answer} (h : e ∈ (gifts s raw).entries) : e.1 ≠ botIdAttribute := by
  obtain ⟨source, -, hgives⟩ := gives_of_mem_gifts h
  intro heq
  apply hbot e.1 (mem_of_canonical hgives.named)
  rw [heq]
  exact Text.sameName_refl _

theorem tidy_of_mem_gifts (hraw : ∀ e ∈ raw, Sound e.2) {e : String × Answer}
    (h : e ∈ (gifts s raw).entries) : Tidy e.2 := by
  obtain ⟨source, hsource, hgives⟩ := gives_of_mem_gifts h
  exact tidy_of_read (hraw source hsource) hgives.read

theorem gift_toJson (hraw : ∀ e ∈ raw, Sound e.2) {e : String × Answer}
    (h : e ∈ (gifts s raw).entries) : gift? s (e.1, e.2.toJson) = some e := by
  obtain ⟨source, hsource, hgives⟩ := gives_of_mem_gifts h
  exact gift_eq_some_iff.2 ⟨canonical_self hgives.named, hgives.dateless,
    answer_toJson (tidy_of_mem_gifts hraw h), hgives.telling⟩

theorem gifts_again (hbot : ∀ field ∈ s.fields, ¬Text.sameName field botIdAttribute)
    (hraw : ∀ e ∈ raw, Sound e.2) :
    gifts s (((gifts s raw).insert botIdAttribute (.text botId)).map Answer.toJson).entries =
      gifts s raw := by
  have hbotless : s.canonical? botIdAttribute = none := by
    rw [Option.eq_none_iff_forall_ne_some]
    intro field hfield
    have htrim : Text.trim botIdAttribute = botIdAttribute := by decide +kernel
    have hsame := sameName_of_canonical hfield
    rw [htrim] at hsame
    exact hbot field (mem_of_canonical hfield) hsame
  -- each entry but the bot's is taken in as itself, and the entries keep their order
  have hgift : ∀ e ∈ ((gifts s raw).insert botIdAttribute (.text botId)).entries,
      gift? s (e.1, e.2.toJson) = if e.1 != botIdAttribute then some e else none := by
    intro e he
    rcases Dict.mem_insertEntry he with rfl | hold
    · rw [gift?, hbotless]
      rfl
    · rw [gift_toJson hraw hold, if_pos (by simpa using ne_botId_of_mem_gifts hbot hold)]
  have hentries : (((gifts s raw).insert botIdAttribute (.text botId)).map
      Answer.toJson).entries.filterMap (gift? s) = (gifts s raw).entries := by
    show (((gifts s raw).insert botIdAttribute (.text botId)).entries.map
      fun e => (e.1, e.2.toJson)).filterMap (gift? s) = (gifts s raw).entries
    rw [List.filterMap_map]
    calc ((gifts s raw).insert botIdAttribute (.text botId)).entries.filterMap
            (gift? s ∘ fun e => (e.1, e.2.toJson))
        = ((gifts s raw).insert botIdAttribute (.text botId)).entries.filterMap
            (Option.guard fun e => e.1 != botIdAttribute) := by
          apply List.filterMap_congr
          intro e he
          rw [Function.comp_apply, hgift e he]
          rfl
      _ = ((gifts s raw).insert botIdAttribute (.text botId)).entries.filter
            (fun e => e.1 != botIdAttribute) := by rw [List.filterMap_eq_filter]
      _ = (gifts s raw).entries :=
          filter_insertEntry fun e he => ne_botId_of_mem_gifts hbot he
  rw [gifts, hentries, ofList_entries]

theorem sound_question (hraw : ∀ e ∈ raw, Sound e.2) (botId : String) :
    SoundParams ((gifts s raw).insert botIdAttribute (.text botId)) := by
  intro e he
  rcases Dict.mem_insertEntry he with rfl | hold
  · trivial
  · exact tidy_sound (tidy_of_mem_gifts hraw hold)

theorem mem_keys_question {key : String}
    (h : key ∈ ((gifts s raw).insert botIdAttribute (.text botId)).keys) :
    key = botIdAttribute ∨ ∃ a, (key, a) ∈ (gifts s raw).entries := by
  obtain ⟨e, he, rfl⟩ := List.mem_map.1 h
  rcases Dict.mem_insertEntry he with rfl | hold
  · exact .inl rfl
  · exact .inr ⟨e.2, hold⟩

theorem plain_question (hraw : ∀ e ∈ raw, Sound e.2) (botId : String) :
    ∀ e ∈ (((gifts s raw).insert botIdAttribute (.text botId)).map Answer.toJson).entries,
      Plain e.2 := by
  intro e he
  obtain ⟨source, hsource, rfl⟩ := List.mem_map.1 he
  rcases Dict.mem_insertEntry hsource with rfl | hold
  · exact .inr trivial
  · rw [← answer_isSome_iff, answer_toJson (tidy_of_mem_gifts hraw hold)]
    rfl

theorem build_again (hbot : ∀ field ∈ s.fields, ¬Text.sameName field botIdAttribute)
    (hraw : ∀ e ∈ raw, Sound e.2) (botId : String) :
    s.buildQuestion (((gifts s raw).insert botIdAttribute (.text botId)).map
      Answer.toJson).entries botId =
        .ok ⟨(gifts s raw).insert botIdAttribute (.text botId)⟩ := by
  rw [build_eq_ok_iff]
  exact ⟨fun e he _ => plain_question hraw botId e he,
    congrArg (fun d : Dict Answer => Question.mk (d.insert botIdAttribute (.text botId)))
      (gifts_again hbot hraw).symm⟩

theorem ingested_gifts {raw : Dict Json}
    (hbot : ∀ field ∈ s.fields, ¬Text.sameName field botIdAttribute)
    (hraw : ∀ e ∈ raw.entries, Sound e.2) (botId : String) :
    Ingested s raw botId ⟨(gifts s raw.entries).insert botIdAttribute (.text botId)⟩ where
  fields := by
    intro key hkey
    rcases mem_keys_question hkey with rfl | ⟨a, ha⟩
    · exact .inl rfl
    · obtain ⟨source, -, hgives⟩ := gives_of_mem_gifts ha
      exact .inr ⟨mem_of_canonical hgives.named, canonical_self hgives.named⟩
  bot := get?_insert_self _ _ _
  dateless := by
    intro key hkey
    rcases mem_keys_question hkey with rfl | ⟨a, ha⟩
    · decide +kernel
    · obtain ⟨source, -, hgives⟩ := gives_of_mem_gifts ha
      exact hgives.dateless
  telling := by
    intro e he hne
    rcases Dict.mem_insertEntry he with rfl | hold
    · exact absurd rfl hne
    · obtain ⟨source, -, hgives⟩ := gives_of_mem_gifts hold
      exact hgives.telling
  decided := by
    intro field a hne
    rw [get?_insert_of_ne _ hne]
    exact get?_gifts_iff raw.sorted
  again := by
    have htextual : Textual maxDepth
        (Question.toJson ⟨(gifts s raw.entries).insert botIdAttribute (.text botId)⟩) :=
      (textual_params (proper_params (sound_question hraw botId))).mono (by decide)
    exact ⟨_, rfl, parse_compact htextual, build_again hbot hraw botId⟩

end Questions

/-- The question of an input object, for a schema without a field for the bot. -/
theorem input_closed (s : InputSchema)
    (hbot : ∀ field ∈ s.fields, ¬Text.sameName field botIdAttribute) (raw : Dict Json)
    (hraw : ∀ e ∈ raw.entries, Sound e.2) (botId : String) :
    ((∃ q, s.buildQuestion raw.entries botId = .ok q) ↔
        ∀ e ∈ raw.entries, Meant s e.1 → Plain e.2) ∧
      ∀ q, s.buildQuestion raw.entries botId = .ok q → Ingested s raw botId q := by
  constructor
  · constructor
    · rintro ⟨q, h⟩
      exact (build_eq_ok_iff.1 h).1
    · exact fun h => ⟨_, build_eq_ok_iff.2 ⟨h, rfl⟩⟩
  · intro q h
    obtain ⟨-, rfl⟩ := build_eq_ok_iff.1 h
    exact ingested_gifts hbot hraw botId

/-! ## One field under several names -/

def variants : Dict Json :=
  .ofList [("CLUB", .str "Azul"), ("Club", .arr [.null, .str " b ", .int 3]), ("Timenow", .obj []),
    (" club", .str "Verde"), ("club ", .str "  "), ("action", .null), ("Outro", .obj [])]

def ingestedVariants : Question :=
  ⟨.ofList [("BotId", .text "bot"), ("Club", .list [.text "b", .int 3])]⟩

theorem build_variants :
    InputSchema.standard.buildQuestion variants.entries "bot" = .ok ingestedVariants := by
  decide +kernel

theorem sound_variants : ∀ e ∈ variants.entries, Sound e.2 := by
  have hint : Sound (.int 3) := .num ⟨by decide, by decide⟩
  have hlist : Sound (.arr [.null, .str " b ", .int 3]) :=
    .arr (by simp [hint, Sound.null, Sound.str])
  intro e he
  have hmem := mem_of_mem_ofList he
  simp only [List.mem_cons, List.not_mem_nil, or_false] at hmem
  rcases hmem with rfl | rfl | rfl | rfl | rfl | rfl | rfl
  · exact .str _
  · exact hlist
  · exact .obj (by simp)
  · exact .str _
  · exact .str _
  · exact .null
  · exact .obj (by simp)

/-- The list comes behind both texts, and the blank behind it gives nothing. -/
theorem input_closed_variants :
    InputSchema.standard.buildQuestion variants.entries "bot" = .ok ingestedVariants ∧
      Ingested .standard variants "bot" ingestedVariants :=
  ⟨build_variants,
    (input_closed .standard (by decide +kernel) variants sound_variants "bot").2 _ build_variants⟩

end Playback.Proofs.Ingestion
