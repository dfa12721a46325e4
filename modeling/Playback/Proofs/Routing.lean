import Mathlib.Data.List.Find
import Mathlib.Data.List.Forall2
import Playback.CommandLine.Tasks
import Playback.Registry
import Playback.Proofs.Appending
import Playback.Proofs.Letters
import Playback.Proofs.ReadBack
import Playback.Proofs.Schemas
/-!
# The application of a task

The application of an input object is looked at three times: whether the object names one, which bot
works on it, and which one the job goes to. The first two look at the names as they stand, and the
second takes the first of them; the last one overlooks blanks around a name, passes over blank
values and takes the last. On plain objects they agree.
-/

namespace Playback.Proofs.Routing

open CommandLine Names Answers ReadBack Letters JsonValues JsonText Codec Appending Schemas

/-- The name that a job goes by, if the text is not blank. -/
def routeName? (text : String) : Option String :=
  let name := Text.toLower (Text.trim text)
  if name.isEmpty then none else some name

/-- A spelling of `App`, blanks around it aside. -/
def IsApp (key : String) : Prop := Text.sameName (Text.trim key) appAttribute

instance (key : String) : Decidable (IsApp key) :=
  inferInstanceAs (Decidable (Text.sameName _ _ = true))

def givesApp (s : InputSchema) (key : String) : Bool :=
  (s.canonical? key).any (Text.sameName · appAttribute)

def answer? (value : Json) : Option Answer :=
  (InputSchema.answerOfJson? value).filter fun a => !a.isEmpty

/-- The answers that entries give for the application. -/
def given (s : InputSchema) (members : List (String × Json)) : List Answer :=
  members.filterMap fun e => if givesApp s e.1 then answer? e.2 else none

def idText (id : Option Nat) : String := (id.map fun (n : Nat) => toString n).getD ""

/-- The bot of the application that a job goes to under this name. -/
def idFor (c : Config) (name : String) : Option Nat :=
  (c.apps.entries.find? fun e => Registry.key e.1 == name).map (·.2)

/-! ## Names of applications -/

section RouteNames

variable {c : Config} {text : String}

theorem routeName_eq (text : String) :
    routeName? text =
      if Text.blank text then none else some (Text.toLower (Text.trim text)) := by
  rw [routeName?, isEmpty_toLower, isEmpty_trim]

theorem routeName_trim (text : String) : routeName? (Text.trim text) = routeName? text := by
  rw [routeName?, trim_trim, routeName?]

theorem asText_text (text : String) : (Answer.text text).asText = text := rfl

theorem app_eq (job : Job) :
    job.app? = (job.question.stored? appAttribute).bind fun a => routeName? a.asText := by
  unfold Job.app?
  cases job.question.stored? appAttribute with
  | none => rw [Option.bind_none]
  | some a => rw [Option.bind_some, routeName?]

/-- The names of the configured applications are in ASCII, without blanks around them. -/
def Named (c : Config) : Prop :=
  ∀ name ∈ c.apps.keys, Text.trim name = name ∧ IsAscii name

instance (c : Config) : Decidable (Named c) := inferInstanceAs (Decidable (∀ name ∈ _, _))

theorem botId_trim (c : Config) (text : String) : c.botId? (Text.trim text) = c.botId? text := by
  rw [Config.botId?, trim_trim, Config.botId?]

theorem routeName_getD (text : String) :
    (routeName? text).getD "" = Text.toLower (Text.trim text) := by
  rw [routeName?]
  by_cases hempty : (Text.toLower (Text.trim text)).isEmpty = true
  · rw [if_pos hempty, String.isEmpty_iff.1 hempty]
    rfl
  · rw [if_neg hempty, Option.getD_some]

theorem botId_eq_idFor (hnamed : Named c) (hkelvin : kelvin ∉ text.toList) :
    c.botId? text = idFor c ((routeName? text).getD "") := by
  have hsign : kelvin ∉ (Text.trim text).toList := by
    rw [Text.trim, String.toList_ofList]
    exact fun hmem => hkelvin ((trimChars_sublist _).subset hmem)
  rw [Config.botId?, idFor, routeName_getD]
  refine congrArg (Option.map fun entry : String × Nat => entry.2) (List.find?_congr ?_)
  intro entry hentry
  obtain ⟨htrim, hascii⟩ := hnamed entry.1 (List.mem_map_of_mem hentry)
  rw [Registry.key, htrim, Bool.eq_iff_iff, ← toLower_eq_iff hascii hsign, beq_iff_eq]

end RouteNames

/-! ## The question of an input object -/

section Building

variable {s : InputSchema} {members : List (String × Json)} {q r : Question} {botId : String}

theorem trim_app : Text.trim appAttribute = appAttribute := by decide +kernel

theorem canonical_of_app {key : String} (h : IsApp key) :
    s.canonical? key = s.canonical? appAttribute := by
  apply canonical_congr
  rw [trim_app]
  exact h

theorem isApp_of_canonical {key field : String} (h : s.canonical? key = some field)
    (hfield : Text.sameName field appAttribute) : IsApp key :=
  sameName_trans (sameName_symm (sameName_of_canonical h)) hfield

theorem givesApp_iff {key : String} (h : (s.canonical? appAttribute).isSome) :
    givesApp s key = true ↔ IsApp key := by
  unfold givesApp
  constructor
  · intro hgives
    cases hfield : s.canonical? key with
    | none =>
      rw [hfield] at hgives
      cases hgives
    | some field =>
      rw [hfield, Option.any_some] at hgives
      exact isApp_of_canonical hfield hgives
  · intro hkey
    obtain ⟨field, hfield⟩ := Option.isSome_iff_exists.1 h
    have hsame := sameName_of_canonical hfield
    rw [trim_app] at hsame
    rw [canonical_of_app hkey, hfield, Option.any_some]
    exact hsame

/-- What the entries so far have put into the question for the application. -/
structure Stocked (s : InputSchema) (members : List (String × Json)) (q : Question) : Prop where
  stored_eq : q.stored? appAttribute = (given s members).getLast?
  spelled : ∀ key ∈ q.attrs.keys, Text.sameName key appAttribute →
    s.canonical? appAttribute = some key

theorem given_append (old new : List (String × Json)) :
    given s (old ++ new) = given s old ++ given s new :=
  List.filterMap_append

theorem Stocked.passed {e : String × Json} (h : Stocked s members q) (he : given s [e] = []) :
    Stocked s (members ++ [e]) q := by
  refine ⟨?_, h.spelled⟩
  rw [given_append, he, List.append_nil]
  exact h.stored_eq

theorem keys_set {key field : String} {a : Answer} (h : key ∈ (q.set field a).attrs.keys) :
    key = field ∨ key ∈ q.attrs.keys := by
  unfold Question.set at h
  split at h
  · exact .inr h
  · obtain ⟨entry, hentry, rfl⟩ := List.mem_map.1 h
    rcases Dict.mem_insertEntry hentry with rfl | hold
    · exact .inl rfl
    · exact .inr (List.mem_map_of_mem hold)

theorem Stocked.other {e : String × Json} {field : String} {a : Answer} (h : Stocked s members q)
    (hfield : s.canonical? e.1 = some field) (hother : ¬ Text.sameName field appAttribute) :
    Stocked s (members ++ [e]) (q.set field a) := by
  have hnothing : given s [e] = [] := by
    have hnot : givesApp s e.1 = false := by
      rw [givesApp, hfield, Option.any_some]
      simpa using hother
    simp [given, hnot]
  have hpassed := h.passed hnothing
  refine ⟨?_, fun key hkey hsame => ?_⟩
  · rw [stored_set_other a hother]
    exact hpassed.stored_eq
  · rcases keys_set hkey with rfl | hold
    · exact absurd hsame hother
    · exact h.spelled key hold hsame

theorem Stocked.replaced {e : String × Json} {field : String} {a : Answer}
    (h : Stocked s members q) (hfield : s.canonical? e.1 = some field)
    (hsame : Text.sameName field appAttribute) (hnot : isTimenow field = false)
    (ha : answer? e.2 = some a) : Stocked s (members ++ [e]) (q.set field a) := by
  have hgiven : given s [e] = [a] := by
    have hgives : givesApp s e.1 = true := by
      rw [givesApp, hfield, Option.any_some]
      exact hsame
    simp [given, hgives, ha]
  have happ : s.canonical? appAttribute = some field := by
    rw [← canonical_of_app (isApp_of_canonical hfield hsame)]
    exact hfield
  have hspelled : ∀ key ∈ (q.set field a).attrs.keys, Text.sameName key appAttribute →
      s.canonical? appAttribute = some key := by
    intro key hkey hagain
    rcases keys_set hkey with rfl | hold
    · exact happ
    · exact h.spelled key hold hagain
  refine ⟨?_, hspelled⟩
  have hexact : (field, a) ∈ (q.set field a).attrs.entries := by
    rw [Question.set, if_neg (by simp [hnot])]
    exact get?_eq_some_iff.1 (get?_insert_self q.attrs field a)
  obtain ⟨b, hb⟩ := stored_isSome hexact hsame
  obtain ⟨key, hkey, hagain⟩ := mem_of_stored hb
  have hone := hspelled key (List.mem_map_of_mem hkey) hagain
  rw [happ, Option.some.injEq] at hone
  subst hone
  rw [given_append, hgiven, List.getLast?_concat, hb, eq_of_mem_entries hkey hexact]

theorem not_timenow_of_app {field : String} (h : Text.sameName field appAttribute) :
    isTimenow field = false := by
  rw [isTimenow_congr h]
  decide

theorem stocked_of_takeEntry {e : String × Json} (h : Stocked s members q)
    (htake : s.takeEntry q e = .ok r) : Stocked s (members ++ [e]) r := by
  unfold InputSchema.takeEntry at htake
  cases hfield : s.canonical? e.1 with
  | none =>
    rw [hfield] at htake
    cases htake
    apply h.passed
    simp [given, givesApp, hfield]
  | some field =>
    rw [hfield] at htake
    dsimp only at htake
    -- a field of another name never gets in the way of the application
    by_cases happ : Text.sameName field appAttribute
    · rw [if_neg (by simp [not_timenow_of_app happ])] at htake
      cases hanswer : InputSchema.answerOfJson? e.2 with
      | none =>
        rw [hanswer] at htake
        cases htake
      | some a =>
        rw [hanswer, Except.ok.injEq] at htake
        subst htake
        by_cases hempty : a.isEmpty = true
        · rw [if_pos hempty]
          apply h.passed
          simp [given, answer?, hanswer, hempty]
        · rw [if_neg hempty]
          apply h.replaced hfield happ (not_timenow_of_app happ)
          simp [answer?, hanswer, hempty]
    · have hpassed : Stocked s (members ++ [e]) q := by
        apply h.passed
        have hnot : Text.sameName field appAttribute = false := by simpa using happ
        simp [given, givesApp, hfield, hnot]
      split at htake
      · cases htake
        exact hpassed
      · split at htake
        · rw [Except.ok.injEq] at htake
          subst htake
          split
          · exact hpassed
          · exact h.other hfield happ
        · cases htake

theorem stocked_of_takeEntries {more : List (String × Json)} (h : Stocked s members q)
    (htake : more.foldlM s.takeEntry q = .ok r) : Stocked s (members ++ more) r := by
  induction more generalizing members q with
  | nil =>
    cases htake
    rw [List.append_nil]
    exact h
  | cons e rest ih =>
    rw [List.foldlM_cons] at htake
    obtain ⟨next, hfirst, htake⟩ := bind_eq_ok.1 htake
    rw [List.append_cons]
    exact ih (stocked_of_takeEntry h hfirst) htake

theorem stored_of_build (h : s.buildQuestion members botId = .ok q) :
    q.stored? appAttribute = (given s members).getLast? ∧
      q.stored? botIdAttribute = some (.text botId) := by
  obtain ⟨r, htake, h⟩ := bind_eq_ok.1 h
  cases h
  have hempty : Stocked s [] .empty := ⟨rfl, fun key hkey => absurd hkey List.not_mem_nil⟩
  have hstocked := stocked_of_takeEntries hempty htake
  constructor
  · rw [stored_set_other _ (by decide)]
    exact hstocked.stored_eq
  · exact stored_set_self r _ (by decide)

end Building

/-! ## The outcome of an input object -/

/-- The last of the answers for the application, if it says something. -/
def own? (s : InputSchema) (object : Dict Json) : Option String :=
  (given s object.entries).getLast?.bind fun a => routeName? a.asText

/-- What becomes of an input object, where `app` is the application to be used by default. -/
structure Outcome (c : Config) (app : Option String) (object : Dict Json) (job : Job) : Prop where
  app_eq : job.app? = (own? c.catalog.inputs (nameApp app object)).or (app.bind routeName?)
  given_eq : (own? c.catalog.inputs (nameApp app object)).isSome →
    job.question.stored? appAttribute =
      (given c.catalog.inputs (nameApp app object).entries).getLast?
  stamp_eq : job.question.stored? botIdAttribute =
    some (.text (idText (c.botId? (namedApp (nameApp app object)))))

/-- The job goes to the application that its object gives, or else to the default one, and has the
bot of the application that it goes to. -/
structure Consistent (c : Config) (app : Option String) (object : Dict Json) (job : Job) :
    Prop where
  given_kept : given c.catalog.inputs object.entries ≠ [] →
    ∃ a ∈ given c.catalog.inputs object.entries, job.question.stored? appAttribute = some a
  default_used : given c.catalog.inputs object.entries = [] → job.app? = app.bind routeName?
  stamped : job.question.stored? botIdAttribute = some (.text (idText (idFor c (job.app?.getD ""))))

section Outcomes

variable {c : Config} {app : Option String} {object : Dict Json} {job : Job}

theorem withApp_of_isSome (app : Option String) (h : job.app?.isSome) : withApp app job = job := by
  obtain ⟨name, hname⟩ := Option.isSome_iff_exists.1 h
  unfold withApp
  rw [hname]

theorem withApp_of_none (text : String) (h : job.app? = none) :
    withApp (some text) job =
      { job with question := job.question.set appAttribute (.text text) } := by
  unfold withApp
  rw [h]

theorem app_withApp (app : Option String) (job : Job) :
    (withApp app job).app? = job.app?.or (app.bind routeName?) := by
  cases hname : job.app? with
  | some name => rw [withApp_of_isSome app (by rw [hname]; rfl), hname, Option.some_or]
  | none =>
    cases app with
    | none =>
      have hsame : withApp none job = job := by
        unfold withApp
        rw [hname]
      rw [hsame, hname, Option.bind_none, Option.or_none]
    | some text =>
      have hset : (job.question.set appAttribute (.text text)).stored? appAttribute =
          some (.text text) :=
        stored_set_self job.question _ (by decide)
      rw [withApp_of_none text hname, app_eq]
      dsimp only
      rw [hset, Option.bind_some, asText_text, Option.none_or, Option.bind_some]

theorem stamp_withApp (app : Option String) (job : Job) :
    (withApp app job).question.stored? botIdAttribute = job.question.stored? botIdAttribute := by
  unfold withApp
  split
  · exact stored_set_other _ (by decide)
  · rfl

theorem outcome_of_input {built : Job} (h : jobOfInput c app object = .ok built) :
    Outcome c app object (withApp app built) := by
  obtain ⟨q, hbuild, h⟩ := bind_eq_ok.1 h
  cases h
  obtain ⟨happ, hstamp⟩ := stored_of_build hbuild
  have hown : Job.app? ⟨q, "Input"⟩ = own? c.catalog.inputs (nameApp app object) := by
    rw [app_eq, happ, own?]
  refine ⟨?_, fun hsome => ?_, (stamp_withApp app _).trans hstamp⟩
  · rw [app_withApp, hown]
  · rw [← hown] at hsome
    rw [withApp_of_isSome app hsome]
    exact happ

end Outcomes

/-! ## Objects that name one application -/

structure Names (object : Dict Json) (text : String) : Prop where
  exists_entry : ∃ e ∈ object.entries, IsApp e.1
  unpadded : ∀ e ∈ object.entries, IsApp e.1 → Text.trim e.1 = e.1
  texts : ∀ e ∈ object.entries, IsApp e.1 → ∃ t, e.2 = .str t ∧ Text.trim t = Text.trim text

section Naming

variable {c : Config} {s : InputSchema} {object : Dict Json} {text : String} {a : Answer}

theorem answer_text (text : String) :
    answer? (.str text) =
      if Text.blank text then none else some (.text (Text.trim text)) := by
  have hempty : (Answer.text (Text.trim text)).isEmpty = Text.blank text := blank_trim text
  have hanswer : InputSchema.answerOfJson? (.str text) = some (.text (Text.trim text)) := rfl
  rw [answer?, hanswer, Option.filter_some, hempty]
  cases Text.blank text <;> rfl

theorem mem_given : a ∈ given s object.entries ↔
    ∃ e ∈ object.entries, givesApp s e.1 = true ∧ answer? e.2 = some a := by
  rw [given, List.mem_filterMap]
  refine exists_congr fun e => and_congr_right fun _ => ?_
  by_cases hgives : givesApp s e.1 = true
  · simp [hgives]
  · simp [hgives]

theorem getLast_of_forall {α : Type} {l : List α} {x : α} (h : ∀ y ∈ l, y = x) (hne : l ≠ []) :
    l.getLast? = some x := by
  rw [List.getLast?_eq_some_getLast hne, h _ (List.getLast_mem hne)]

theorem given_of_names (hdeclared : (s.canonical? appAttribute).isSome)
    (hnames : Names object text) :
    (given s object.entries).getLast? =
      if Text.blank text then none else some (.text (Text.trim text)) := by
  have hanswer : ∀ e ∈ object.entries, IsApp e.1 → answer? e.2 =
      if Text.blank text then none else some (.text (Text.trim text)) := by
    intro e he happ
    obtain ⟨t, ht, htrim⟩ := hnames.texts e he happ
    have hblank : Text.blank t = Text.blank text := by rw [← blank_trim t, htrim, blank_trim]
    rw [ht, answer_text, hblank, htrim]
  by_cases hblank : Text.blank text = true
  · rw [if_pos hblank, List.getLast?_eq_none_iff, List.eq_nil_iff_forall_not_mem]
    intro a ha
    obtain ⟨e, he, hgives, hsome⟩ := mem_given.1 ha
    rw [hanswer e he ((givesApp_iff hdeclared).1 hgives), if_pos hblank] at hsome
    cases hsome
  · rw [if_neg hblank]
    apply getLast_of_forall
    · intro a ha
      obtain ⟨e, he, hgives, hsome⟩ := mem_given.1 ha
      rw [hanswer e he ((givesApp_iff hdeclared).1 hgives), if_neg hblank] at hsome
      exact (Option.some.inj hsome).symm
    · obtain ⟨e, he, happ⟩ := hnames.exists_entry
      have hsome := hanswer e he happ
      rw [if_neg hblank] at hsome
      exact List.ne_nil_of_mem (mem_given.2 ⟨e, he, (givesApp_iff hdeclared).2 happ, hsome⟩)

theorem own_of_names (hdeclared : (s.canonical? appAttribute).isSome)
    (hnames : Names object text) : own? s object = routeName? text := by
  rw [own?, given_of_names hdeclared hnames, routeName_eq]
  by_cases hblank : Text.blank text = true
  · rw [if_pos hblank, if_pos hblank]
    rfl
  · rw [if_neg hblank, if_neg hblank, Option.bind_some, asText_text, routeName_trim,
      routeName_eq, if_neg hblank]

theorem isApp_of_sameName {key : String} (h : Text.sameName key appAttribute) :
    Text.trim key = key ∧ IsApp key := by
  have htrim := trim_of_sameName h trim_app
  refine ⟨htrim, ?_⟩
  rw [IsApp, htrim]
  exact h

theorem botId_of_names (c : Config) (hnames : Names object text) :
    c.botId? (namedApp object) = c.botId? text := by
  obtain ⟨e, he, happ⟩ := hnames.exists_entry
  have hsame : Text.sameName e.1 appAttribute := by
    rw [IsApp, hnames.unpadded e he happ] at happ
    exact happ
  have hsome : (object.entries.find? fun e => Text.sameName e.1 appAttribute).isSome := by
    rw [List.find?_isSome]
    exact ⟨e, he, hsame⟩
  obtain ⟨first, hfirst⟩ := Option.isSome_iff_exists.1 hsome
  have hfound : Text.sameName first.1 appAttribute := by simpa using List.find?_some hfirst
  obtain ⟨t, ht, htrim⟩ := hnames.texts first (List.mem_of_find?_eq_some hfirst)
    (isApp_of_sameName hfound).2
  have hnamed : namedApp object = t := by
    rw [namedApp, hfirst, Option.map_some, Option.bind_some, ht]
    rfl
  rw [hnamed, ← botId_trim, htrim, botId_trim]

theorem names_insert (hnone : ∀ e ∈ object.entries, ¬ IsApp e.1) (text : String) :
    Names (object.insert appAttribute (.str text)) text := by
  have hentries : ∀ e ∈ (object.insert appAttribute (.str text)).entries, IsApp e.1 →
      e = (appAttribute, .str text) := by
    intro e he happ
    rcases Dict.mem_insertEntry he with heq | hold
    · exact heq
    · exact absurd happ (hnone e hold)
  have hname : IsApp appAttribute := (isApp_of_sameName (Text.sameName_refl _)).2
  refine ⟨⟨(appAttribute, .str text), ?_, hname⟩, ?_, ?_⟩
  · exact get?_eq_some_iff.1 (get?_insert_self object appAttribute _)
  · intro e he happ
    rw [hentries e he happ]
    exact trim_app
  · intro e he happ
    rw [hentries e he happ]
    exact ⟨text, rfl, rfl⟩

end Naming

/-! ## Plain objects -/

/-- A text in which no sign has an ASCII letter for its small one. -/
def PlainText : Json → Prop
  | .str text => kelvin ∉ text.toList
  | _ => False

instance : (value : Json) → Decidable (PlainText value)
  | .str text => inferInstanceAs (Decidable (kelvin ∉ text.toList))
  | .null => .isFalse id
  | .bool _ => .isFalse id
  | .num _ => .isFalse id
  | .arr _ => .isFalse id
  | .obj _ => .isFalse id

/-- What an object says about its application is said in plain texts, all the same and none of them
under a padded name. They are blank only if there is no default. -/
structure Plain (app : Option String) (object : Dict Json) : Prop where
  unpadded : ∀ e ∈ object.entries, IsApp e.1 → Text.trim e.1 = e.1
  texts : ∀ e ∈ object.entries, IsApp e.1 → PlainText e.2
  agree : ∀ e ∈ object.entries, ∀ d ∈ object.entries, IsApp e.1 → IsApp d.1 →
    answer? e.2 = answer? d.2
  said : ∀ text ∈ app, kelvin ∉ text.toList ∧
    ∀ e ∈ object.entries, IsApp e.1 → (answer? e.2).isSome

instance (app : Option String) (object : Dict Json) : Decidable (Plain app object) :=
  decidable_of_iff ((∀ e ∈ object.entries, IsApp e.1 → Text.trim e.1 = e.1) ∧
      (∀ e ∈ object.entries, IsApp e.1 → PlainText e.2) ∧
      (∀ e ∈ object.entries, ∀ d ∈ object.entries, IsApp e.1 → IsApp d.1 →
        answer? e.2 = answer? d.2) ∧
      ∀ text ∈ app, kelvin ∉ text.toList ∧
        ∀ e ∈ object.entries, IsApp e.1 → (answer? e.2).isSome)
    ⟨fun ⟨unpadded, texts, agree, said⟩ => ⟨unpadded, texts, agree, said⟩,
      fun h => ⟨h.unpadded, h.texts, h.agree, h.said⟩⟩

/-- The names of the applications are plain, and the inputs may name one. -/
structure Settled (c : Config) : Prop where
  named : Named c
  declared : (c.catalog.inputs.canonical? appAttribute).isSome

section Plainness

variable {c : Config} {app : Option String} {object : Dict Json} {job : Job}

theorem trim_of_answer {text other : String} (h : answer? (.str text) = answer? (.str other)) :
    Text.trim text = Text.trim other := by
  have hempty : ∀ {s : String}, Text.blank s = true → Text.trim s = "" := by
    intro s hs
    rw [← String.isEmpty_iff, isEmpty_trim]
    exact hs
  rw [answer_text, answer_text] at h
  by_cases htext : Text.blank text = true <;> by_cases hother : Text.blank other = true
  · rw [hempty htext, hempty hother]
  · rw [if_pos htext, if_neg hother] at h
    cases h
  · rw [if_neg htext, if_pos hother] at h
    cases h
  · rw [if_neg htext, if_neg hother] at h
    simpa [Answer.text] using h

theorem Plain.names (h : Plain app object) {e : String × Json} (he : e ∈ object.entries)
    (happ : IsApp e.1) :
    ∃ text, Names object text ∧ kelvin ∉ text.toList ∧ (app.isSome → Text.blank text = false) := by
  have htexts : ∀ d ∈ object.entries, IsApp d.1 →
      ∃ text, d.2 = .str text ∧ PlainText (.str text) := by
    intro d hd hd_app
    have hplain := h.texts d hd hd_app
    cases hvalue : d.2 with
    | str text =>
      rw [hvalue] at hplain
      exact ⟨text, rfl, hplain⟩
    | _ =>
      rw [hvalue] at hplain
      exact hplain.elim
  obtain ⟨text, hvalue, hplain⟩ := htexts e he happ
  refine ⟨text, ⟨⟨e, he, happ⟩, h.unpadded, fun d hd hd_app => ?_⟩, hplain, fun hsome => ?_⟩
  · obtain ⟨other, hother, -⟩ := htexts d hd hd_app
    have hsame := h.agree d hd e he hd_app happ
    rw [hother, hvalue] at hsame
    exact ⟨other, hother, trim_of_answer hsame⟩
  · obtain ⟨default, hdefault⟩ := Option.isSome_iff_exists.1 hsome
    have hsaid := (h.said default hdefault).2 e he happ
    rw [hvalue, answer_text] at hsaid
    by_contra hblank
    rw [if_pos (by simpa using hblank)] at hsaid
    cases hsaid

theorem nameApp_of_named (h : ∃ e ∈ object.entries, Text.sameName e.1 appAttribute) :
    nameApp app object = object := by
  cases app with
  | none => rfl
  | some text =>
    obtain ⟨e, he, hsame⟩ := h
    have hany : (object.keys.any fun key => Text.sameName key appAttribute) = true :=
      List.any_eq_true.2 ⟨e.1, List.mem_map_of_mem he, hsame⟩
    rw [nameApp, if_pos hany]

theorem nameApp_of_unnamed (h : ∀ e ∈ object.entries, ¬ IsApp e.1) (text : String) :
    nameApp (some text) object = object.insert appAttribute (.str text) := by
  have hany : ¬ (object.keys.any fun key => Text.sameName key appAttribute) = true := by
    intro hany
    obtain ⟨key, hkey, hsame⟩ := List.any_eq_true.1 hany
    obtain ⟨e, he, rfl⟩ := List.mem_map.1 hkey
    exact h e he (isApp_of_sameName hsame).2
  rw [nameApp, if_neg hany]

theorem given_of_unnamed {s : InputSchema} (hdeclared : (s.canonical? appAttribute).isSome)
    (h : ∀ e ∈ object.entries, ¬ IsApp e.1) : given s object.entries = [] := by
  rw [List.eq_nil_iff_forall_not_mem]
  intro a ha
  obtain ⟨e, he, hgives, -⟩ := mem_given.1 ha
  exact h e he ((givesApp_iff hdeclared).1 hgives)

theorem namedApp_of_unnamed (h : ∀ e ∈ object.entries, ¬ IsApp e.1) : namedApp object = "" := by
  have hnone : (object.entries.find? fun e => Text.sameName e.1 appAttribute) = none := by
    rw [List.find?_eq_none]
    intro e he hsame
    exact h e he (isApp_of_sameName hsame).2
  rw [namedApp, hnone]
  rfl

theorem consistent_of_names {text : String} (hsettled : Settled c) (hnames : Names object text)
    (hkelvin : kelvin ∉ text.toList) (hspoken : app.isSome → Text.blank text = false)
    (h : Outcome c app object job) : Consistent c app object job := by
  have hobject : nameApp app object = object := by
    obtain ⟨e, he, happ⟩ := hnames.exists_entry
    refine nameApp_of_named ⟨e, he, ?_⟩
    rw [IsApp, hnames.unpadded e he happ] at happ
    exact happ
  have hgiven := given_of_names hsettled.declared hnames
  have hown := own_of_names hsettled.declared hnames
  have happ_eq : job.app? = routeName? text := by
    rw [h.app_eq, hobject, hown]
    cases app with
    | none => rw [Option.bind_none, Option.or_none]
    | some default => rw [routeName_eq, if_neg (by simp [hspoken rfl]), Option.some_or]
  have hstamp : job.question.stored? botIdAttribute =
      some (.text (idText (idFor c (job.app?.getD "")))) := by
    rw [h.stamp_eq, hobject, botId_of_names c hnames, botId_eq_idFor hsettled.named hkelvin,
      happ_eq]
  by_cases hblank : Text.blank text = true
  · -- nothing is given, and there is no default either
    rw [if_pos hblank, List.getLast?_eq_none_iff] at hgiven
    refine ⟨fun hsome => absurd hgiven hsome, fun _ => ?_, hstamp⟩
    cases app with
    | none => rw [happ_eq, routeName_eq, if_pos hblank, Option.bind_none]
    | some default =>
      rw [hspoken rfl] at hblank
      cases hblank
  · rw [if_neg hblank] at hgiven
    refine ⟨fun _ => ⟨.text (Text.trim text), List.mem_of_getLast? hgiven, ?_⟩, fun hnone => ?_,
      hstamp⟩
    · rw [h.given_eq (by rw [hobject, hown, routeName_eq, if_neg hblank]; rfl), hobject, hgiven]
    · rw [hnone] at hgiven
      cases hgiven

theorem consistent_of_unnamed (hsettled : Settled c)
    (hunnamed : ∀ e ∈ object.entries, ¬ IsApp e.1) (hkelvin : ∀ text ∈ app, kelvin ∉ text.toList)
    (h : Outcome c app object job) : Consistent c app object job := by
  have hnothing := given_of_unnamed hsettled.declared hunnamed
  cases app with
  | none =>
    have hnone : job.app? = none := by
      rw [h.app_eq, nameApp, own?, hnothing]
      rfl
    have hempty : routeName? "" = none := by rw [routeName_eq]; rfl
    refine ⟨fun hsome => absurd hnothing hsome, fun _ => hnone, ?_⟩
    rw [h.stamp_eq, nameApp, namedApp_of_unnamed hunnamed,
      botId_eq_idFor hsettled.named List.not_mem_nil, hempty, hnone]
  | some text =>
    have hnames := names_insert hunnamed text
    have hobject := nameApp_of_unnamed hunnamed text
    have happ_eq : job.app? = routeName? text := by
      rw [h.app_eq, hobject, own_of_names hsettled.declared hnames, Option.bind_some,
        Option.or_self]
    refine ⟨fun hsome => absurd hnothing hsome, fun _ => ?_, ?_⟩
    · rw [happ_eq, Option.bind_some]
    · rw [h.stamp_eq, hobject, botId_of_names c hnames,
        botId_eq_idFor hsettled.named (hkelvin text (Option.mem_some_self text)), happ_eq]

/-- On plain objects all looks at the application agree. -/
theorem consistent_of_plain (hsettled : Settled c) (hplain : Plain app object)
    (h : Outcome c app object job) : Consistent c app object job := by
  by_cases hentry : ∃ e ∈ object.entries, IsApp e.1
  · obtain ⟨e, he, happ⟩ := hentry
    obtain ⟨text, hnames, hkelvin, hspoken⟩ := hplain.names he happ
    exact consistent_of_names hsettled hnames hkelvin hspoken h
  · exact consistent_of_unnamed hsettled (fun e he happ => hentry ⟨e, he, happ⟩)
      (fun text htext => (hplain.said text htext).1) h

end Plainness

/-! ## Task files -/

def entriesOf : Json → List Json
  | .arr entries => entries
  | entry => [entry]

def IsInput (entry : Json) (object : Dict Json) : Prop :=
  ∃ members, entry = .obj members ∧ object = .ofList members ∧ object.contains "question" = false

def Routed (c : Config) (app : Option String) (entry : Json) (job : Job) : Prop :=
  ∀ object, IsInput entry object → Outcome c app object job ∧
    (Settled c → Plain app object → Consistent c app object job)

section TaskFiles

variable {c : Config} {app : Option String} {path : String} {files : FileTree} {jobs : List Job}

theorem ok_of_reporting {α : Type} {message : String} {x : Except Fault α} {a : α}
    (h : reporting message x = .ok a) : x = .ok a := by
  cases x with
  | error f => cases h
  | ok b =>
    cases h
    rfl

theorem routed_of_entry {index : Nat} {entry : Json} {job : Job}
    (h : jobOfEntry c app path index entry = .ok job) : Routed c app entry job := by
  rintro object ⟨members, rfl, rfl, hraw⟩
  rw [jobOfEntry] at h
  dsimp only at h
  rw [if_neg (by simp [hraw])] at h
  obtain ⟨built, hbuilt, h⟩ := bind_eq_ok.1 h
  cases h
  have houtcome := outcome_of_input (ok_of_reporting hbuilt)
  exact ⟨houtcome, fun hsettled hplain => consistent_of_plain hsettled hplain houtcome⟩

theorem routed_of_entries {entries : List Json} {index : Nat}
    (h : jobsOfEntries c app path index entries = .ok jobs) :
    List.Forall₂ (Routed c app) entries jobs := by
  induction entries generalizing index jobs with
  | nil =>
    cases h
    exact .nil
  | cons entry rest ih =>
    obtain ⟨job, hfirst, h⟩ := bind_eq_ok.1 h
    obtain ⟨others, hrest, h⟩ := bind_eq_ok.1 h
    cases h
    exact .cons (routed_of_entry hfirst) (ih hrest)

/-- Every input object of a task file becomes a job for the application it gives, or for the default
one, with the bot that the looks at its application yield; on plain objects it is the right one. -/
theorem tasks_routed (h : readTasks files c app path = .ok jobs) :
    ∃ content value, files.readText path = .ok content ∧ Json.parse? content = some value ∧
      List.Forall₂ (Routed c app) (entriesOf value) jobs := by
  unfold readTasks at h
  cases hcontent : files.readText path with
  | error f =>
    rw [hcontent] at h
    cases h
  | ok content =>
    rw [hcontent] at h
    dsimp only at h
    cases hvalue : Json.parse? content with
    | none =>
      rw [hvalue] at h
      cases h
    | some value =>
      rw [hvalue] at h
      refine ⟨content, value, rfl, hvalue, ?_⟩
      cases value <;> exact routed_of_entries h

end TaskFiles

/-! ## Files of flat objects -/

def flat (members : List (String × String)) : Json := .obj (members.map fun m => (m.1, .str m.2))

def tasksAt (value : Json) : FileTree := .ofList [("tasks.json", .text value.compact)]

theorem readText_tasksAt (value : Json) :
    (tasksAt value).readText "tasks.json" = .ok value.compact := by
  have hlocate : FileTree.empty.locate "tasks.json" = .ok ["tasks.json"] := by decide +kernel
  have hfree : FileTree.empty.entry? ["tasks.json"] = none := by decide +kernel
  have hfile : ¬ Path.namesFolder "tasks.json" = true := by decide +kernel
  have hkey : FileTree.key ["tasks.json"] = "tasks.json" := by decide +kernel
  have hwritten : FileTree.empty.writeFile "tasks.json" (.text value.compact) =
      .ok (tasksAt value) := by
    rw [FileTree.writeFile, hlocate, ok_bind, hfree]
    dsimp only
    rw [if_neg hfile, hkey, tasksAt]
    rfl
  exact readText_writeFile hwritten

theorem textual_flats {objects : List (List (String × String))}
    (hsorted : ∀ members ∈ objects, members.Pairwise fun a b => a.1 < b.1) :
    Textual Json.Reader.maxDepth (.arr (objects.map flat)) := by
  refine .arr fun object hobject => ?_
  obtain ⟨members, hmembers, rfl⟩ := List.mem_map.1 hobject
  refine .obj (fun m hm => ?_) (List.pairwise_map.2 (hsorted members hmembers))
  obtain ⟨member, -, rfl⟩ := List.mem_map.1 hm
  exact .str member.2

theorem standard_settled : Settled .standard := by
  constructor <;> decide +kernel

def twoInputs : List (List (String × String)) :=
  [[("Action", "balance")], [("Action", "members"), ("app", " SupremaPoker")]]

def balanceJob : Job :=
  ⟨⟨.ofList [("Action", .text "balance"), ("App", .text "pppoker"), ("BotId", .text "1")]⟩, "Input"⟩

def membersJob : Job :=
  ⟨⟨.ofList [("Action", .text "members"), ("App", .text "SupremaPoker"), ("BotId", .text "2")]⟩,
    "Input"⟩

theorem twoInputs_routed :
    readTasks (tasksAt (.arr (twoInputs.map flat))) .standard (some "pppoker") "tasks.json" =
        .ok [balanceJob, membersJob] ∧
      Consistent .standard (some "pppoker") (.ofList [("Action", .str "balance")]) balanceJob ∧
      Consistent .standard (some "pppoker")
        (.ofList [("Action", .str "members"), ("app", .str " SupremaPoker")]) membersJob := by
  have hread : readTasks (tasksAt (.arr (twoInputs.map flat))) .standard (some "pppoker")
      "tasks.json" = .ok [balanceJob, membersJob] := by
    decide +kernel
  refine ⟨hread, ?_⟩
  obtain ⟨content, value, hcontent, hvalue, hrouted⟩ := tasks_routed hread
  rw [readText_tasksAt, Except.ok.injEq] at hcontent
  rw [← hcontent, parse_compact (textual_flats (by decide)), Option.some.injEq] at hvalue
  subst hvalue
  obtain - | ⟨hbalance, hrest⟩ := hrouted
  obtain - | ⟨hmembers, -⟩ := hrest
  exact ⟨(hbalance _ ⟨_, rfl, rfl, by decide +kernel⟩).2 standard_settled (by decide +kernel),
    (hmembers _ ⟨_, rfl, rfl, by decide +kernel⟩).2 standard_settled (by decide +kernel)⟩

/-- Every input object becomes a job for the application it gives, or for the default one, with the
bot of that application. -/
def AlwaysRouted : Prop :=
  ∀ (files : FileTree) (c : Config) (app : Option String) (path content : String) (value : Json)
    (jobs : List Job), Settled c → files.readText path = .ok content →
      Json.parse? content = some value → readTasks files c app path = .ok jobs →
        List.Forall₂ (fun entry job => ∀ object, IsInput entry object →
          Consistent c app object job) (entriesOf value) jobs

def blankInput : List (List (String × String)) := [[("Action", "balance"), ("App", "")]]

def strayJob : Job :=
  ⟨⟨.ofList [("Action", .text "balance"), ("App", .text "pppoker"), ("BotId", .text "")]⟩, "Input"⟩

/-- An object with a blank application goes to the default one without its bot. -/
theorem blank_astray : ¬ AlwaysRouted := by
  intro hall
  have hread : readTasks (tasksAt (.arr (blankInput.map flat))) .standard (some "pppoker")
      "tasks.json" = .ok [strayJob] := by
    decide +kernel
  obtain - | ⟨hstray, -⟩ := hall _ _ _ _ _ _ _ standard_settled (readText_tasksAt _)
    (parse_compact (textual_flats (by decide))) hread
  have hstamp := (hstray _ ⟨_, rfl, rfl, by decide +kernel⟩).stamped
  have hright : strayJob.question.stored? botIdAttribute ≠
      some (.text (idText (idFor .standard (strayJob.app?.getD "")))) := by
    decide +kernel
  exact hright hstamp

end Playback.Proofs.Routing
