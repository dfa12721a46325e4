import Mathlib.Data.List.Induction
import Playback.Proofs.Answers
/-!
# Reading back what was stored

An answer that is set is read back under its name. One that is pushed is added to the first of the
names that agree up to letter case, while a name is read under its exact spelling if there is one.
So it is read back unless an earlier spelling eclipses the name.
-/

namespace Playback.Proofs.ReadBack

open Names Answers

/-- What a reader finds: the elements of a list, or a single value that is not blank. -/
def shown : Option Answer → List Scalar
  | none => []
  | some (.list items) => items
  | some (.one v) => if v.isEmpty then [] else [v]

/-- The first of the names that agree with this one up to letter case. -/
def first? (q : Question) (name : String) : Option String :=
  q.attrs.keys.find? fun key => Text.sameName key name

/-- The name is there, and so is another spelling before it. -/
def Eclipsed (q : Question) (name : String) : Prop :=
  name ∈ q.attrs.keys ∧ ∃ key ∈ q.attrs.keys, Text.sameName key name ∧ key < name

instance (q : Question) (name : String) : Decidable (Eclipsed q name) :=
  inferInstanceAs (Decidable (_ ∧ ∃ key ∈ _, _ ∧ _))

/-! ## Names in order -/

section Keys

variable {α : Type} {d : Dict α} {name key : String} {v : α}

theorem map_insertEntry {es : List (String × α)} (h : es.Pairwise fun a b => a.1 < b.1)
    (hname : name ∈ es.map (·.1)) :
    (Dict.insertEntry name v es).map (·.1) = es.map (·.1) := by
  induction es with
  | nil => cases hname
  | cons e rest ih =>
    obtain ⟨hhead, htail⟩ := List.pairwise_cons.1 h
    have hnot : ¬ name < e.1 := by
      intro hlt
      rcases List.mem_cons.1 hname with heq | hrest
      · rw [heq] at hlt
        exact String.lt_irrefl _ hlt
      · obtain ⟨other, hother, rfl⟩ := List.mem_map.1 hrest
        exact String.lt_asymm hlt (hhead other hother)
    rw [Dict.insertEntry, if_neg hnot]
    by_cases heq : name = e.1
    · rw [if_pos heq, List.map_cons, List.map_cons, heq]
    · rw [if_neg heq, List.map_cons, List.map_cons, ih htail]
      exact List.mem_of_ne_of_mem heq hname

theorem find_insertEntry {es : List (String × α)} {p : String → Bool} (hname : p name = false) :
    ((Dict.insertEntry name v es).map (·.1)).find? p = (es.map (·.1)).find? p := by
  have hnot : ¬ p name = true := by simp [hname]
  induction es with
  | nil => exact List.find?_cons_of_neg hnot
  | cons e rest ih =>
    rw [Dict.insertEntry]
    by_cases hlt : name < e.1
    · rw [if_pos hlt, List.map_cons, List.find?_cons_of_neg hnot]
    · rw [if_neg hlt]
      by_cases heq : name = e.1
      · rw [if_pos heq, List.map_cons, List.map_cons, heq]
      · rw [if_neg heq, List.map_cons, List.map_cons, List.find?_cons, List.find?_cons, ih]

theorem keys_insert_of_mem (h : name ∈ d.keys) (v : α) : (d.insert name v).keys = d.keys :=
  map_insertEntry d.sorted h

theorem not_lt_of_find {l : List String} {p : String → Bool} (h : l.Pairwise (· < ·))
    (hfind : l.find? p = some key) (hmem : name ∈ l) (hname : p name = true) : ¬ name < key := by
  induction l with
  | nil => cases hmem
  | cons first rest ih =>
    obtain ⟨hhead, htail⟩ := List.pairwise_cons.1 h
    by_cases hfirst : p first = true
    · rw [List.find?_cons_of_pos hfirst, Option.some.injEq] at hfind
      subst hfind
      rcases List.mem_cons.1 hmem with rfl | hrest
      · exact String.lt_irrefl _
      · exact String.lt_asymm (hhead name hrest)
    · rw [List.find?_cons_of_neg hfirst] at hfind
      apply ih htail hfind
      apply List.mem_of_ne_of_mem _ hmem
      rintro rfl
      exact hfirst hname

end Keys

/-! ## What a name is read from -/

section Reading

variable {q : Question} {name key : String} {a : Answer} {v : Scalar}

theorem stored_eq (q : Question) (name : String) :
    q.stored? name =
      match q.attrs.get? name with
      | some a => some a
      | none => (first? q name).bind q.attrs.get? := by
  have hfirst : (q.attrs.entries.find? fun e => Text.sameName e.1 name).map (·.2) =
      (first? q name).bind q.attrs.get? := by
    rw [first?, Dict.keys, List.find?_map]
    change _ = ((q.attrs.entries.find? fun e => Text.sameName e.1 name).map (·.1)).bind _
    cases hfind : q.attrs.entries.find? fun e => Text.sameName e.1 name with
    | none => rfl
    | some entry =>
      have hentry : entry ∈ q.attrs.entries := List.mem_of_find?_eq_some hfind
      rw [Option.map_some, Option.map_some, Option.bind_some]
      exact (get?_eq_some_iff.2 hentry).symm
  unfold Question.stored?
  cases q.attrs.get? name with
  | some a => rfl
  | none => exact hfirst

theorem isTimenow_congr (h : Text.sameName key name) : isTimenow key = isTimenow name := by
  rw [Bool.eq_iff_iff]
  exact ⟨sameName_trans (sameName_symm h), sameName_trans h⟩

theorem get_of_not_timenow (q : Question) (today : Day) (h : isTimenow name = false) :
    q.get? today name = q.stored? name := by
  rw [Question.get?, if_neg (by simp [h])]

theorem stored_of_get (h : q.attrs.get? name = some a) : q.stored? name = some a := by
  rw [stored_eq, h]

theorem stored_of_first (hnone : q.attrs.get? name = none) (hfirst : first? q name = some key)
    (h : q.attrs.get? key = some a) : q.stored? name = some a := by
  rw [stored_eq, hnone, hfirst]
  exact h

theorem exists_of_first (h : first? q name = some key) :
    key ∈ q.attrs.keys ∧ Text.sameName key name ∧ ∃ a, q.attrs.get? key = some a := by
  have hkey : key ∈ q.attrs.keys := List.mem_of_find?_eq_some h
  have hsame : Text.sameName key name := by simpa using List.find?_some h
  exact ⟨hkey, hsame, mem_keys_iff.1 hkey⟩

theorem get_of_first_none (h : first? q name = none) : q.attrs.get? name = none := by
  rw [Option.eq_none_iff_forall_ne_some]
  intro a ha
  have hname := List.find?_eq_none.1 h name (mem_keys_iff.2 ⟨a, ha⟩)
  exact hname (Text.sameName_refl name)

theorem first_of_eclipsed (h : Eclipsed q name) :
    ∃ key, first? q name = some key ∧ key < name := by
  obtain ⟨hname, key, hkey, hsame, hlt⟩ := h
  cases hfirst : first? q name with
  | none => exact absurd hsame (List.find?_eq_none.1 hfirst key hkey)
  | some found =>
    refine ⟨found, rfl, ?_⟩
    have hle : ¬ key < found := not_lt_of_find (sorted_keys q.attrs) hfirst hkey hsame
    by_contra hnot
    exact String.not_lt.2 (String.le_trans (String.not_lt.1 hnot) (String.not_lt.1 hle)) hlt

theorem eclipsed_of_first (hname : q.attrs.get? name = some a) (hfirst : first? q name = some key)
    (hne : key ≠ name) : Eclipsed q name := by
  have hmem : name ∈ q.attrs.keys := mem_keys_iff.2 ⟨a, hname⟩
  obtain ⟨hkey, hsame, -⟩ := exists_of_first hfirst
  have hle : ¬ name < key :=
    not_lt_of_find (sorted_keys q.attrs) hfirst hmem (Text.sameName_refl name)
  refine ⟨hmem, key, hkey, hsame, ?_⟩
  by_contra hnot
  exact hne (String.le_antisymm (String.not_lt.1 hle) (String.not_lt.1 hnot))

end Reading

/-! ## Storing answers -/

/-- An answer does not matter to names that differ from its own in more than letter case. -/
theorem stored_set_other {q : Question} {key name : String} (a : Answer)
    (h : ¬ Text.sameName key name) : (q.set key a).stored? name = q.stored? name := by
  have hpass : Text.sameName key name = false := by simpa using h
  have hapart : ∀ {other : String}, Text.sameName other name → other ≠ key := by
    rintro other hsame rfl
    exact h hsame
  unfold Question.set
  split
  · rfl
  · have hfirst : first? ⟨q.attrs.insert key a⟩ name = first? q name := find_insertEntry hpass
    have hexact : (q.attrs.insert key a).get? name = q.attrs.get? name :=
      get?_insert_of_ne _ (hapart (Text.sameName_refl name)) a
    rw [stored_eq, stored_eq, hfirst, hexact]
    cases q.attrs.get? name with
    | some b => rfl
    | none =>
      cases hfound : first? q name with
      | none => rfl
      | some found =>
        obtain ⟨-, hsame, -⟩ := exists_of_first hfound
        exact get?_insert_of_ne _ (hapart hsame) a

/-! ## Adding an answer -/

section Pushing

variable {q : Question} {name key : String} {a : Answer} {today : Day}

theorem answer_push_eq (a : Answer) (v : Scalar) : a.push v = .list (shown (some a) ++ [v]) := by
  cases a with
  | list items => rfl
  | one previous =>
    unfold Answer.push shown
    dsimp only
    split <;> rfl

theorem answer_push_ne (a : Answer) (v : Scalar) : a.push v ≠ a := by
  intro h
  cases a with
  | list items =>
    have hlength := congrArg List.length (Answer.list.inj h)
    simp at hlength
  | one previous =>
    rw [answer_push_eq] at h
    cases h

theorem push_of_first (v : Scalar) (hname : isTimenow name = false)
    (hfirst : first? q name = some key) (h : q.attrs.get? key = some a) :
    q.push name v = ⟨q.attrs.insert key (a.push v)⟩ := by
  rw [first?] at hfirst
  rw [Question.push, if_neg (by simp [hname]), hfirst]
  dsimp only [Option.getD_some]
  rw [h, Option.getD_some]

theorem push_of_new (v : Scalar) (hname : isTimenow name = false) (hfirst : first? q name = none) :
    q.push name v = ⟨q.attrs.insert name (.list [v])⟩ := by
  have hnone := get_of_first_none hfirst
  rw [first?] at hfirst
  rw [Question.push, if_neg (by simp [hname]), hfirst]
  dsimp only [Option.getD_none]
  rw [hnone]
  rfl

theorem first_push (v : Scalar) (hname : isTimenow name = false)
    (hfirst : first? q name = some key) : first? (q.push name v) name = some key := by
  obtain ⟨hkey, -, a, ha⟩ := exists_of_first hfirst
  rw [push_of_first v hname hfirst ha, first?, keys_insert_of_mem hkey]
  exact hfirst

/-- The first spelling always gains the answer. -/
theorem stored_push_first (v : Scalar) (hname : isTimenow name = false)
    (hfirst : first? q name = some key) (h : q.attrs.get? key = some a) :
    (q.push name v).stored? key = some (a.push v) := by
  rw [push_of_first v hname hfirst h]
  exact stored_of_get (get?_insert_self _ _ _)

theorem stored_push (v : Scalar) (hname : isTimenow name = false) (hclear : ¬ Eclipsed q name) :
    (q.push name v).stored? name = some (.list (shown (q.stored? name) ++ [v])) := by
  cases hfirst : first? q name with
  | none =>
    have hnone : q.stored? name = none := by
      rw [stored_eq, get_of_first_none hfirst, hfirst]
      rfl
    rw [push_of_new v hname hfirst, hnone]
    exact stored_of_get (get?_insert_self _ _ _)
  | some key =>
    obtain ⟨hkey, -, a, ha⟩ := exists_of_first hfirst
    by_cases heq : key = name
    · subst heq
      rw [stored_push_first v hname hfirst ha, stored_of_get ha, answer_push_eq]
    · have hnone : q.attrs.get? name = none := by
        rw [Option.eq_none_iff_forall_ne_some]
        intro b hb
        exact hclear (eclipsed_of_first hb hfirst heq)
      have hadded := push_of_first v hname hfirst ha
      have hstill : (q.push name v).attrs.get? name = none := by
        rw [hadded]
        exact (get?_insert_of_ne _ (Ne.symm heq) _).trans hnone
      have hgained : (q.push name v).attrs.get? key = some (a.push v) := by
        rw [hadded]
        exact get?_insert_self _ _ _
      rw [stored_of_first hstill (first_push v hname hfirst) hgained,
        stored_of_first hnone hfirst ha, answer_push_eq]

/-- Under an eclipsed name nothing changes, and the first spelling gains the answer. -/
theorem stored_push_eclipsed (v : Scalar) (hname : isTimenow name = false)
    (h : Eclipsed q name) :
    (∃ a, q.stored? name = some a ∧ (q.push name v).stored? name = some a) ∧
      ∃ key, key < name ∧ Text.sameName key name ∧
        (q.push name v).stored? key = some (.list (shown (q.stored? key) ++ [v])) := by
  obtain ⟨b, hb⟩ := mem_keys_iff.1 h.1
  obtain ⟨key, hfirst, hlt⟩ := first_of_eclipsed h
  obtain ⟨-, hsame, a, ha⟩ := exists_of_first hfirst
  have hne : name ≠ key := by
    rintro rfl
    exact String.lt_irrefl _ hlt
  constructor
  · refine ⟨b, stored_of_get hb, stored_of_get ?_⟩
    rw [push_of_first v hname hfirst ha]
    exact (get?_insert_of_ne _ hne _).trans hb
  · refine ⟨key, hlt, hsame, ?_⟩
    rw [stored_push_first v hname hfirst ha, stored_of_get ha, answer_push_eq]

theorem stored_push_iff (v : Scalar) (hname : isTimenow name = false) :
    (q.push name v).stored? name = some (.list (shown (q.stored? name) ++ [v])) ↔
      ¬ Eclipsed q name := by
  refine ⟨fun hread heclipsed => ?_, stored_push v hname⟩
  obtain ⟨⟨a, hbefore, hafter⟩, -⟩ := stored_push_eclipsed v hname heclipsed
  rw [hbefore, hafter, ← answer_push_eq, Option.some.injEq] at hread
  exact answer_push_ne a v hread.symm

end Pushing

/-! ## Questions that can come about -/

inductive Change where
  | set (name : String) (a : Answer)
  | push (name : String) (v : Scalar)
  | reset

def Change.apply (q : Question) : Change → Question
  | .set name a => q.set name a
  | .push name v => q.push name v
  | .reset => q.reset

def Change.name? : Change → Option String
  | .set name _ => some name
  | .push name _ => some name
  | .reset => none

def reached (attrs : Dict Answer) (changes : List Change) : Question :=
  changes.foldl Change.apply (.ofAttrs attrs)

def Mentioned (attrs : Dict Answer) (changes : List Change) (name : String) : Prop :=
  name ∈ attrs.keys ∨ ∃ change ∈ changes, change.name? = some name

section Reached

variable {names : String → Prop} {q : Question} {name : String}

theorem spelled_push (hq : Spelled names q) (hname : names name) (v : Scalar) :
    Spelled names (q.push name v) := by
  unfold Question.push
  split
  · exact hq
  · intro entry hentry
    rcases Dict.mem_insertEntry hentry with rfl | hold
    · cases hfind : q.attrs.keys.find? fun key => Text.sameName key name with
      | none => exact hname
      | some key =>
        obtain ⟨old, hold, rfl⟩ := List.mem_map.1 (List.mem_of_find?_eq_some hfind)
        exact hq old hold
    · exact hq entry hold

theorem spelled_ofAttrs {attrs : Dict Answer} (h : ∀ name ∈ attrs.keys, names name) :
    Spelled names (.ofAttrs attrs) := by
  have hfold : ∀ entries : List (String × Answer), (∀ entry ∈ entries, names entry.1) →
      ∀ q : Question, Spelled names q →
        Spelled names (entries.foldl (fun q e => q.set e.1 e.2) q) := by
    intro entries
    induction entries with
    | nil => exact fun _ q hq => hq
    | cons entry rest ih =>
      intro hnames q hq
      apply ih fun e he => hnames e (List.mem_cons_of_mem _ he)
      exact spelled_set hq (hnames entry List.mem_cons_self) entry.2
  apply hfold
  · exact fun entry hentry => h entry.1 (List.mem_map_of_mem hentry)
  · exact fun entry hentry => absurd hentry List.not_mem_nil

theorem spelled_reached (attrs : Dict Answer) (changes : List Change) :
    Spelled (Mentioned attrs changes) (reached attrs changes) := by
  have hfold : ∀ (later : List Change) (q : Question), (∀ change ∈ later, change ∈ changes) →
      Spelled (Mentioned attrs changes) q →
        Spelled (Mentioned attrs changes) (later.foldl Change.apply q) := by
    intro later
    induction later with
    | nil => exact fun _ _ hq => hq
    | cons change rest ih =>
      intro q hlater hq
      have hchange : ∀ name, change.name? = some name → Mentioned attrs changes name :=
        fun name hname => .inr ⟨change, hlater change List.mem_cons_self, hname⟩
      apply ih _ fun other hother => hlater other (List.mem_cons_of_mem _ hother)
      cases change with
      | set name a => exact spelled_set hq (hchange name rfl) a
      | push name v => exact spelled_push hq (hchange name rfl) v
      | reset => exact spelled_reset hq
  exact hfold changes _ (fun _ h => h) (spelled_ofAttrs fun name hname => .inl hname)

/-- Nothing is eclipsed where no two names differ only in letter case. -/
theorem not_eclipsed (hnames : Unambiguous names) (hq : Spelled names q) : ¬ Eclipsed q name := by
  rintro ⟨hname, key, hkey, hsame, hlt⟩
  obtain ⟨entry, hentry, rfl⟩ := List.mem_map.1 hname
  obtain ⟨other, hother, rfl⟩ := List.mem_map.1 hkey
  rw [hnames other.1 entry.1 (hq other hother) (hq entry hentry) hsame] at hlt
  exact String.lt_irrefl _ hlt

end Reached

/-- Reading back what was stored in a question. -/
structure ReadsBack (q : Question) (today : Day) (name : String) : Prop where
  set : ∀ a, (q.set name a).get? today name = some a
  /-- What is pushed is read behind all that was there exactly if the name is not eclipsed. -/
  push_iff : ∀ v, (q.push name v).get? today name =
    some (.list (shown (q.get? today name) ++ [v])) ↔ ¬ Eclipsed q name
  text : ∀ v, ¬ Eclipsed q name → (q.push name v).getText? today name = some v.asText
  /-- Under an eclipsed name nothing changes, and an earlier spelling gains the answer. -/
  eclipsed : ∀ v, Eclipsed q name → (q.push name v).get? today name = q.get? today name ∧
    ∃ key < name, Text.sameName key name ∧ (q.push name v).get? today key =
      some (.list (shown (q.get? today key) ++ [v]))

theorem readsBack (attrs : Dict Answer) (changes : List Change) (today : Day) (name : String)
    (hname : isTimenow name = false) :
    ReadsBack (reached attrs changes) today name ∧
      (Unambiguous (Mentioned attrs changes) → ¬ Eclipsed (reached attrs changes) name) := by
  generalize hq : reached attrs changes = q
  refine ⟨⟨?_, ?_, ?_, ?_⟩, ?_⟩
  · intro a
    rw [get_of_not_timenow _ today hname, stored_set_self q a hname]
  · intro v
    rw [get_of_not_timenow _ today hname, get_of_not_timenow _ today hname]
    exact stored_push_iff v hname
  · intro v hclear
    rw [Question.getText?, get_of_not_timenow _ today hname, stored_push v hname hclear]
    simp [Answer.asText]
  · intro v heclipsed
    obtain ⟨⟨a, hbefore, hafter⟩, key, hlt, hsame, hgains⟩ :=
      stored_push_eclipsed v hname heclipsed
    have hkey : isTimenow key = false := (isTimenow_congr hsame).trans hname
    rw [get_of_not_timenow _ today hname, get_of_not_timenow _ today hname, hbefore, hafter]
    refine ⟨rfl, key, hlt, hsame, ?_⟩
    rw [get_of_not_timenow _ today hkey, get_of_not_timenow _ today hkey]
    exact hgains
  · intro hnames
    rw [← hq]
    exact not_eclipsed hnames (spelled_reached attrs changes)

/-! ## Two spellings -/

/-- The answers of two clubs, under names that differ in letter case only. -/
def twoSpellings : Dict Answer := .ofList [("CLUB", .text "north"), ("Club", .text "south")]

def today : Day := ⟨2024, 2, 29, by decide⟩

theorem twoSpellings_facts :
    isTimenow "Club" = false ∧ isTimenow "CLUB" = false ∧
      Eclipsed (reached twoSpellings []) "Club" ∧ ¬ Eclipsed (reached twoSpellings []) "CLUB" ∧
      (reached twoSpellings []).get? today "Club" = some (.text "south") ∧
      (reached twoSpellings []).get? today "CLUB" = some (.text "north") := by
  decide +kernel

theorem twoSpellings_readsBack :
    isTimenow "CLUB" = false ∧ ReadsBack (reached twoSpellings []) today "CLUB" ∧
      ((reached twoSpellings []).push "CLUB" (.text "west")).get? today "CLUB" =
        some (.list [.text "north", .text "west"]) := by
  obtain ⟨-, hname, -, hclear, -, hbefore⟩ := twoSpellings_facts
  have hreads := (readsBack twoSpellings [] today "CLUB" hname).1
  refine ⟨hname, hreads, ?_⟩
  rw [(hreads.push_iff (.text "west")).2 hclear, hbefore]
  decide +kernel

/-- Whatever is pushed is read behind all that was there. -/
def AlwaysReadBack : Prop :=
  ∀ (attrs : Dict Answer) (changes : List Change) (today : Day) (name : String) (v : Scalar),
    isTimenow name = false →
      ((reached attrs changes).push name v).get? today name =
        some (.list (shown ((reached attrs changes).get? today name) ++ [v]))

/-- The other club gains the answer. -/
theorem pushed_aside : ¬ AlwaysReadBack := by
  intro hall
  obtain ⟨hname, -, -, -, hbefore, -⟩ := twoSpellings_facts
  have hread := hall twoSpellings [] today "Club" (.text "west") hname
  have hafter : ((reached twoSpellings []).push "Club" (.text "west")).get? today "Club" =
      some (.text "south") := by
    decide +kernel
  rw [hbefore, hafter] at hread
  cases hread

end Playback.Proofs.ReadBack
