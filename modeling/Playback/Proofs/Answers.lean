import Playback.Question
import Playback.Proofs.Names
/-!
# Answers up to letter case

A question finds an answer under its exact name first, and up to letter case otherwise. Where no two
names differ only in letter case this makes no difference: what stands under a name depends on the
name up to letter case, and two questions can agree on all that stands in them though one of them
has names the other has not.
-/

namespace Playback.Proofs.Answers

open Names

/-- No two of these names differ only in letter case. -/
def Unambiguous (names : String → Prop) : Prop :=
  ∀ a b, names a → names b → Text.sameName a b → a = b

def Spelled (names : String → Prop) (q : Question) : Prop :=
  ∀ entry ∈ q.attrs.entries, names entry.1

/-- What stands under a name; nothing stands under a name that is not there. -/
def value (q : Question) (name : String) : Answer := (q.stored? name).getD .empty

/-- Two questions with names of their own in which the same stands under every name. -/
structure Alike (left right : String → Prop) (q r : Question) : Prop where
  spelled_left : Spelled left q
  spelled_right : Spelled right r
  value_eq : ∀ name, value q name = value r name

section Values

variable {names : String → Prop} {q : Question} {name key : String} {a : Answer}

theorem mem_of_stored (h : q.stored? name = some a) :
    ∃ key, (key, a) ∈ q.attrs.entries ∧ Text.sameName key name := by
  unfold Question.stored? at h
  cases hexact : q.attrs.get? name with
  | some b =>
    rw [hexact] at h
    cases h
    exact ⟨name, get?_eq_some_iff.1 hexact, Text.sameName_refl name⟩
  | none =>
    rw [hexact] at h
    obtain ⟨entry, hfind, rfl⟩ := Option.map_eq_some_iff.1 h
    exact ⟨entry.1, List.mem_of_find?_eq_some hfind, by simpa using List.find?_some hfind⟩

theorem stored_isSome (hentry : (key, a) ∈ q.attrs.entries) (hsame : Text.sameName key name) :
    ∃ b, q.stored? name = some b := by
  unfold Question.stored?
  cases q.attrs.get? name with
  | some b => exact ⟨b, rfl⟩
  | none =>
    have hsome : (q.attrs.entries.find? fun e => Text.sameName e.1 name).isSome := by
      rw [List.find?_isSome]
      exact ⟨(key, a), hentry, hsame⟩
    obtain ⟨entry, hfind⟩ := Option.isSome_iff_exists.1 hsome
    exact ⟨entry.2, by dsimp only; rw [hfind, Option.map_some]⟩

theorem stored_set_self (q : Question) (a : Answer) (h : isTimenow name = false) :
    (q.set name a).stored? name = some a := by
  have hfound : (q.attrs.insert name a).get? name = some a := get?_insert_self q.attrs name a
  rw [Question.set, if_neg (by simp [h]), Question.stored?]
  dsimp only
  rw [hfound]

theorem stored_eq_some_iff (hnames : Unambiguous names) (hq : Spelled names q) :
    q.stored? name = some a ↔ ∃ key, (key, a) ∈ q.attrs.entries ∧ Text.sameName key name := by
  refine ⟨mem_of_stored, ?_⟩
  rintro ⟨key, hentry, hsame⟩
  obtain ⟨b, hstored⟩ := stored_isSome hentry hsame
  obtain ⟨other, hother, hagain⟩ := mem_of_stored hstored
  have hkey : other = key :=
    hnames other key (hq _ hother) (hq _ hentry) (sameName_trans hagain (sameName_symm hsame))
  rw [hkey] at hother
  rw [hstored, eq_of_mem_entries hother hentry]

theorem stored_eq_get (hnames : Unambiguous names) (hq : Spelled names q) (hname : names name) :
    q.stored? name = q.attrs.get? name := by
  apply Option.ext
  intro a
  rw [stored_eq_some_iff hnames hq, get?_eq_some_iff]
  constructor
  · rintro ⟨key, hentry, hsame⟩
    rw [hnames key name (hq _ hentry) hname hsame] at hentry
    exact hentry
  · intro hentry
    exact ⟨name, hentry, Text.sameName_refl name⟩

theorem spelled_set (hq : Spelled names q) (hkey : names key) (a : Answer) :
    Spelled names (q.set key a) := by
  unfold Question.set
  split
  · exact hq
  · intro entry hentry
    rcases Dict.mem_insertEntry hentry with rfl | hentry
    · exact hkey
    · exact hq entry hentry

theorem spelled_reset (hq : Spelled names q) : Spelled names q.reset := by
  intro entry hentry
  obtain ⟨old, hold, rfl⟩ := List.mem_map.1 hentry
  exact hq old hold

theorem stored_set (hnames : Unambiguous names) (hq : Spelled names q) (hkey : names key)
    (htime : isTimenow key = false) (a : Answer) (name : String) :
    (q.set key a).stored? name = if Text.sameName key name then some a else q.stored? name := by
  have hset := spelled_set hq hkey a
  have hentries : ∀ entry, entry ∈ (q.set key a).attrs.entries ↔
      entry = (key, a) ∨ (entry ∈ q.attrs.entries ∧ entry.1 ≠ key) := by
    intro entry
    rw [Question.set, if_neg (by simp [htime])]
    exact mem_insertEntry_iff q.attrs.sorted
  apply Option.ext
  intro b
  rw [stored_eq_some_iff hnames hset]
  split
  · rename_i hsame
    rw [Option.some.injEq]
    constructor
    · rintro ⟨other, hother, hagain⟩
      rcases (hentries _).1 hother with heq | ⟨hold, hne⟩
      · exact (Prod.mk.inj heq).2.symm
      · exact absurd (hnames other key (hq _ hold) hkey
          (sameName_trans hagain (sameName_symm hsame))) hne
    · rintro rfl
      exact ⟨key, (hentries _).2 (.inl rfl), hsame⟩
  · rename_i hother
    rw [stored_eq_some_iff hnames hq]
    constructor
    · rintro ⟨found, hfound, hsame⟩
      rcases (hentries _).1 hfound with heq | ⟨hold, -⟩
      · rw [(Prod.mk.inj heq).1] at hsame
        exact absurd hsame hother
      · exact ⟨found, hold, hsame⟩
    · rintro ⟨found, hfound, hsame⟩
      refine ⟨found, (hentries _).2 (.inr ⟨hfound, ?_⟩), hsame⟩
      rintro rfl
      exact hother hsame

theorem value_set (hnames : Unambiguous names) (hq : Spelled names q) (hkey : names key)
    (htime : isTimenow key = false) (a : Answer) (name : String) :
    value (q.set key a) name = if Text.sameName key name then a else value q name := by
  rw [value, stored_set hnames hq hkey htime]
  split <;> rfl

theorem value_reset (q : Question) (name : String) : value q.reset name = .empty := by
  unfold value
  cases h : q.reset.stored? name with
  | none => rfl
  | some a =>
    obtain ⟨key, hentry, -⟩ := mem_of_stored h
    obtain ⟨old, -, hold⟩ := List.mem_map.1 hentry
    exact (Prod.mk.inj hold).2.symm

/-- Adding an answer is setting what stands there with the answer at its end. -/
theorem push_eq (hnames : Unambiguous names) (hq : Spelled names q) (hname : names name)
    (v : Scalar) : q.push name v = q.set name ((value q name).push v) := by
  have hkey : (q.attrs.keys.find? fun k => Text.sameName k name).getD name = name := by
    cases hfind : q.attrs.keys.find? fun k => Text.sameName k name with
    | none => rfl
    | some key =>
      obtain ⟨entry, hentry, rfl⟩ := List.mem_map.1 (List.mem_of_find?_eq_some hfind)
      exact hnames entry.1 name (hq entry hentry) hname (by simpa using List.find?_some hfind)
  have hvalue : (q.attrs.get? name).getD .empty = value q name := by
    rw [value, stored_eq_get hnames hq hname]
  unfold Question.push Question.set
  split
  · rfl
  · dsimp only
    rw [hkey, hvalue]

theorem getText_eq (q : Question) (today : Day) (name : String) :
    (q.getText? today name).getD "" =
      if isTimenow name then today.dashed else (value q name).asText := by
  unfold Question.getText? Question.get? value
  split
  · rfl
  · cases q.stored? name with
    | none => rfl
    | some a => rfl

theorem answered_eq (q : Question) (today : Day) (name : String) :
    ((q.get? today name).filter fun a => !a.isEmpty) =
      if isTimenow name then (some (Answer.text today.dashed)).filter fun a => !a.isEmpty
      else (some (value q name)).filter fun a => !a.isEmpty := by
  unfold Question.get? value
  split
  · rfl
  · cases q.stored? name with
    | none => rfl
    | some a => rfl

end Values

section Pairs

variable {left right : String → Prop} {q r : Question} {name : String}

theorem Alike.set (h : Alike left right q r) (hleft : Unambiguous left) (hright : Unambiguous right)
    (hname : left name ∧ right name) (a : Answer) :
    Alike left right (q.set name a) (r.set name a) := by
  refine ⟨spelled_set h.spelled_left hname.1 a, spelled_set h.spelled_right hname.2 a, ?_⟩
  intro other
  cases htime : isTimenow name with
  | true =>
    rw [Question.set, if_pos htime, Question.set, if_pos htime]
    exact h.value_eq other
  | false =>
    rw [value_set hleft h.spelled_left hname.1 htime,
      value_set hright h.spelled_right hname.2 htime, h.value_eq other]

theorem Alike.push (h : Alike left right q r) (hleft : Unambiguous left)
    (hright : Unambiguous right) (hname : left name ∧ right name) (v : Scalar) :
    Alike left right (q.push name v) (r.push name v) := by
  rw [push_eq hleft h.spelled_left hname.1, push_eq hright h.spelled_right hname.2, h.value_eq name]
  exact h.set hleft hright hname _

theorem alike_reset (hleft : Spelled left q) (hright : Spelled right r) :
    Alike left right q.reset r.reset := by
  refine ⟨spelled_reset hleft, spelled_reset hright, fun other => ?_⟩
  rw [value_reset, value_reset]

theorem Alike.getText (h : Alike left right q r) (today : Day) (name : String) :
    (q.getText? today name).getD "" = (r.getText? today name).getD "" := by
  rw [getText_eq, getText_eq, h.value_eq name]

theorem Alike.answered (h : Alike left right q r) (today : Day) (name : String) :
    ((q.get? today name).filter fun a => !a.isEmpty) =
      (r.get? today name).filter fun a => !a.isEmpty := by
  rw [answered_eq, answered_eq, h.value_eq name]

end Pairs

theorem trimmed_of_operation {job : Job} {operation : String}
    (h : job.operation? = some operation) :
    Text.trim operation = operation ∧ operation.isEmpty = false := by
  unfold Job.operation? at h
  split at h
  · dsimp only at h
    split at h
    · cases h
    · rename_i hsome
      cases h
      exact ⟨trim_trim _, by simpa using hsome⟩
  · cases h

end Playback.Proofs.Answers
