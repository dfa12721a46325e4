import Playback.Proofs.Codec
import Playback.Proofs.Expanding
/-!
# Which recordings can be loaded

A command file is loaded unless it is there and cannot be read, holds something that is no list, or
has an entry that is no command. A job with a known operation is expanded unless one of the
recordings it needs cannot be loaded.
-/

namespace Playback.Proofs.Loading

open Codec Expanding

/-- Why a command file cannot be loaded. A file that is missing or blank holds no commands. -/
inductive Malformed (t : FileTree) (path : String) : Prop
  | unreadable {f : FileFault} (hread : t.readText path = .error f) (hthere : f ≠ .notFound)
  | noList {content : String} (hread : t.readText path = .ok content)
      (hcontent : Text.blank content = false)
      (hlist : ∀ items, Json.parse? content ≠ some (.arr items))
  | badEntry {content : String} {items : List Json} {entry : Json}
      (hread : t.readText path = .ok content) (hlist : Json.parse? content = some (.arr items))
      (hentry : entry ∈ items) (hbad : ∀ c, Command.ofJson? entry ≠ some (.ok c))

/-! ## Command files -/

section Files

variable {t : FileTree} {path content : String} {items : List Json}

theorem items_eq_some_iff {v : Json} : v.items? = some items ↔ v = .arr items := by
  cases v <;> simp [Json.items?]

theorem canonical_eq_arr {v : Json} (h : v.canonical = .arr items) : ∃ found, v = .arr found := by
  cases v with
  | arr found => exact ⟨found, rfl⟩
  | _ => cases h

/-- A list begins with a bracket. -/
theorem bracket_of_value_arr {fuel depth : Nat} {cs rest : List Char}
    (h : Json.Reader.value? fuel depth cs = some (.arr items, rest)) :
    ∃ more, Json.Reader.skipGap cs = '[' :: more := by
  cases fuel with
  | zero => simp [Json.Reader.value?] at h
  | succ fuel =>
    rw [Json.Reader.value?.eq_def] at h
    dsimp only at h
    split at h
    · simp at h
    · exact ⟨_, by assumption⟩
    · -- an object, whatever its members are
      cases depth with
      | zero => cases h
      | succ depth =>
        dsimp only at h
        split at h
        · cases h
        · simp at h
    · cases h
    · cases h
    · cases h
    · simp at h

theorem blank_of_parse_arr (h : Json.parse? content = some (.arr items)) :
    Text.blank content = false := by
  obtain ⟨v, hread, hv⟩ := Option.map_eq_some_iff.1 h
  obtain ⟨found, rfl⟩ := canonical_eq_arr hv
  unfold Json.read? at hread
  dsimp only at hread
  split at hread
  · rename_i w rest hvalue
    split at hread
    · rw [Option.some.injEq] at hread
      subst hread
      obtain ⟨more, hmore⟩ := bracket_of_value_arr hvalue
      rw [Names.blank_eq_false_iff]
      refine ⟨'[', ?_, by decide⟩
      apply (List.dropWhile_sublist Json.Reader.isGap).subset
      rw [← Json.Reader.skipGap, hmore]
      exact List.mem_cons_self
    · cases hread
  · cases hread

theorem decodeEntries_error_iff {i : Nat} :
    (∃ f, decodeEntries path i items = .error f) ↔
      ∃ entry ∈ items, ∀ c, Command.ofJson? entry ≠ some (.ok c) := by
  induction items generalizing i with
  | nil => simp [decodeEntries]
  | cons entry rest ih =>
    rw [decodeEntries, List.exists_mem_cons_iff]
    cases hraw : RawCommand.ofJson? entry with
    | none => simp [Command.ofJson?, hraw]
    | some raw =>
      cases hdecode : raw.decode with
      | error f => simp [Command.ofJson?, hraw, hdecode, bind, Except.bind]
      | ok c =>
        have hgood : ¬ ∀ c, Command.ofJson? entry ≠ some (.ok c) := by
          simp [Command.ofJson?, hraw, hdecode]
        rw [or_iff_right hgood, ← ih]
        dsimp only
        rw [hdecode, ok_bind]
        cases decodeEntries path (i + 1) rest with
        | error f => simp [bind, Except.bind]
        | ok cs => simp [bind, Except.bind]

theorem loadCommands_of_items (hread : t.readText path = .ok content)
    (hlist : Json.parse? content = some (.arr items)) :
    t.loadCommands path = decodeEntries path 0 items := by
  have hentries : t.commandEntries path = .ok (some items) := by
    simp only [FileTree.commandEntries, hread, blank_of_parse_arr hlist, hlist]
    rfl
  rw [FileTree.loadCommands, hentries, ok_bind]

theorem Malformed.error (h : Malformed t path) : ∃ f, t.loadCommands path = .error f := by
  cases h with
  | @unreadable f hread hthere =>
    have hentries : t.commandEntries path = .error .io := by
      unfold FileTree.commandEntries
      rw [hread]
      cases f <;> first | rfl | exact absurd rfl hthere
    exact ⟨.io, by rw [FileTree.loadCommands, hentries]; rfl⟩
  | @noList content hread hcontent hlist =>
    have hitems : (Json.parse? content).bind Json.items? = none := by
      rw [Option.bind_eq_none_iff]
      intro v hv
      rw [Option.eq_none_iff_forall_ne_some]
      intro items hitems
      exact hlist items (hv.trans (congrArg some (items_eq_some_iff.1 hitems)))
    have hentries : t.commandEntries path = .error .json := by
      simp only [FileTree.commandEntries, hread, hcontent, hitems]
      rfl
    exact ⟨.json, by rw [FileTree.loadCommands, hentries]; rfl⟩
  | badEntry hread hlist hentry hbad =>
    rw [loadCommands_of_items hread hlist]
    exact decodeEntries_error_iff.2 ⟨_, hentry, hbad⟩

theorem malformed_of_error {f : Fault} (h : t.loadCommands path = .error f) :
    Malformed t path := by
  cases hread : t.readText path with
  | error g =>
    refine .unreadable hread ?_
    rintro rfl
    rw [FileTree.loadCommands, FileTree.commandEntries, hread] at h
    cases h
  | ok content =>
    by_cases hlist : ∃ items, Json.parse? content = some (.arr items)
    · obtain ⟨items, hlist⟩ := hlist
      rw [loadCommands_of_items hread hlist] at h
      obtain ⟨entry, hentry, hbad⟩ := decodeEntries_error_iff.1 ⟨f, h⟩
      exact .badEntry hread hlist hentry hbad
    · refine .noList hread ?_ fun items hitems => hlist ⟨items, hitems⟩
      rw [← Bool.not_eq_true]
      intro hblank
      have hentries : t.commandEntries path = .ok none := by
        simp only [FileTree.commandEntries, hread, hblank, if_true]
      rw [FileTree.loadCommands, hentries] at h
      cases h

theorem malformed_iff : Malformed t path ↔ ∃ f, t.loadCommands path = .error f :=
  ⟨Malformed.error, fun ⟨_, h⟩ => malformed_of_error h⟩

end Files

/-! ## Expansions -/

section Expansions

variable {e : Setup}

def recordingPath (e : Setup) (r : Recording) : String := e.mappings.path e.app r.kind r.name

theorem loadAll_error_iff {recordings : List Recording} :
    (∃ f, e.loadAll recordings = .error f) ↔
      ∃ r ∈ recordings, ∃ f, e.loadRecording r = .error f := by
  induction recordings with
  | nil => simp [Setup.loadAll]
  | cons r rest ih =>
    rw [Setup.loadAll, List.exists_mem_cons_iff, ← ih]
    cases e.loadRecording r with
    | error f => simp [bind, Except.bind]
    | ok first =>
      cases e.loadAll rest with
      | error f => simp [bind, Except.bind]
      | ok others => simp [bind, Except.bind, pure, Except.pure]

/-- A job with a known operation is expanded unless a recording it needs cannot be loaded. -/
theorem expand_error_iff {history : List String} {job : Job} {operation : String}
    {feature : Feature} (hoperation : job.operation? = some operation)
    (hfeature : e.config.catalog.get? operation = some feature) :
    (∃ f, e.expand history job = .error f) ↔
      ∃ r ∈ Setup.recordings (e.previousScreen? history) feature.screen operation,
        Malformed e.files (recordingPath e r) := by
  have hloads : (∃ f, e.expand history job = .error f) ↔
      ∃ f, e.loadAll (Setup.recordings (e.previousScreen? history) feature.screen operation) =
        .error f := by
    simp only [Setup.expand, hoperation, hfeature]
    cases e.loadAll (Setup.recordings (e.previousScreen? history) feature.screen operation) with
    | error f => simp [bind, Except.bind]
    | ok recorded => simp [bind, Except.bind, pure, Except.pure]
  rw [hloads, loadAll_error_iff]
  simp only [malformed_iff]
  rfl

end Expansions

end Playback.Proofs.Loading
