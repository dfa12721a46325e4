import Mathlib.Data.List.Dedup
import Playback.CommandLine.Execution
import Playback.Proofs.Career
import Playback.Proofs.Loading
import Playback.Proofs.Spelling
/-!
# What a check of the recordings covers

A check counts every recording of the applications it is made for, and counts it once. Every
recording that an engine may need is among them. So where a check reports nothing of an application,
each job of it with an operation of the catalog can be expanded.
-/

namespace Playback.Proofs.Checking

open Answers CommandLine Loading Names Spelling

def checkedApps (c : Config) : Option String → List String
  | some app => [Registry.key app]
  | none => Registry.keys c

def appPaths (c : Config) (app : String) : List String :=
  (allRecordings c.catalog).map fun r => (MappingRoot.mk c.mappingRoot).path app r.kind r.name

/-- What stands under the path cannot be loaded. -/
def isBroken (files : FileTree) (path : String) : Bool :=
  files.pathExists path && !(files.loadCommands path).isOk

/-- The files that a check reports. -/
def reported (files : FileTree) (c : Config) (only : Option String) : List String :=
  (recordingPaths c only).filter (isBroken files)

def distinctScreens (c : Catalog) : List String := (c.operations.values.map Feature.screen).dedup

/-! ## The counts -/

section Counts

variable {files : FileTree} {c : Config}

theorem total_count (t : Tally) (path : String) :
    (t.count files path).loaded + (t.count files path).missing + (t.count files path).broken =
      t.loaded + t.missing + t.broken + 1 := by
  unfold Tally.count
  split
  · dsimp only
    omega
  · split <;> dsimp only <;> omega

theorem broken_count (t : Tally) (path : String) :
    (t.count files path).broken = t.broken + if isBroken files path then 1 else 0 := by
  unfold Tally.count isBroken
  cases files.pathExists path with
  | false => rfl
  | true =>
    cases files.loadCommands path with
    | error f => rfl
    | ok commands => rfl

theorem total_foldl (paths : List String) (t : Tally) :
    (paths.foldl (Tally.count files) t).loaded + (paths.foldl (Tally.count files) t).missing +
        (paths.foldl (Tally.count files) t).broken =
      t.loaded + t.missing + t.broken + paths.length := by
  induction paths generalizing t with
  | nil => rfl
  | cons path rest ih =>
    rw [List.foldl_cons, ih, total_count, List.length_cons]
    omega

theorem broken_foldl (paths : List String) (t : Tally) :
    (paths.foldl (Tally.count files) t).broken =
      t.broken + (paths.filter (isBroken files)).length := by
  induction paths generalizing t with
  | nil => rfl
  | cons path rest ih =>
    rw [List.foldl_cons, ih, broken_count, List.filter_cons]
    cases isBroken files path with
    | false => rfl
    | true =>
      rw [if_pos rfl, if_pos rfl, List.length_cons]
      omega

theorem recordingPaths_eq (c : Config) (only : Option String) :
    recordingPaths c only = (checkedApps c only).flatMap (appPaths c) := by
  cases only <;> rfl

end Counts

/-! ## The screens -/

section Screens

variable {c : Catalog} {screen : String}

theorem mem_keys_foldl (features : List Feature) (d : Dict Unit) :
    screen ∈ (features.foldl (fun d f => d.insert f.screen ()) d).keys ↔
      screen ∈ d.keys ∨ screen ∈ features.map Feature.screen := by
  induction features generalizing d with
  | nil => simp
  | cons f rest ih =>
    rw [List.foldl_cons, ih, mem_keys_insert_iff, List.map_cons, List.mem_cons,
      or_comm (a := screen = f.screen), or_assoc]

theorem mem_screens_iff : screen ∈ c.screens ↔ screen ∈ c.operations.values.map Feature.screen := by
  have hnone : screen ∉ (Dict.empty : Dict Unit).keys := List.not_mem_nil
  rw [Catalog.screens, mem_keys_foldl, or_iff_right hnone]

theorem nodup_screens (c : Catalog) : c.screens.Nodup :=
  (sorted_keys _).imp fun hlt => String.ne_of_lt hlt

theorem length_screens (c : Catalog) : c.screens.length = (distinctScreens c).length := by
  have hperm : c.screens.Perm (distinctScreens c) := by
    apply (List.perm_ext_iff_of_nodup (nodup_screens c) (List.nodup_dedup _)).2
    intro screen
    rw [mem_screens_iff, List.mem_dedup]
  exact hperm.length_eq

theorem length_allRecordings (c : Catalog) :
    (allRecordings c).length = 1 + 2 * (distinctScreens c).length + c.operationNames.length := by
  have hscreens : (c.screens.flatMap fun s =>
      [Recording.mk .navigation s, Recording.mk .goingBack s]).length = 2 * c.screens.length := by
    rw [List.length_flatMap]
    simp [Nat.mul_comm]
  rw [allRecordings, List.length_append, List.length_cons, List.length_map, hscreens,
    length_screens]
  omega

theorem mem_screens_of_screenOf {operation : String} (h : c.screenOf? operation = some screen) :
    screen ∈ c.screens := by
  obtain ⟨feature, hfeature, rfl⟩ := Option.map_eq_some_iff.1 h
  obtain ⟨name, -, hentry, -⟩ := spelling_of_get hfeature
  rw [mem_screens_iff]
  exact List.mem_map_of_mem (List.mem_map_of_mem (get?_eq_some_iff.1 hentry))

end Screens

/-! ## The recordings of a job -/

section Jobs

variable {e : Setup} {only : Option String}

/-- Whatever was performed before, the recordings an operation needs are among those checked. -/
theorem mem_allRecordings {history : List String} {operation screen : String} {r : Recording}
    (hoperation : operation ∈ e.config.catalog.operationNames)
    (hscreen : screen ∈ e.config.catalog.screens)
    (h : r ∈ Setup.recordings (e.previousScreen? history) screen operation) :
    r ∈ allRecordings e.config.catalog := by
  have hbase : (⟨.base, "Base"⟩ : Recording) ∈ allRecordings e.config.catalog := by
    simp [allRecordings]
  have hway : ∀ s ∈ e.config.catalog.screens,
      (⟨.navigation, s⟩ : Recording) ∈ allRecordings e.config.catalog ∧
        (⟨.goingBack, s⟩ : Recording) ∈ allRecordings e.config.catalog := by
    intro s hs
    simp [allRecordings, hs]
  have haction : (⟨.action, operation⟩ : Recording) ∈ allRecordings e.config.catalog := by
    simp [allRecordings, hoperation]
  have hprevious : ∀ previous, e.previousScreen? history = some previous →
      previous ∈ e.config.catalog.screens := by
    intro previous hsome
    obtain ⟨last, -, hlast⟩ := Option.bind_eq_some_iff.1 hsome
    exact mem_screens_of_screenOf hlast
  cases hat : e.previousScreen? history with
  | none =>
    simp only [hat, Setup.recordings, List.mem_cons, List.not_mem_nil, or_false] at h
    rcases h with rfl | rfl | rfl
    · exact hbase
    · exact (hway screen hscreen).1
    · exact haction
  | some previous =>
    simp only [hat, Setup.recordings] at h
    split at h
    · rw [List.mem_singleton.1 h]
      exact haction
    · simp only [List.mem_cons, List.not_mem_nil, or_false] at h
      rcases h with rfl | rfl | rfl
      · exact (hway previous (hprevious previous hat)).2
      · exact (hway screen hscreen).1
      · exact haction

/-- A recording that cannot be loaded is reported, unless nothing stands under its path and it is
not found for another reason. -/
theorem mem_reported {path : String} (happ : e.app ∈ checkedApps e.config only)
    (hpath : path ∈ appPaths e.config e.app)
    (hmissing : e.files.pathExists path = false → e.files.readText path = .error .notFound)
    (h : Malformed e.files path) : path ∈ reported e.files e.config only := by
  rw [reported, List.mem_filter, recordingPaths_eq]
  refine ⟨List.mem_flatMap.2 ⟨e.app, happ, hpath⟩, ?_⟩
  obtain ⟨f, hf⟩ := h.error
  have hthere : e.files.pathExists path = true := by
    by_contra hnot
    have hread := hmissing (Bool.eq_false_iff.2 hnot)
    rw [FileTree.loadCommands, FileTree.commandEntries, hread] at hf
    cases hf
  rw [isBroken, hthere, hf]
  rfl

end Jobs

theorem length_recordingPaths (c : Config) (only : Option String) :
    (recordingPaths c only).length = (checkedApps c only).length *
      (1 + 2 * (distinctScreens c.catalog).length + c.catalog.operationNames.length) := by
  have happ : ∀ app, (appPaths c app).length =
      1 + 2 * (distinctScreens c.catalog).length + c.catalog.operationNames.length := by
    intro app
    rw [appPaths, List.length_map, length_allRecordings]
  rw [recordingPaths_eq, List.length_flatMap]
  simp only [happ, List.map_const', List.sum_replicate_nat]

/-- A check counts each recording of each application once, and those that are broken it reports. If
it reports none of an application's, each job with an operation of the catalog can be expanded,
whatever was performed before it. -/
theorem check_covers (e : Setup) (only : Option String) :
    let tally := checkRecordings e.files e.config only
    tally.loaded + tally.missing + tally.broken = (checkedApps e.config only).length *
        (1 + 2 * (distinctScreens e.config.catalog).length +
          e.config.catalog.operationNames.length) ∧
      tally.broken = (reported e.files e.config only).length ∧
      (e.app ∈ checkedApps e.config only →
        (∀ path ∈ appPaths e.config e.app, e.files.pathExists path = false →
          e.files.readText path = .error .notFound) →
        (∀ path ∈ appPaths e.config e.app, path ∉ reported e.files e.config only) →
        ∀ (history : List String) (job : Job) (operation : String),
          job.operation? = some operation → operation ∈ e.config.catalog.operationNames →
            ∃ x, e.expand history job = .ok x) := by
  intro tally
  refine ⟨?_, ?_, ?_⟩
  · rw [← length_recordingPaths]
    exact (total_foldl _ _).trans (Nat.zero_add _)
  · exact (broken_foldl _ _).trans (Nat.zero_add _)
  · intro happ hmissing hclean history job operation hoperation hknown
    obtain ⟨feature, hentry⟩ := mem_keys_iff.1 hknown
    have hfeature : e.config.catalog.get? operation = some feature :=
      get_of_trimmed (trimmed_of_operation hoperation).1 hentry
    have hscreen : feature.screen ∈ e.config.catalog.screens :=
      mem_screens_of_screenOf (by rw [Catalog.screenOf?, hfeature, Option.map_some])
    cases hexpand : e.expand history job with
    | ok x => exact ⟨x, rfl⟩
    | error f =>
      obtain ⟨r, hr, hbad⟩ := (expand_error_iff hoperation hfeature).1 ⟨f, hexpand⟩
      have hpath : recordingPath e r ∈ appPaths e.config e.app :=
        List.mem_map_of_mem (mem_allRecordings hknown hscreen hr)
      exact absurd (mem_reported happ hpath (hmissing _ hpath) hbad) (hclean _ hpath)

/-! ## One recording on the shelf -/

def single : Config :=
  { Config.standard with
    apps := .ofList [(" PPPoker", 1)]
    catalog :=
      ⟨.ofList [("base", ⟨.base, "lobby", []⟩), ("balance", ⟨.passive, "cashier", ["Saldo"]⟩)],
        .standard⟩ }

def shelf : FileTree :=
  .ofList [("Mapeamentos", .folder), ("Mapeamentos/pppoker", .folder),
    ("Mapeamentos/pppoker/Act", .folder),
    ("Mapeamentos/pppoker/Act/balance.txt",
      .text "[\x7b\"action\":\"write\",\"value\":\"7\"\x7d]")]

def shelved : Setup := ⟨"pppoker", single, shelf, .empty, Career.bare.today⟩

def balance : Job := ⟨.ofAttrs (.ofList [("Action", .text " balance ")]), ""⟩

theorem shelf_facts :
    shelved.config.validate = .ok () ∧ shelved.app ∈ checkedApps shelved.config none ∧
    (∀ path ∈ appPaths shelved.config shelved.app, shelved.files.pathExists path = false →
      shelved.files.readText path = .error .notFound) ∧
    reported shelved.files shelved.config none = [] ∧
    balance.operation? = some "balance" ∧
    "balance" ∈ shelved.config.catalog.operationNames := by
  decide +kernel

/-- None of the recordings is reported, and the operation can be expanded whatever was performed
before. -/
theorem shelf_covered :
    (checkRecordings shelved.files shelved.config none).broken = 0 ∧
    ∀ history, ∃ x, shelved.expand history balance = .ok x := by
  obtain ⟨-, happ, hmissing, hclean, hoperation, hknown⟩ := shelf_facts
  obtain ⟨-, hbroken, hcovers⟩ := check_covers shelved none
  rw [hclean] at hbroken
  have hnone : ∀ path ∈ appPaths shelved.config shelved.app,
      path ∉ reported shelved.files shelved.config none := by
    intro path _
    rw [hclean]
    exact List.not_mem_nil
  refine ⟨hbroken, fun history => ?_⟩
  exact hcovers happ hmissing hnone history balance "balance" hoperation hknown

end Playback.Proofs.Checking
