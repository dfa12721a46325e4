import Playback.CommandLine.Arguments
import Playback.CommandLine.Environment
import Playback.CommandLine.Help
import Playback.CommandLine.Tasks
import Playback.Registry
/-!
# Execution

What the command line does: it works off the tasks of a file, checks recordings, or prints the
catalog or its help. Everything it needs of the machine is handed to it.
-/

namespace Playback.CommandLine

/-- Where the command line runs. -/
structure Surroundings where
  args : List String
  env : Dict String
  files : FileTree
  today : Day

structure Platform (σ : Type) where
  drivable : String → Except Fault Unit
  desk : Config → ClientRect → List String → σ
  /-- Whether an abort is requested as soon as one may be. -/
  aborts : Bool

inductive Verdict where
  | done
  | failed (report : Report)
  | misused (fault : UsageFault)
  deriving DecidableEq, Repr, Inhabited

def Verdict.exitCode : Verdict → Nat
  | done => 0
  | failed _ => 1
  | misused _ => 2

structure Ending (σ : Type) where
  verdict : Verdict
  output : String
  errors : List String
  stage : Option (Stage σ)

def Ending.early {σ : Type} (verdict : Verdict) (output : String) : Ending σ :=
  ⟨verdict, output, [], none⟩

/-! ## Settings -/

def prepareLog (files : FileTree) : Option String → Except Report FileTree
  | none => .ok files
  | some folder =>
    let because (cause : String) : Except Report FileTree :=
      .error ⟨"Failed to create log directory " ++ folder, some cause⟩
    match files.makeFolders folder with
    | .ok files => .ok files
    | .error .notAFolder =>
      if files.pathExists folder then because "File exists (os error 17)"
      else because (explain .notAFolder)
    | .error f => because (explain f)

def Surroundings.variables (w : Surroundings) (files : FileTree) : Dict String :=
  match files.readText ".env" with
  | .ok content => withFile w.env content
  | .error _ => w.env

def loadConfig (files : FileTree) (env : Dict String) (path : Option String) :
    Except Fault Config := do
  let base ← match path with
    | none => .ok Config.standard
    | some path =>
      match files.readText path with
      | .ok content => Config.ofYaml content
      | .error _ => .error .io
  let (applied, c) := base.applyEnv env
  applied
  c.validate
  return c

/-! ## Checking recordings -/

def allRecordings (c : Catalog) : List Recording :=
  ⟨.base, "Base"⟩ :: (c.screens.flatMap fun s => [⟨.navigation, s⟩, ⟨.goingBack, s⟩])
    ++ c.operationNames.map fun o => ⟨.action, o⟩

structure Tally where
  loaded : Nat
  missing : Nat
  broken : Nat
  deriving DecidableEq, Repr, Inhabited

def Tally.count (files : FileTree) (t : Tally) (path : String) : Tally :=
  if !files.pathExists path then { t with missing := t.missing + 1 }
  else
    match files.loadCommands path with
    | .ok _ => { t with loaded := t.loaded + 1 }
    | .error _ => { t with broken := t.broken + 1 }

def recordingPaths (c : Config) (only : Option String) : List String :=
  let apps := match only with
    | some app => [Registry.key app]
    | none => Registry.keys c
  apps.flatMap fun app => (allRecordings c.catalog).map fun r =>
    (MappingRoot.mk c.mappingRoot).path app r.kind r.name

def checkRecordings (files : FileTree) (c : Config) (only : Option String) : Tally :=
  (recordingPaths c only).foldl (Tally.count files) ⟨0, 0, 0⟩

def Tally.describe (t : Tally) : String :=
  toString t.loaded ++ " mappings loaded, " ++ toString t.missing ++ " missing, "
    ++ toString t.broken ++ " invalid\n"

def Tally.verdict (t : Tally) : Verdict :=
  if t.broken = 0 then .done
  else .failed ⟨toString t.broken ++ " mapping files could not be loaded", none⟩

/-! ## Working off tasks -/

section

variable {σ : Type} [Desk σ]

/-- Submits jobs in their order, up to the first that an abort keeps from being accepted. Others
that are refused are reported. -/
def submitAll (e : Setup) : List Job → Registry × Stage σ → List String × Registry × Stage σ
  | [], s => ([], s)
  | job :: rest, s =>
    match Registry.submit e job s with
    | (.ok (), s) => submitAll e rest s
    | (.error f, s) =>
      if f.isCancelled then ([], s)
      else
        let (errors, s) := submitAll e rest s
        (("Task rejected: " ++ f.message) :: errors, s)

/-- Runs engines one after the other: whether one of them was stopped by an abort, and what was
reported. -/
def runAll (e : Setup) : List String → Registry × Stage σ → Bool × List String × Registry × Stage σ
  | [], s => (false, [], s)
  | app :: rest, s =>
    let (r, s) := Registry.run e app s
    let (stopped, errors, s) := runAll e rest s
    match r with
    | .ok () => (stopped, errors, s)
    | .error f =>
      if f.isCancelled then (true, errors, s)
      else (stopped, (app ++ " stopped: " ++ f.message) :: errors, s)

def openStage (p : Platform σ) (c : Config) (rect : ClientRect) (apps : List String) : Stage σ :=
  let lock : InputLock := .free c.lockAcquireTimeout c.lockRetryInterval c.lockLease
  let stage := Stage.fresh (p.desk c rect apps) lock
  { apps.foldl (fun s app => Arbiter.register app s) stage with aborted := p.aborts }

def workOff (p : Platform σ) (e : Setup) (rect : ClientRect) (jobs : List Job) : Ending σ :=
  match Registry.build e.config p.drivable with
  | .error f => .early (.failed (.ofFault f)) ""
  | .ok registry =>
    let (rejected, s) := submitAll e jobs (registry, openStage p e.config rect registry.apps)
    let (stopped, errors, _, stage) := runAll e registry.apps s
    let verdict := if stopped then .failed ⟨"Aborted before every task finished", none⟩ else .done
    ⟨verdict, "", rejected ++ errors, some stage⟩

def perform (p : Platform σ) (e : Setup) : Subcommand → Ending σ
  | .run app input rect =>
    match readTasks e.files e.config app input with
    | .error report => .early (.failed report) ""
    | .ok jobs => if jobs.isEmpty then .early .done "" else workOff p e rect jobs
  | .validate app =>
    let tally := checkRecordings e.files e.config app
    .early tally.verdict tally.describe
  | .catalog => .early .done e.config.catalog.toYaml

def execute (p : Platform σ) (w : Surroundings) : Ending σ :=
  match parse w.env w.args with
  | .error (.refused fault) => .early (.misused fault) ""
  | .error (.help topic) => .early .done (help w.env topic)
  | .ok invocation =>
    match prepareLog w.files invocation.logDir with
    | .error report => .early (.failed report) ""
    | .ok files =>
      let env := w.variables files
      match reporting "Invalid configuration" (loadConfig files env invocation.config) with
      | .error report => .early (.failed report) ""
      | .ok config => perform p ⟨"", config, files, env, w.today⟩ invocation.command

end

end Playback.CommandLine
