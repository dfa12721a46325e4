import Playback.CommandLine.Desktop
/-!
# The program

Hands the arguments, the environment and the files to the command line, and prints what comes of it.
The files are those of the working directory and those that the arguments, the variables and the
settings name outside of it. No pointer, keyboard or screen can be reached from here, so that no
application can be driven.
-/

namespace Playback.CommandLine

def readVariables : List String → IO (Dict String)
  | [] => return .empty
  | name :: rest => do
    let others ← readVariables rest
    match ← IO.getEnv name with
    | some value => return others.insert name value
    | none => return others

partial def readEntry (names : List String) (d : Dict FileEntry) : IO (Dict FileEntry) := do
  let place := (← IO.currentDir) / ("/" ++ FileTree.key names)
  if ← place.isDir then
    let mut d := d.insert (FileTree.key names) .folder
    for e in ← place.readDir do
      d ← readEntry (names ++ [e.fileName]) d
    return d
  else if ← place.pathExists then
    let content ← try
        let text ← IO.FS.readFile place
        pure (FileEntry.text text)
      catch _ => pure .binary
    return d.insert (FileTree.key names) content
  else
    return d

def foldersAbove (names : List String) (d : Dict FileEntry) : Dict FileEntry :=
  (List.range names.length).foldl
    (fun d n => if n = 0 then d else d.insert (FileTree.key (names.take n)) .folder) d

/-- Where the arguments, the variables and the settings may point to, as names from the root. -/
def mentioned (w : Surroundings) : List (List String) :=
  let env := w.variables w.files
  let roots := match parse w.env w.args with
    | .ok invocation =>
      match loadConfig w.files env invocation.config with
      | .ok c => [c.mappingRoot]
      | .error _ => []
    | .error _ => []
  (w.args ++ env.values ++ roots).map fun path =>
    (Path.components path).foldl
      (fun here name => if name == ".." then here.dropLast else here ++ [name]) (w.files.start path)

def Report.lines (r : Report) : String :=
  "Error: " ++ r.message ++ "\n" ++
    (match r.cause with
      | some cause => "\nCaused by:\n    " ++ cause ++ "\n"
      | none => "")

def UsageFault.lines : UsageFault → String
  | unknown => "error: the arguments do not fit any command\n"
  | badRect detail => "error: invalid value for '--client-rect': " ++ detail ++ "\n"

end Playback.CommandLine

section

open Playback Playback.CommandLine

/-- No engine gets to run without a desk, so that the day does not matter. -/
def main (args : List String) : IO UInt32 := do
  let names := sharedFlags.filterMap Flag.variableName? ++ Config.variableNames
  let env ← readVariables names
  let home := Path.components (← IO.currentDir).toString
  let around (d : Dict FileEntry) : Surroundings := ⟨args, env, ⟨d, home⟩, ⟨1970, 1, 1, by decide⟩⟩
  let mut d ← readEntry home .empty
  -- the settings may be outside, and only they tell where the recordings are
  for _ in [0, 1] do
    for names in mentioned (around d) do
      if !names.isEmpty && names != home then
        d ← readEntry names (foldersAbove names d)
  let ending := execute withoutDesktop (around d)
  IO.print ending.output
  match ending.verdict with
  | .done => pure ()
  | .failed report => IO.eprint report.lines
  | .misused fault => IO.eprint fault.lines
  return UInt32.ofNat ending.verdict.exitCode

end
