import Playback.CommandLine.Arguments
/-!
# Help

What the program says of itself and of its commands: what they are for, how they are called and
which options they take, the options in one column and their purposes in another.
-/

namespace Playback.CommandLine

def programName : String := "croupier"

def padTo (width : Nat) (s : String) : String :=
  s ++ String.ofList (List.replicate (width - s.length) ' ')

def purpose : String → String
  | "run" => "Run every task in an input file until all engines are idle"
  | "validate" => "Load every mapping file the catalog refers to and report parse errors"
  | "catalog" => "Print the effective operation catalog as YAML"
  | _ => "Print this message or the help of the given subcommand(s)"

/-- What an option is for; the application means something else to every command that has it. -/
def Flag.purpose (command : Option String) : Flag → String
  | config => "YAML configuration file (defaults apply when omitted)"
  | logDir => "Also write daily rolling logs into this directory"
  | app =>
    if command = some "run" then "App used for tasks that do not name one"
    else "Only check this app"
  | input => "JSON file holding one task envelope, an array of envelopes, or raw input objects"
  | clientRect => "Client area as LEFT,TOP,WIDTH,HEIGHT where windows cannot be located natively"

def Flag.call (f : Flag) : String :=
  let value := f.long.toList.map fun c => if c == '-' then '_' else c.toUpper
  "--" ++ f.long ++ " <" ++ String.ofList value ++ ">"

def Flag.fallback (env : Dict String) (f : Flag) : String :=
  match f, f.variableName? with
  | _, some name => " [env: " ++ name ++ "=" ++ (env.get? name).getD "" ++ "]"
  | clientRect, none => " [default: 0,0,1280,720]"
  | _, none => ""

/-- The lines about the options, the one that asks for help the last. -/
def optionLines (env : Dict String) (command : Option String) (flags : List Flag) : String :=
  let rows := (flags.map fun f => (f.short?, f.call, f.purpose command ++ f.fallback env))
    ++ [(some 'h', "--help", "Print help")]
  let width := (rows.map fun r => r.2.1.length).foldl max 0
  String.join (rows.map fun (short, call, text) =>
    let short := match short with
      | some c => "-" ++ String.singleton c ++ ", "
      | none => "    "
    "  " ++ short ++ padTo width call ++ "  " ++ text ++ "\n")

def usage (command : Option String) : String :=
  "Usage: " ++ programName ++ (match command with
    | none => " [OPTIONS] <COMMAND>"
    | some "run" => " run [OPTIONS] --input <INPUT>"
    | some "help" => " help [COMMAND]..."
    | some name => " " ++ name ++ " [OPTIONS]") ++ "\n"

def help (env : Dict String) : Option String → String
  | none =>
    "Replays recorded UI command mappings against club-management clients\n\n" ++ usage none
      ++ "\nCommands:\n" ++ String.join (["run", "validate", "catalog", "help"].map fun name =>
        "  " ++ padTo 8 name ++ "  " ++ purpose name ++ "\n")
      ++ "\nOptions:\n" ++ optionLines env none sharedFlags
  | some "help" =>
    purpose "help" ++ "\n\n" ++ usage (some "help")
      ++ "\nArguments:\n  [COMMAND]...  Print help for the subcommand(s)\n"
  | some name =>
    purpose name ++ "\n\n" ++ usage (some name) ++ "\nOptions:\n"
      ++ optionLines env (some name) ((flagsOf? name).getD sharedFlags)

end Playback.CommandLine
