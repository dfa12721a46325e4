import Playback.Config
/-!
# Arguments

The command line's commands and options. Options come before or after a command's name, each at most
once on either side; a value stands in the same argument or in the next one.
-/

namespace Playback.CommandLine

inductive Flag where
  | config
  | logDir
  | app
  | input
  | clientRect
  deriving DecidableEq, Repr, Inhabited

namespace Flag

def long : Flag → String
  | config => "config"
  | logDir => "log-dir"
  | app => "app"
  | input => "input"
  | clientRect => "client-rect"

def short? : Flag → Option Char
  | config => some 'c'
  | input => some 'i'
  | _ => none

def variableName? : Flag → Option String
  | config => some "CROUPIER_CONFIG"
  | logDir => some "CROUPIER_LOG_DIR"
  | _ => none

/-- Whether the value is a path, which must not be empty. -/
def isPath : Flag → Bool
  | config => true
  | logDir => true
  | input => true
  | _ => false

end Flag

inductive Subcommand where
  | run (app : Option String) (input : String) (rect : ClientRect)
  | validate (app : Option String)
  | catalog
  deriving DecidableEq, Repr, Inhabited

structure Invocation where
  config : Option String
  logDir : Option String
  command : Subcommand
  deriving DecidableEq, Repr, Inhabited

inductive UsageFault where
  /-- They do not fit the commands and options there are. -/
  | unknown
  | badRect (detail : String)
  deriving DecidableEq, Repr, Inhabited

/-- What the arguments come to if they do not ask for a command to be done. -/
inductive Stop where
  | refused (fault : UsageFault)
  | help (command : Option String)
  deriving DecidableEq, Repr, Inhabited

/-! ## The client area -/

def readInt32? (s : String) : Option Int32 :=
  match s.toList with
  | '-' :: digits =>
    if digits.head? = some '+' then none
    else (Config.readNatural? Int32.minValue.toInt.natAbs (String.ofList digits)).map
      fun n => Int32.ofInt (-(n : Int))
  | _ => (Config.readNatural? Int32.maxValue.toInt.natAbs s).map fun n => Int32.ofInt n

def readUInt32? (s : String) : Option UInt32 :=
  (Config.readNatural? (UInt32.size - 1) s).map UInt32.ofNat

def numberOr {α : Type} (kind s : String) : Option α → Except String α
  | some n => .ok n
  | none => .error ("'" ++ s ++ "' is not a number in range for " ++ kind)

def readRect (s : String) : Except String ClientRect :=
  match (Text.pieces ',' s.toList).map fun cs => String.ofList (Text.trimChars cs) with
  | [left, top, width, height] => do
    let left ← numberOr "i32" left (readInt32? left)
    let top ← numberOr "i32" top (readInt32? top)
    let width ← numberOr "u32" width (readUInt32? width)
    let height ← numberOr "u32" height (readUInt32? height)
    return ⟨left, top, width, height⟩
  | _ => .error ("expected LEFT,TOP,WIDTH,HEIGHT, got '" ++ s ++ "'")

def standardRect : ClientRect := ⟨0, 0, 1280, 720⟩

/-! ## Options -/

/-- The options given on one side of the command's name. -/
abbrev Given := List (Flag × String)

def misfit {α : Type} : Except Stop α := .error (.refused .unknown)

def checkValue (f : Flag) (value : String) : Except Stop Unit :=
  if f.isPath && value.isEmpty then misfit
  else
    match f with
    | .clientRect =>
      match readRect value with
      | .ok _ => .ok ()
      | .error detail => .error (.refused (.badRect detail))
    | _ => .ok ()

def give (given : Given) (f : Flag) (value : String) : Except Stop Given := do
  if given.any fun g => g.1 = f then misfit
  checkValue f value
  return given ++ [(f, value)]

inductive Argument where
  | separator
  | help
  | option (f : Flag) (value : Option String)
  | strange
  | word (s : String)
  deriving DecidableEq, Repr, Inhabited

def splitValue (cs : List Char) : String × Option String :=
  match cs.dropWhile (· != '=') with
  | [] => (String.ofList cs, none)
  | _ :: value => (String.ofList (cs.takeWhile (· != '=')), some (String.ofList value))

def longOption (flags : List Flag) (cs : List Char) : Argument :=
  let (name, value) := splitValue cs
  match flags.find? fun f => f.long == name with
  | some f => .option f value
  | none => if name == "help" && value.isNone then .help else .strange

def shortOption (flags : List Flag) (c : Char) (rest : List Char) : Argument :=
  match flags.find? fun f => f.short? == some c with
  | some f =>
    match rest with
    | [] => .option f none
    | '=' :: value => .option f (some (String.ofList value))
    | value => .option f (some (String.ofList value))
  | none => if c == 'h' then .help else .strange

def classify (flags : List Flag) (s : String) : Argument :=
  match s.toList with
  | ['-', '-'] => .separator
  | '-' :: '-' :: cs => longOption flags cs
  | '-' :: c :: rest => shortOption flags c rest
  | _ => .word s

def canBeValue (s : String) : Bool := s.toList.head? != some '-' || s == "-"

/-- Reads options up to the first word: the options, the word and what comes after it. `topic` is
the command that help would be about. -/
def scan (topic : Option String) (flags : List Flag) (given : Given) :
    List String → Except Stop (Given × Option (String × List String))
  | [] => .ok (given, none)
  | s :: rest =>
    match classify flags s with
    | .separator => if rest.isEmpty then .ok (given, none) else misfit
    | .help => .error (.help topic)
    | .strange => misfit
    | .word s => .ok (given, some (s, rest))
    | .option f (some value) => do scan topic flags (← give given f value) rest
    | .option f none =>
      match rest with
      | value :: rest =>
        if canBeValue value then do scan topic flags (← give given f value) rest else misfit
      | [] => misfit

def scanAll (command : String) (flags : List Flag) (args : List String) : Except Stop Given := do
  match ← scan (some command) flags [] args with
  | (given, none) => .ok given
  | (_, some _) => misfit

def sharedFlags : List Flag := [.config, .logDir]

/-- The options with the variables that stand in for those not given. -/
def withEnv (env : Dict String) (given : Given) : Except Stop Given :=
  let missing := sharedFlags.filter fun f => !given.any fun g => g.1 = f
  missing.foldlM (fun given f =>
    match f.variableName?.bind env.get? with
    | some value => give given f value
    | none => .ok given) given

def subcommand (name : String) (given : Given) : Except Stop Subcommand :=
  match name with
  | "run" =>
    match given.lookup .input with
    | some input =>
      let rect := (given.lookup .clientRect).bind fun s => (readRect s).toOption
      .ok (.run (given.lookup .app) input (rect.getD standardRect))
    | none => misfit
  | "validate" => .ok (.validate (given.lookup .app))
  | _ => .ok .catalog

def flagsOf? : String → Option (List Flag)
  | "run" => some [.app, .config, .input, .logDir, .clientRect]
  | "validate" => some [.app, .config, .logDir]
  | "catalog" => some sharedFlags
  | _ => none

def helpTopic : List String → Stop
  | [] => .help none
  | [name] =>
    if name == "help" || (flagsOf? name).isSome then .help (some name) else .refused .unknown
  | _ => .refused .unknown

/-- The value of a shared option: after the command's name, before it, or from the environment. -/
def shared (f : Flag) (after before resolved : Given) : Option String :=
  (after.lookup f).orElse fun _ => (before.lookup f).orElse fun _ => resolved.lookup f

def parse (env : Dict String) (args : List String) : Except Stop Invocation := do
  match ← scan none sharedFlags [] args with
  | (_, none) => misfit
  | (before, some (name, rest)) =>
    if name == "help" then .error (helpTopic rest)
    else
      match flagsOf? name with
      | none => misfit
      | some flags =>
        let after ← scanAll name flags rest
        let resolved ← withEnv env after
        let _ ← withEnv env before
        let command ← subcommand name after
        return ⟨shared .config after before resolved, shared .logDir after before resolved, command⟩

end Playback.CommandLine
