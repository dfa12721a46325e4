/-!
# Faults

Everything that can go wrong while recordings are loaded and played back, sorted by cause, and the
wording of each.
-/

namespace Playback

inductive Fault where
  | verificationTimeout (detail : String)
  | missingSecret (variableName : String)
  | invalidComparator (text : String)
  | invalidDate (text : String)
  | invalidVariableKind (text : String)
  | transportFailure (detail : String)
  | windowNotFound (detail : String)
  | acquisitionTimeout (detail : String)
  | cancelled (detail : String)
  | invalidCommand (detail : String)
  | unknownOperation (name : String)
  | invalidCatalog (detail : String)
  | invalidConfig (detail : String)
  | platform (detail : String)
  | io
  | json
  | yaml
  deriving DecidableEq, Repr, Inhabited

namespace Fault

/-- The fault in words; the faults of files and formats are named by their class alone. -/
def message : Fault → String
  | verificationTimeout s => "Verification timed out: " ++ s
  | missingSecret s => "Missing secret: " ++ s
  | invalidComparator s => "Invalid comparator: " ++ s
  | invalidDate s => "Invalid date: " ++ s
  | invalidVariableKind s => "Invalid variable kind: " ++ s
  | transportFailure s => "Transport failure: " ++ s
  | windowNotFound s => "Window not found: " ++ s
  | acquisitionTimeout s => "Input lock acquisition timed out: " ++ s
  | cancelled s => "Operation cancelled: " ++ s
  | invalidCommand s => "Invalid command: " ++ s
  | unknownOperation s => "Unknown operation: " ++ s
  | invalidCatalog s => "Invalid catalog: " ++ s
  | invalidConfig s => "Invalid configuration: " ++ s
  | platform s => "Platform-specific error: " ++ s
  | io => "I/O error"
  | json => "JSON error"
  | yaml => "YAML error"

/-- Only a verification timeout is worth a relaunch and another attempt. -/
def retryable : Fault → Bool
  | verificationTimeout _ => true
  | _ => false

def isCancelled : Fault → Bool
  | cancelled _ => true
  | _ => false

end Fault

end Playback
