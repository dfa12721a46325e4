import Playback.Files.Path
import Playback.Stage
import Playback.Text.Blank
/-!
# Reading text

A region is captured, sharpened and handed to the recognizer, and that again while nothing comes of
it. What stays unreadable reads as the empty text; only an abort makes reading fail.
-/

namespace Playback

structure TextReader where
  attempts : Nat
  retryDelay : Nat
  mode : RecognitionMode
  captureDir : Option String
  deriving DecidableEq, Repr, Inhabited

structure ReadLabel where
  app : String
  operation : String
  deriving DecidableEq, Repr, Inhabited

namespace TextReader

/-- The name of the file that keeps a picture. The last part of the operation's name must not be
empty, as a file without a stem has no format. -/
def captureFile? (label : ReadLabel) : Option String :=
  match label.operation.toList.getLast? with
  | none => none
  | some '/' => none
  | some _ => some (label.operation ++ ".png")

variable {σ : Type} [Desk σ]

def keep (r : TextReader) (stage : String) (label : ReadLabel) (picture : Image) :
    Action (Stage σ) Unit :=
  match r.captureDir, captureFile? label with
  | some dir, some file =>
    Stage.call (.keep (Path.join (Path.join dir stage) label.app) file picture)
  | _, _ => pure ()

def readOnce (r : TextReader) (region : Region) (label : ReadLabel) : Action (Stage σ) String := do
  if region.isEmpty then Action.fail (.platform "empty capture region")
  else
    let raw ← Stage.call (.screenshot region)
    let treated := raw.sharpened
    r.keep "read" label raw
    r.keep "treated" label treated
    Stage.call (.recognize treated r.mode)

/-- What an attempt brought: a text without blanks around it, or nothing. -/
def attemptRead (r : TextReader) (region : Region) (label : ReadLabel) :
    Action (Stage σ) (Option String) := do
  match ← (r.readOnce region label).attempt with
  | .ok text => return if Text.blank text then none else some (Text.trim text)
  | .error f => if f.isCancelled then Action.fail f else return none

/-- Tries once and up to `more` times again, with a pause before each of those. -/
def reading (r : TextReader) (region : Region) (label : ReadLabel) : Nat → Action (Stage σ) String
  | 0 => do return (← r.attemptRead region label).getD ""
  | more + 1 => do
    match ← r.attemptRead region label with
    | some text => return text
    | none =>
      Stage.pause r.retryDelay
      r.reading region label more

/-- The text of a region, empty where none could be read. -/
def read (r : TextReader) (region : Region) (label : ReadLabel) : Action (Stage σ) String :=
  r.reading region label (r.attempts - 1)

end TextReader

end Playback
