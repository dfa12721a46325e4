import Playback.Arbiter
import Playback.Engine.Expansion
import Playback.Screen.ColorWait
import Playback.Screen.TextReader
import Playback.Scroll.Search
import Playback.Secret
/-!
# Performing commands

Each command is performed on the memory of the engine and on the stage. Those that use the input are
performed under a lease, which is let go of whatever comes of them.
-/

namespace Playback

/-- What an engine remembers from command to command. -/
structure Memory where
  question : Question
  operation : Option String
  deriving DecidableEq, Repr, Inhabited

namespace Memory

def fresh : Memory := ⟨.empty, none⟩

def operationLabel (m : Memory) : String := m.operation.getD "unknown"

/-- Takes the parameters of an operation: the answers so far are emptied first. An operation that
the parameters name, by preference as the chosen one, becomes the one being performed. -/
def takeParams (m : Memory) (params : Dict Answer) : Memory :=
  let base := m.question.reset.set okAttribute (.text "Ok")
  let question := params.entries.foldl (fun q e => q.set e.1 e.2) base
  let named := (params.get? chosenAttribute).orElse fun _ => params.get? actionAttribute
  let operation := (named.map fun a => Text.trim a.asText).filter fun s => !s.isEmpty
  ⟨question, operation.orElse fun _ => m.operation⟩

/-- The results of the operation: those of its outputs that were answered. -/
def results (m : Memory) (catalog : Catalog) (today : Day) : Dict Json :=
  let outputs := ((catalog.get? m.operationLabel).map (·.outputs)).getD []
  .ofList (outputs.filterMap fun field =>
    ((m.question.get? today field).filter fun a => !a.isEmpty).map fun a => (field, a.toJson))

end Memory

structure Resolution where
  outcome : Bool
  operands : List (String × String)
  deriving DecidableEq, Repr, Inhabited

namespace Setup

variable {σ : Type} [Desk σ]

def reader (e : Setup) : TextReader :=
  ⟨e.config.ocrAttempts, e.config.ocrRetryDelay, e.config.ocrMode, e.config.captureDir⟩

def locate (e : Setup) (p : Position) : Action (Stage σ) Point := do
  let rect ← Stage.call (.clientRect e.app)
  return rect.toAbsolute p

def clickPoint (e : Setup) (target : Point) : Action (Stage σ) Unit := do
  Stage.mark (.point target)
  Stage.call (.move target e.config.pointerTravel)
  Stage.call .click

def meets (e : Setup) (c : ColorCondition) : Action (Stage σ) Bool := do
  let point ← e.locate c.position
  Stage.mark (.point point)
  let w : ColorWait :=
    ⟨e.config.colorTolerance, e.config.clickConditionAttempts, e.config.colorInterval⟩
  w.wait point c.expected

def click (e : Setup) (position : Position) (condition : Option ColorCondition) :
    Action (Stage σ) Unit := do
  let target ← e.locate position
  match condition with
  | none => e.clickPoint target
  | some c => if ← e.meets c then e.clickPoint target else pure ()

/-- What is typed for a text; an attribute that is not there stands for nothing. -/
def typedText (e : Setup) (q : Question) : WriteText → Except Fault String
  | .literal s => .ok s
  | .raw s => .ok s
  | .question name => .ok ((q.getText? e.today name).getD "")
  | .secret name => Secret.resolve e.env e.app name

def typeText (e : Setup) (text : String) : Action (Stage σ) Unit := do
  Stage.call (.backspace e.config.clearPresses e.config.clearInterval)
  Stage.pause e.config.writePause
  Stage.call (.write text)

def colorFault (e : Setup) (expected : Color) (point : Point) : Fault :=
  .verificationTimeout (expected.describe ++ " not detected at (" ++ toString point.x.toInt ++ ", "
    ++ toString point.y.toInt ++ ") after " ++ toString e.config.colorAttempts ++ " attempts")

def awaitColor (e : Setup) (position : Position) (expected : Color) : Action (Stage σ) Unit := do
  let point ← e.locate position
  Stage.mark (.point point)
  let w : ColorWait := ⟨e.config.colorTolerance, e.config.colorAttempts, e.config.colorInterval⟩
  if ← w.wait point expected then pure () else Action.fail (e.colorFault expected point)

def readArea (e : Setup) (operation : String) (area : Area) : Action (Stage σ) String := do
  let rect ← Stage.call (.clientRect e.app)
  let region := rect.toRegion area
  Stage.mark (.rect region.topLeft region.bottomRight)
  e.reader.read region ⟨e.app, operation⟩

def dragPoints (e : Setup) (start finish : Point) : Action (Stage σ) Unit := do
  Stage.call (.move start e.config.pointerTravel)
  Stage.call .press
  Stage.call (.move finish e.config.dragTravel)
  Stage.pause e.config.dragSettle
  Stage.call .release

/-- The application's window as a search sees it. A search can outlast its lease, so that every step
renews it. -/
def surface (e : Setup) (operation : String) (lease : Lease) : Surface (Stage σ) where
  readArea area := do
    Stage.ensureHeld lease
    e.readArea operation area
  clickAt position := do
    Stage.ensureHeld lease
    let target ← e.locate position
    e.clickPoint target
  drag from_ to_ := do
    Stage.ensureHeld lease
    let start ← e.locate from_
    let finish ← e.locate to_
    e.dragPoints start finish

def answering (f : Question → Question) : Action (Memory × Stage σ) Unit :=
  .modify fun s => ({ s.1 with question := f s.1.question }, s.2)

def operandText (e : Setup) : Operand → Action (Memory × Stage σ) String
  | .read area => do
    let operation ← .gets fun s => s.1.operationLabel
    (e.readArea operation area).onSnd
  | .question name => .gets fun s => (s.1.question.getText? e.today name).getD ""

def compare (e : Setup) (c : Comparison) : Action (Memory × Stage σ) Resolution := do
  let left ← e.operandText c.lhs
  let right ← e.operandText c.rhs
  let outcome ← .ofExcept (evaluate c.op left right)
  answering (·.set okAttribute (.bool outcome))
  return ⟨outcome, [(c.lhs.label 0, left), (c.rhs.label 1, right)]⟩

def scroll (e : Setup) (spec : ScrollSpec) (lease : Lease) : Action (Memory × Stage σ) Unit :=
  fun s =>
    let (r, q, t) := spec.search (e.surface s.1.operationLabel lease) e.today
      e.config.maxScrollPasses (s.1.question, s.2)
    (r.map fun _ => (), ({ s.1 with question := q }, t))

/-- Delivers the results, if there are any. A delivery that fails changes nothing. -/
def deliver (e : Setup) : Action (Memory × Stage σ) Unit := do
  let results ← .gets fun s => s.1.results e.config.catalog e.today
  if results.entries.isEmpty then pure ()
  else
    let _ ← ((Stage.call (.deliver results)).onSnd).attempt

/-- Performs a command that uses the input, under the given lease. -/
def use (e : Setup) (lease : Lease) : Command → Action (Memory × Stage σ) Unit
  | .click position condition => (e.click position condition).onSnd
  | .write text => do
    let question ← .gets fun s => s.1.question
    let typed ← .ofExcept (e.typedText question text)
    (e.typeText typed).onSnd
  | .color position expected => (e.awaitColor position expected).onSnd
  | .read area name => do
    let operation ← .gets fun s => s.1.operationLabel
    let text ← (e.readArea operation area).onSnd
    answering (·.push name (.text text))
  | .compare c => do
    let _ ← e.compare c
  | .scroll spec => e.scroll spec lease
  | _ => pure ()

def perform (e : Setup) (c : Command) : Action (Memory × Stage σ) Unit :=
  match c with
  | .paramChange params => .modify fun s => (s.1.takeParams params, s.2)
  | .webhook _ => e.deliver
  | c => do
    let lease ← (Arbiter.acquire e.app).onSnd
    (e.use lease c).ending fun s => (s.1, s.2.dropLease lease)

end Setup

end Playback
