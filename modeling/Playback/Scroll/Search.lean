import Playback.Action
import Playback.Question
import Playback.Scroll.Spec
/-!
# Searching a scrollable list

The visible rows are probed one by one: the base area first, then the anchors. A row matches if it
shows a day at least a week before the reference day; it is clicked and ends the search. After a
pass without a match the list is dragged on, until it stops moving or the passes are used up.
-/

namespace Playback

/-- What a search needs of the screen. -/
structure Surface (τ : Type) where
  readArea : Area → Action τ String
  clickAt : Position → Action τ Unit
  drag : Position → Position → Action τ Unit

inductive ScrollOutcome where
  /-- A row matched and was clicked. -/
  | found (area : Area) (scrolls : Nat)
  /-- The list was empty or stopped moving. -/
  | exhausted (scrolls : Nat)
  /-- The passes were used up while the list kept moving. -/
  | passLimit (scrolls : Nat)
  deriving DecidableEq, Repr, Inhabited

namespace ScrollOutcome

def scrolls : ScrollOutcome → Nat
  | found _ n => n
  | exhausted n => n
  | passLimit n => n

end ScrollOutcome

namespace ScrollSpec

variable {τ : Type}

def rowMatches (reference row : String) : Bool :=
  match evaluate .period reference row with
  | .ok b => b
  | .error _ => false

def note (f : Question → Question) : Action (Question × τ) Unit := .modify fun s => (f s.1, s.2)

/-- Reads a row, notes whether it matches and what stands beside it. -/
def probeRow (spec : ScrollSpec) (surface : Surface τ) (reference : String) (area : Area) :
    Action (Question × τ) (String × Bool) := do
  let row ← (surface.readArea area).onSnd
  let isMatch := rowMatches reference row
  note (·.set okAttribute (.bool isMatch))
  match spec.extra with
  | some extra =>
    let reading ← (surface.readArea (area.offsetBy extra.offset)).onSnd
    note (·.push extra.name (.text reading))
  | none => pure ()
  return (row, isMatch)

def probeRows (spec : ScrollSpec) (surface : Surface τ) (reference : String) :
    List Area → Action (Question × τ) (Option Area)
  | [] => return none
  | area :: rest => do
    let (_, isMatch) ← probeRow spec surface reference area
    if isMatch then return some area else probeRows spec surface reference rest

/-- Probes the base area and then the anchors. The text of the base area shows whether the list has
moved since. -/
def probePage (spec : ScrollSpec) (surface : Surface τ) (reference : String) :
    Action (Question × τ) (String × Option Area) := do
  let (first, isMatch) ← probeRow spec surface reference spec.base
  if isMatch then return (first, some spec.base)
  else
    let found ← probeRows spec surface reference spec.candidates.tail
    return (first, found)

/-- One pass after `done` drags, the last of which left `previous` in the base area. It ends the
search with an outcome, or else yields the text of the base area. -/
def pass (spec : ScrollSpec) (surface : Surface τ) (reference : String) (done : Nat)
    (previous : Option String) : Action (Question × τ) (ScrollOutcome ⊕ String) := do
  let (first, found) ← probePage spec surface reference
  match found with
  | some area =>
    (surface.clickAt area.center).onSnd
    return .inl (.found area done)
  | none => return if previous = some first then .inl (.exhausted done) else .inr first

def passes (spec : ScrollSpec) (surface : Surface τ) (reference : String) (done : Nat)
    (previous : Option String) : Nat → Action (Question × τ) ScrollOutcome
  | 0 => do
    match ← pass spec surface reference done previous with
    | .inl outcome => return outcome
    | .inr _ => return .passLimit done
  | left + 1 => do
    match ← pass spec surface reference done previous with
    | .inl outcome => return outcome
    | .inr first =>
      (surface.drag spec.drag.start spec.drag.finish).onSnd
      passes spec surface reference (done + 1) (some first) left

/-- Searches for the row. A reference that is not a day is refused before the screen is looked at.
-/
def search (spec : ScrollSpec) (surface : Surface τ) (today : Day) (maxPasses : Nat) :
    Action (Question × τ) ScrollOutcome := do
  let reference ← .gets fun s => (s.1.getText? today spec.target).getD ""
  let _ ← Action.ofExcept (parseDay reference)
  let initial ← (surface.readArea spec.base).onSnd
  if Text.blank initial then
    note (·.set okAttribute (.bool false))
    return .exhausted 0
  else passes spec surface reference 0 none (maxPasses - 1)

end ScrollSpec

end Playback
