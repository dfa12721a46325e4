import Playback.Geometry
/-!
# Markers

What is pointed out on the screen while a recording plays. A marker is handed over and never waited
for: every one stays for its own span and then reports back, all of them side by side.
-/

namespace Playback

inductive Marker where
  | point (center : Point)
  | rect (start finish : Point)
  deriving DecidableEq, Repr, Inhabited

/-- How long an engine shows its markers, in milliseconds. -/
def markerSpan : Nat := 800

structure MarkerRequest where
  marker : Marker
  span : Nat
  reportsBack : Bool
  deriving DecidableEq, Repr, Inhabited

inductive MarkerRenderer where
  | recording
  /-- Holds each marker for its span. -/
  | holding
  | disabled
  deriving DecidableEq, Repr, Inhabited

namespace MarkerRenderer

/-- The markers on record after the requests, in their order. -/
def shown (r : MarkerRenderer) (requests : List MarkerRequest) : List (Marker × Nat) :=
  match r with
  | recording => requests.map fun q => (q.marker, q.span)
  | _ => []

def isOver (r : MarkerRenderer) (q : MarkerRequest) (elapsed : Nat) : Bool :=
  match r with
  | recording => true
  | holding => q.span ≤ elapsed
  | disabled => false

/-- The positions of the requests whose senders have heard back after so many milliseconds. -/
def reported (r : MarkerRenderer) (requests : List MarkerRequest) (elapsed : Nat) : List Nat :=
  ((requests.zipIdx).filter fun q => q.1.reportsBack && r.isOver q.1 elapsed).map (·.2)

end MarkerRenderer

end Playback
