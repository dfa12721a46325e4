import Playback.Document
import Playback.Geometry
/-!
# Color tolerance

Two colors match when every channel is close enough and so are all three together. Both bounds
belong to the tolerance.
-/

namespace Playback

structure ColorTolerance where
  perChannel : Nat
  total : Nat
  deriving DecidableEq, Repr, Inhabited

namespace ColorTolerance

def standard : ColorTolerance := ⟨10, 20⟩

def channelDistance (a b : UInt8) : Nat := max a.toNat b.toNat - min a.toNat b.toNat

/-- Whether the channels match from here on; `spent` is the sum of the differences so far. -/
def matchesFrom (t : ColorTolerance) (spent : Nat) : List (UInt8 × UInt8) → Bool
  | [] => spent ≤ t.total
  | (a, b) :: rest =>
    let d := channelDistance a b
    if t.perChannel < d then false else t.matchesFrom (spent + d) rest

def accepts (t : ColorTolerance) (observed expected : Color) : Bool :=
  t.matchesFrom 0 (observed.channels.zip expected.channels)

def ofDocument? (v : Document) : Option ColorTolerance := do
  match ← v.fields? ["per_channel", "total"] with
  | [some perChannel, some total] =>
    some ⟨← perChannel.natUpTo? (UInt16.size - 1), ← total.natUpTo? (UInt16.size - 1)⟩
  | _ => none

def toJson (t : ColorTolerance) : Json :=
  .record [("per_channel", .nat t.perChannel), ("total", .nat t.total)]

end ColorTolerance

end Playback
