import Playback.Json.Decode
/-!
# Geometry

Recordings place everything as fractions of a window's client area, so that they survive a moved or
resized window; pixels exist only once a live client area is known. Pixel arithmetic wraps at 32
bits.
-/

namespace Playback

structure Position where
  x : Binary64
  y : Binary64
  deriving DecidableEq, Repr, Inhabited

structure Area where
  start : Position
  finish : Position
  deriving DecidableEq, Repr, Inhabited

namespace Area

def withTop (a : Area) (top : Binary64) : Area :=
  ⟨⟨a.start.x, top⟩, ⟨a.finish.x, top + (a.finish.y - a.start.y)⟩⟩

def offsetBy (a delta : Area) : Area :=
  ⟨⟨a.start.x + delta.start.x, a.start.y + delta.start.y⟩,
    ⟨a.finish.x + delta.finish.x, a.finish.y + delta.finish.y⟩⟩

def relativeTo (a origin : Area) : Area :=
  ⟨⟨a.start.x - origin.start.x, a.start.y - origin.start.y⟩,
    ⟨a.finish.x - origin.finish.x, a.finish.y - origin.finish.y⟩⟩

def center (a : Area) : Position :=
  ⟨(a.start.x + a.finish.x) / .ofNat 2, (a.start.y + a.finish.y) / .ofNat 2⟩

end Area

structure Point where
  x : Int32
  y : Int32
  deriving DecidableEq, Repr, Inhabited

structure Region where
  left : Int32
  top : Int32
  width : UInt32
  height : UInt32
  deriving DecidableEq, Repr, Inhabited

namespace Region

/-- The region between two corners in any order. -/
def ofCorners (a b : Point) : Region :=
  let left := if a.x ≤ b.x then a.x else b.x
  let top := if a.y ≤ b.y then a.y else b.y
  let right := if a.x ≤ b.x then b.x else a.x
  let bottom := if a.y ≤ b.y then b.y else a.y
  ⟨left, top, (right - left).toUInt32, (bottom - top).toUInt32⟩

def topLeft (r : Region) : Point := ⟨r.left, r.top⟩

def bottomRight (r : Region) : Point := ⟨r.left + r.width.toInt32, r.top + r.height.toInt32⟩

def isEmpty (r : Region) : Bool := r.width == 0 || r.height == 0

end Region

structure Color where
  red : UInt8
  green : UInt8
  blue : UInt8
  deriving DecidableEq, Repr, Inhabited

namespace Color

def black : Color := ⟨0, 0, 0⟩

def channels (c : Color) : List UInt8 := [c.red, c.green, c.blue]

def describe (c : Color) : String :=
  "Rgb(" ++ toString c.red ++ ", " ++ toString c.green ++ ", " ++ toString c.blue ++ ")"

end Color

structure ClientRect where
  left : Int32
  top : Int32
  width : UInt32
  height : UInt32
  deriving DecidableEq, Repr, Inhabited

namespace ClientRect

/-- A fraction of a length in whole pixels, cut toward zero and kept within 32 bits. -/
def pixels (fraction : Binary64) (length : UInt32) : Int32 :=
  Int32.ofInt ((fraction * .ofNat length.toNat).truncate Int32.minValue.toInt
    Int32.maxValue.toInt)

def toAbsolute (r : ClientRect) (p : Position) : Point :=
  ⟨pixels p.x r.width + r.left, pixels p.y r.height + r.top⟩

/-- The point as a fraction of the client area; the origin while the area has no size. -/
def toRelative (r : ClientRect) (p : Point) : Position :=
  if r.width = 0 ∨ r.height = 0 then ⟨.zero false, .zero false⟩
  else
    ⟨.ofInt (p.x - r.left).toInt / .ofNat r.width.toNat,
      .ofInt (p.y - r.top).toInt / .ofNat r.height.toNat⟩

def toRegion (r : ClientRect) (a : Area) : Region :=
  Region.ofCorners (r.toAbsolute a.start) (r.toAbsolute a.finish)

end ClientRect

/-! ## Written forms -/

namespace Position

def toJson (p : Position) : Json := .arr [.double p.x, .double p.y]

def ofJson? : Json → Option Position
  | .arr [x, y] => do some ⟨← x.double?, ← y.double?⟩
  | _ => none

end Position

namespace Area

def toJson (a : Area) : Json := .arr [a.start.toJson, a.finish.toJson]

def ofJson? : Json → Option Area
  | .arr [a, b] => do some ⟨← Position.ofJson? a, ← Position.ofJson? b⟩
  | _ => none

end Area

namespace Color

def toJson (c : Color) : Json := .arr (c.channels.map fun n => .nat n.toNat)

def ofJson? : Json → Option Color
  | .arr [r, g, b] => do
    let channel (v : Json) : Option UInt8 := (v.natUpTo? 255).map UInt8.ofNat
    some ⟨← channel r, ← channel g, ← channel b⟩
  | _ => none

end Color

def Json.int32? (v : Json) : Option Int32 :=
  (v.intIn? Int32.minValue.toInt Int32.maxValue.toInt).map Int32.ofInt

def Json.uint32? (v : Json) : Option UInt32 := (v.natUpTo? (UInt32.size - 1)).map UInt32.ofNat

namespace Point

def toJson (p : Point) : Json := .record [("x", .int p.x.toInt), ("y", .int p.y.toInt)]

def ofJson? (v : Json) : Option Point := do
  match ← v.fields? ["x", "y"] with
  | [some x, some y] => some ⟨← x.int32?, ← y.int32?⟩
  | _ => none

end Point

private def rectFields? (v : Json) : Option (Int32 × Int32 × UInt32 × UInt32) := do
  match ← v.fields? ["left", "top", "width", "height"] with
  | [some l, some t, some w, some h] =>
    some (← l.int32?, ← t.int32?, ← w.uint32?, ← h.uint32?)
  | _ => none

private def rectJson (l t : Int32) (w h : UInt32) : Json :=
  .record [("left", .int l.toInt), ("top", .int t.toInt), ("width", .nat w.toNat),
    ("height", .nat h.toNat)]

namespace Region

def toJson (r : Region) : Json := rectJson r.left r.top r.width r.height

def ofJson? (v : Json) : Option Region := do
  let (l, t, w, h) ← rectFields? v
  some ⟨l, t, w, h⟩

end Region

namespace ClientRect

def toJson (r : ClientRect) : Json := rectJson r.left r.top r.width r.height

def ofJson? (v : Json) : Option ClientRect := do
  let (l, t, w, h) ← rectFields? v
  some ⟨l, t, w, h⟩

end ClientRect

end Playback
