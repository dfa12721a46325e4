import Playback.Geometry
/-!
# Images

Captured pictures, and how they are sharpened before text is recognized in them.
-/

namespace Playback

/-- A picture of the given size; only pixels within it count. -/
structure Image where
  width : Nat
  height : Nat
  pixel : Nat → Nat → Color

namespace Image

def blank (width height : Nat) : Image := ⟨width, height, fun _ _ => .black⟩

/-- The weighted mean of a channel and its eight neighbours, kept within a byte: the middle one
weighs 32 sixteenths and each neighbour takes away two. `sum` is over all nine. -/
def sharpenedChannel (middle : UInt8) (sum : Nat) : UInt8 :=
  UInt8.ofNat (min 255 ((34 * middle.toNat - 2 * sum) / 16))

def blockSum (i : Image) (channel : Color → UInt8) (x y : Nat) : Nat :=
  ([x - 1, x, x + 1].map fun x =>
    ([y - 1, y, y + 1].map fun y => (channel (i.pixel x y)).toNat).foldl (· + ·) 0).foldl (· + ·) 0

def inner (i : Image) (x y : Nat) : Bool := 0 < x && x + 1 < i.width && 0 < y && y + 1 < i.height

/-- The sharpened picture; its border is black. -/
def sharpened (i : Image) : Image :=
  { i with pixel := fun x y =>
      if i.inner x y then
        let channel (f : Color → UInt8) : UInt8 :=
          sharpenedChannel (f (i.pixel x y)) (i.blockSum f x y)
        ⟨channel Color.red, channel Color.green, channel Color.blue⟩
      else .black }

inductive Layout where
  | rgb
  | rgba
  | grey
  deriving DecidableEq, Repr, Inhabited

def Layout.stride : Layout → Nat
  | rgb => 3
  | rgba => 4
  | grey => 1

def Layout.color (l : Layout) (bytes : Array UInt8) (i : Nat) : Color :=
  let byte (k : Nat) : UInt8 := (bytes[i * l.stride + k]?).getD 0
  match l with
  | grey => ⟨byte 0, byte 0, byte 0⟩
  | _ => ⟨byte 0, byte 1, byte 2⟩

/-- The picture whose pixels lie in the bytes row by row. -/
def ofBytes (l : Layout) (width height : Nat) (bytes : Array UInt8) : Image :=
  ⟨width, height, fun x y => l.color bytes (y * width + x)⟩

def bytes (i : Image) : List UInt8 :=
  (List.range i.height).flatMap fun y =>
    (List.range i.width).flatMap fun x => (i.pixel x y).channels

end Image

end Playback
