import Playback.Text.CaseTable
/-!
# Letter case

Full case mapping of a text, and equality that overlooks the case of ASCII letters.
-/

namespace Playback.Text

def mapByRuns (runs : List CaseRun) (n : Nat) : Nat :=
  match runs.find? (·.covers n) with
  | some r => r.partner n
  | none => n

def inRanges (ranges : List (Nat × Nat)) (n : Nat) : Bool :=
  ranges.any fun r => r.1 ≤ n && n ≤ r.2

def upperChar (c : Char) : List Char :=
  if c.toNat < 128 then [c.toUpper]
  else match upperExpansions.lookup c.toNat with
    | some ns => ns.map Char.ofNat
    | none => [Char.ofNat (mapByRuns upperRuns c.toNat)]

def toUpper (s : String) : String := String.ofList (s.toList.flatMap upperChar)

def lowerChar (c : Char) : List Char :=
  if c.toNat < 128 then [c.toLower]
  else if c.toNat == 0x130 then ['i', Char.ofNat 0x307]
  else [Char.ofNat (mapByRuns lowerRuns c.toNat)]

def meetsLetter (cs : List Char) : Bool :=
  match cs.dropWhile fun c => inRanges caseIgnorable c.toNat with
  | [] => false
  | c :: _ => inRanges caseBearing c.toNat

/-- Small letters for the rest of a word; `before` holds what was passed, last character first. A
capital sigma becomes the final form when a letter precedes it and none follows. -/
def lowerFrom (before : List Char) : List Char → List Char
  | [] => []
  | c :: rest =>
    let small :=
      if c.toNat == 0x3A3 then
        [if meetsLetter before && !meetsLetter rest then Char.ofNat 0x3C2 else Char.ofNat 0x3C3]
      else lowerChar c
    small ++ lowerFrom (c :: before) rest

def toLower (s : String) : String := String.ofList (lowerFrom [] s.toList)

/-- The text with its ASCII letters made small and all else kept. -/
def foldAscii (s : String) : String := String.ofList (s.toList.map Char.toLower)

def sameName (a b : String) : Bool := foldAscii a == foldAscii b

theorem sameName_iff {a b : String} : sameName a b ↔ foldAscii a = foldAscii b := by
  simp [sameName]

@[simp] theorem sameName_refl (a : String) : sameName a a := by simp [sameName]

end Playback.Text
