import Playback.Json.Value
import Playback.Decimal.Shortest
/-!
# Writing JSON text

The compact and the indented form. Numbers have the fewest digits that read back.
-/

namespace Playback.Json

/-- A double with the fewest digits that read back, a tie going to the even digit: positional with
at least one place from `1e-5` up to `1e16`, and with an exponent outside. -/
def doubleText (negative : Bool) (m : Nat) (e : Int) : String :=
  let d := Decimal.shortest .even m e
  let cs := Decimal.digitChars d.digits
  let point := (cs.length : Int) + d.exponent
  let body :=
    if m = 0 then ['0', '.', '0']
    else if 0 ≤ d.exponent ∧ point ≤ 16 then d.positional ++ ['.', '0']
    else if -5 < point ∧ point ≤ 16 then d.positional
    else
      let mantissa := if cs.length = 1 then cs else cs.take 1 ++ '.' :: cs.drop 1
      let sign := if point - 1 < 0 then '-' else '+'
      mantissa ++ 'e' :: sign :: Decimal.digitChars (point - 1).natAbs
  String.ofList (if negative then '-' :: body else body)

def Number.text : Number → String
  | .int i => toString i
  | .double (.finite s m e) => doubleText s m e
  | .double _ => "null"

def hexChar (n : Nat) : Char := if n < 10 then Char.ofNat (48 + n) else Char.ofNat (87 + n)

def escapeChar (c : Char) : List Char :=
  if c == '"' then ['\\', '"']
  else if c == '\\' then ['\\', '\\']
  else if c == '\n' then ['\\', 'n']
  else if c == '\r' then ['\\', 'r']
  else if c == '\t' then ['\\', 't']
  else if c.toNat == 8 then ['\\', 'b']
  else if c.toNat == 12 then ['\\', 'f']
  else if c.toNat < 0x20 then ['\\', 'u', '0', '0', hexChar (c.toNat / 16), hexChar (c.toNat % 16)]
  else [c]

def quoted (s : String) : String := String.ofList ('"' :: s.toList.flatMap escapeChar ++ ['"'])

mutual

def compact : Json → String
  | .null => "null"
  | .bool b => if b then "true" else "false"
  | .num n => n.text
  | .str s => quoted s
  | .arr items => "[" ++ compactItems items ++ "]"
  | .obj members => "\x7b" ++ compactMembers members ++ "\x7d"

def compactItems : List Json → String
  | [] => ""
  | [v] => compact v
  | v :: rest => compact v ++ "," ++ compactItems rest

def compactMembers : List (String × Json) → String
  | [] => ""
  | [(name, v)] => quoted name ++ ":" ++ compact v
  | (name, v) :: rest => quoted name ++ ":" ++ compact v ++ "," ++ compactMembers rest

end

def newline (level : Nat) : String := "\n" ++ String.ofList (List.replicate (2 * level) ' ')

mutual

def pretty (level : Nat) : Json → String
  | .arr (v :: rest) =>
    "[" ++ newline (level + 1) ++ prettyItems (level + 1) (v :: rest) ++ newline level ++ "]"
  | .obj (m :: rest) =>
    "\x7b" ++ newline (level + 1) ++ prettyMembers (level + 1) (m :: rest) ++ newline level
      ++ "\x7d"
  | v => compact v

def prettyItems (level : Nat) : List Json → String
  | [] => ""
  | [v] => pretty level v
  | v :: rest => pretty level v ++ "," ++ newline level ++ prettyItems level rest

def prettyMembers (level : Nat) : List (String × Json) → String
  | [] => ""
  | [(name, v)] => quoted name ++ ": " ++ pretty level v
  | (name, v) :: rest =>
    quoted name ++ ": " ++ pretty level v ++ "," ++ newline level ++ prettyMembers level rest

end

end Playback.Json
