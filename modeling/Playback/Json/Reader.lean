import Playback.Json.Value
/-!
# Reading JSON text

A strict reader: one value and nothing behind it, no leading zeros, no control characters inside
strings, no surrogate on its own, and at most 127 levels of nesting.
-/

namespace Playback.Json.Reader

def isGap (c : Char) : Bool := c == ' ' || c == '\n' || c == '\t' || c == '\r'

def skipGap (cs : List Char) : List Char := cs.dropWhile isGap

def hexDigit? (c : Char) : Option Nat :=
  if '0' ≤ c ∧ c ≤ '9' then some (c.toNat - 48)
  else if 'a' ≤ c ∧ c ≤ 'f' then some (c.toNat - 87)
  else if 'A' ≤ c ∧ c ≤ 'F' then some (c.toNat - 55)
  else none

def unit? (a b c d : Char) : Option Nat := do
  let a ← hexDigit? a
  let b ← hexDigit? b
  let c ← hexDigit? c
  let d ← hexDigit? d
  some (((a * 16 + b) * 16 + c) * 16 + d)

def isHighUnit (u : Nat) : Bool := 0xD800 ≤ u && u < 0xDC00

def isLowUnit (u : Nat) : Bool := 0xDC00 ≤ u && u < 0xE000

def pairChar (high low : Nat) : Char :=
  Char.ofNat (0x10000 + (high - 0xD800) * 0x400 + (low - 0xDC00))

def escaped? (c : Char) : Option Char :=
  if c == '"' || c == '\\' || c == '/' then some c
  else if c == 'b' then some (Char.ofNat 8)
  else if c == 'f' then some (Char.ofNat 12)
  else if c == 'n' then some '\n'
  else if c == 'r' then some '\r'
  else if c == 't' then some '\t'
  else none

/-- The characters of a string up to its closing quote, after `acc` (last character first), and
what follows the quote. -/
def stringBody (acc : List Char) : List Char → Option (List Char × List Char)
  | [] => none
  | '"' :: rest => some (acc.reverse, rest)
  | '\\' :: 'u' :: a :: b :: c :: d :: rest =>
    match unit? a b c d with
    | none => none
    | some u =>
      if isHighUnit u then
        match rest with
        | '\\' :: 'u' :: a' :: b' :: c' :: d' :: rest' =>
          match unit? a' b' c' d' with
          | some v => if isLowUnit v then stringBody (pairChar u v :: acc) rest' else none
          | none => none
        | _ => none
      else if isLowUnit u then none
      else stringBody (Char.ofNat u :: acc) rest
  | '\\' :: c :: rest =>
    match escaped? c with
    | some c => stringBody (c :: acc) rest
    | none => none
  | c :: rest => if c == '\\' || c.toNat < 0x20 then none else stringBody (c :: acc) rest

def digitsValue (cs : List Char) : Nat := cs.foldl (fun n c => n * 10 + (c.toNat - 48)) 0

def spanDigits (cs : List Char) : List Char × List Char := cs.span Char.isDigit

/-- The double of a literal, if it is not too large for one. Exponents far outside the range of the
doubles are decided without being computed. -/
def literalDouble? (negative : Bool) (digits : List Char) (exponent : Int) : Option Binary64 :=
  let m := digitsValue digits
  if m = 0 then some (.zero negative)
  else if exponent + digits.length < -400 then some (.zero negative)
  else if 800 < exponent then none
  else
    match Binary64.ofDecimal negative m exponent with
    | .infinite _ => none
    | x => some x

def exponentPart? : List Char → Option (Option Int × List Char)
  | c :: rest =>
    if c == 'e' || c == 'E' then
      let (negative, rest) := match rest with
        | '+' :: r => (false, r)
        | '-' :: r => (true, r)
        | r => (false, r)
      match spanDigits rest with
      | ([], _) => none
      | (ds, r) => some (some (if negative then -digitsValue ds else digitsValue ds), r)
    else some (none, c :: rest)
  | [] => some (none, [])

def fractionPart? : List Char → Option (Option (List Char) × List Char)
  | '.' :: rest =>
    match spanDigits rest with
    | ([], _) => none
    | (ds, r) => some (some ds, r)
  | cs => some (none, cs)

def unsignedNumber? (negative : Bool) (cs : List Char) : Option (Number × List Char) := do
  let (whole, rest) := spanDigits cs
  if whole.isEmpty || (whole.length > 1 && whole.head? == some '0') then none
  else
    let (fraction, rest) ← fractionPart? rest
    let (exponent, rest) ← exponentPart? rest
    match fraction, exponent with
    | none, none =>
      let n := digitsValue whole
      if negative then
        if n ≠ 0 ∧ n ≤ Nat.pow 2 63 then some (.int (-n), rest)
        else (literalDouble? true whole 0).map fun x => (.double x, rest)
      else if n < UInt64.size then some (.int n, rest)
      else (literalDouble? false whole 0).map fun x => (.double x, rest)
    | _, _ =>
      let ds := fraction.getD []
      (literalDouble? negative (whole ++ ds) (exponent.getD 0 - ds.length)).map
        fun x => (.double x, rest)

def number? : List Char → Option (Number × List Char)
  | '-' :: rest => unsignedNumber? true rest
  | cs => unsignedNumber? false cs

mutual

/-- The value at the front of the text and the rest. `fuel` bounds the calls and `depth` the
nesting. -/
def value? : Nat → Nat → List Char → Option (Json × List Char)
  | 0, _, _ => none
  | fuel + 1, depth, cs =>
    match skipGap cs with
    | '"' :: rest => (stringBody [] rest).map fun r => (.str (String.ofList r.1), r.2)
    | '[' :: rest =>
      match depth with
      | 0 => none
      | depth + 1 =>
        match skipGap rest with
        | ']' :: rest => some (.arr [], rest)
        | rest => (items? fuel depth rest).map fun r => (.arr r.1, r.2)
    | '{' :: rest =>
      match depth with
      | 0 => none
      | depth + 1 =>
        match skipGap rest with
        | '}' :: rest => some (.obj [], rest)
        | rest => (members? fuel depth rest).map fun r => (.obj r.1, r.2)
    | 't' :: 'r' :: 'u' :: 'e' :: rest => some (.bool true, rest)
    | 'f' :: 'a' :: 'l' :: 's' :: 'e' :: rest => some (.bool false, rest)
    | 'n' :: 'u' :: 'l' :: 'l' :: rest => some (.null, rest)
    | rest => (number? rest).map fun r => (.num r.1, r.2)

def items? : Nat → Nat → List Char → Option (List Json × List Char)
  | 0, _, _ => none
  | fuel + 1, depth, cs =>
    match value? fuel depth cs with
    | none => none
    | some (v, rest) =>
      match skipGap rest with
      | ',' :: rest => (items? fuel depth rest).map fun r => (v :: r.1, r.2)
      | ']' :: rest => some ([v], rest)
      | _ => none

def members? : Nat → Nat → List Char → Option (List (String × Json) × List Char)
  | 0, _, _ => none
  | fuel + 1, depth, cs =>
    match skipGap cs with
    | '"' :: rest =>
      match stringBody [] rest with
      | none => none
      | some (name, rest) =>
        match skipGap rest with
        | ':' :: rest =>
          match value? fuel depth rest with
          | none => none
          | some (v, rest) =>
            match skipGap rest with
            | ',' :: rest =>
              (members? fuel depth rest).map fun r => ((String.ofList name, v) :: r.1, r.2)
            | '}' :: rest => some ([(String.ofList name, v)], rest)
            | _ => none
        | _ => none
    | _ => none

end

def maxDepth : Nat := 127

end Playback.Json.Reader

namespace Playback.Json

def read? (s : String) : Option Json :=
  let cs := s.toList
  match Reader.value? (2 * cs.length + 2) Reader.maxDepth cs with
  | some (v, rest) => if (Reader.skipGap rest).isEmpty then some v else none
  | none => none

/-- The value a text spells, in canonical form. -/
def parse? (s : String) : Option Json := (read? s).map canonical

end Playback.Json
