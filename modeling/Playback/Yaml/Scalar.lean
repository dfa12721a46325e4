import Playback.Decimal.Amount
import Playback.Document
/-!
# Writing YAML scalars

A text is written plainly where it would be read back as the same text, in single quotes where it
would be taken for something else, and in double quotes where it holds characters that need escapes.
-/

namespace Playback.Yaml

/-- Words that older readers take for a truth value. -/
def truthWords : List String :=
  ["y", "Y", "yes", "Yes", "YES", "n", "N", "no", "No", "NO", "true", "True", "TRUE", "false",
    "False", "FALSE", "on", "On", "ON", "off", "Off", "OFF"]

def isFloatWord (cs : List Char) : Bool :=
  let body := match cs with
    | '+' :: rest | '-' :: rest => rest
    | rest => rest
  let mantissa := body.takeWhile fun c => c != 'e' && c != 'E'
  let wellFormed := (Binary64.ofNumeral? mantissa).isSome && mantissa.head? != some '+'
    && mantissa.head? != some '-'
  match body.drop mantissa.length with
  | [] => wellFormed
  | _ :: power =>
    let digits := match power with
      | '+' :: rest | '-' :: rest => rest
      | rest => rest
    wellFormed && !digits.isEmpty && digits.all Char.isDigit

/-- Whether the word would not be read as a text. -/
def readsOtherwise (s : String) : Bool :=
  let cs := s.toList
  let unsigned := match cs with
    | '+' :: rest | '-' :: rest => rest
    | rest => rest
  truthWords.contains s || Document.isNullWord s || (Document.naturalWord? s).isSome
    || (unsigned != cs && (Document.naturalWord? (String.ofList unsigned)).isSome)
    || (!unsigned.isEmpty && unsigned.all Char.isDigit)
    || [".inf", ".Inf", ".INF"].contains (String.ofList unsigned)
    || [".nan", ".NaN", ".NAN"].contains s
    || isFloatWord cs

def isPrintable (c : Char) : Bool :=
  let n := c.toNat
  n == 10 || (0x20 ≤ n && n ≤ 0x7E) || (0xA0 ≤ n && n < 0x10000 && n != 0xFEFF && n < 0xFFFE)

def isBreak (c : Char) : Bool :=
  c == '\n' || c == '\r' || c.toNat == 0x85 || c.toNat == 0x2028 || c.toNat == 0x2029

def isBlankOrBreak (c : Char) : Bool := c == ' ' || c == '\t' || isBreak c || c.toNat == 0

/-- Whether a mark inside the text keeps it from being plain. `before` is whether a blank or the
beginning precedes. -/
def hasMark (before : Bool) : List Char → Bool
  | [] => false
  | c :: rest =>
    let after := (rest.head?.map isBlankOrBreak).getD true
    (c == ':' && after) || (c == '#' && before) || hasMark (isBlankOrBreak c) rest

def startsWithMark (cs : List Char) : Bool :=
  match cs with
  | [] => false
  | c :: rest =>
    let after := (rest.head?.map isBlankOrBreak).getD true
    "#,[]\x7b\x7d&*!|>'\"%@\x60".toList.contains c || ((c == '?' || c == ':' || c == '-') && after)
      || ['-', '-', '-'].isPrefixOf cs || ['.', '.', '.'].isPrefixOf cs

def besides (first second : Char → Bool) : List Char → Bool
  | a :: b :: rest => (first a && second b) || besides first second (b :: rest)
  | _ => false

def upperHex (width n : Nat) : List Char :=
  let cs := (Nat.toDigits 16 n).map Char.toUpper
  List.replicate (width - cs.length) '0' ++ cs

def escapeChar (c : Char) : List Char :=
  let n := c.toNat
  if isPrintable c && !isBreak c && c != '"' && c != '\\' then [c]
  else
    '\\' :: (match n with
      | 0 => ['0']
      | 7 => ['a']
      | 8 => ['b']
      | 9 => ['t']
      | 10 => ['n']
      | 11 => ['v']
      | 12 => ['f']
      | 13 => ['r']
      | 27 => ['e']
      | 0x22 => ['"']
      | 0x5C => ['\\']
      | 0x85 => ['N']
      | 0xA0 => ['_']
      | 0x2028 => ['L']
      | 0x2029 => ['P']
      | n =>
        if n ≤ 0xFF then 'x' :: upperHex 2 n
        else if n ≤ 0xFFFF then 'u' :: upperHex 4 n
        else 'U' :: upperHex 8 n)

def doubleQuotes (cs : List Char) : String :=
  String.ofList ('"' :: cs.flatMap escapeChar ++ ['"'])

def singleQuotes (cs : List Char) : String :=
  String.ofList ('\'' :: (cs.flatMap fun c => if c == '\'' then ['\'', '\''] else [c]) ++ ['\''])

/-- The lines of a text with line feeds as a literal block, indented by so many blanks. -/
def literalBlock (indent : Nat) (cs : List Char) : String :=
  let rec write (atStart : Bool) : List Char → List Char
    | [] => []
    | '\n' :: rest => '\n' :: write true rest
    | c :: rest => (if atStart then List.replicate indent ' ' ++ [c] else [c]) ++ write false rest
  let hint := match cs with
    | ' ' :: _ | '\n' :: _ => (Nat.toDigits 10 2)
    | _ => []
  let chomp := match cs.reverse with
    | '\n' :: '\n' :: _ => ['+']
    | ['\n'] => ['+']
    | '\n' :: _ => []
    | _ => ['-']
  let body := match cs.reverse with
    | '\n' :: rest => rest.reverse
    | _ => cs
  String.ofList ('|' :: hint ++ chomp ++ '\n' :: write true body)

/-- The text as a scalar that begins in a line of the given indentation; `isKey` for the name of a
member, which has to stay on one line. -/
def scalar (isKey : Bool) (indent : Nat) (s : String) : String :=
  let cs := s.toList
  let special := cs.any (fun c => !isPrintable c) || besides (· == ' ') isBreak cs
  let breaks := cs.any isBreak
  if cs.contains '\n' && !truthWords.contains s then
    if isKey || special || cs.getLast? == some ' ' then doubleQuotes cs else literalBlock indent cs
  else if special || besides isBreak (· == ' ') cs || (isKey && breaks) then doubleQuotes cs
  else if readsOtherwise s || cs.head? == some ' ' || cs.getLast? == some ' ' || breaks
      || startsWithMark cs || hasMark true cs then singleQuotes cs
  else s

end Playback.Yaml
