import Playback.Document
import Playback.Json.Reader
import Playback.Text.Search
/-!
# Reading YAML

The part of YAML that settings use: block and flow collections, plain scalars and scalars in single
or double quotes, and comments. Positions are columns, so nested blocks are told apart by
indentation.
-/

namespace Playback.Yaml

/-- A place in the text: the column of the next character and everything from it on. -/
structure Cursor where
  column : Nat
  rest : List Char

def afterLine : List Char → List Char
  | [] => []
  | '\n' :: rest => rest
  | _ :: rest => afterLine rest

def skipSpaces (cs : List Char) : List Char := cs.dropWhile (· == ' ')

def isSpaceOrTab (c : Char) : Bool := c == ' ' || c == '\t'

def endsLine : List Char → Bool
  | [] => true
  | c :: _ => c == '\n' || c == '#'

def blankNext : List Char → Bool
  | [] => true
  | c :: _ => c == ' ' || c == '\n' || c == '\t'

/-- The first line with content, at its first character; nothing if there is none. A tab may not
indent. -/
def nextLine : Nat → List Char → Option (Option Cursor)
  | 0, _ => none
  | fuel + 1, cs =>
    let body := skipSpaces cs
    match body with
    | [] => some none
    | '\n' :: rest => nextLine fuel rest
    | '#' :: rest => nextLine fuel (afterLine rest)
    | '\t' :: rest =>
      if endsLine (rest.dropWhile isSpaceOrTab) then nextLine fuel (afterLine rest) else none
    | body => some (some ⟨cs.length - body.length, body⟩)

/-- What follows the line end, if only blanks and a comment stand before it. A comment needs a blank
before it. -/
def closeLine (cs : List Char) : Option (List Char) :=
  let body := cs.dropWhile isSpaceOrTab
  match body with
  | [] => some []
  | '\n' :: rest => some rest
  | '#' :: rest => if body.length < cs.length then some (afterLine rest) else none
  | _ => none

/-- A line break inside a quoted scalar: one break is a blank, further ones are kept. -/
def foldBreaks (cs : List Char) : List Char × List Char :=
  let gap := cs.takeWhile fun c => isSpaceOrTab c || c == '\n'
  let breaks := gap.countP (· == '\n')
  (if breaks = 1 then [' '] else List.replicate (breaks - 1) '\n', cs.drop gap.length)

/-- The characters of a single-quoted scalar after `acc` (last character first), up to its end. -/
def singleQuoted : Nat → List Char → List Char → Option (String × List Char)
  | 0, _, _ => none
  | _, _, [] => none
  | fuel + 1, acc, '\'' :: '\'' :: rest => singleQuoted fuel ('\'' :: acc) rest
  | _, acc, '\'' :: rest => some (String.ofList acc.reverse, rest)
  | fuel + 1, acc, '\n' :: rest =>
    let (blanks, rest) := foldBreaks ('\n' :: rest)
    singleQuoted fuel (blanks ++ acc.dropWhile isSpaceOrTab) rest
  | fuel + 1, acc, c :: rest => singleQuoted fuel (c :: acc) rest

def escape? (c : Char) : Option Char :=
  match c with
  | '0' => some (Char.ofNat 0)
  | 'a' => some (Char.ofNat 7)
  | 'b' => some (Char.ofNat 8)
  | 't' | '\t' => some '\t'
  | 'n' => some '\n'
  | 'v' => some (Char.ofNat 11)
  | 'f' => some (Char.ofNat 12)
  | 'r' => some '\r'
  | 'e' => some (Char.ofNat 27)
  | ' ' => some ' '
  | '"' => some '"'
  | '/' => some '/'
  | '\\' => some '\\'
  | 'N' => some (Char.ofNat 0x85)
  | '_' => some (Char.ofNat 0xA0)
  | 'L' => some (Char.ofNat 0x2028)
  | 'P' => some (Char.ofNat 0x2029)
  | _ => none

def hexEscape? (count : Nat) (cs : List Char) : Option (Char × List Char) := do
  let digits := cs.take count
  if digits.length < count then none
  else
    let n ← digits.foldlM (fun n c => (Json.Reader.hexDigit? c).map (n * 16 + ·)) 0
    if n < 0x110000 ∧ ¬(0xD800 ≤ n ∧ n < 0xE000) then some (Char.ofNat n, cs.drop count) else none

def doubleQuoted : Nat → List Char → List Char → Option (String × List Char)
  | 0, _, _ => none
  | _, _, [] => none
  | _, acc, '"' :: rest => some (String.ofList acc.reverse, rest)
  | fuel + 1, acc, '\\' :: 'x' :: rest => do
    let (c, rest) ← hexEscape? 2 rest
    doubleQuoted fuel (c :: acc) rest
  | fuel + 1, acc, '\\' :: 'u' :: rest => do
    let (c, rest) ← hexEscape? 4 rest
    doubleQuoted fuel (c :: acc) rest
  | fuel + 1, acc, '\\' :: 'U' :: rest => do
    let (c, rest) ← hexEscape? 8 rest
    doubleQuoted fuel (c :: acc) rest
  | fuel + 1, acc, '\\' :: '\n' :: rest => doubleQuoted fuel acc (rest.dropWhile isSpaceOrTab)
  | fuel + 1, acc, '\\' :: c :: rest => do
    let c ← escape? c
    doubleQuoted fuel (c :: acc) rest
  | fuel + 1, acc, '\n' :: rest =>
    let (blanks, rest) := foldBreaks ('\n' :: rest)
    doubleQuoted fuel (blanks ++ acc.dropWhile isSpaceOrTab) rest
  | fuel + 1, acc, c :: rest => doubleQuoted fuel (c :: acc) rest

def isFlowMark (c : Char) : Bool := c == ',' || c == '[' || c == ']' || c == '\x7b' || c == '\x7d'

def startsPlain (flow : Bool) : List Char → Bool
  | [] => false
  | c :: rest =>
    if c == '-' || c == '?' || c == ':' then
      !blankNext rest && !(flow && (rest.head?.map isFlowMark).getD false)
    else !("#,[]\x7b\x7d&*!|>'\"%@\x60".toList.contains c)

/-- The characters of a plain scalar on one line, after `acc` (last character first) and without the
blanks at its end. It ends before a colon with a blank behind it and before a comment, in a flow
collection also before its marks. -/
def plainChars (flow : Bool) (acc : List Char) : List Char → List Char
  | [] => (acc.dropWhile isSpaceOrTab).reverse
  | c :: rest =>
    let stops :=
      c == '\n' ||
        (c == ':' && (blankNext rest || (flow && (rest.head?.map isFlowMark).getD false)))
        || (c == '#' && (acc.head?.map isSpaceOrTab).getD true) || (flow && isFlowMark c)
    if stops then (acc.dropWhile isSpaceOrTab).reverse else plainChars flow (c :: acc) rest

def plainOnLine (flow : Bool) (cs : List Char) : List Char × List Char :=
  let word := plainChars flow [] cs
  (word, cs.drop word.length)

def skipFlowGap : Nat → List Char → List Char
  | 0, cs => cs
  | fuel + 1, cs =>
    let body := cs.dropWhile fun c => isSpaceOrTab c || c == '\n'
    match body with
    | '#' :: rest => if body.length < cs.length then skipFlowGap fuel (afterLine rest) else body
    | body => body

mutual

def flowValue : Nat → List Char → Option (Document × List Char)
  | 0, _ => none
  | fuel + 1, cs =>
    match cs with
    | '[' :: rest => flowItems fuel rest
    | '\x7b' :: rest => flowMembers fuel rest
    | '\'' :: rest => (singleQuoted (rest.length + 1) [] rest).map fun r => (.text r.1, r.2)
    | '"' :: rest => (doubleQuoted (rest.length + 1) [] rest).map fun r => (.text r.1, r.2)
    | cs =>
      if startsPlain true cs then
        let (word, rest) := plainOnLine true cs
        some (.word (String.ofList word), rest)
      else none

def flowItems : Nat → List Char → Option (Document × List Char)
  | 0, _ => none
  | fuel + 1, cs =>
    match skipFlowGap (cs.length + 1) cs with
    | ']' :: rest => some (.list false [], rest)
    | cs =>
      match flowValue fuel cs with
      | none => none
      | some (v, rest) =>
        match skipFlowGap (rest.length + 1) rest with
        | ']' :: rest => some (.list false [v], rest)
        | ',' :: rest =>
          match flowItems fuel rest with
          | some (.list _ vs, rest) => some (.list false (v :: vs), rest)
          | _ => none
        | _ => none

def flowMembers : Nat → List Char → Option (Document × List Char)
  | 0, _ => none
  | fuel + 1, cs =>
    match skipFlowGap (cs.length + 1) cs with
    | '\x7d' :: rest => some (.record false [], rest)
    | cs =>
      match flowValue fuel cs with
      | some (.text name, rest) | some (.word name, rest) =>
        let named (v : Document) (rest : List Char) : Option (Document × List Char) :=
          match skipFlowGap (rest.length + 1) rest with
          | '\x7d' :: rest => some (.record false [(name, v)], rest)
          | ',' :: rest =>
            match flowMembers fuel rest with
            | some (.record _ ms, rest) => some (.record false ((name, v) :: ms), rest)
            | _ => none
          | _ => none
        match skipFlowGap (rest.length + 1) rest with
        | ':' :: rest =>
          match skipFlowGap (rest.length + 1) rest with
          | ',' :: _ | '\x7d' :: _ => named (.word "") rest
          | cs =>
            match flowValue fuel cs with
            | some (v, rest) => named v rest
            | none => none
        | rest => named (.word "") rest
      | _ => none

end

/-- Further lines of a plain scalar, deeper than `column`, joined by blanks. -/
def plainLines (column : Nat) : Nat → List Char → List Char → Option (String × List Char)
  | 0, _, _ => none
  | fuel + 1, word, rest =>
    match closeLine rest with
    | none => none
    | some after =>
      let done := some (String.ofList word, after)
      if (rest.dropWhile isSpaceOrTab).head? == some '#' then done
      else
        match nextLine (after.length + 1) after with
        | none => none
        | some none => done
        | some (some c) =>
          if column < c.column then
            let (more, rest) := plainOnLine false c.rest
            plainLines column fuel (word ++ ' ' :: more) rest
          else done

def startsItem : List Char → Bool
  | '-' :: rest => blankNext rest
  | _ => false

def memberName? (cs : List Char) : Option (String × List Char) :=
  let afterColon (name : String) (rest : List Char) : Option (String × List Char) :=
    match rest.dropWhile isSpaceOrTab with
    | ':' :: rest => if blankNext rest then some (name, rest) else none
    | _ => none
  match cs with
  | '\'' :: rest => (singleQuoted (rest.length + 1) [] rest).bind fun r => afterColon r.1 r.2
  | '"' :: rest => (doubleQuoted (rest.length + 1) [] rest).bind fun r => afterColon r.1 r.2
  | cs =>
    if startsPlain false cs then
      let (word, rest) := plainOnLine false cs
      afterColon (String.ofList word) rest
    else none

mutual

/-- The value that begins at the cursor, which stands at the first character of its line or item.
`parent` is the column that lines of the value must exceed. -/
def blockValue : Nat → (parent : Int) → Cursor → Option (Document × List Char)
  | 0, _, _ => none
  | fuel + 1, parent, c =>
    if startsItem c.rest then
      (blockItems fuel c.column c).map fun r => (.list false r.1, r.2)
    else if (memberName? c.rest).isSome then
      (blockMembers fuel c.column c).map fun r => (.record false r.1, r.2)
    else inlineValue parent c.rest

def blockItems : Nat → Nat → Cursor → Option (List Document × List Char)
  | 0, _, _ => none
  | fuel + 1, column, c =>
    let body := skipSpaces (c.rest.drop 1)
    let item : Option (Document × List Char) :=
      if endsLine body then
        match closeLine (c.rest.drop 1) with
        | none => none
        | some after =>
          match nextLine (after.length + 1) after with
          | none => none
          | some none => some (.word "", [])
          | some (some d) =>
            if column < d.column then blockValue fuel column d else some (.word "", after)
      else blockValue fuel column ⟨column + (c.rest.length - body.length), body⟩
    match item with
    | none => none
    | some (v, rest) =>
      match nextLine (rest.length + 1) rest with
      | none => none
      | some none => some ([v], [])
      | some (some d) =>
        if d.column = column ∧ startsItem d.rest then
          (blockItems fuel column d).map fun r => (v :: r.1, r.2)
        else if d.column ≤ column then some ([v], rest)
        else none

def blockMembers : Nat → Nat → Cursor → Option (List (String × Document) × List Char)
  | 0, _, _ => none
  | fuel + 1, column, c =>
    match memberName? c.rest with
    | none => none
    | some (name, body) =>
      let value : Option (Document × List Char) :=
        if endsLine (body.dropWhile isSpaceOrTab) then
          match closeLine body with
          | none => none
          | some after =>
            match nextLine (after.length + 1) after with
            | none => none
            | some none => some (.word "", [])
            | some (some d) =>
              if column < d.column then blockValue fuel column d
              else if d.column = column ∧ startsItem d.rest then
                (blockItems fuel column d).map fun r => (.list false r.1, r.2)
              else some (.word "", after)
        else inlineValue column (body.dropWhile isSpaceOrTab)
      match value with
      | none => none
      | some (v, rest) =>
        match nextLine (rest.length + 1) rest with
        | none => none
        | some none => some ([(name, v)], [])
        | some (some d) =>
          if d.column = column ∧ !startsItem d.rest then
            (blockMembers fuel column d).map fun r => ((name, v) :: r.1, r.2)
          else if d.column < column then some ([(name, v)], rest)
          else if d.column = column then some ([(name, v)], rest)
          else none

def inlineValue (parent : Int) (cs : List Char) : Option (Document × List Char) :=
  let closed (r : Document × List Char) : Option (Document × List Char) :=
    (closeLine r.2).map fun after => (r.1, after)
  match cs with
  | '[' :: _ | '\x7b' :: _ | '\'' :: _ | '"' :: _ =>
    (flowValue (2 * cs.length + 2) cs).bind closed
  | cs =>
    if startsPlain false cs then
      let (word, rest) := plainOnLine false cs
      if 0 ≤ parent then
        (plainLines parent.toNat (rest.length + 1) word rest).map fun r => (.word r.1, r.2)
      else closed (.word (String.ofList word), rest)
    else none

end

def unifyBreaks : List Char → List Char
  | '\r' :: '\n' :: rest => '\n' :: unifyBreaks rest
  | c :: rest => (if c == '\r' || c.toNat == 0x85 then '\n' else c) :: unifyBreaks rest
  | [] => []

def isReadable (c : Char) : Bool :=
  let n := c.toNat
  n == 9 || n == 10 || n == 13 || (0x20 ≤ n && n ≤ 0x7E) || n == 0x85
    || (0xA0 ≤ n && n != 0xFFFE && n != 0xFFFF)

def lines? (s : String) : Option (List (List Char)) :=
  let cs := match s.toList with
    | '\uFEFF' :: rest => rest
    | cs => cs
  if cs.all isReadable then some (Text.pieces '\n' (unifyBreaks cs)) else none

def isMarked (mark : Char) (line : List Char) : Bool :=
  [mark, mark, mark].isPrefixOf line && blankNext (line.drop 3)

def isIdle (line : List Char) : Bool := endsLine (line.dropWhile isSpaceOrTab)

/-- The document's text between the mark that may open it and the one that may close it, and whether
it was opened by a mark. Nothing may follow the closing mark. -/
def documentText? (s : String) : Option (Bool × List Char) := do
  let lines ← lines? s
  let body := lines.takeWhile fun line => !isMarked '.' line
  if (lines.drop (body.length + 1)).all isIdle then
    match body.dropWhile isIdle with
    | first :: rest =>
      if isMarked '-' first then some (true, ['\n'].intercalate (first.drop 3 :: rest))
      else some (false, ['\n'].intercalate (first :: rest))
    | [] => some (false, [])
  else none

/-- The value of the only document of the text. A document that was opened and holds nothing is an
empty word; a text without content is no document. -/
def read? (s : String) : Option Document := do
  let (opened, cs) ← documentText? s
  match ← nextLine (cs.length + 1) cs with
  | none => if opened then some (.word "") else none
  | some c =>
    let (v, rest) ← blockValue (2 * cs.length + 4) (-1) c
    match ← nextLine (rest.length + 1) rest with
    | none => some v
    | some _ => none

end Playback.Yaml
