import Playback.Dict
import Playback.Text.Search
/-!
# Environment files

A file of lines `NAME=value` adds variables to the environment; those that are set already stay. A
line that is none ends the reading, and what came before it counts.
-/

namespace Playback.CommandLine

def isNameChar (c : Char) : Bool := c.isAlphanum || c == '_' || c == '.'

def isNameStart (c : Char) : Bool := c.isAlpha || c == '_'

def isSpace (c : Char) : Bool := c == ' ' || c == '\t'

inductive Quotation where
  | none
  | single
  | double
  deriving DecidableEq, Repr, Inhabited

def unescaped? (c : Char) : Option Char :=
  if c == 'n' then some '\n'
  else if ['\\', '\'', '"', '$', ' '].contains c then some c
  else none

def endsWell (cs : List Char) : Bool :=
  match cs.dropWhile isSpace with
  | [] => true
  | c :: _ => c == '#'

/-- The value a line goes on with: quotes are left out, a backslash keeps the next character, and a
blank outside of quotes ends it. -/
def readValue? (q : Quotation) : List Char → Option (List Char)
  | [] => if q = .none then some [] else none
  | c :: cs =>
    match q with
    | .single => if c == '\'' then readValue? .none cs else (readValue? .single cs).map (c :: ·)
    | q =>
      if c == '\\' then
        match cs with
        | [] => none
        | d :: cs => do return (← unescaped? d) :: (← readValue? q cs)
      else if c == '"' then readValue? (if q = .double then .none else .double) cs
      else if q = .none && c == '\'' then readValue? .single cs
      else if q = .none && isSpace c then (if endsWell cs then some [] else none)
      else (readValue? q cs).map (c :: ·)

/-- A name and a value, nothing on a blank line or a remark; a failure on any other line. -/
def readLine? (line : List Char) : Option (Option (String × String)) :=
  let trimmed :=
    ((line.dropWhile isSpace).reverse.dropWhile fun c => isSpace c || c == '\r').reverse
  let body := match "export ".toList.isPrefixOf trimmed with
    | true => (trimmed.drop 7).dropWhile isSpace
    | false => trimmed
  match body with
  | [] => some none
  | c :: _ =>
    if c == '#' then some none
    else if !isNameStart c then none
    else
      let name := body.takeWhile isNameChar
      match (body.dropWhile isNameChar).dropWhile isSpace with
      | '=' :: value =>
        let value := value.dropWhile isSpace
        let read := if value.head? = some '#' then some [] else readValue? .none value
        read.map fun v => some (String.ofList name, String.ofList v)
      | _ => none

/-- The variables that the lines set, up to the first line that cannot be read. -/
def readLines : List (List Char) → List (String × String)
  | [] => []
  | line :: rest =>
    match readLine? line with
    | none => []
    | some none => readLines rest
    | some (some e) => e :: readLines rest

/-- The environment with the variables of a file; the first value of a name counts. -/
def withFile (env : Dict String) (content : String) : Dict String :=
  (readLines (Text.pieces '\n' content.toList)).foldl
    (fun env e => if env.contains e.1 then env else env.insert e.1 e.2) env

end Playback.CommandLine
