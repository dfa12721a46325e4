import Playback.Comparison
/-!
# Texts to be typed

A write step names its text literally in quotes, as a secret after a dollar sign, as an attribute of
the question after a point, or just as it stands.
-/

namespace Playback

inductive WriteText where
  | literal (text : String)
  /-- The name of a secret, looked up when the text is typed. -/
  | secret (name : String)
  /-- The name of an attribute, looked up when the text is typed. -/
  | question (name : String)
  | raw (text : String)
  deriving DecidableEq, Repr, Inhabited

namespace WriteText

/-- The text between two quotes that are the first and the last character. -/
def unquoted? : List Char → Option (List Char)
  | '"' :: rest => if rest.getLast? = some '"' then some rest.dropLast else none
  | _ => none

def ofText (s : String) : WriteText :=
  match unquoted? s.toList with
  | some cs => .literal (String.ofList cs)
  | none =>
    match s.toList with
    | '$' :: name => .secret (String.ofList (Text.trimChars name))
    | '.' :: _ => .question (stripReference s)
    | _ => .raw s

def toText : WriteText → String
  | literal text => "\"" ++ text ++ "\""
  | secret name => "$" ++ name
  | question name => "." ++ name
  | raw text => text

end WriteText

end Playback
