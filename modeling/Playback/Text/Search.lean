/-!
# Searching in text

Cutting a text at a character and replacing a part of it, over its list of characters.
-/

namespace Playback.Text

/-- What follows `lead` in the text, if the text begins with it. -/
def afterLead? (lead : List Char) (cs : List Char) : Option (List Char) :=
  if lead.isPrefixOf cs then some (cs.drop lead.length) else none

def beforeTail? (tail : List Char) (cs : List Char) : Option (List Char) :=
  if tail.isSuffixOf cs then some (cs.take (cs.length - tail.length)) else none

/-- The pieces of the text between the separators; a text without one is a single piece. -/
def pieces (sep : Char) : List Char → List (List Char)
  | [] => [[]]
  | c :: rest =>
    if c == sep then [] :: pieces sep rest
    else match pieces sep rest with
      | [] => [[c]]
      | p :: ps => (c :: p) :: ps

private def replaceWithin (old new : List Char) : Nat → List Char → List Char
  | 0, cs => cs
  | _, [] => []
  | fuel + 1, c :: rest =>
    match afterLead? old (c :: rest) with
    | some rest' => new ++ replaceWithin old new fuel rest'
    | none => c :: replaceWithin old new fuel rest

/-- The text with every occurrence of the nonempty `old`, read from the left, replaced by `new`. -/
def replaceAll (old new s : String) : String :=
  String.ofList (replaceWithin old.toList new.toList s.toList.length s.toList)

def joined (sep : String) : List String → String
  | [] => ""
  | [s] => s
  | s :: rest => s ++ sep ++ joined sep rest

end Playback.Text
