import Playback.Text.Search
/-!
# Paths

Paths are texts with slashes. Joining keeps both sides as they are written; an absolute right side
stands for itself.
-/

namespace Playback.Path

def isAbsolute (p : String) : Bool := p.toList.head? == some '/'

def join (left right : String) : String :=
  if isAbsolute right then right
  else if left.isEmpty || left.toList.getLast? == some '/' then left ++ right
  else left ++ "/" ++ right

def components (p : String) : List String :=
  ((Text.pieces '/' p.toList).map String.ofList).filter fun s => !(s.isEmpty || s == ".")

def namesFolder (p : String) : Bool :=
  match (Text.pieces '/' p.toList).getLast? with
  | some [] => true
  | some ['.'] => true
  | _ => false

/-- The path without its last name; nothing for the root and the empty path. -/
def parent? (p : String) : Option String :=
  let cs := (p.toList.reverse.dropWhile (· == '/'))
  if cs.isEmpty then none
  else
    let front := (cs.dropWhile (· != '/'))
    let trimmed := front.dropWhile (· == '/')
    some (if trimmed.isEmpty && !front.isEmpty then "/" else String.ofList trimmed.reverse)

end Playback.Path
