import Playback.Json.Value
/-!
# Documents

What settings files and embedded settings have in common, whichever format they are written in:
texts, numbers, lists and records, with readers for the shapes that settings are made of. A word
without quotes may be a text, a number or nothing, as the reader wants it.
-/

namespace Playback

/-- A value of a settings document. `loose` marks formats in which a list may stand for a record of
its fields in order, and a record of one member for a name. -/
inductive Document where
  | null
  | text (s : String)
  | word (s : String)
  | number (i : Int)
  /-- A value that no setting takes. -/
  | other
  | list (loose : Bool) (items : List Document)
  | record (loose : Bool) (members : List (String × Document))
  deriving Repr, Inhabited

namespace Document

mutual

def ofJson : Json → Document
  | .null => .null
  | .bool _ => .other
  | .num (.int i) => .number i
  | .num (.double _) => .other
  | .str s => .text s
  | .arr items => .list true (ofJsonItems items)
  | .obj members => .record true (ofJsonMembers members)

def ofJsonItems : List Json → List Document
  | [] => []
  | v :: rest => ofJson v :: ofJsonItems rest

def ofJsonMembers : List (String × Json) → List (String × Document)
  | [] => []
  | (name, v) :: rest => (name, ofJson v) :: ofJsonMembers rest

end

def isNullWord (s : String) : Bool :=
  s.isEmpty || s == "~" || s == "null" || s == "Null" || s == "NULL"

def digits? (base : Nat) (cs : List Char) : Option Nat :=
  let digit? (c : Char) : Option Nat :=
    let n := c.toNat
    let d :=
      if 48 ≤ n ∧ n ≤ 57 then n - 48
      else if 97 ≤ n ∧ n ≤ 122 then n - 87
      else if 65 ≤ n ∧ n ≤ 90 then n - 55
      else base
    if d < base then some d else none
  if cs.isEmpty then none else cs.foldlM (fun n c => (digit? c).map (n * base + ·)) 0

/-- The natural number a word spells: decimal without a leading zero, or with the mark of another
base; a plus sign may stand in front. -/
def naturalWord? (s : String) : Option Nat :=
  let cs := match s.toList with
    | '+' :: rest => rest
    | cs => cs
  match cs with
  | '0' :: 'x' :: rest => digits? 16 rest
  | '0' :: 'o' :: rest => digits? 8 rest
  | '0' :: 'b' :: rest => digits? 2 rest
  | '0' :: _ :: _ => none
  | cs => digits? 10 cs

def text? : Document → Option String
  | text s => some s
  | word s => some s
  | _ => none

def natUpTo? (max : Nat) : Document → Option Nat
  | number i => if 0 ≤ i ∧ i ≤ max then some i.toNat else none
  | word s => (naturalWord? s).bind fun n => if n ≤ max then some n else none
  | _ => none

def optional? {α : Type} (read : Document → Option α) : Document → Option (Option α)
  | null => some none
  | word s => if isNullWord s then some none else (read (.word s)).map some
  | v => (read v).map some

def items? : Document → Option (List Document)
  | list _ items => some items
  | word s => if s.isEmpty then some [] else none
  | _ => none

def members? : Document → Option (List (String × Document))
  | record _ members => some members
  | word s => if s.isEmpty then some [] else none
  | _ => none

def list? {α : Type} (read : Document → Option α) (v : Document) : Option (List α) :=
  v.items?.bind (·.mapM read)

/-- A dictionary; of several members of one name the last counts. -/
def dict? {α : Type} (read : Document → Option α) (v : Document) : Option (Dict α) := do
  let members ← v.members?
  return Dict.ofList (← members.mapM fun m => (read m.2).map fun a => (m.1, a))

/-- The fields of a record in the given order, each with its value if there is one. No field may be
given twice, and other members do not matter. -/
def fields? (names : List String) (v : Document) : Option (List (Option Document)) :=
  match v with
  | list true items =>
    if items.length ≤ names.length then
      some (items.map some ++ List.replicate (names.length - items.length) none)
    else none
  | list false _ => none
  | v => do
    let members ← v.members?
    names.mapM fun name =>
      match members.filter (·.1 == name) with
      | [] => some none
      | [m] => some (some m.2)
      | _ => none

def field? {α : Type} (read : Document → Option α) (default : α) : Option Document → Option α
  | some v => read v
  | none => some default

def choice? {α : Type} (names : List (String × α)) (v : Document) : Option α :=
  match v with
  | text s => names.lookup s
  | word s => names.lookup s
  | record true [(s, null)] => names.lookup s
  | _ => none

end Document

end Playback
