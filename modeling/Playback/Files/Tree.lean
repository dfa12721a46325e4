import Playback.Dict
import Playback.Fault
import Playback.Files.Path
/-!
# File trees

A disk as a value: folders and files under their paths from the root, and the working directory in
which relative paths begin. Reading and writing fail as they do on a disk: where nothing is found,
where a folder stands in place of a file or a file in place of a folder, and where a name cannot be
one.
-/

namespace Playback

inductive FileEntry where
  | folder
  | text (content : String)
  | binary
  deriving DecidableEq, Repr, Inhabited

inductive FileFault where
  | notFound
  | notAFolder
  | isAFolder
  | badName
  | notText
  deriving DecidableEq, Repr, Inhabited

/-- A disk and the working directory on it. -/
structure FileTree where
  /-- Every entry under its path from the root, without a slash in front. -/
  entries : Dict FileEntry
  /-- The names from the root to the working directory. -/
  home : List String
  deriving DecidableEq, Repr

namespace FileTree

def ofList (entries : List (String × FileEntry)) : FileTree := ⟨.ofList entries, []⟩

def empty : FileTree := ⟨.empty, []⟩

instance : Inhabited FileTree := ⟨empty⟩

def key (names : List String) : String := Text.joined "/" names

/-- What stands under the names. The working directory and the folders above it, up to the root, are
always there. -/
def entry? (t : FileTree) (names : List String) : Option FileEntry :=
  if names.isPrefixOf t.home then some .folder else t.entries.get? (key names)

def isBadName (name : String) : Bool := name.utf8ByteSize > 255

/-- Walks along the names from a folder; `here` holds the names of that folder. The last name need
not be there, all before it must be folders. Above the root there is nothing but the root. -/
def walk (t : FileTree) (here : List String) : List String → Except FileFault (List String)
  | [] => .ok here
  | name :: rest =>
    if isBadName name then .error .badName
    else if name == ".." then walk t here.dropLast rest
    else
      let next := here ++ [name]
      match rest, t.entry? next with
      | [], _ => .ok next
      | rest, some .folder => walk t next rest
      | _, some _ => .error .notAFolder
      | _, none => .error .notFound

def start (t : FileTree) (path : String) : List String :=
  if Path.isAbsolute path then [] else t.home

def locate (t : FileTree) (path : String) : Except FileFault (List String) :=
  if path.isEmpty then .error .notFound
  else if path.toList.contains (Char.ofNat 0) then .error .badName
  else walk t (t.start path) (Path.components path)

def find (t : FileTree) (path : String) : Except FileFault FileEntry := do
  let names ← t.locate path
  match t.entry? names with
  | some .folder => .ok .folder
  | some e => if Path.namesFolder path then .error .notAFolder else .ok e
  | none => .error .notFound

def pathExists (t : FileTree) (path : String) : Bool :=
  match t.find path with
  | .ok _ => true
  | .error _ => false

def readText (t : FileTree) (path : String) : Except FileFault String := do
  match ← t.find path with
  | .text content => .ok content
  | .folder => .error .isAFolder
  | .binary => .error .notText

/-- Puts a file under a path, in place of one that is there. The folder it goes into must exist. -/
def writeFile (t : FileTree) (path : String) (file : FileEntry) : Except FileFault FileTree := do
  let names ← t.locate path
  match t.entry? names with
  | some .folder => .error .isAFolder
  | _ =>
    if Path.namesFolder path then .error .notAFolder
    else .ok { t with entries := t.entries.insert (key names) file }

def makeAlong (t : FileTree) (here : List String) : List String → Except FileFault FileTree
  | [] => .ok t
  | name :: rest =>
    if isBadName name then .error .badName
    else if name == ".." then makeAlong t here.dropLast rest
    else
      let next := here ++ [name]
      match t.entry? next with
      | some .folder => makeAlong t next rest
      | some _ => .error .notAFolder
      | none => makeAlong { t with entries := t.entries.insert (key next) .folder } next rest

/-- Makes the folder under a path and those above it, where they are missing. -/
def makeFolders (t : FileTree) (path : String) : Except FileFault FileTree :=
  if path.toList.contains (Char.ofNat 0) then .error .badName
  else makeAlong t (t.start path) (Path.components path)

def putFile (t : FileTree) (path : String) (file : FileEntry) : Except FileFault FileTree := do
  let t ← match Path.parent? path with
    | some folder => if folder.isEmpty then pure t else t.makeFolders folder
    | none => pure t
  t.writeFile path file

def filesBelow (t : FileTree) (folder : String) : List String :=
  let root := key (t.start folder ++ Path.components folder)
  (t.entries.entries.filter fun e =>
    e.2 != .folder && (root.isEmpty || (root ++ "/").toList.isPrefixOf e.1.toList)).map (·.1)

/-! ## Ways to the same entry -/

theorem folder_of_prefix {t : FileTree} {names : List String} (h : names <+: t.home) :
    t.entry? names = some .folder :=
  if_pos (List.isPrefixOf_iff_prefix.2 h)

theorem entry_of_not_prefix {t : FileTree} {names : List String} (h : ¬ names <+: t.home) :
    t.entry? names = t.entries.get? (key names) :=
  if_neg fun hbelow => h (List.isPrefixOf_iff_prefix.1 hbelow)

theorem walk_to_home {t : FileTree} {here rest : List String} (hhome : here ++ rest = t.home)
    (hrest : ∀ name ∈ rest, isBadName name = false ∧ name ≠ "..") (names : List String) :
    t.walk here (rest ++ names) = t.walk t.home names := by
  induction rest generalizing here with
  | nil => rw [← hhome, List.append_nil, List.nil_append]
  | cons name rest ih =>
    obtain ⟨hgood, hdown⟩ := hrest name List.mem_cons_self
    have hnext : (here ++ [name]) ++ rest = t.home := by rw [← hhome, List.append_assoc]; rfl
    have hrest := ih hnext fun other hother => hrest other (List.mem_cons_of_mem _ hother)
    have hfolder := folder_of_prefix ⟨rest, hnext⟩
    rw [List.cons_append, walk, if_neg (by simp [hgood]), if_neg (by simp [hdown])]
    dsimp only
    rw [← hrest, hfolder]
    cases rest ++ names with
    | nil => rfl
    | cons next later => rfl

/-- What a relative path leads to, the absolute path through the working directory leads to. -/
theorem locate_absolute {t : FileTree} {absolute relative : String}
    (hhome : ∀ name ∈ t.home, isBadName name = false ∧ name ≠ "..")
    (habsolute : Path.isAbsolute absolute = true) (hrelative : Path.isAbsolute relative = false)
    (hempty : relative.isEmpty = false)
    (hnul : absolute.toList.contains (Char.ofNat 0) = relative.toList.contains (Char.ofNat 0))
    (hsame : Path.components absolute = t.home ++ Path.components relative) :
    t.locate absolute = t.locate relative := by
  have hsome : absolute.isEmpty = false := by
    cases hnone : absolute.isEmpty with
    | false => rfl
    | true =>
      rw [String.isEmpty_iff] at hnone
      subst hnone
      cases habsolute
  simp only [locate, start, habsolute, hrelative, hempty, hsome, hnul, hsame, Bool.false_eq_true,
    if_false, if_true, walk_to_home (List.nil_append _) hhome]

/-- A file outside the working directory is reached from there, too. -/
example :
    ((⟨.ofList [("srv", .folder), ("srv/a.txt", .text "7")], ["home", "bot"]⟩ : FileTree).readText
      "../../srv/./a.txt").toOption = some "7" := by
  decide +kernel

end FileTree

end Playback
