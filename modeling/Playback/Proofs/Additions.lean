import Playback.Action
import Playback.Proofs.Appending
import Playback.Proofs.Loading
/-!
# Command files that only grow

Appending keeps the entries of a command file as they are, one by one, also those that could not be
loaded, and puts exactly one behind them. A file that holds anything else is left alone. To see what
a failure leaves behind, appending is followed step by step through the files.
-/

namespace Playback.Proofs.Additions

open Appending Codec Entries JsonText JsonValues Loading

/-! ## What stays when appending fails -/

/-- Makes the folders along the names, below `here`. What was made before a failure stays. -/
def makingAlong (here : List String) : List String → FileTree → Except FileFault Unit × FileTree
  | [], t => (.ok (), t)
  | name :: rest, t =>
    if FileTree.isBadName name then (.error .badName, t)
    else if name == ".." then makingAlong here.dropLast rest t
    else
      let next := here ++ [name]
      match t.entry? next with
      | some .folder => makingAlong next rest t
      | some _ => (.error .notAFolder, t)
      | none =>
        makingAlong next rest { t with entries := t.entries.insert (FileTree.key next) .folder }

def making (folder : String) (t : FileTree) : Except FileFault Unit × FileTree :=
  if folder.toList.contains (Char.ofNat 0) then (.error .badName, t)
  else makingAlong (t.start folder) (Path.components folder) t

def makingParents (path : String) (t : FileTree) : Except FileFault Unit × FileTree :=
  match Path.parent? path with
  | some folder => if folder.isEmpty then (.ok (), t) else making folder t
  | none => (.ok (), t)

def appending (path : String) (c : Command) : Action FileTree Unit := fun t =>
  match t.commandEntries path with
  | .error f => (.error f, t)
  | .ok found =>
    match makingParents path t with
    | (.error _, t) => (.error .io, t)
    | (.ok (), t) =>
      match t.writeFile path (.text ((Json.arr (found.getD [] ++ [c.toJson])).pretty 0)) with
      | .error _ => (.error .io, t)
      | .ok t => (.ok (), t)

/-- What is left of a step when only its success counts. -/
def succeeded {ε : Type} : Except ε Unit × FileTree → Except ε FileTree
  | (.ok (), t) => .ok t
  | (.error e, _) => .error e

theorem makeAlong_eq (here names : List String) (t : FileTree) :
    t.makeAlong here names = succeeded (makingAlong here names t) := by
  induction names generalizing here t with
  | nil => rfl
  | cons name rest ih =>
    unfold FileTree.makeAlong makingAlong
    split
    · rfl
    · split
      · exact ih _ t
      · dsimp only
        cases t.entry? (here ++ [name]) with
        | none => exact ih _ _
        | some file =>
          cases file with
          | folder => exact ih _ t
          | text content => rfl
          | binary => rfl

theorem makeFolders_eq (folder : String) (t : FileTree) :
    t.makeFolders folder = succeeded (making folder t) := by
  unfold FileTree.makeFolders making
  split
  · rfl
  · exact makeAlong_eq _ _ t

theorem putFile_eq (path : String) (file : FileEntry) (t : FileTree) :
    t.putFile path file = (do (← succeeded (makingParents path t)).writeFile path file) := by
  unfold FileTree.putFile makingParents
  cases Path.parent? path with
  | none => rfl
  | some folder =>
    dsimp only
    split
    · rfl
    · rw [makeFolders_eq]

theorem appendCommand_eq (path : String) (c : Command) (t : FileTree) :
    t.appendCommand c path = succeeded (appending path c t) := by
  unfold FileTree.appendCommand appending
  cases t.commandEntries path with
  | error f => rfl
  | ok found =>
    rw [ok_bind]
    dsimp only
    rw [putFile_eq]
    cases makingParents path t with
    | mk made t' =>
      cases made with
      | error f => rfl
      | ok u =>
        dsimp only [succeeded]
        rw [ok_bind]
        cases t'.writeFile path
          (.text ((Json.arr (found.getD [] ++ [c.toJson])).pretty 0)) with
        | error f => rfl
        | ok t'' => rfl

/-! ## Files that can still be read -/

/-- Every file that could be read before reads the same. -/
def Keeps (t t' : FileTree) : Prop :=
  ∀ path content, t.readText path = .ok content → t'.readText path = .ok content

theorem keeps_placed {t : FileTree} {names : List String} (h : t.entry? names = none) :
    Keeps t (placed t (FileTree.key names) .folder) := by
  intro path content hread
  obtain ⟨found, hlocate, hthere, hname⟩ := readText_eq_ok.1 hread
  have hfree : t.entries.get? (FileTree.key names) = none := by
    unfold FileTree.entry? at h
    split at h
    · cases h
    · exact h
  have hfolder : t.entries.get? (FileTree.key names) ≠ some .folder := by
    rw [hfree]
    exact fun h => by cases h
  refine readText_eq_ok.2 ⟨found, locate_placed hfolder hlocate, ?_, hname⟩
  have hbelow : ¬ found <+: t.home := by
    intro hbelow
    rw [FileTree.folder_of_prefix hbelow] at hthere
    cases hthere
  rw [FileTree.entry_of_not_prefix hbelow] at hthere
  have hne : FileTree.key found ≠ FileTree.key names := by
    intro hsame
    rw [hsame, hfree] at hthere
    cases hthere
  rw [get_placed hbelow, Names.get?_insert_of_ne _ hne, hthere]

theorem keeps_makingAlong (here names : List String) (t : FileTree) :
    Keeps t (makingAlong here names t).2 := by
  induction names generalizing here t with
  | nil => exact fun _ _ h => h
  | cons name rest ih =>
    unfold makingAlong
    split
    · exact fun _ _ h => h
    · split
      · exact ih _ t
      · dsimp only
        cases hentry : t.entry? (here ++ [name]) with
        | none =>
          exact fun path content h => ih _ _ path content (keeps_placed hentry path content h)
        | some file =>
          cases file with
          | folder => exact ih _ t
          | text content => exact fun _ _ h => h
          | binary => exact fun _ _ h => h

theorem keeps_makingParents (path : String) (t : FileTree) :
    Keeps t (makingParents path t).2 := by
  unfold makingParents making
  split
  · split
    · exact fun _ _ h => h
    · split
      · exact fun _ _ h => h
      · exact keeps_makingAlong _ _ t
  · exact fun _ _ h => h

section Appending

variable {t t' : FileTree} {path : String} {c : Command}

theorem keeps_of_error {f : Fault} (h : appending path c t = (.error f, t')) : Keeps t t' := by
  unfold appending at h
  split at h
  · cases h
    exact fun _ _ h => h
  · have hparents := keeps_makingParents path t
    split at h
    · rename_i hmade
      rw [hmade] at hparents
      cases h
      exact hparents
    · rename_i hmade
      rw [hmade] at hparents
      split at h
      · cases h
        exact hparents
      · cases h

/-! ## What a command file holds -/

/-- A file that can be appended to, and the entries in it. -/
inductive Holds (t : FileTree) (path : String) : List Json → Prop
  | missing (hread : t.readText path = .error .notFound) : Holds t path []
  | blank {content : String} (hread : t.readText path = .ok content)
    (hblank : Text.blank content = true) : Holds t path []
  | array {content : String} {items : List Json} (hread : t.readText path = .ok content)
    (hlist : Json.parse? content = some (.arr items)) : Holds t path items

theorem commandEntries_of_holds {items : List Json} (h : Holds t path items) :
    ∃ found, t.commandEntries path = .ok found ∧ found.getD [] = items := by
  cases h with
  | missing hread => exact ⟨none, by rw [FileTree.commandEntries, hread], rfl⟩
  | blank hread hblank =>
    exact ⟨none, by simp only [FileTree.commandEntries, hread, hblank, if_true], rfl⟩
  | array hread hlist =>
    refine ⟨some items, ?_, rfl⟩
    simp only [FileTree.commandEntries, hread, blank_of_parse_arr hlist, hlist]
    rfl

theorem holds_of_commandEntries {found : Option (List Json)}
    (h : t.commandEntries path = .ok found) : Holds t path (found.getD []) := by
  cases found with
  | some items =>
    obtain ⟨content, hread, hlist⟩ := array_of_commandEntries h
    exact .array hread hlist
  | none =>
    unfold FileTree.commandEntries at h
    split at h
    · exact .missing (by assumption)
    · cases h
    · rename_i content hread
      split at h
      · exact .blank hread (by assumption)
      · split at h
        · cases h
        · cases h

theorem appending_refused (h : ∀ items, ¬ Holds t path items) :
    ∃ f, appending path c t = (.error f, t) := by
  cases hfound : t.commandEntries path with
  | error f => exact ⟨f, by rw [appending, hfound]⟩
  | ok found => exact absurd (holds_of_commandEntries hfound) (h _)

theorem array_of_appendCommand {items : List Json} (hc : ProperCommand c)
    (hholds : Holds t path items) (h : t.appendCommand c path = .ok t') :
    ∃ content, t'.readText path = .ok content ∧
      Json.parse? content = some (.arr (items ++ [c.toJson])) := by
  obtain ⟨found, hfound, hafter⟩ := commandEntries_appendCommand hc h
  obtain ⟨found', hfound', rfl⟩ := commandEntries_of_holds hholds
  rw [hfound] at hfound'
  cases hfound'
  exact array_of_commandEntries hafter

end Appending

theorem holds_of_appendCommands {t t' : FileTree} {path : String} {items : List Json}
    {cs : List Command} (hcs : ∀ c ∈ cs, ProperCommand c) (hholds : Holds t path items)
    (h : cs.foldlM (fun t c => t.appendCommand c path) t = .ok t') :
    Holds t' path (items ++ cs.map Command.toJson) := by
  induction cs generalizing t items with
  | nil =>
    cases h
    rw [List.map_nil, List.append_nil]
    exact hholds
  | cons c cs ih =>
    rw [List.foldlM_cons, bind_eq_ok] at h
    obtain ⟨t₁, hfirst, hrest⟩ := h
    obtain ⟨content, hread, hlist⟩ :=
      array_of_appendCommand (hcs c List.mem_cons_self) hholds hfirst
    have hall := ih (fun d hd => hcs d (List.mem_cons_of_mem c hd)) (.array hread hlist) hrest
    rw [List.append_assoc, List.singleton_append] at hall
    exact hall

/-- After a command was appended, its file is a list of the entries that were there, as they were,
and the one of the command behind them; after several, of theirs in order. A file that holds
something else is refused and nothing is changed, and no other failure changes a file that can be
read. -/
theorem appends_preserve (path : String) :
    (∀ t c, t.appendCommand c path = succeeded (appending path c t)) ∧
    (∀ t t' items c, ProperCommand c → Holds t path items → t.appendCommand c path = .ok t' →
      ∃ content, t'.readText path = .ok content ∧
        Json.parse? content = some (.arr (items ++ [c.toJson]))) ∧
    (∀ t t' items (cs : List Command), (∀ c ∈ cs, ProperCommand c) → Holds t path items →
      cs.foldlM (fun t c => t.appendCommand c path) t = .ok t' →
        Holds t' path (items ++ cs.map Command.toJson)) ∧
    (∀ t c, (∀ items, ¬ Holds t path items) → ∃ f, appending path c t = (.error f, t)) ∧
    ∀ t t' c f, appending path c t = (.error f, t') → Keeps t t' :=
  ⟨fun t c => appendCommand_eq path c t,
    fun _ _ _ _ hc hholds h => array_of_appendCommand hc hholds h,
    fun _ _ _ _ hcs hholds h => holds_of_appendCommands hcs hholds h,
    fun _ _ h => appending_refused h, fun _ _ _ _ h => keeps_of_error h⟩

def leftovers : List Json := [.num (.int 7), .arr [.null]]

def foreign : FileTree :=
  .ofList [("Nav.txt", .text (Json.obj []).compact),
    ("Saldo.txt", .text (Json.arr leftovers).compact)]

/-- A click at a place that is not a number. -/
def nowhere : Command := .click ⟨.nan, .nan⟩ none

theorem holds_foreign : Holds foreign "Saldo.txt" leftovers := by
  have htextual : Textual 2 (.arr leftovers) :=
    .arr (List.forall_mem_cons.2 ⟨.num ⟨by decide, by decide⟩,
      List.forall_mem_singleton.2 (.arr (List.forall_mem_singleton.2 .null))⟩)
  have hread : foreign.readText "Saldo.txt" = .ok (Json.arr leftovers).compact := by
    decide +kernel
  exact .array hread (parse_compact (htextual.mono (by decide)))

theorem not_holds_foreign (items : List Json) : ¬ Holds foreign "Nav.txt" items := by
  intro h
  have hread : foreign.readText "Nav.txt" = .ok (Json.obj []).compact := by decide +kernel
  have hobject : Json.parse? (Json.obj []).compact = some (.obj []) :=
    parse_compact (.obj (fun m hm => absurd hm List.not_mem_nil) .nil)
  cases h with
  | missing h =>
    rw [hread] at h
    cases h
  | blank h hblank =>
    rw [hread] at h
    cases h
    exact absurd hblank (by decide +kernel)
  | array h hlist =>
    rw [hread] at h
    cases h
    rw [hobject] at hlist
    cases hlist

theorem foreign_preserved :
    ProperCommand nowhere ∧ Holds foreign "Saldo.txt" leftovers ∧
      (∃ t, [nowhere, nowhere].foldlM (fun t c => t.appendCommand c "Saldo.txt") foreign = .ok t ∧
        Holds t "Saldo.txt" (leftovers ++ [nowhere.toJson, nowhere.toJson])) ∧
      (∀ items, ¬ Holds foreign "Nav.txt" items) ∧
      ∃ f, appending "Nav.txt" nowhere foreign = (.error f, foreign) := by
  have hnowhere : ProperCommand nowhere := ⟨⟨trivial, trivial⟩, fun c hc => by cases hc⟩
  obtain ⟨t, happend⟩ : ∃ t,
      [nowhere, nowhere].foldlM (fun t c => t.appendCommand c "Saldo.txt") foreign = .ok t :=
    exists_of_isOk (by decide +kernel)
  refine ⟨hnowhere, holds_foreign, ⟨t, happend, ?_⟩, not_holds_foreign, ?_⟩
  · exact (appends_preserve "Saldo.txt").2.2.1 foreign t leftovers [nowhere, nowhere]
      (by simpa using hnowhere) holds_foreign happend
  · exact (appends_preserve "Nav.txt").2.2.2.1 foreign nowhere not_holds_foreign

end Playback.Proofs.Additions
