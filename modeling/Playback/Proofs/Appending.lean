import Playback.Mapping
import Playback.Proofs.Entries
import Playback.Proofs.JsonText
/-!
# Appending to a command file

An entry that was appended to a command file is found again behind the entries that were there. It
decodes to the command that was appended, unless that was a read: the name of the attribute loses a
point and the blanks around it once more, and where nothing is left of it the file cannot be loaded.
-/

namespace Playback.Proofs.Appending

open Codec Entries JsonValues JsonText

/-! ## Entries that are read back -/

/-- The entry without its fields that are null. -/
def withoutNulls (r : RawCommand) : RawCommand :=
  ⟨r.action, r.position.bind Json.nonNull?, r.value.bind Json.nonNull?,
    r.condition.bind Json.nonNull?⟩

theorem ofJson_toJson (r : RawCommand) : RawCommand.ofJson? r.toJson = some (withoutNulls r) := by
  obtain ⟨action, position, value, condition⟩ := r
  rw [toJson_eq]
  unfold RawCommand.ofJson? Json.fields? Json.record
  simp only [List.map_cons, List.map_nil, member_record]
  cases position <;> cases value <;> cases condition <;> rfl

theorem bind_nonNull (field : Option Json) :
    (field.bind Json.nonNull?).bind Json.nonNull? = field.bind Json.nonNull? := by
  cases field with
  | none => rfl
  | some v =>
    by_cases hnull : v.isNull = true
    · simp [Json.nonNull?, hnull]
    · simp [Json.nonNull?, hnull]

theorem parseCondition_nonNull (field : Option Json) :
    RawCommand.parseCondition (field.bind Json.nonNull?) = RawCommand.parseCondition field := by
  cases field with
  | none => rfl
  | some v =>
    cases v with
    | null => rfl
    | _ => rfl

theorem decode_withoutNulls (r : RawCommand) : (withoutNulls r).decode = r.decode := by
  have hrequired : ∀ (field : Option Json) (action name : String),
      RawCommand.required (field.bind Json.nonNull?) action name =
        RawCommand.required field action name := by
    intro field action name
    rw [RawCommand.required, RawCommand.required, bind_nonNull]
  have hparams : ∀ (field : Option Json) (action : String),
      RawCommand.parseParams (field.bind Json.nonNull?) action =
        RawCommand.parseParams field action := by
    intro field action
    rw [RawCommand.parseParams, RawCommand.parseParams, bind_nonNull]
  simp only [RawCommand.decode, withoutNulls, RawCommand.parsed, hrequired, hparams,
    parseCondition_nonNull]

/-! ## Files that are read back -/

def placed (t : FileTree) (k : String) (file : FileEntry) : FileTree :=
  { t with entries := t.entries.insert k file }

section Files

variable {t : FileTree} {k : String} {file : FileEntry}

theorem get_placed {names : List String} (h : ¬ names <+: t.home) :
    FileTree.entry? (placed t k file) names = (t.entries.insert k file).get? (FileTree.key names) :=
  FileTree.entry_of_not_prefix h

theorem entry_placed (hk : t.entries.get? k ≠ some .folder) {names : List String}
    (h : t.entry? names = some .folder) :
    FileTree.entry? (placed t k file) names = some .folder := by
  by_cases hbelow : names <+: t.home
  · exact FileTree.folder_of_prefix hbelow
  · rw [FileTree.entry_of_not_prefix hbelow] at h
    have hne : FileTree.key names ≠ k := by
      rintro rfl
      exact hk h
    rw [get_placed hbelow, Names.get?_insert_of_ne _ hne, h]

/-- A walk goes through folders only, so that a file put in place of what is no folder does not turn
it aside. -/
theorem walk_placed (hk : t.entries.get? k ≠ some .folder) {here rest names : List String}
    (h : t.walk here rest = .ok names) : (placed t k file).walk here rest = .ok names := by
  induction rest generalizing here with
  | nil => exact h
  | cons name rest ih =>
    unfold FileTree.walk at h ⊢
    split at h
    · cases h
    · rename_i hgood
      rw [if_neg hgood]
      split at h
      · rename_i hup
        rw [if_pos hup]
        exact ih h
      · rename_i hdown
        rw [if_neg hdown]
        cases rest with
        | nil => exact h
        | cons next rest =>
          dsimp only at h ⊢
          cases hentry : t.entry? (here ++ [name]) with
          | none =>
            rw [hentry] at h
            cases h
          | some entry =>
            cases entry with
            | folder =>
              rw [hentry] at h
              rw [entry_placed hk hentry]
              exact ih h
            | text content =>
              rw [hentry] at h
              cases h
            | binary =>
              rw [hentry] at h
              cases h

theorem locate_placed (hk : t.entries.get? k ≠ some .folder) {path : String} {names : List String}
    (h : t.locate path = .ok names) : (placed t k file).locate path = .ok names := by
  unfold FileTree.locate at h ⊢
  split at h
  · cases h
  · rename_i hempty
    rw [if_neg hempty]
    split at h
    · cases h
    · rename_i hnul
      rw [if_neg hnul]
      exact walk_placed hk h

end Files

theorem writeFile_eq_ok {t t' : FileTree} {path : String} {file : FileEntry}
    (h : t.writeFile path file = .ok t') :
    ∃ names, t.locate path = .ok names ∧ t.entry? names ≠ some .folder ∧
      Path.namesFolder path = false ∧ t' = placed t (FileTree.key names) file := by
  obtain ⟨names, hnames, h⟩ := bind_eq_ok.1 h
  refine ⟨names, hnames, ?_⟩
  split at h
  · cases h
  · rename_i hentry
    split at h
    · cases h
    · rename_i hfile
      cases h
      exact ⟨hentry, by simpa using hfile, rfl⟩

theorem readText_eq_ok {t : FileTree} {path content : String} :
    t.readText path = .ok content ↔ ∃ names, t.locate path = .ok names ∧
      t.entry? names = some (.text content) ∧ Path.namesFolder path = false := by
  constructor
  · intro h
    obtain ⟨file, hfile, h⟩ := bind_eq_ok.1 h
    obtain ⟨names, hnames, hfile⟩ := bind_eq_ok.1 hfile
    refine ⟨names, hnames, ?_⟩
    split at hfile
    · cases hfile
      cases h
    · rename_i there hthere
      split at hfile
      · cases hfile
      · rename_i hname
        cases hfile
        cases file with
        | text found =>
          cases h
          exact ⟨hthere, by simpa using hname⟩
        | folder => cases h
        | binary => cases h
    · cases hfile
  · rintro ⟨names, hnames, hthere, hname⟩
    simp only [FileTree.readText, FileTree.find, hnames, ok_bind, hthere, hname]
    rfl

theorem readText_writeFile {t t' : FileTree} {path content : String}
    (h : t.writeFile path (.text content) = .ok t') : t'.readText path = .ok content := by
  obtain ⟨names, hnames, hentry, hfile, rfl⟩ := writeFile_eq_ok h
  -- the folders down to the working directory are always there, so that it is none of them
  have hbelow : ¬ names <+: t.home := fun h => hentry (FileTree.folder_of_prefix h)
  rw [FileTree.entry_of_not_prefix hbelow] at hentry
  refine readText_eq_ok.2 ⟨names, locate_placed hentry hnames, ?_, hfile⟩
  rw [get_placed hbelow]
  exact Names.get?_insert_self _ _ _

theorem readText_putFile {t t' : FileTree} {path content : String}
    (h : t.putFile path (.text content) = .ok t') : t'.readText path = .ok content := by
  unfold FileTree.putFile at h
  dsimp only at h
  split at h
  · split at h
    · exact readText_writeFile h
    · obtain ⟨folders, -, h⟩ := bind_eq_ok.1 h
      exact readText_writeFile h
  · exact readText_writeFile h

/-! ## Entries of a file -/

theorem blank_pretty (items : List Json) (level : Nat) :
    Text.blank ((Json.arr items).pretty level) = false := by
  have hbracket : Text.isBlank '[' = false := by decide
  rw [Text.blank, toList_pretty]
  cases items with
  | nil => simp [spell, hbracket]
  | cons v rest => simp [spell, hbracket]

theorem array_of_commandEntries {t : FileTree} {path : String} {items : List Json}
    (h : t.commandEntries path = .ok (some items)) :
    ∃ content, t.readText path = .ok content ∧ Json.parse? content = some (.arr items) := by
  unfold FileTree.commandEntries at h
  split at h
  · cases h
  · cases h
  · rename_i content hread
    refine ⟨content, hread, ?_⟩
    split at h
    · cases h
    · split at h
      · rename_i found hfound
        cases h
        obtain ⟨v, hv, hitems⟩ := Option.bind_eq_some_iff.1 hfound
        cases v with
        | arr found =>
          cases hitems
          exact hv
        | _ => cases hitems
      · cases h

theorem textual_of_commandEntries {t : FileTree} {path : String} {items : List Json}
    (h : t.commandEntries path = .ok (some items)) :
    Textual Json.Reader.maxDepth (.arr items) := by
  obtain ⟨content, -, hlist⟩ := array_of_commandEntries h
  exact textual_of_parse hlist

theorem commandEntries_of_written {t : FileTree} {path : String} {items : List Json}
    (hitems : Textual Json.Reader.maxDepth (.arr items))
    (h : t.readText path = .ok ((Json.arr items).pretty 0)) :
    t.commandEntries path = .ok (some items) := by
  simp only [FileTree.commandEntries, h, blank_pretty, parse_pretty hitems 0]
  rfl

theorem decodeEntries_append (path : String) (items rest : List Json) (i : Nat) :
    decodeEntries path i (items ++ rest) = (do
      let cs ← decodeEntries path i items
      let ds ← decodeEntries path (i + items.length) rest
      .ok (cs ++ ds)) := by
  induction items generalizing i with
  | nil =>
    show decodeEntries path i rest = decodeEntries path i rest >>= fun ds => .ok ([] ++ ds)
    cases decodeEntries path i rest with
    | error fault => rfl
    | ok ds => rfl
  | cons v items ih =>
    have hlength : i + (v :: items).length = i + 1 + items.length := by
      rw [List.length_cons]
      omega
    rw [List.cons_append, decodeEntries, decodeEntries, hlength]
    cases RawCommand.ofJson? v with
    | none => rfl
    | some raw =>
      dsimp only
      cases raw.decode with
      | error fault => rfl
      | ok c =>
        rw [ok_bind, ok_bind, ih]
        cases decodeEntries path (i + 1) items with
        | error fault => rfl
        | ok cs =>
          rw [ok_bind, ok_bind, ok_bind]
          cases decodeEntries path (i + 1 + items.length) rest with
          | error fault => rfl
          | ok ds => rfl

/-! ## Loading what was appended -/

/-- What a command is loaded as after it was appended. The name of a read is taken for a text to be
read, with a point in front and blanks around it. -/
def reloaded : Command → Except Fault Command
  | .read area name =>
    if (stripReference name).isEmpty then .error (.invalidCommand "read: blank attribute name")
    else .ok (.read area (stripReference name))
  | c => .ok c

theorem decode_encode_eq {c : Command} (h : SoundCommand c) : c.encode.decode = reloaded c := by
  cases c with
  | read area name => exact decode_encode_read name h.1
  | _ => exact decode_encode_of_sound h fun _ _ hc => by cases hc

theorem reloaded_eq_iff {c : Command} (h : SoundCommand c) :
    reloaded c = .ok c ↔ ∀ area name, c = .read area name → stripReference name = name := by
  rw [← decode_encode_eq h]
  constructor
  · intro hsame area name hc
    subst hc
    rw [decode_encode_read name h.1] at hsame
    split at hsame
    · cases hsame
    · exact (Command.read.inj (Except.ok.inj hsame)).2
  · exact decode_encode_of_sound h

theorem commandEntries_appendCommand {t t' : FileTree} {path : String} {c : Command}
    (hc : ProperCommand c) (h : t.appendCommand c path = .ok t') :
    ∃ items, t.commandEntries path = .ok items ∧
      t'.commandEntries path = .ok (some (items.getD [] ++ [c.toJson])) := by
  unfold FileTree.appendCommand at h
  obtain ⟨items, hitems, h⟩ := bind_eq_ok.1 h
  refine ⟨items, hitems, ?_⟩
  dsimp only at h
  split at h
  · rename_i u hput
    cases h
    apply commandEntries_of_written _ (readText_putFile hput)
    refine .arr fun v hv => ?_
    obtain hv | hv := List.mem_append.1 hv
    · cases items with
      | none => cases hv
      | some there =>
        have hthere := textual_of_commandEntries hitems
        cases hthere with
        | arr hall => exact hall v hv
    · rw [List.mem_singleton.1 hv]
      exact (textual_encode hc).mono (by decide)
  · cases h

theorem loadCommands_appendCommand {t t' : FileTree} {path : String} {cs : List Command}
    {c : Command} (hc : SoundCommand c) (hload : t.loadCommands path = .ok cs)
    (happend : t.appendCommand c path = .ok t') :
    t'.loadCommands path = (reloaded c).map fun again => cs ++ [again] := by
  obtain ⟨items, hitems, hentries⟩ := commandEntries_appendCommand (proper_command hc) happend
  have hcs : decodeEntries path 0 (items.getD []) = .ok cs := by
    rw [FileTree.loadCommands, hitems, ok_bind] at hload
    cases items with
    | none => exact hload
    | some there => exact hload
  rw [FileTree.loadCommands, hentries, ok_bind]
  dsimp only
  rw [decodeEntries_append, hcs, ok_bind, decodeEntries]
  have hlast : RawCommand.ofJson? c.toJson = some (withoutNulls c.encode) := ofJson_toJson c.encode
  rw [hlast]
  dsimp only
  rw [decode_withoutNulls, decode_encode_eq hc]
  cases reloaded c with
  | error fault => rfl
  | ok again => rfl

/-- The commands that were there are loaded again, and the appended one behind them exactly if it is
not a read whose name has a point or a blank in front. -/
theorem reload_appended {t t' : FileTree} {path : String} {cs : List Command} {r : RawCommand}
    {c : Command} (hr : SoundEntry r) (hc : r.decode = .ok c) (hload : t.loadCommands path = .ok cs)
    (happend : t.appendCommand c path = .ok t') :
    t'.loadCommands path = (reloaded c).map (fun again => cs ++ [again]) ∧
      (t'.loadCommands path = .ok (cs ++ [c]) ↔
        ∀ area name, c = .read area name → stripReference name = name) := by
  have hsound := sound_of_decode hr hc
  have hall := loadCommands_appendCommand hsound hload happend
  refine ⟨hall, ?_⟩
  rw [hall, ← reloaded_eq_iff hsound]
  constructor
  · intro h
    cases hagain : reloaded c with
    | error fault =>
      rw [hagain] at h
      cases h
    | ok again =>
      rw [hagain] at h
      have hlast : cs ++ [again] = cs ++ [c] := Except.ok.inj h
      rw [(List.cons.inj (List.append_cancel_left hlast)).1]
  · intro h
    rw [h]
    rfl

theorem exists_of_isOk {ε α : Type} {x : Except ε α} (h : x.isOk = true) : ∃ a, x = .ok a := by
  cases x with
  | error e => cases h
  | ok a => exact ⟨a, rfl⟩

def oneClick : FileTree :=
  .ofList [("Saldo.txt",
    .text "[\x7b\"action\": \"click\", \"position\": [0, 0.25]\x7d]")]

theorem oneClick_loads : oneClick.loadCommands "Saldo.txt" = .ok [.click spot none] := by
  decide +kernel

def readAs (name : String) : RawCommand := ⟨"read", some patchJson, some (.str name), none⟩

theorem sound_readAs (name : String) : SoundEntry (readAs name) := by
  refine ⟨fun v hv => ?_, fun v hv => ?_, fun v hv => ?_⟩
  · cases hv
    exact sound_patchJson.2
  · cases hv
    exact .str name
  · cases hv

/-- Of two points before a name one is left when the entry is decoded, none when it is loaded. -/
theorem renamed_when_loaded :
    ∃ t, oneClick.appendCommand (.read ⟨spot, spot⟩ ".Saldo") "Saldo.txt" = .ok t ∧
      t.loadCommands "Saldo.txt" = .ok [.click spot none, .read ⟨spot, spot⟩ "Saldo"] := by
  have hdecode : (readAs "..Saldo").decode = .ok (.read ⟨spot, spot⟩ ".Saldo") := by decide +kernel
  obtain ⟨t, happend⟩ : ∃ t,
      oneClick.appendCommand (.read ⟨spot, spot⟩ ".Saldo") "Saldo.txt" = .ok t :=
    exists_of_isOk (by decide +kernel)
  refine ⟨t, happend, ?_⟩
  rw [(reload_appended (sound_readAs "..Saldo") hdecode oneClick_loads happend).1]
  decide +kernel

/-- A name of which nothing is left spoils the whole file: neither the appended read nor the click
that was there can be loaded any more. -/
theorem unloadable_when_appended :
    (readAs "..").decode = .ok (.read ⟨spot, spot⟩ ".") ∧
      oneClick.loadCommands "Saldo.txt" = .ok [.click spot none] ∧
      ∃ t, oneClick.appendCommand (.read ⟨spot, spot⟩ ".") "Saldo.txt" = .ok t ∧
        t.loadCommands "Saldo.txt" = .error (.invalidCommand "read: blank attribute name") ∧
        t.loadCommands "Saldo.txt" ≠ .ok [.click spot none, .read ⟨spot, spot⟩ "."] := by
  have hdecode : (readAs "..").decode = .ok (.read ⟨spot, spot⟩ ".") := by decide +kernel
  obtain ⟨t, happend⟩ : ∃ t, oneClick.appendCommand (.read ⟨spot, spot⟩ ".") "Saldo.txt" = .ok t :=
    exists_of_isOk (by decide +kernel)
  have hsound := sound_of_decode (sound_readAs "..") hdecode
  have hspoiled : t.loadCommands "Saldo.txt" =
      .error (.invalidCommand "read: blank attribute name") := by
    rw [loadCommands_appendCommand hsound oneClick_loads happend]
    decide +kernel
  refine ⟨hdecode, oneClick_loads, t, happend, hspoiled, ?_⟩
  rw [hspoiled]
  exact fun h => by cases h

end Playback.Proofs.Appending
