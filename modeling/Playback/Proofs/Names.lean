import Mathlib.Data.List.DropRight
import Mathlib.Data.List.Induction
import Mathlib.Data.List.Pairwise
import Playback.Dict
import Playback.Text.Blank
import Playback.Text.Case
/-!
# Names

Blanks around a name and the case of its letters do not depend on each other, and a name finds in a
dictionary what stands under it.
-/

namespace Playback.Proofs.Names

/-! ## Blanks around a text -/

theorem trimChars_eq (cs : List Char) :
    Text.trimChars cs = (cs.dropWhile Text.isBlank).rdropWhile Text.isBlank := rfl

theorem dropWhile_rdropWhile_dropWhile {α : Type} (p : α → Bool) (l : List α) :
    ((l.dropWhile p).rdropWhile p).dropWhile p = (l.dropWhile p).rdropWhile p := by
  rw [List.dropWhile_eq_self_iff]
  intro hpos
  have hne : 0 < (l.dropWhile p).length := by
    have hle := (List.rdropWhile_prefix p (l.dropWhile p)).length_le
    omega
  have hsame : ((l.dropWhile p).rdropWhile p)[0] = (l.dropWhile p)[0] :=
    (List.rdropWhile_prefix p (l.dropWhile p)).getElem hpos
  rw [hsame]
  exact List.dropWhile_eq_self_iff.1 (List.dropWhile_idempotent p l) hne

@[simp] theorem trimChars_trimChars (cs : List Char) :
    Text.trimChars (Text.trimChars cs) = Text.trimChars cs := by
  rw [trimChars_eq (Text.trimChars cs), trimChars_eq cs, dropWhile_rdropWhile_dropWhile,
    List.rdropWhile_idempotent]

@[simp] theorem trim_trim (s : String) : Text.trim (Text.trim s) = Text.trim s := by
  simp [Text.trim]

theorem trimChars_sublist (cs : List Char) : (Text.trimChars cs).Sublist cs := by
  rw [trimChars_eq]
  exact (List.rdropWhile_prefix _ _).sublist.trans (List.dropWhile_sublist _)

theorem mem_dropWhile {α : Type} {p : α → Bool} {l : List α} {x : α} (h : x ∈ l)
    (hx : p x = false) : x ∈ l.dropWhile p := by
  induction l with
  | nil => cases h
  | cons y rest ih =>
    by_cases hy : p y = true
    · rw [List.dropWhile_cons_of_pos hy]
      apply ih
      apply List.mem_of_ne_of_mem _ h
      rintro rfl
      rw [hx] at hy
      cases hy
    · rw [List.dropWhile_cons_of_neg hy]
      exact h

theorem mem_trimChars {cs : List Char} {c : Char} (h : c ∈ cs) (hc : Text.isBlank c = false) :
    c ∈ Text.trimChars cs := by
  rw [Text.trimChars, List.mem_reverse]
  apply mem_dropWhile _ hc
  rw [List.mem_reverse]
  exact mem_dropWhile h hc

theorem blank_eq_false_iff {s : String} :
    Text.blank s = false ↔ ∃ c ∈ s.toList, Text.isBlank c = false := by
  rw [Text.blank, List.all_eq_false]
  simp

theorem blank_trim (s : String) : Text.blank (Text.trim s) = Text.blank s := by
  rw [Bool.eq_iff_iff, ← not_iff_not, Bool.not_eq_true, Bool.not_eq_true, blank_eq_false_iff,
    blank_eq_false_iff, Text.trim, String.toList_ofList]
  constructor
  · rintro ⟨c, hc, hblank⟩
    exact ⟨c, (trimChars_sublist _).subset hc, hblank⟩
  · rintro ⟨c, hc, hblank⟩
    exact ⟨c, mem_trimChars hc hblank, hblank⟩

theorem isEmpty_trim (s : String) : (Text.trim s).isEmpty = Text.blank s := by
  cases hblank : Text.blank s with
  | true =>
    have hall : ∀ c ∈ s.toList, Text.isBlank c = true := by
      unfold Text.blank at hblank
      exact List.all_eq_true.1 hblank
    have hnone : s.toList.dropWhile Text.isBlank = [] := List.dropWhile_eq_nil_iff.2 hall
    rw [Text.trim, Text.trimChars, hnone]
    rfl
  | false =>
    obtain ⟨c, hc, hletter⟩ := blank_eq_false_iff.1 hblank
    rw [String.isEmpty_eq_false_iff, Text.trim]
    intro hempty
    have hmem := mem_trimChars hc hletter
    rw [String.ofList_eq_empty_iff.1 hempty] at hmem
    cases hmem

/-! ## Letter case -/

theorem isBlank_toLower (c : Char) : Text.isBlank c.toLower = Text.isBlank c := by
  unfold Char.toLower
  split
  · rename_i hupper
    have hlow : 65 ≤ c.toNat := UInt32.le_iff_toNat_le.1 hupper.1
    have hhigh : c.toNat ≤ 90 := UInt32.le_iff_toNat_le.1 hupper.2
    -- both forms of a letter lie in a range without blanks
    have hsmall : ∀ n, 65 ≤ n → n ≤ 122 → ∀ d : Char, d.toNat = n → Text.isBlank d = false := by
      intro n h65 h122 d hd
      simp only [Text.isBlank, hd]
      simp
      omega
    have hcode : (c.val + ('a'.val - 'A'.val)).toNat = c.toNat + 32 := by
      show (c.val + 32).toNat = c.val.toNat + 32
      rw [UInt32.toNat_add]
      exact Nat.mod_eq_of_lt (by show c.toNat + 32 < _; omega)
    rw [hsmall c.toNat hlow (by omega) c rfl]
    exact hsmall (c.toNat + 32) (by omega) (by omega) _ hcode
  · rfl

theorem trimChars_map_toLower (cs : List Char) :
    Text.trimChars (cs.map Char.toLower) = (Text.trimChars cs).map Char.toLower := by
  have hblank : Text.isBlank ∘ Char.toLower = Text.isBlank := funext isBlank_toLower
  simp only [Text.trimChars, List.dropWhile_map, ← List.map_reverse, hblank]

theorem trim_foldAscii (s : String) :
    Text.trim (Text.foldAscii s) = Text.foldAscii (Text.trim s) := by
  simp [Text.trim, Text.foldAscii, trimChars_map_toLower]

theorem length_of_sameName {a b : String} (h : Text.sameName a b) :
    a.toList.length = b.toList.length := by
  have hfold := congrArg String.toList (Text.sameName_iff.1 h)
  simpa [Text.foldAscii] using congrArg List.length hfold

theorem isEmpty_of_sameName {a b : String} (h : Text.sameName a b) (hb : b.isEmpty = false) :
    a.isEmpty = false := by
  have hlength := length_of_sameName h
  rw [String.isEmpty_eq_false_iff] at hb ⊢
  intro ha
  subst ha
  apply hb
  exact String.toList_eq_nil_iff.1 (List.length_eq_zero_iff.1 hlength.symm)

theorem trim_of_sameName {a b : String} (h : Text.sameName a b) (hb : Text.trim b = b) :
    Text.trim a = a := by
  have hfold : Text.foldAscii (Text.trim a) = Text.foldAscii a := by
    rw [← trim_foldAscii, Text.sameName_iff.1 h, trim_foldAscii, hb]
  have hlength := length_of_sameName (Text.sameName_iff.2 hfold)
  -- a sublist that is no shorter is the whole list
  have hsame : Text.trimChars a.toList = a.toList :=
    (trimChars_sublist a.toList).eq_of_length (by simpa [Text.trim] using hlength)
  rw [Text.trim, hsame, String.ofList_toList]

theorem sameName_symm {a b : String} (h : Text.sameName a b) : Text.sameName b a :=
  Text.sameName_iff.2 (Text.sameName_iff.1 h).symm

theorem sameName_trans {a b c : String} (hab : Text.sameName a b) (hbc : Text.sameName b c) :
    Text.sameName a c :=
  Text.sameName_iff.2 ((Text.sameName_iff.1 hab).trans (Text.sameName_iff.1 hbc))

/-! ## Dictionaries -/

variable {α : Type}

theorem eq_of_mem_entries {d : Dict α} {name : String} {v w : α} (hv : (name, v) ∈ d.entries)
    (hw : (name, w) ∈ d.entries) : v = w := by
  have hnames : d.entries.Pairwise fun a b => a.1 ≠ b.1 := by
    apply d.sorted.imp
    intro a b hlt heq
    rw [heq] at hlt
    exact String.lt_irrefl _ hlt
  have : Std.Symm fun a b : String × α => a.1 ≠ b.1 := ⟨fun _ _ h => h.symm⟩
  by_contra hne
  have hpair : (name, v) ≠ (name, w) := fun h => hne (Prod.mk.inj h).2
  exact hnames.forall hv hw hpair rfl

theorem get?_eq_some_iff {d : Dict α} {name : String} {v : α} :
    d.get? name = some v ↔ (name, v) ∈ d.entries := by
  unfold Dict.get?
  constructor
  · intro h
    obtain ⟨entry, hfind, rfl⟩ := Option.map_eq_some_iff.1 h
    have hname : entry.1 = name := by simpa using List.find?_some hfind
    rw [← hname]
    exact List.mem_of_find?_eq_some hfind
  · intro h
    have hsome : (d.entries.find? fun e => e.1 == name).isSome := by
      rw [List.find?_isSome]
      exact ⟨(name, v), h, by simp⟩
    obtain ⟨entry, hfind⟩ := Option.isSome_iff_exists.1 hsome
    have hname : entry.1 = name := by simpa using List.find?_some hfind
    have hmem : (name, entry.2) ∈ d.entries := by
      rw [← hname]
      exact List.mem_of_find?_eq_some hfind
    rw [hfind, Option.map_some, eq_of_mem_entries hmem h]

theorem mem_keys_iff {d : Dict α} {name : String} : name ∈ d.keys ↔ ∃ v, d.get? name = some v := by
  constructor
  · intro h
    obtain ⟨entry, hentry, rfl⟩ := List.mem_map.1 h
    exact ⟨entry.2, get?_eq_some_iff.2 hentry⟩
  · rintro ⟨v, hv⟩
    exact List.mem_map.2 ⟨(name, v), get?_eq_some_iff.1 hv, rfl⟩

theorem sorted_keys (d : Dict α) : d.keys.Pairwise (· < ·) := by
  rw [Dict.keys, List.pairwise_map]
  exact d.sorted

theorem mem_insertEntry_iff {name : String} {v : α} {es : List (String × α)} {x : String × α}
    (h : es.Pairwise fun a b => a.1 < b.1) :
    x ∈ Dict.insertEntry name v es ↔ x = (name, v) ∨ (x ∈ es ∧ x.1 ≠ name) := by
  induction es with
  | nil => simp [Dict.insertEntry]
  | cons e rest ih =>
    obtain ⟨hhead, htail⟩ := List.pairwise_cons.1 h
    have hlater : ∀ y ∈ rest, y.1 ≠ e.1 := by
      intro y hy heq
      have hlt := hhead y hy
      rw [heq] at hlt
      exact String.lt_irrefl _ hlt
    unfold Dict.insertEntry
    split
    · rename_i hlt
      have hothers : ∀ y ∈ e :: rest, y.1 ≠ name := by
        intro y hy heq
        rcases List.mem_cons.1 hy with rfl | hy
        · rw [heq] at hlt
          exact String.lt_irrefl _ hlt
        · have hafter := String.lt_trans hlt (hhead y hy)
          rw [heq] at hafter
          exact String.lt_irrefl _ hafter
      rw [List.mem_cons]
      exact or_congr_right ⟨fun hx => ⟨hx, hothers x hx⟩, And.left⟩
    · split
      · rename_i heq
        subst heq
        rw [List.mem_cons, List.mem_cons]
        refine or_congr_right ⟨fun hx => ⟨.inr hx, hlater x hx⟩, ?_⟩
        rintro ⟨rfl | hx, hne⟩
        · exact absurd rfl hne
        · exact hx
      · rename_i hne
        rw [List.mem_cons, List.mem_cons, ih htail]
        constructor
        · rintro (rfl | rfl | ⟨hx, hname⟩)
          · exact .inr ⟨.inl rfl, fun heq => hne heq.symm⟩
          · exact .inl rfl
          · exact .inr ⟨.inr hx, hname⟩
        · rintro (rfl | ⟨rfl | hx, hname⟩)
          · exact .inr (.inl rfl)
          · exact .inl rfl
          · exact .inr (.inr ⟨hx, hname⟩)

theorem mem_keys_insert_iff {d : Dict α} {name key : String} {v : α} :
    key ∈ (d.insert name v).keys ↔ key = name ∨ key ∈ d.keys := by
  rw [Dict.keys, List.mem_map, Dict.keys, List.mem_map]
  constructor
  · rintro ⟨entry, hentry, rfl⟩
    obtain rfl | ⟨hold, -⟩ := (mem_insertEntry_iff d.sorted).1 hentry
    · exact .inl rfl
    · exact .inr ⟨entry, hold, rfl⟩
  · intro h
    by_cases hkey : key = name
    · exact ⟨(name, v), (mem_insertEntry_iff d.sorted).2 (.inl rfl), hkey.symm⟩
    · obtain ⟨entry, hold, rfl⟩ := h.resolve_left hkey
      exact ⟨entry, (mem_insertEntry_iff d.sorted).2 (.inr ⟨hold, hkey⟩), rfl⟩

theorem get?_insert_self (d : Dict α) (name : String) (v : α) :
    (d.insert name v).get? name = some v :=
  get?_eq_some_iff.2 ((mem_insertEntry_iff d.sorted).2 (.inl rfl))

theorem get?_insert_of_ne (d : Dict α) {name other : String} (hne : other ≠ name) (v : α) :
    (d.insert name v).get? other = d.get? other := by
  apply Option.ext
  intro w
  rw [get?_eq_some_iff, get?_eq_some_iff]
  constructor
  · intro h
    obtain heq | ⟨hold, -⟩ := (mem_insertEntry_iff d.sorted).1 h
    · exact absurd (Prod.mk.inj heq).1 hne
    · exact hold
  · intro h
    exact (mem_insertEntry_iff d.sorted).2 (.inr ⟨h, hne⟩)

theorem ofList_append_singleton (es : List (String × α)) (e : String × α) :
    Dict.ofList (es ++ [e]) = (Dict.ofList es).insert e.1 e.2 := by
  simp [Dict.ofList, List.foldl_append]

theorem mem_of_mem_ofList {es : List (String × α)} {x : String × α}
    (h : x ∈ (Dict.ofList es).entries) : x ∈ es := by
  induction es using List.reverseRecOn with
  | nil => exact absurd h List.not_mem_nil
  | append_singleton es e ih =>
    rw [ofList_append_singleton] at h
    obtain rfl | hold := Dict.mem_insertEntry h
    · exact List.mem_append_right es List.mem_cons_self
    · exact List.mem_append_left [e] (ih hold)

/-- Where the entries of a name agree on its value, nothing gets lost. -/
theorem get?_ofList_iff {es : List (String × α)} {name : String} {v : α}
    (h : ∀ x ∈ es, ∀ y ∈ es, x.1 = y.1 → x.2 = y.2) :
    (Dict.ofList es).get? name = some v ↔ (name, v) ∈ es := by
  refine ⟨fun hget => mem_of_mem_ofList (get?_eq_some_iff.1 hget), fun hmem => ?_⟩
  induction es using List.reverseRecOn with
  | nil => exact absurd hmem List.not_mem_nil
  | append_singleton es e ih =>
    have hlast : e ∈ es ++ [e] := List.mem_append_right es List.mem_cons_self
    rw [ofList_append_singleton]
    by_cases hname : name = e.1
    · rw [hname, get?_insert_self, h e hlast (name, v) hmem hname.symm]
    · have hold : (name, v) ∈ es := by
        rcases List.mem_append.1 hmem with hold | hnew
        · exact hold
        · rw [List.mem_singleton] at hnew
          exact absurd (congrArg Prod.fst hnew) hname
      rw [get?_insert_of_ne _ hname]
      exact ih (fun x hx y hy => h x (List.mem_append_left _ hx) y (List.mem_append_left _ hy)) hold

theorem insertEntry_of_last {name : String} {v : α} {es : List (String × α)}
    (h : ∀ e ∈ es, e.1 < name) : Dict.insertEntry name v es = es ++ [(name, v)] := by
  induction es with
  | nil => rfl
  | cons e rest ih =>
    have hlt := h e List.mem_cons_self
    have hne : name ≠ e.1 := by
      rintro rfl
      exact String.lt_irrefl _ hlt
    rw [Dict.insertEntry, if_neg (String.lt_asymm hlt), if_neg hne,
      ih fun d hd => h d (List.mem_cons_of_mem e hd), List.cons_append]

/-- An entry of another name can be taken out again. -/
theorem filter_insertEntry {name : String} {v : α} {es : List (String × α)}
    (h : ∀ e ∈ es, e.1 ≠ name) :
    (Dict.insertEntry name v es).filter (fun e => e.1 != name) = es := by
  have hrest : es.filter (fun e => e.1 != name) = es :=
    List.filter_eq_self.2 fun e he => by simpa using h e he
  induction es with
  | nil => simp [Dict.insertEntry]
  | cons e rest ih =>
    obtain ⟨he, hothers⟩ := List.forall_mem_cons.1 h
    have htail : rest.filter (fun e => e.1 != name) = rest :=
      List.filter_eq_self.2 fun e he => by simpa using hothers e he
    rw [Dict.insertEntry]
    by_cases hlt : name < e.1
    · rw [if_pos hlt, List.filter_cons_of_neg (by simp), hrest]
    · rw [if_neg hlt, if_neg he.symm, List.filter_cons_of_pos (by simpa using he), ih hothers htail]

theorem entries_ofList {es : List (String × α)} (h : es.Pairwise fun a b => a.1 < b.1) :
    (Dict.ofList es).entries = es := by
  induction es using List.reverseRecOn with
  | nil => rfl
  | append_singleton es e ih =>
    obtain ⟨hes, -, hlast⟩ := List.pairwise_append.1 h
    rw [ofList_append_singleton]
    show Dict.insertEntry e.1 e.2 (Dict.ofList es).entries = es ++ [e]
    rw [ih hes, insertEntry_of_last fun d hd => hlast d hd e List.mem_cons_self]

theorem ofList_entries (d : Dict α) : Dict.ofList d.entries = d :=
  Dict.ext (entries_ofList d.sorted)

end Playback.Proofs.Names
