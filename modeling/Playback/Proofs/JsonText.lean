import Playback.Proofs.Decimals
import Playback.Proofs.JsonValues
/-!
# JSON text

What is written reads back, on one line as well as over several lines; and what a text spells is a
value that can be written.
-/

namespace Playback.Proofs.JsonText

open Decimals JsonValues Json Json.Reader

/-! ## Strings -/

theorem stringBody_mark {mark c : Char} (hmark : escaped? mark = some c) (acc rest : List Char) :
    stringBody acc ('\\' :: mark :: rest) = stringBody (c :: acc) rest := by
  have hu : mark ≠ 'u' := by
    rintro rfl
    cases hmark
  rw [stringBody, hmark]
  exact fun _ _ _ _ _ heq _ => hu heq

theorem unit_hexChars : ∀ n < 32, unit? '0' '0' (hexChar (n / 16)) (hexChar (n % 16)) = some n := by
  decide

theorem stringBody_plain {c : Char} (hquote : c ≠ '"') (hslash : c ≠ '\\') (hlow : 32 ≤ c.toNat)
    (acc rest : List Char) : stringBody acc (c :: rest) = stringBody (c :: acc) rest := by
  have hplain : (c == '\\' || decide (c.toNat < 32)) = false := by simp [hslash, hlow]
  rw [stringBody]
  · rw [hplain, if_neg Bool.false_ne_true]
  · exact hquote
  · exact fun _ _ _ _ _ heq _ => hslash heq
  · exact fun _ _ heq _ => hslash heq

theorem stringBody_escapeChar (acc : List Char) (c : Char) (rest : List Char) :
    stringBody acc (escapeChar c ++ rest) = stringBody (c :: acc) rest := by
  unfold escapeChar
  split
  · rename_i hc
    rw [eq_of_beq hc]
    exact stringBody_mark rfl _ _
  split
  · rename_i hc
    rw [eq_of_beq hc]
    exact stringBody_mark rfl _ _
  split
  · rename_i hc
    rw [eq_of_beq hc]
    exact stringBody_mark rfl _ _
  split
  · rename_i hc
    rw [eq_of_beq hc]
    exact stringBody_mark rfl _ _
  split
  · rename_i hc
    rw [eq_of_beq hc]
    exact stringBody_mark rfl _ _
  split
  · rename_i hc
    rw [← Char.ofNat_toNat c, eq_of_beq hc]
    exact stringBody_mark rfl _ _
  split
  · rename_i hc
    rw [← Char.ofNat_toNat c, eq_of_beq hc]
    exact stringBody_mark rfl _ _
  split
  · rename_i hlow
    have hunit := unit_hexChars c.toNat hlow
    have hhigh : isHighUnit c.toNat = false := by simp [isHighUnit]; omega
    have hlowUnit : isLowUnit c.toNat = false := by simp [isLowUnit]; omega
    simp [stringBody, hunit, hhigh, hlowUnit, Char.ofNat_toNat]
  · rename_i hquote hslash _ _ _ _ _ hlow
    exact stringBody_plain (by simpa using hquote) (by simpa using hslash) (by omega) acc rest

theorem stringBody_escaped (acc cs rest : List Char) :
    stringBody acc (cs.flatMap escapeChar ++ '"' :: rest) = some (acc.reverse ++ cs, rest) := by
  induction cs generalizing acc with
  | nil => simp [stringBody]
  | cons c cs ih =>
    rw [List.flatMap_cons, List.append_assoc, stringBody_escapeChar, ih, List.reverse_cons,
      List.append_assoc, List.singleton_append]

/-! ## Layouts -/

/-- The blanks of a layout: before an item or a closing bracket of a level, and behind a colon. -/
structure Layout where
  line : Nat → List Char
  space : List Char
  line_gap : ∀ n, ∀ c ∈ line n, isGap c = true
  space_gap : ∀ c ∈ space, isGap c = true

def tight : Layout := ⟨fun _ => [], [], by simp, by simp⟩

def indented : Layout where
  line n := '\n' :: List.replicate (2 * n) ' '
  space := [' ']
  line_gap n c hc := by
    obtain rfl | hc := List.mem_cons.1 hc
    · rfl
    · rw [List.eq_of_mem_replicate hc]
      rfl
  space_gap c hc := by
    rw [List.mem_singleton.1 hc]
    rfl

section Spelling

variable (l : Layout)

def spellString (s : String) : List Char := '"' :: (s.toList.flatMap escapeChar ++ ['"'])

mutual

/-- The text of a value in a layout, from the given level on. -/
def spell (level : Nat) : Json → List Char
  | .null => ['n', 'u', 'l', 'l']
  | .bool b => if b then ['t', 'r', 'u', 'e'] else ['f', 'a', 'l', 's', 'e']
  | .num n => n.text.toList
  | .str s => spellString s
  | .arr [] => ['[', ']']
  | .arr (v :: rest) =>
    '[' :: (l.line (level + 1) ++ (spellItems (level + 1) (v :: rest) ++ (l.line level ++ [']'])))
  | .obj [] => ['\x7b', '\x7d']
  | .obj (m :: rest) =>
    '\x7b' :: (l.line (level + 1) ++ (spellMembers (level + 1) (m :: rest) ++
      (l.line level ++ ['\x7d'])))

def spellItems (level : Nat) : List Json → List Char
  | [] => []
  | [v] => spell level v
  | v :: rest => spell level v ++ ',' :: (l.line level ++ spellItems level rest)

def spellMembers (level : Nat) : List (String × Json) → List Char
  | [] => []
  | [(name, v)] => spellString name ++ ':' :: (l.space ++ spell level v)
  | (name, v) :: rest =>
    spellString name ++ ':' :: (l.space ++ (spell level v ++
      ',' :: (l.line level ++ spellMembers level rest)))

end

end Spelling

theorem toList_quoted (s : String) : (quoted s).toList = spellString s := by
  simp [quoted, spellString]

mutual

theorem toList_compact (level : Nat) : ∀ v : Json, v.compact.toList = spell tight level v
  | .null => by simp [compact, spell]
  | .bool b => by cases b <;> simp [compact, spell]
  | .num n => by simp [compact, spell]
  | .str s => by simp [compact, spell, toList_quoted]
  | .arr [] => by simp [compact, compactItems, spell]
  | .arr (v :: rest) => by
    have ih := toList_compactItems (level + 1) (v :: rest)
    simp [compact, spell, tight, ih]
  | .obj [] => by simp [compact, compactMembers, spell]
  | .obj (m :: rest) => by
    have ih := toList_compactMembers (level + 1) (m :: rest)
    simp [compact, spell, tight, ih]

theorem toList_compactItems (level : Nat) :
    ∀ items : List Json, (compactItems items).toList = spellItems tight level items
  | [] => by simp [compactItems, spellItems]
  | [v] => by simp [compactItems, spellItems, toList_compact level v]
  | v :: w :: rest => by
    simp [compactItems, spellItems, toList_compact level v, toList_compactItems level (w :: rest),
      tight]

theorem toList_compactMembers (level : Nat) :
    ∀ members : List (String × Json),
      (compactMembers members).toList = spellMembers tight level members
  | [] => by simp [compactMembers, spellMembers]
  | [(name, v)] => by
    simp [compactMembers, spellMembers, toList_compact level v, toList_quoted, tight]
  | (name, v) :: m :: rest => by
    simp [compactMembers, spellMembers, toList_compact level v,
      toList_compactMembers level (m :: rest), toList_quoted, tight]

end

theorem toList_newline (level : Nat) : (newline level).toList = indented.line level := by
  simp [newline, indented]

mutual

theorem toList_pretty (level : Nat) : ∀ v : Json, (v.pretty level).toList = spell indented level v
  | .null => by simp [pretty, compact, spell]
  | .bool b => by cases b <;> simp [pretty, compact, spell]
  | .num n => by simp [pretty, compact, spell]
  | .str s => by simp [pretty, compact, spell, toList_quoted]
  | .arr [] => by simp [pretty, compact, compactItems, spell]
  | .arr (v :: rest) => by
    have ih := toList_prettyItems (level + 1) (v :: rest)
    simp [pretty, spell, toList_newline, ih]
  | .obj [] => by simp [pretty, compact, compactMembers, spell]
  | .obj (m :: rest) => by
    have ih := toList_prettyMembers (level + 1) (m :: rest)
    simp [pretty, spell, toList_newline, ih]

theorem toList_prettyItems (level : Nat) :
    ∀ items : List Json, (prettyItems level items).toList = spellItems indented level items
  | [] => by simp [prettyItems, spellItems]
  | [v] => by simp [prettyItems, spellItems, toList_pretty level v]
  | v :: w :: rest => by
    simp [prettyItems, spellItems, toList_pretty level v, toList_prettyItems level (w :: rest),
      toList_newline]

theorem toList_prettyMembers (level : Nat) :
    ∀ members : List (String × Json),
      (prettyMembers level members).toList = spellMembers indented level members
  | [] => by simp [prettyMembers, spellMembers]
  | [(name, v)] => by
    have hspace : indented.space = [' '] := rfl
    simp [prettyMembers, spellMembers, toList_pretty level v, toList_quoted, hspace]
  | (name, v) :: m :: rest => by
    have hspace : indented.space = [' '] := rfl
    simp [prettyMembers, spellMembers, toList_pretty level v,
      toList_prettyMembers level (m :: rest), toList_quoted, toList_newline, hspace]

end

/-! ## Blanks before a token -/

def Gap (g : List Char) : Prop := ∀ c ∈ g, isGap c = true

theorem skipGap_append {g : List Char} (hg : Gap g) (cs : List Char) :
    skipGap (g ++ cs) = skipGap cs := by
  rw [skipGap, skipGap, List.dropWhile_append_of_pos hg]

theorem skipGap_cons {c : Char} (hc : isGap c = false) (cs : List Char) :
    skipGap (c :: cs) = c :: cs := List.dropWhile_cons_of_neg (by simp [hc])

theorem value_skip {g : List Char} (hg : Gap g) (fuel depth : Nat) (cs : List Char) :
    value? fuel depth (g ++ cs) = value? fuel depth cs := by
  cases fuel with
  | zero => simp [value?]
  | succ fuel => rw [value?, value?, skipGap_append hg]

theorem items_skip {g : List Char} (hg : Gap g) (fuel depth : Nat) (cs : List Char) :
    Reader.items? fuel depth (g ++ cs) = Reader.items? fuel depth cs := by
  cases fuel with
  | zero => simp [Reader.items?]
  | succ fuel => rw [Reader.items?, Reader.items?, value_skip hg]

theorem members_skip {g : List Char} (hg : Gap g) (fuel depth : Nat) (cs : List Char) :
    Reader.members? fuel depth (g ++ cs) = Reader.members? fuel depth cs := by
  cases fuel with
  | zero => simp [Reader.members?]
  | succ fuel => rw [Reader.members?, Reader.members?, skipGap_append hg]

/-! ## Numbers -/

def Numeral (c : Char) : Prop := c = '-' ∨ c.isDigit = true

theorem ne_of_numeral {c d : Char} (hc : Numeral c) (hd : d ≠ '-' ∧ d.isDigit = false) : c ≠ d := by
  rintro rfl
  obtain h | h := hc
  · exact hd.1 h
  · rw [hd.2] at h
    cases h

theorem isGap_of_numeral {c : Char} (hc : Numeral c) : isGap c = false := by
  have hblank := ne_of_numeral hc (d := ' ') (by decide)
  have hline := ne_of_numeral hc (d := '\n') (by decide)
  have htab := ne_of_numeral hc (d := '\t') (by decide)
  have hreturn := ne_of_numeral hc (d := '\r') (by decide)
  simp [isGap, hblank, hline, htab, hreturn]

theorem number_text {x : Number} (h : SoundNumber x) {rest : List Char} (hrest : Ends rest) :
    number? (x.text.toList ++ rest) = some (x, rest) := by
  cases x with
  | int i => exact number_int h.1 h.2 hrest
  | double x =>
    cases x with
    | nan => exact h.elim
    | infinite s => exact h.elim
    | finite s m e => exact number_double h s hrest

theorem numeral_of_whole {whole : List Char} (h : Whole whole) (rest : List Char) :
    ∃ c cs, whole ++ rest = c :: cs ∧ Numeral c := by
  cases hcases : whole with
  | nil => exact absurd hcases h.nonempty
  | cons c cs => exact ⟨c, cs ++ rest, rfl, .inr (h.digits c (by simp [hcases]))⟩

theorem numeral_text {x : Number} (h : SoundNumber x) :
    ∃ c cs, x.text.toList = c :: cs ∧ Numeral c := by
  cases x with
  | int i =>
    rw [Number.text, toList_toString]
    split
    · exact ⟨_, _, rfl, .inl rfl⟩
    · simpa using numeral_of_whole (whole_toDigits i.natAbs) []
  | double x =>
    cases x with
    | nan => exact h.elim
    | infinite s => exact h.elim
    | finite s m e =>
      obtain ⟨body, d, hbody, ⟨whole, f, x, rfl, hwhole, -⟩, -⟩ := spells_body h s
      rw [Number.text, hbody]
      split
      · exact ⟨_, _, rfl, .inl rfl⟩
      · exact numeral_of_whole hwhole _

theorem value_number {c : Char} (hc : Numeral c) {cs rest : List Char} {x : Number}
    (h : number? (c :: cs) = some (x, rest)) (fuel depth : Nat) :
    value? (fuel + 1) depth (c :: cs) = some (.num x, rest) := by
  rw [value?, skipGap_cons (isGap_of_numeral hc)]
  split
  case h_7 =>
    rw [h]
    rfl
  all_goals
    rename_i heq
    exact absurd (List.cons.inj heq).1 (ne_of_numeral hc (by decide))

/-! ## Tokens in front of a text -/

section Tokens

variable (fuel depth : Nat) (rest : List Char)

theorem value_null :
    value? (fuel + 1) depth ('n' :: 'u' :: 'l' :: 'l' :: rest) = some (.null, rest) := by
  rw [value?, skipGap_cons (by decide)]
  rfl

theorem value_true :
    value? (fuel + 1) depth ('t' :: 'r' :: 'u' :: 'e' :: rest) = some (.bool true, rest) := by
  rw [value?, skipGap_cons (by decide)]
  rfl

theorem value_false :
    value? (fuel + 1) depth ('f' :: 'a' :: 'l' :: 's' :: 'e' :: rest) =
      some (.bool false, rest) := by
  rw [value?, skipGap_cons (by decide)]
  rfl

theorem value_string (s : String) :
    value? (fuel + 1) depth (spellString s ++ rest) = some (.str s, rest) := by
  have hbody := stringBody_escaped [] s.toList rest
  rw [value?, spellString, List.cons_append, skipGap_cons (by decide), List.append_assoc,
    List.singleton_append]
  simp [hbody]

theorem value_bracket :
    value? (fuel + 1) (depth + 1) ('[' :: rest) =
      match skipGap rest with
      | ']' :: rest => some (.arr [], rest)
      | rest => (Reader.items? fuel depth rest).map fun r => (.arr r.1, r.2) := by
  rw [value?, skipGap_cons (by decide)]
  rfl

theorem value_brace :
    value? (fuel + 1) (depth + 1) ('\x7b' :: rest) =
      match skipGap rest with
      | '\x7d' :: rest => some (.obj [], rest)
      | rest => (Reader.members? fuel depth rest).map fun r => (.obj r.1, r.2) := by
  rw [value?, skipGap_cons (by decide)]
  rfl

theorem value_array {g : List Char} (hg : Gap g) {c : Char} (hc : isGap c = false) (hne : c ≠ ']') :
    value? (fuel + 1) (depth + 1) ('[' :: (g ++ c :: rest)) =
      (Reader.items? fuel depth (c :: rest)).map fun r => (.arr r.1, r.2) := by
  rw [value_bracket, skipGap_append hg, skipGap_cons hc]
  split
  · rename_i heq
    exact absurd (List.cons.inj heq).1 hne
  · rfl

theorem value_object {g : List Char} (hg : Gap g) (name : String) :
    value? (fuel + 1) (depth + 1) ('\x7b' :: (g ++ (spellString name ++ rest))) =
      (Reader.members? fuel depth (spellString name ++ rest)).map fun r => (.obj r.1, r.2) := by
  rw [value_brace, skipGap_append hg, spellString, List.cons_append, skipGap_cons (by decide)]
  rfl

theorem items_last {cs g : List Char} {v : Json} (hg : Gap g)
    (h : value? fuel depth cs = some (v, g ++ ']' :: rest)) :
    Reader.items? (fuel + 1) depth cs = some ([v], rest) := by
  rw [Reader.items?, h]
  dsimp only
  rw [skipGap_append hg, skipGap_cons (by decide)]
  rfl

theorem items_more {cs : List Char} {v : Json} (h : value? fuel depth cs = some (v, ',' :: rest)) :
    Reader.items? (fuel + 1) depth cs =
      (Reader.items? fuel depth rest).map fun r => (v :: r.1, r.2) := by
  rw [Reader.items?, h]
  dsimp only
  rw [skipGap_cons (by decide)]
  rfl

/-- What the reader makes of the text behind a member. -/
def behindMember (name : String) (v : Json) :
    List Char → Option (List (String × Json) × List Char)
  | ',' :: rest => (Reader.members? fuel depth rest).map fun r => ((name, v) :: r.1, r.2)
  | '\x7d' :: rest => some ([(name, v)], rest)
  | _ => none

theorem members_named (name : String) {cs : List Char} {v : Json}
    (h : value? fuel depth cs = some (v, rest)) :
    Reader.members? (fuel + 1) depth (spellString name ++ ':' :: cs) =
      behindMember fuel depth name v (skipGap rest) := by
  have hbody := stringBody_escaped [] name.toList (':' :: cs)
  have hname : String.ofList ([].reverse ++ name.toList) = name := by simp
  rw [Reader.members?, spellString, List.cons_append, skipGap_cons (by decide), List.append_assoc,
    List.singleton_append]
  simp only [hbody]
  rw [skipGap_cons (by decide)]
  simp only [h, hname]
  rfl

theorem members_last (name : String) {cs g : List Char} {v : Json} (hg : Gap g)
    (h : value? fuel depth cs = some (v, g ++ '\x7d' :: rest)) :
    Reader.members? (fuel + 1) depth (spellString name ++ ':' :: cs) =
      some ([(name, v)], rest) := by
  rw [members_named fuel depth _ name h, skipGap_append hg, skipGap_cons (by decide)]
  rfl

theorem members_more (name : String) {cs : List Char} {v : Json}
    (h : value? fuel depth cs = some (v, ',' :: rest)) :
    Reader.members? (fuel + 1) depth (spellString name ++ ':' :: cs) =
      (Reader.members? fuel depth rest).map fun r => ((name, v) :: r.1, r.2) := by
  rw [members_named fuel depth _ name h, skipGap_cons (by decide)]
  rfl

end Tokens

/-! ## Reading what was written -/

section Reading

variable (l : Layout)

theorem head_spell {n : Nat} {v : Json} (hv : Textual n v) (level : Nat) :
    ∃ c cs, spell l level v = c :: cs ∧ isGap c = false ∧ c ≠ ']' := by
  cases hv with
  | null => exact ⟨_, _, by rw [spell], by decide, by decide⟩
  | bool b =>
    cases b with
    | false => exact ⟨'f', ['a', 'l', 's', 'e'], by simp [spell], by decide, by decide⟩
    | true => exact ⟨'t', ['r', 'u', 'e'], by simp [spell], by decide, by decide⟩
  | num hx =>
    obtain ⟨c, cs, hcs, hc⟩ := numeral_text hx
    exact ⟨c, cs, by rw [spell, hcs], isGap_of_numeral hc, ne_of_numeral hc (by decide)⟩
  | str s => exact ⟨_, _, by rw [spell, spellString], by decide, by decide⟩
  | @arr n items hitems =>
    cases items with
    | nil => exact ⟨_, _, by rw [spell], by decide, by decide⟩
    | cons v rest => exact ⟨_, _, by rw [spell], by decide, by decide⟩
  | @obj n members hmembers hsorted =>
    cases members with
    | nil => exact ⟨_, _, by rw [spell], by decide, by decide⟩
    | cons m rest => exact ⟨_, _, by rw [spell], by decide, by decide⟩

theorem spellItems_cons_cons (level : Nat) (v w : Json) (rest : List Json) :
    spellItems l level (v :: w :: rest) =
      spell l level v ++ ',' :: (l.line level ++ spellItems l level (w :: rest)) := by
  rw [spellItems]
  simp

theorem spellMembers_cons_cons (level : Nat) (name : String) (v : Json) (m : String × Json)
    (rest : List (String × Json)) :
    spellMembers l level ((name, v) :: m :: rest) =
      spellString name ++ ':' :: (l.space ++ (spell l level v ++
        ',' :: (l.line level ++ spellMembers l level (m :: rest)))) := by
  rw [spellMembers]
  simp

theorem head_spellItems {n : Nat} {items : List Json} (h : ∀ v ∈ items, Textual n v)
    (hne : items ≠ []) (level : Nat) :
    ∃ c cs, spellItems l level items = c :: cs ∧ isGap c = false ∧ c ≠ ']' := by
  cases items with
  | nil => exact absurd rfl hne
  | cons v rest =>
    obtain ⟨c, cs, hcs, hc⟩ := head_spell l (h v (by simp)) level
    cases rest with
    | nil => exact ⟨c, cs, by rw [spellItems, hcs], hc⟩
    | cons w rest => exact ⟨c, _, by rw [spellItems_cons_cons, hcs, List.cons_append], hc⟩

theorem head_spellMembers (name : String) (v : Json) (rest : List (String × Json)) (level : Nat) :
    ∃ cs, spellMembers l level ((name, v) :: rest) = spellString name ++ cs := by
  cases rest with
  | nil => exact ⟨_, by rw [spellMembers]⟩
  | cons m rest => exact ⟨_, by rw [spellMembers_cons_cons]⟩

theorem ends_append {g : List Char} (hg : Gap g) {rest : List Char} (hrest : Ends rest) :
    Ends (g ++ rest) := by
  cases g with
  | nil => exact hrest
  | cons d g =>
    intro c hc
    obtain rfl : d = c := by simpa using hc
    have hd := hg d List.mem_cons_self
    simp only [isGap, Bool.or_eq_true, beq_iff_eq] at hd
    obtain ((rfl | rfl) | rfl) | rfl := hd <;> decide

theorem ends_cons {c : Char} (hc : c.isDigit = false ∧ c ≠ '.' ∧ c ≠ 'e' ∧ c ≠ 'E')
    (rest : List Char) : Ends (c :: rest) := by
  intro d hd
  obtain rfl : c = d := by simpa using hd
  exact hc

theorem value_members {level fuel n : Nat} {members : List (String × Json)} {rest : List Char}
    (hne : members ≠ [])
    (hread : Reader.members? fuel n (spellMembers l (level + 1) members ++
      (l.line level ++ '\x7d' :: rest)) = some (members, rest)) :
    value? (fuel + 1) (n + 1) (spell l level (.obj members) ++ rest) =
      some (.obj members, rest) := by
  cases members with
  | nil => exact absurd rfl hne
  | cons m members =>
    obtain ⟨name, v⟩ := m
    obtain ⟨cs, hcs⟩ := head_spellMembers l name v members (level + 1)
    rw [hcs, List.append_assoc] at hread
    rw [spell, hcs]
    simp only [List.cons_append, List.append_assoc, List.nil_append]
    rw [value_object fuel n _ (l.line_gap (level + 1)) name, hread]
    rfl

mutual

theorem value_spell : ∀ (v : Json) {n : Nat}, Textual n v → ∀ (level fuel : Nat) (rest : List Char),
    2 * (spell l level v).length ≤ fuel → Ends rest →
      value? fuel n (spell l level v ++ rest) = some (v, rest)
  | v, n, hv, level, 0, rest, hfuel, hrest => by
    obtain ⟨c, cs, hcs, -⟩ := head_spell l hv level
    rw [hcs, List.length_cons] at hfuel
    omega
  | .null, n, hv, level, fuel + 1, rest, hfuel, hrest => by
    rw [spell]
    exact value_null fuel n rest
  | .bool true, n, hv, level, fuel + 1, rest, hfuel, hrest => by
    rw [spell]
    exact value_true fuel n rest
  | .bool false, n, hv, level, fuel + 1, rest, hfuel, hrest => by
    rw [spell]
    exact value_false fuel n rest
  | .num x, n, hv, level, fuel + 1, rest, hfuel, hrest => by
    cases hv with
    | num hx =>
      obtain ⟨c, cs, hcs, hc⟩ := numeral_text hx
      have hread := number_text hx hrest
      rw [hcs, List.cons_append] at hread
      rw [spell, hcs, List.cons_append]
      exact value_number hc hread fuel n
  | .str s, n, hv, level, fuel + 1, rest, hfuel, hrest => by
    rw [spell]
    exact value_string fuel n rest s
  | .arr [], n, hv, level, fuel + 1, rest, hfuel, hrest => by
    cases hv with
    | @arr n _ hitems =>
      rw [spell, List.cons_append, List.singleton_append, value_bracket, skipGap_cons (by decide)]
      rfl
  | .arr (v :: items), n, hv, level, fuel + 1, rest, hfuel, hrest => by
    cases hv with
    | @arr n _ hitems =>
      have hne : v :: items ≠ [] := List.cons_ne_nil v items
      obtain ⟨c, cs, hcs, hc, hclose⟩ := head_spellItems l hitems hne (level + 1)
      rw [spell] at hfuel ⊢
      have hlength : 2 * (spellItems l (level + 1) (v :: items)).length + 1 ≤ fuel := by
        simp only [List.length_cons, List.length_append] at hfuel
        omega
      have hread := items_spell (v :: items) hitems hne (level + 1) fuel (l.line level)
        (l.line_gap level) rest hlength
      rw [hcs, List.cons_append] at hread
      rw [hcs]
      simp only [List.cons_append, List.append_assoc, List.nil_append]
      rw [value_array fuel n _ (l.line_gap (level + 1)) hc hclose, hread]
      rfl
  | .obj [], n, hv, level, fuel + 1, rest, hfuel, hrest => by
    cases hv with
    | @obj n _ hmembers =>
      rw [spell, List.cons_append, List.singleton_append, value_brace, skipGap_cons (by decide)]
      rfl
  | .obj ((name, v) :: members), n, hv, level, fuel + 1, rest, hfuel, hrest => by
    cases hv with
    | @obj n _ hmembers hsorted =>
      have hne : (name, v) :: members ≠ [] := List.cons_ne_nil _ members
      rw [spell] at hfuel
      have hlength : 2 * (spellMembers l (level + 1) ((name, v) :: members)).length + 1 ≤ fuel := by
        simp only [List.length_cons, List.length_append] at hfuel
        omega
      exact value_members l hne (members_spell ((name, v) :: members) hmembers hne (level + 1) fuel
        (l.line level) (l.line_gap level) rest hlength)

theorem items_spell : ∀ (items : List Json) {n : Nat}, (∀ v ∈ items, Textual n v) → items ≠ [] →
    ∀ (level fuel : Nat) (g : List Char), Gap g → ∀ rest : List Char,
      2 * (spellItems l level items).length + 1 ≤ fuel →
        Reader.items? fuel n (spellItems l level items ++ (g ++ ']' :: rest)) = some (items, rest)
  | [], n, h, hne, level, fuel, g, hg, rest, hfuel => absurd rfl hne
  | items, n, h, hne, level, 0, g, hg, rest, hfuel => by omega
  | [v], n, h, hne, level, fuel + 1, g, hg, rest, hfuel => by
    rw [spellItems] at hfuel ⊢
    have hends : Ends (g ++ ']' :: rest) := ends_append hg (ends_cons (by decide) rest)
    exact items_last fuel n rest hg
      (value_spell v (h v (by simp)) level fuel _ (by omega) hends)
  | v :: w :: more, n, h, hne, level, fuel + 1, g, hg, rest, hfuel => by
    rw [spellItems_cons_cons] at hfuel ⊢
    simp only [List.length_append, List.length_cons] at hfuel
    have hmore := items_spell (w :: more) (fun u hu => h u (List.mem_cons_of_mem v hu))
      (List.cons_ne_nil w more) level fuel g hg rest (by omega)
    simp only [List.cons_append, List.append_assoc]
    rw [items_more fuel n _ (value_spell v (h v (by simp)) level fuel _ (by omega)
      (ends_cons (by decide) _)), items_skip (l.line_gap level), hmore]
    rfl

theorem members_spell : ∀ (members : List (String × Json)) {n : Nat},
    (∀ m ∈ members, Textual n m.2) → members ≠ [] →
    ∀ (level fuel : Nat) (g : List Char), Gap g → ∀ rest : List Char,
      2 * (spellMembers l level members).length + 1 ≤ fuel →
        Reader.members? fuel n (spellMembers l level members ++ (g ++ '\x7d' :: rest)) =
          some (members, rest)
  | [], n, h, hne, level, fuel, g, hg, rest, hfuel => absurd rfl hne
  | members, n, h, hne, level, 0, g, hg, rest, hfuel => by omega
  | [(name, v)], n, h, hne, level, fuel + 1, g, hg, rest, hfuel => by
    rw [spellMembers] at hfuel ⊢
    simp only [List.length_append, List.length_cons] at hfuel
    have hends : Ends (g ++ '\x7d' :: rest) := ends_append hg (ends_cons (by decide) rest)
    have hv := value_spell v (h (name, v) (by simp)) level fuel _ (by omega) hends
    rw [← value_skip l.space_gap] at hv
    simp only [List.cons_append, List.append_assoc]
    exact members_last fuel n rest name hg hv
  | (name, v) :: m :: more, n, h, hne, level, fuel + 1, g, hg, rest, hfuel => by
    rw [spellMembers_cons_cons] at hfuel ⊢
    simp only [List.length_append, List.length_cons] at hfuel
    have hmore := members_spell (m :: more) (fun u hu => h u (List.mem_cons_of_mem _ hu))
      (List.cons_ne_nil m more) level fuel g hg rest (by omega)
    have hv := value_spell v (h (name, v) (by simp)) level fuel
      (',' :: (l.line level ++ (spellMembers l level (m :: more) ++ (g ++ '\x7d' :: rest))))
      (by omega) (ends_cons (by decide) _)
    rw [← value_skip l.space_gap] at hv
    simp only [List.cons_append, List.append_assoc]
    rw [members_more fuel n _ name hv, members_skip (l.line_gap level), hmore]
    rfl

end

theorem read_of_value {s : String} {v : Json} {cs : List Char} (hs : s.toList = cs)
    (hvalue : value? (2 * cs.length + 2) maxDepth (cs ++ []) = some (v, [])) :
    Json.read? s = some v := by
  rw [List.append_nil] at hvalue
  rw [Json.read?, hs]
  simp only [hvalue]
  rfl

theorem read_spell {v : Json} (hv : Textual maxDepth v) {level : Nat} {s : String}
    (hs : s.toList = spell l level v) : Json.read? s = some v :=
  read_of_value hs (value_spell l v hv level _ [] (by omega) fun c hc => by cases hc)

/-- The members of an object are read in the order they are written in. -/
theorem read_members {members : List (String × Json)}
    (h : ∀ m ∈ members, Textual (maxDepth - 1) m.2) (hne : members ≠ []) {level : Nat} {s : String}
    (hs : s.toList = spell l level (.obj members)) : Json.read? s = some (.obj members) := by
  have hlength : (spellMembers l (level + 1) members).length ≤
      (spell l level (.obj members)).length := by
    cases members with
    | nil => exact absurd rfl hne
    | cons m members =>
      obtain ⟨name, v⟩ := m
      rw [spell]
      simp only [List.length_cons, List.length_append]
      omega
  exact read_of_value hs (value_members l hne (members_spell l members h hne (level + 1) _
    (l.line level) (l.line_gap level) [] (by omega)))

end Reading

theorem parse_pretty {v : Json} (hv : Textual maxDepth v) (level : Nat) :
    Json.parse? (v.pretty level) = some v := by
  rw [Json.parse?, read_spell indented hv (toList_pretty level v), Option.map_some, hv.canonical]

theorem parse_compact {v : Json} (hv : Textual maxDepth v) : Json.parse? v.compact = some v := by
  rw [Json.parse?, read_spell tight hv (toList_compact 0 v), Option.map_some, hv.canonical]

/-! ## What a text can spell -/

theorem sound_of_literal {negative : Bool} {ds : List Char} {e : Int} {x : Binary64}
    (h : literalDouble? negative ds e = some x) : SoundDouble x := by
  unfold literalDouble? at h
  dsimp only at h
  split at h
  · cases h
    exact Doubles.regular_zero
  split at h
  · cases h
    exact Doubles.regular_zero
  split at h
  · cases h
  · rw [ofDecimal_eq] at h
    obtain hinfinite | ⟨m, k, hfinite, hregular⟩ :=
      Doubles.ofRatio_regular negative (digitsValue ds * 10 ^ e.toNat)
        (show 0 < 10 ^ (-e).toNat by positivity)
    · rw [hinfinite] at h
      cases h
    · rw [hfinite] at h
      cases h
      exact hregular

theorem sound_of_unsigned {negative : Bool} {cs rest : List Char} {x : Number}
    (h : unsignedNumber? negative cs = some (x, rest)) : SoundNumber x := by
  have hdouble : ∀ {s : Bool} {ds : List Char} {e : Int} {r : List Char},
      (literalDouble? s ds e).map (fun v => (Number.double v, r)) = some (x, rest) →
        SoundNumber x := by
    intro s ds e r hmap
    obtain ⟨v, hv, heq⟩ := Option.map_eq_some_iff.1 hmap
    cases heq
    exact sound_of_literal hv
  unfold unsignedNumber? at h
  dsimp only at h
  split at h
  · cases h
  · simp only [Option.bind_eq_bind, Option.bind_eq_some_iff] at h
    obtain ⟨⟨f, r⟩, -, ⟨i, r'⟩, -, h⟩ := h
    dsimp only at h
    split at h
    · split at h
      · split at h
        · rename_i hbound
          cases h
          rw [Nat.pow_eq] at hbound
          exact ⟨by omega, by omega⟩
        · exact hdouble h
      · split at h
        · rename_i hbound
          cases h
          change _ < 2 ^ 64 at hbound
          exact ⟨by omega, by omega⟩
        · exact hdouble h
    · exact hdouble h

theorem textual_arr {n : Nat} {items : List Json} (h : ∀ v ∈ items, Textual n v.canonical) :
    Textual (n + 1) (Json.arr items).canonical := by
  rw [Json.canonical, canonicalItems_eq_map]
  refine .arr fun w hw => ?_
  obtain ⟨v, hv, rfl⟩ := List.mem_map.1 hw
  exact h v hv

theorem textual_obj {n : Nat} {members : List (String × Json)}
    (h : ∀ m ∈ members, Textual n m.2.canonical) :
    Textual (n + 1) (Json.obj members).canonical := by
  rw [Json.canonical, canonicalMembers_eq_map]
  refine .obj (fun m hm => ?_) (Dict.sorted _)
  obtain ⟨m', hm', rfl⟩ := List.mem_map.1 (Names.mem_of_mem_ofList hm)
  exact h m' hm'

theorem sound_of_number {cs rest : List Char} {x : Number} (h : number? cs = some (x, rest)) :
    SoundNumber x := by
  unfold number? at h
  split at h
  · exact sound_of_unsigned h
  · exact sound_of_unsigned h

/-- With so much fuel the reader takes only what fits the depth that is left. -/
structure TakesTextual (fuel : Nat) : Prop where
  value : ∀ {depth : Nat} {cs : List Char} {v : Json} {rest : List Char},
    value? fuel depth cs = some (v, rest) → Textual depth v.canonical
  items : ∀ {depth : Nat} {cs : List Char} {items : List Json} {rest : List Char},
    Reader.items? fuel depth cs = some (items, rest) → ∀ v ∈ items, Textual depth v.canonical
  members : ∀ {depth : Nat} {cs : List Char} {members : List (String × Json)} {rest : List Char},
    Reader.members? fuel depth cs = some (members, rest) →
      ∀ m ∈ members, Textual depth m.2.canonical

section Taking

variable {fuel depth : Nat} {cs rest : List Char}

theorem TakesTextual.value_succ (ih : TakesTextual fuel) {v : Json}
    (h : value? (fuel + 1) depth cs = some (v, rest)) : Textual depth v.canonical := by
  rw [value?] at h
  split at h
  · obtain ⟨r, -, heq⟩ := Option.map_eq_some_iff.1 h
    cases heq
    exact .str _
  · cases depth with
    | zero => cases h
    | succ depth =>
      dsimp only at h
      split at h
      · cases h
        exact textual_arr fun v hv => absurd hv List.not_mem_nil
      · obtain ⟨⟨items, r⟩, hitems, heq⟩ := Option.map_eq_some_iff.1 h
        cases heq
        exact textual_arr (ih.items hitems)
  · cases depth with
    | zero => cases h
    | succ depth =>
      dsimp only at h
      split at h
      · cases h
        exact textual_obj fun m hm => absurd hm List.not_mem_nil
      · obtain ⟨⟨members, r⟩, hmembers, heq⟩ := Option.map_eq_some_iff.1 h
        cases heq
        exact textual_obj (ih.members hmembers)
  · cases h
    exact .bool true
  · cases h
    exact .bool false
  · cases h
    exact .null
  · obtain ⟨⟨x, r⟩, hx, heq⟩ := Option.map_eq_some_iff.1 h
    cases heq
    exact .num (sound_of_number hx)

theorem TakesTextual.items_succ (ih : TakesTextual fuel) {items : List Json}
    (h : Reader.items? (fuel + 1) depth cs = some (items, rest)) :
    ∀ v ∈ items, Textual depth v.canonical := by
  rw [Reader.items?] at h
  split at h
  · cases h
  · rename_i v r hv
    have hfirst := ih.value hv
    split at h
    · obtain ⟨⟨more, r'⟩, hmore, heq⟩ := Option.map_eq_some_iff.1 h
      cases heq
      exact List.forall_mem_cons.2 ⟨hfirst, ih.items hmore⟩
    · cases h
      exact List.forall_mem_singleton.2 hfirst
    · cases h

theorem TakesTextual.members_succ (ih : TakesTextual fuel) {members : List (String × Json)}
    (h : Reader.members? (fuel + 1) depth cs = some (members, rest)) :
    ∀ m ∈ members, Textual depth m.2.canonical := by
  rw [Reader.members?] at h
  split at h
  · split at h
    · cases h
    · split at h
      · split at h
        · cases h
        · rename_i v r hv
          have hfirst := ih.value hv
          split at h
          · obtain ⟨⟨more, r'⟩, hmore, heq⟩ := Option.map_eq_some_iff.1 h
            cases heq
            exact List.forall_mem_cons.2 ⟨hfirst, ih.members hmore⟩
          · cases h
            exact List.forall_mem_singleton.2 hfirst
          · cases h
      · cases h
  · cases h

end Taking

theorem takesTextual (fuel : Nat) : TakesTextual fuel := by
  induction fuel with
  | zero =>
    constructor
    · intro depth cs v rest h
      rw [value?] at h
      cases h
    · intro depth cs items rest h
      rw [Reader.items?] at h
      cases h
    · intro depth cs members rest h
      rw [Reader.members?] at h
      cases h
  | succ fuel ih => exact ⟨ih.value_succ, ih.items_succ, ih.members_succ⟩

/-- Every value that is read from a text fits what the reader accepts, with its members in order. -/
theorem textual_of_parse {s : String} {v : Json} (h : Json.parse? s = some v) :
    Textual maxDepth v := by
  obtain ⟨w, hw, rfl⟩ := Option.map_eq_some_iff.1 h
  unfold Json.read? at hw
  dsimp only at hw
  split at hw
  · rename_i u rest hread
    split at hw
    · cases hw
      exact (takesTextual _).value hread
    · cases hw
  · cases hw

end Playback.Proofs.JsonText
