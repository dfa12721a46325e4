import Playback.Proofs.Comparators
/-!
# Digits in groups

A number may be written with a mark between every three digits. The marks are taken out if decimals
follow behind the other mark. If nothing follows, the mark is the one before the decimals: a second
one then spoils the number, and the text is compared letter by letter.
-/

namespace Playback.Proofs.Grouping

open Amounts Comparators Decimals Json.Reader

/-! ## Groups of three digits -/

/-- Digits with a mark wherever a multiple of three of them follows. -/
def grouped (mark : Char) : List Char → List Char
  | [] => []
  | c :: rest =>
    if rest ≠ [] ∧ rest.length % 3 = 0 then c :: mark :: grouped mark rest
    else c :: grouped mark rest

/-- How many of so many digits stand before the first mark. -/
def leadLength (length : Nat) : Nat := (length - 1) % 3 + 1

section Groups

variable {mark : Char} {ds : List Char}

theorem mem_grouped {c : Char} (h : c ∈ grouped mark ds) : c = mark ∨ c ∈ ds := by
  induction ds with
  | nil => exact .inr h
  | cons d rest ih =>
    rw [grouped] at h
    split at h
    · obtain rfl | h := List.mem_cons.1 h
      · exact .inr List.mem_cons_self
      · obtain rfl | h := List.mem_cons.1 h
        · exact .inl rfl
        · exact (ih h).imp_right (List.mem_cons_of_mem d)
    · obtain rfl | h := List.mem_cons.1 h
      · exact .inr List.mem_cons_self
      · exact (ih h).imp_right (List.mem_cons_of_mem d)

theorem filter_grouped (h : mark ∉ ds) : (grouped mark ds).filter (· != mark) = ds := by
  induction ds with
  | nil => rfl
  | cons d rest ih =>
    have hd : d ≠ mark := by
      rintro rfl
      exact h List.mem_cons_self
    have hrest := ih fun hm => h (List.mem_cons_of_mem d hm)
    rw [grouped]
    split
    · simp [hd, hrest]
    · simp [hd, hrest]

theorem map_grouped (f : Char → Char) :
    (grouped mark ds).map f = grouped (f mark) (ds.map f) := by
  induction ds with
  | nil => rfl
  | cons d rest ih =>
    rw [List.map_cons, grouped, grouped, List.length_map, ← ih]
    simp only [ne_eq, List.map_eq_nil_iff]
    split <;> rfl

theorem grouped_eq (h : 3 < ds.length) :
    grouped mark ds = ds.take (leadLength ds.length) ++
      mark :: grouped mark (ds.drop (leadLength ds.length)) := by
  induction ds with
  | nil => cases h
  | cons d rest ih =>
    rw [List.length_cons] at h
    unfold leadLength at ih ⊢
    rw [List.length_cons, Nat.add_sub_cancel, List.take_succ_cons, List.drop_succ_cons, grouped]
    split
    · rename_i hmark
      rw [hmark.2]
      rfl
    · rename_i hmark
      have hlength : rest.length % 3 ≠ 0 := by
        intro hzero
        apply hmark
        refine ⟨?_, hzero⟩
        rintro rfl
        exact absurd h (by decide)
      rw [ih (by omega), show (rest.length - 1) % 3 + 1 = rest.length % 3 by omega]
      rfl

theorem mark_mem_grouped (h : 3 < ds.length) : mark ∈ grouped mark ds := by
  rw [grouped_eq h]
  simp

end Groups

/-! ## Marks -/

def isMark (c : Char) : Bool := c == '.' || c == ','

theorem isMark_iff {c : Char} : isMark c = true ↔ c = '.' ∨ c = ',' := by
  simp [isMark]

theorem not_isMark_of_isDigit {c : Char} (h : c.isDigit = true) : isMark c = false := by
  rw [Bool.eq_false_iff, ne_eq, isMark_iff]
  rintro (rfl | rfl) <;> exact absurd h (by decide)

theorem isAmountChar_of_isMark {c : Char} (h : isMark c = true) :
    Amount.isAmountChar c = true := by
  obtain rfl | rfl := isMark_iff.1 h <;> rfl

def otherMark (mark : Char) : Char := if mark = '.' then ',' else '.'

theorem isMark_otherMark (mark : Char) : isMark (otherMark mark) = true := by
  unfold otherMark
  split <;> rfl

def commaToPoint (c : Char) : Char := if c == ',' then '.' else c

theorem normalize_of_point {cs : List Char} (h : cs.reverse.find? isMark = some '.') :
    Amount.normalize cs = cs.filter (· != ',') := by
  unfold isMark at h
  unfold Amount.normalize
  rw [h]
  rfl

theorem normalize_of_comma {cs : List Char} (h : cs.reverse.find? isMark = some ',') :
    Amount.normalize cs = if cs.contains '.' then (cs.filter (· != '.')).map commaToPoint
      else cs.map commaToPoint := by
  unfold isMark at h
  unfold Amount.normalize
  rw [h]
  rfl

section Digits

variable {ds : List Char} (hds : Digits ds)

include hds

theorem filter_digits {mark : Char} (hmark : isMark mark = true) :
    ds.filter (· != mark) = ds := by
  rw [List.filter_eq_self]
  intro c hc
  rw [bne_iff_ne]
  rintro rfl
  rw [not_isMark_of_isDigit (hds c hc)] at hmark
  cases hmark

theorem map_digits : ds.map commaToPoint = ds := by
  have hsame : ∀ c ∈ ds, commaToPoint c = c := by
    intro c hc
    rw [commaToPoint, if_neg]
    intro hcomma
    have hmark := not_isMark_of_isDigit (hds c hc)
    rw [eq_of_beq hcomma] at hmark
    cases hmark
  rw [List.map_congr_left hsame, List.map_id']

theorem isAmountChar_of_digits : ∀ c ∈ ds, Amount.isAmountChar c = true := by
  intro c hc
  simp [Amount.isAmountChar, hds c hc]

theorem find?_digits : ds.reverse.find? isMark = none := by
  rw [List.find?_eq_none]
  intro c hc
  rw [not_isMark_of_isDigit (hds c (List.mem_reverse.1 hc))]
  exact Bool.false_ne_true

theorem normalize_digits : Amount.normalize ds = ds := by
  have hfind := find?_digits hds
  unfold isMark at hfind
  unfold Amount.normalize
  rw [hfind]

theorem find?_append_mark (cs : List Char) {p : Char} (hp : isMark p = true) :
    (cs ++ p :: ds).reverse.find? isMark = some p := by
  rw [List.reverse_append, List.reverse_cons, List.append_assoc, List.find?_append,
    find?_digits hds]
  simp [hp]

end Digits

section Marks

variable {mark : Char} (hmark : isMark mark = true) {ds : List Char} (hds : Digits ds)

include hmark hds

theorem mark_not_mem : mark ∉ ds := by
  intro h
  rw [not_isMark_of_isDigit (hds mark h)] at hmark
  cases hmark

theorem isAmountChar_grouped : ∀ c ∈ grouped mark ds, Amount.isAmountChar c = true := by
  intro c hc
  obtain rfl | hc := mem_grouped hc
  · exact isAmountChar_of_isMark hmark
  · exact isAmountChar_of_digits hds c hc

theorem find?_grouped (hlong : 3 < ds.length) :
    (grouped mark ds).reverse.find? isMark = some mark := by
  cases hfind : (grouped mark ds).reverse.find? isMark with
  | none =>
    have hno := List.find?_eq_none.1 hfind mark (List.mem_reverse.2 (mark_mem_grouped hlong))
    exact absurd hmark hno
  | some c =>
    have hc := List.find?_some hfind
    obtain rfl | hmem := mem_grouped (List.mem_reverse.1 (List.mem_of_find?_eq_some hfind))
    · rfl
    · rw [not_isMark_of_isDigit (hds c hmem)] at hc
      cases hc

/-- Marks of one kind are all taken for the point. -/
theorem normalize_grouped (hlong : 3 < ds.length) :
    Amount.normalize (grouped mark ds) = grouped '.' ds := by
  have hfind := find?_grouped hmark hds hlong
  obtain rfl | rfl := isMark_iff.1 hmark
  · rw [normalize_of_point hfind, List.filter_eq_self]
    intro c hc
    obtain rfl | hc := mem_grouped hc
    · rfl
    · have hcomma : ',' ∉ ds := mark_not_mem rfl hds
      exact bne_iff_ne.2 fun h => hcomma (h ▸ hc)
  · have hcontains : (grouped ',' ds).contains '.' = false := by
      rw [Bool.eq_false_iff, ne_eq, List.contains_iff_mem]
      intro hpoint
      obtain h | h := mem_grouped hpoint
      · cases h
      · exact mark_not_mem (by decide) hds h
    rw [normalize_of_comma hfind, hcontains, if_neg Bool.false_ne_true, map_grouped,
      map_digits hds]
    rfl

/-- Decimals behind the other mark make the first one a separator, and it is taken out. -/
theorem normalize_decimals (hlong : 3 < ds.length) {fraction : List Char}
    (hfraction : Digits fraction) :
    Amount.normalize (grouped mark ds ++ otherMark mark :: fraction) = ds ++ '.' :: fraction := by
  have hfind := find?_append_mark hfraction (grouped mark ds) (isMark_otherMark mark)
  have hfilter := filter_grouped (mark_not_mem hmark hds)
  have hdecimals := filter_digits hfraction hmark
  obtain rfl | rfl := isMark_iff.1 hmark
  · have hcontains : (grouped '.' ds ++ ',' :: fraction).contains '.' = true := by
      rw [List.contains_iff_mem]
      exact List.mem_append_left _ (mark_mem_grouped hlong)
    rw [show otherMark '.' = ',' from rfl] at hfind ⊢
    rw [normalize_of_comma hfind, hcontains, if_pos rfl, List.filter_append, hfilter,
      List.filter_cons_of_pos rfl, hdecimals, List.map_append, List.map_cons, map_digits hds,
      map_digits hfraction]
    rfl
  · rw [show otherMark ',' = '.' from rfl] at hfind ⊢
    rw [normalize_of_point hfind, List.filter_append, hfilter, List.filter_cons_of_pos rfl,
      hdecimals]

end Marks

/-! ## The numbers they write -/

def separated (mark : Char) (n : Nat) : String := String.ofList (grouped mark (Nat.toDigits 10 n))

def withDecimals (mark : Char) (n : Nat) (fraction : List Char) : String :=
  String.ofList (grouped mark (Nat.toDigits 10 n) ++ otherMark mark :: fraction)

def leading (n : Nat) : List Char :=
  (Nat.toDigits 10 n).take (leadLength (Nat.toDigits 10 n).length)

def following (n : Nat) : List Char :=
  (Nat.toDigits 10 n).drop (leadLength (Nat.toDigits 10 n).length)

theorem lt_length_toDigits {k n : Nat} (hk : 0 < k) (hn : 10 ^ k ≤ n) :
    k < (Nat.toDigits 10 n).length := by
  rw [← not_le, Nat.length_toDigits_le_iff (by decide) hk, not_lt]
  exact hn

theorem grouped_toDigits (mark : Char) {n : Nat} (hn : 10 ^ 3 ≤ n) :
    grouped mark (Nat.toDigits 10 n) = leading n ++ mark :: grouped mark (following n) :=
  grouped_eq (lt_length_toDigits (by decide) hn)

theorem digits_leading (n : Nat) : Digits (leading n) :=
  fun c hc => digits_toDigits n c (List.mem_of_mem_take hc)

theorem leading_ne_nil (n : Nat) : leading n ≠ [] := by
  rw [leading, ne_eq, List.take_eq_nil_iff, not_or]
  exact ⟨Nat.succ_ne_zero _, Nat.toDigits_ne_nil⟩

theorem mark_mem_following (mark : Char) {n : Nat} (hn : 10 ^ 6 ≤ n) :
    mark ∈ grouped mark (following n) := by
  have hlong := lt_length_toDigits (by decide) hn
  apply mark_mem_grouped
  rw [following, List.length_drop, leadLength]
  omega

theorem ofDecimal_zero (n : Nat) : Binary64.ofDecimal false n 0 = .ofNat n := by
  rw [ofDecimal_eq]
  simp [Binary64.ofNat]

theorem ofText_toString (m : Nat) : Amount.ofText? (toString m) = some (.ofNat m) := by
  have hds := digits_toDigits m
  rw [Nat.toString_eq_ofList_toDigits,
    ofText_of_amountChars (isAmountChar_of_digits hds) Nat.toDigits_ne_nil, normalize_digits hds,
    ofNumeral_digits hds Nat.toDigits_ne_nil, digitsValue_toDigits, ofDecimal_zero]

section Numbers

variable {mark : Char} (hmark : isMark mark = true) {n : Nat}

include hmark

theorem ofText_separated (hn : 10 ^ 6 ≤ n) : Amount.ofText? (separated mark n) = none := by
  have hds := digits_toDigits n
  have hthousand : 10 ^ 3 ≤ n := le_trans (by decide) hn
  have hne : grouped mark (Nat.toDigits 10 n) ≠ [] := by
    rw [grouped_toDigits mark hthousand]
    simp
  have hsecond : ¬(grouped '.' (following n)).all Char.isDigit = true := fun hall =>
    absurd (List.all_eq_true.1 hall '.' (mark_mem_following '.' hn)) (by decide)
  rw [separated, ofText_of_amountChars (isAmountChar_grouped hmark hds) hne,
    normalize_grouped hmark hds (lt_length_toDigits (by decide) hthousand),
    grouped_toDigits '.' hthousand, ofNumeral_point (digits_leading n) (leading_ne_nil n),
    if_neg hsecond]

theorem ofText_withDecimals (hn : 10 ^ 3 ≤ n) {fraction : List Char}
    (hfraction : Digits fraction) :
    Amount.ofText? (withDecimals mark n fraction) =
      some (.ofDecimal false (n * 10 ^ fraction.length + digitsValue fraction)
        (-fraction.length)) := by
  have hds := digits_toDigits n
  have hchars : ∀ c ∈ grouped mark (Nat.toDigits 10 n) ++ otherMark mark :: fraction,
      Amount.isAmountChar c = true := by
    intro c hc
    obtain hc | hc := List.mem_append.1 hc
    · exact isAmountChar_grouped hmark hds c hc
    · obtain rfl | hc := List.mem_cons.1 hc
      · exact isAmountChar_of_isMark (isMark_otherMark mark)
      · exact isAmountChar_of_digits hfraction c hc
  have hall : fraction.all Char.isDigit = true := List.all_eq_true.2 hfraction
  rw [withDecimals, ofText_of_amountChars hchars (by simp),
    normalize_decimals hmark hds (lt_length_toDigits (by decide) hn) hfraction,
    ofNumeral_point hds Nat.toDigits_ne_nil, if_pos hall, digitsValue_append,
    digitsValue_toDigits]

end Numbers

/-! ## The order of their texts -/

/-- Marks come before digits, so digits that go on come after the same digits with a mark. -/
theorem append_mark_lt_iff {mark : Char} {ds : List Char} (h : ∀ d ∈ ds, mark < d)
    (front rest : List Char) : front ++ mark :: rest < ds ↔ front < ds := by
  induction front generalizing ds with
  | nil =>
    cases ds with
    | nil => simp
    | cons d ds => simp [List.cons_lt_cons_iff, h d List.mem_cons_self]
  | cons c front ih =>
    cases ds with
    | nil => simp
    | cons d ds =>
      rw [List.cons_append, List.cons_lt_cons_iff, List.cons_lt_cons_iff,
        ih fun x hx => h x (List.mem_cons_of_mem d hx)]

theorem mark_lt {mark d : Char} (hmark : isMark mark = true) (hd : d.isDigit = true) :
    mark < d := by
  rw [Char.isDigit, Bool.and_eq_true, decide_eq_true_eq, decide_eq_true_eq] at hd
  have hzero : 48 ≤ d.val.toNat := UInt32.le_iff_toNat_le.1 hd.1
  rw [Char.lt_def, UInt32.lt_iff_toNat_lt]
  obtain rfl | rfl := isMark_iff.1 hmark
  · exact lt_of_lt_of_le (by decide) hzero
  · exact lt_of_lt_of_le (by decide) hzero

theorem compare_separated {mark : Char} (hmark : isMark mark = true) {n : Nat} (hn : 10 ^ 3 ≤ n)
    (m : Nat) :
    compare (separated mark n) (toString m) =
      (compare (String.ofList (leading n)) (toString m)).then .gt := by
  have hds := digits_toDigits m
  have hlt := append_mark_lt_iff (fun d hd => mark_lt hmark (hds d hd)) (leading n)
    (grouped mark (following n))
  have hne : leading n ++ mark :: grouped mark (following n) ≠ Nat.toDigits 10 m := by
    intro h
    apply mark_not_mem hmark hds
    rw [← h]
    simp
  rw [separated, grouped_toDigits mark hn, Nat.toString_eq_ofList_toDigits]
  change compareOfLessAndEq _ _ = (compareOfLessAndEq _ _).then .gt
  unfold compareOfLessAndEq
  simp only [String.lt_iff, String.toList_ofList, String.ofList_inj, hlt, hne, if_false]
  split
  · rfl
  · split <;> rfl

/-! ## Comparisons -/

def truth (op : Operator) (x y : Binary64) : Bool := (x.compare? y).any op.holdsOf

/-- The order in which a number of several groups stands to a number in plain digits: that of the
leading digits and the plain ones, which cannot be the same. -/
def leadingOrder (n m : Nat) : Ordering :=
  (compare (String.ofList (leading n)) (toString m)).then .gt

theorem holdsOf_inj {o p : Ordering} (h : ∀ op ∈ standard, op.holdsOf o = op.holdsOf p) :
    o = p := by
  revert o p
  decide

section Numbers

variable {a b : String} {x y : Binary64} (ha : Amount.ofText? a = some x)
  (hb : Amount.ofText? b = some y)

include ha hb

theorem compare?_of_numbers : x.compare? y = some (order a b) := by
  have htext := textOrder_eq a b
  rw [textOrder, ha, hb] at htext
  exact htext

theorem evaluate_of_numbers {op : Operator} (hop : op ∈ standard) :
    evaluate op a b = .ok (truth op x y) := by
  rw [evaluate_standard hop, truth, compare?_of_numbers ha hb]
  rfl

end Numbers

theorem evaluate_separated {mark : Char} (hmark : isMark mark = true) {n : Nat} (hn : 10 ^ 6 ≤ n)
    (m : Nat) {op : Operator} (hop : op ∈ standard) :
    evaluate op (separated mark n) (toString m) = .ok (op.holdsOf (leadingOrder n m)) := by
  have hnumber : Comparators.number? (separated mark n) = none := by
    rw [Comparators.number?, ofText_separated hmark hn]
    rfl
  have hleft : Text.trim (separated mark n) = separated mark n :=
    trim_of_amountChars (isAmountChar_grouped hmark (digits_toDigits n))
  have hright : Text.trim (toString m) = toString m := by
    rw [Nat.toString_eq_ofList_toDigits]
    exact trim_of_amountChars (isAmountChar_of_digits (digits_toDigits m))
  have horder : order (separated mark n) (toString m) = leadingOrder n m := by
    unfold order
    rw [hnumber]
    dsimp only
    rw [hleft, hright, compare_separated hmark (le_trans (by decide) hn)]
    rfl
  rw [evaluate_standard hop, horder]

/-- A number from a million on, with a mark between every three digits and no decimals, is compared
as text: its leading digits against the plain ones. This gives the truth about the numbers where
both orders are the same by chance. With decimals behind the other mark, it is always the truth. -/
theorem separated_compared_as_text {mark : Char} (hmark : mark = '.' ∨ mark = ',') {n : Nat}
    (hn : 10 ^ 6 ≤ n) (m : Nat) :
    (∀ op ∈ standard,
      evaluate op (separated mark n) (toString m) = .ok (op.holdsOf (leadingOrder n m))) ∧
    ((∀ op ∈ standard,
      evaluate op (separated mark n) (toString m) = .ok (truth op (.ofNat n) (.ofNat m))) ↔
        (Binary64.ofNat n).compare? (.ofNat m) = some (leadingOrder n m)) ∧
    ∀ op ∈ standard, ∀ fraction, Digits fraction →
      evaluate op (withDecimals mark n fraction) (toString m) =
        .ok (truth op (.ofDecimal false (n * 10 ^ fraction.length + digitsValue fraction)
          (-fraction.length)) (.ofNat m)) := by
  have hmark := isMark_iff.2 hmark
  refine ⟨fun op hop => evaluate_separated hmark hn m hop, ⟨fun h => ?_, fun h op hop => ?_⟩,
    fun op hop fraction hfraction => ?_⟩
  · have horder := compare?_of_numbers (ofText_toString n) (ofText_toString m)
    rw [horder, Option.some.injEq]
    apply holdsOf_inj
    intro op hop
    have hsame := (h op hop).symm.trans (evaluate_separated hmark hn m hop)
    rw [Except.ok.injEq, truth, horder] at hsame
    exact hsame
  · rw [evaluate_separated hmark hn m hop, truth, h]
    rfl
  · exact evaluate_of_numbers (ofText_withDecimals hmark (le_trans (by decide) hn) hfraction)
      (ofText_toString m) hop

theorem evaluate_million :
    ('.' = '.' ∨ '.' = ',') ∧ 10 ^ 6 ≤ 1000000 ∧ separated '.' 1000000 = "1.000.000" ∧
      evaluate .gt "1.000.000" "999" = .ok false ∧
      evaluate .gt "1.000.000,00" "999" = .ok true := by
  have hgroups : separated '.' 1000000 = "1.000.000" := by decide +kernel
  have hdecimals : withDecimals '.' 1000000 ['0', '0'] = "1.000.000,00" := by decide +kernel
  obtain ⟨htext, -, hnumber⟩ :=
    @separated_compared_as_text '.' (.inl rfl) 1000000 (le_refl _) 999
  refine ⟨.inl rfl, le_refl _, hgroups, ?_, ?_⟩
  · rw [← hgroups, show "999" = toString 999 by decide +kernel, htext .gt (by decide)]
    decide +kernel
  · rw [← hdecimals, show "999" = toString 999 by decide +kernel,
      hnumber .gt (by decide) ['0', '0'] (digits_zeros 2)]
    decide +kernel

/-- A number in groups is not always compared as the number it is. -/
theorem not_separated_compared_as_number :
    ¬∀ mark : Char, mark = '.' ∨ mark = ',' → ∀ n m : Nat, 10 ^ 6 ≤ n → ∀ op ∈ standard,
      evaluate op (separated mark n) (toString m) = .ok (truth op (.ofNat n) (.ofNat m)) := by
  intro h
  have hgreater := h '.' (.inl rfl) 1000000 999 (by decide) .gt (by decide)
  rw [evaluate_separated rfl (by decide) 999 (by decide)] at hgreater
  revert hgreater
  decide +kernel

end Playback.Proofs.Grouping
