import Mathlib.Data.Nat.Digits.Defs
import Mathlib.Data.Int.Basic
import Mathlib.Tactic.IntervalCases
import Playback.Comparison
import Playback.Proofs.Decimals
/-!
# Days as they are written and as they are reckoned

A text writes a day if its digits, with everything else left out, are those of the day. Days stand a
week apart if their numbers do. The numbers are those of a calendar that reaches far beyond the days
that can be written, in both directions, so the week before a day can always be reckoned.
-/

namespace Playback.Proofs.Calendar

open Decimals Json.Reader

/-! ## Numbers of a fixed width -/

/-- Digits of one length spell different numbers unless they are the same. -/
theorem digitsValue_injective {as bs : List Char} (has : Digits as) (hbs : Digits bs)
    (hlength : as.length = bs.length) (h : digitsValue as = digitsValue bs) : as = bs := by
  induction as using List.reverseRecOn generalizing bs with
  | nil => exact (List.length_eq_zero_iff.1 hlength.symm).symm
  | append_singleton as a ih =>
    obtain rfl | ⟨bs, b, rfl⟩ := List.eq_nil_or_concat' bs
    · simp at hlength
    · simp only [List.length_append, List.length_singleton, Nat.add_right_cancel_iff] at hlength
      have ha := isDigit_bounds (has a (by simp))
      have hb := isDigit_bounds (hbs b (by simp))
      simp only [digitsValue_append, digitsValue_singleton, List.length_singleton,
        Nat.pow_one] at h
      have hfront := ih (fun c hc => has c (List.mem_append_left [a] hc))
        (fun c hc => hbs c (List.mem_append_left [b] hc)) hlength (by omega)
      have hlast : a = b := Char.toNat_inj.1 (by omega)
      rw [hfront, hlast]

theorem toList_padded (width n : Nat) :
    (Day.padded width n).toList =
      List.replicate (width - (Nat.toDigits 10 n).length) '0' ++ Nat.toDigits 10 n := by
  simp [Day.padded]

theorem digits_padded (width n : Nat) : Digits (Day.padded width n).toList := by
  rw [toList_padded]
  exact digits_append (digits_zeros _) (digits_toDigits n)

theorem digitsValue_padded (width n : Nat) : digitsValue (Day.padded width n).toList = n := by
  rw [toList_padded, digitsValue_append, digitsValue_zeros, digitsValue_toDigits, Nat.zero_mul,
    Nat.zero_add]

theorem length_padded {width n : Nat} (hwidth : 0 < width) (hn : n < 10 ^ width) :
    (Day.padded width n).toList.length = width := by
  have hlength := Nat.toDigits_length 10 n width hwidth hn
  rw [toList_padded, List.length_append, List.length_replicate]
  omega

theorem padded_digitsValue {ds : List Char} (h : Digits ds) (hne : ds ≠ []) :
    (Day.padded ds.length (digitsValue ds)).toList = ds :=
  digitsValue_injective (digits_padded _ _) h
    (length_padded (List.length_pos_iff.2 hne) (digitsValue_lt h)) (digitsValue_padded _ _)

/-! ## The digits of a day -/

theorem month_bounds {year month day : Nat} (h : 1 ≤ day ∧ day ≤ daysInMonth year month) :
    1 ≤ month ∧ month ≤ 12 := by
  by_contra hmonth
  have hnone : daysInMonth year month = 0 := by
    unfold daysInMonth
    split <;> first | rfl | (exfalso; omega)
  omega

theorem daysInMonth_le (year month : Nat) : daysInMonth year month ≤ 31 := by
  unfold daysInMonth
  repeat' split
  all_goals decide

def digits (d : Day) : List Char :=
  (Day.padded 2 d.day).toList ++ ((Day.padded 2 d.month).toList ++ (Day.padded 4 d.year).toList)

theorem digits_digits (d : Day) : Digits (digits d) :=
  digits_append (digits_padded 2 _) (digits_append (digits_padded 2 _) (digits_padded 4 _))

theorem ofDigits?_append {ds ms ys : List Char} (hds : ds.length = 2) (hms : ms.length = 2)
    (hys : ys.length = 4) :
    Day.ofDigits? (ds ++ (ms ++ ys)) =
      if h : IsDay (digitsValue ys) (digitsValue ms) (digitsValue ds) then
        some ⟨digitsValue ys, digitsValue ms, digitsValue ds, h⟩
      else none := by
  obtain ⟨d₁, d₂, rfl⟩ := List.length_eq_two.1 hds
  obtain ⟨m₁, m₂, rfl⟩ := List.length_eq_two.1 hms
  obtain ⟨y₁, y₂, y₃, y₄, rfl⟩ : ∃ y₁ y₂ y₃ y₄, ys = [y₁, y₂, y₃, y₄] := by
    match ys, hys with
    | [y₁, y₂, y₃, y₄], _ => exact ⟨y₁, y₂, y₃, y₄, rfl⟩
  simp [Day.ofDigits?, digitsValue]

theorem ofDigits?_digits (d : Day) : Day.ofDigits? (digits d) = some d := by
  obtain ⟨hyear, hday⟩ := d.isDay
  have hmonth := month_bounds hday
  have hlast := daysInMonth_le d.year d.month
  rw [digits, ofDigits?_append (length_padded (by decide) (by omega))
    (length_padded (by decide) (by omega)) (length_padded (by decide) (by omega))]
  simp only [digitsValue_padded]
  rw [dif_pos d.isDay]

theorem length_of_ofDigits? {ds : List Char} {d : Day} (h : Day.ofDigits? ds = some d) :
    ds.length = 8 := by
  unfold Day.ofDigits? at h
  split at h
  · rfl
  · cases h

theorem exists_parts {ds : List Char} (h : ds.length = 8) :
    ∃ days months years, days.length = 2 ∧ months.length = 2 ∧ years.length = 4 ∧
      ds = days ++ (months ++ years) := by
  refine ⟨ds.take 2, (ds.drop 2).take 2, (ds.drop 2).drop 2, ?_, ?_, ?_, ?_⟩
  · simp [h]
  · simp [h]
  · simp [h]
  · rw [List.take_append_drop, List.take_append_drop]

theorem ofDigits?_eq_some_iff {ds : List Char} (hds : Digits ds) {d : Day} :
    Day.ofDigits? ds = some d ↔ ds = digits d := by
  refine ⟨fun h => ?_, fun h => by rw [h, ofDigits?_digits]⟩
  obtain ⟨days, months, years, hdays, hmonths, hyears, rfl⟩ := exists_parts (length_of_ofDigits? h)
  have hdigits (part : List Char) (hpart : part ∈ [days, months, years]) : Digits part := by
    intro c hc
    apply hds c
    simp only [List.mem_cons, List.not_mem_nil, or_false] at hpart
    obtain rfl | rfl | rfl := hpart <;> simp [hc]
  rw [ofDigits?_append hdays hmonths hyears] at h
  split at h
  · cases h
    have hday := padded_digitsValue (hdigits days (by simp)) (by rintro rfl; cases hdays)
    have hmonth := padded_digitsValue (hdigits months (by simp)) (by rintro rfl; cases hmonths)
    have hyear := padded_digitsValue (hdigits years (by simp)) (by rintro rfl; cases hyears)
    rw [hdays] at hday
    rw [hmonths] at hmonth
    rw [hyears] at hyear
    rw [digits, hday, hmonth, hyear]
  · cases h

/-! ## Texts around the digits -/

/-- Characters with others in front of each, and others behind the last. -/
def strewn (noise : Nat → List Char) : List Char → List Char
  | [] => noise 0
  | c :: cs => noise 0 ++ c :: strewn (fun i => noise (i + 1)) cs

theorem filter_strewn {noise : Nat → List Char} (hnoise : ∀ i, ∀ c ∈ noise i, c.isDigit = false)
    {ds : List Char} (hds : Digits ds) : (strewn noise ds).filter Char.isDigit = ds := by
  have hfront : (noise 0).filter Char.isDigit = [] :=
    List.filter_eq_nil_iff.2 fun c hc => by simp [hnoise 0 c hc]
  induction ds generalizing noise with
  | nil => exact hfront
  | cons d ds ih =>
    have hd := hds d List.mem_cons_self
    have hrest := ih (fun i => hnoise (i + 1)) (fun c hc => hds c (List.mem_cons_of_mem d hc))
      (List.filter_eq_nil_iff.2 fun c hc => by simp [hnoise 1 c hc])
    rw [strewn, List.filter_append, hfront, List.nil_append, List.filter_cons_of_pos hd, hrest]

theorem digits_filter (cs : List Char) : Digits (cs.filter Char.isDigit) :=
  fun _ hc => (List.mem_filter.1 hc).2

theorem parseDay_eq_ok_iff {s : String} {d : Day} :
    parseDay s = .ok d ↔ s.toList.filter Char.isDigit = digits d := by
  rw [← ofDigits?_eq_some_iff (digits_filter _)]
  unfold parseDay Day.ofText?
  cases Day.ofDigits? (s.toList.filter Char.isDigit) with
  | none => simp
  | some e => simp

theorem parseDay_eq_error {s : String} {f : Fault} (h : parseDay s = .error f) :
    f = .invalidDate s := by
  unfold parseDay at h
  split at h
  · cases h
  · cases h
    rfl

theorem parseDay_strewn {noise : Nat → List Char}
    (hnoise : ∀ i, ∀ c ∈ noise i, c.isDigit = false) (d : Day) :
    parseDay (String.ofList (strewn noise (digits d))) = .ok d := by
  rw [parseDay_eq_ok_iff, String.toList_ofList, filter_strewn hnoise (digits_digits d)]

/-! ## The calendar that days are reckoned in -/

def firstYear : Int := -262143

def lastYear : Int := 262142

/-- The days of a month in any year, also one before the year 0. -/
def monthLength (year : Int) (month : Nat) : Nat := daysInMonth (year % 400).toNat month

/-- A day of the calendar. -/
structure Date where
  year : Int
  month : Nat
  day : Nat
  inRange : firstYear ≤ year ∧ year ≤ lastYear
  isDay : 1 ≤ day ∧ day ≤ monthLength year month

namespace Date

def ofParts? (year : Int) (month day : Nat) : Option Date :=
  if h : (firstYear ≤ year ∧ year ≤ lastYear) ∧ (1 ≤ day ∧ day ≤ monthLength year month) then
    some ⟨year, month, day, h.1, h.2⟩
  else none

def previous? (d : Date) : Option Date :=
  if 1 < d.day then ofParts? d.year d.month (d.day - 1)
  else if 1 < d.month then ofParts? d.year (d.month - 1) (monthLength d.year (d.month - 1))
  else ofParts? (d.year - 1) 12 31

def daysBefore? : Nat → Date → Option Date
  | 0, d => some d
  | n + 1, d => (previous? d).bind (daysBefore? n)

def Before (a b : Date) : Prop :=
  a.year < b.year ∨
    (a.year = b.year ∧ (a.month < b.month ∨ (a.month = b.month ∧ a.day < b.day)))

instance (a b : Date) : Decidable (Before a b) := inferInstanceAs (Decidable (_ ∨ _))

def beforeYear (year : Int) : Int :=
  365 * year + (year + 3) / 4 - (year + 99) / 100 + (year + 399) / 400

def beforeMonth (year : Int) (month : Nat) : Nat := Day.daysBeforeMonth (year % 400).toNat month

/-- The number of days from the first day of the year 0 to this one. -/
def number (d : Date) : Int := beforeYear d.year + beforeMonth d.year d.month + (d.day - 1)

/-! ## Lengths of months and years -/

theorem beforeMonth_succ (year : Int) {month : Nat} (h : 1 ≤ month) :
    beforeMonth year (month + 1) = beforeMonth year month + monthLength year month := by
  obtain ⟨m, rfl⟩ := Nat.exists_eq_add_of_le' h
  unfold beforeMonth Day.daysBeforeMonth
  rw [Nat.add_sub_cancel, Nat.add_sub_cancel, List.range'_concat, List.map_append,
    List.foldl_append, Nat.one_mul, Nat.add_comm 1 m]
  rfl

theorem beforeMonth_mono (year : Int) {a b : Nat} (ha : 1 ≤ a) (hab : a ≤ b) :
    beforeMonth year a ≤ beforeMonth year b := by
  induction b, hab using Nat.le_induction with
  | base => exact Nat.le_refl _
  | succ b hab ih =>
    rw [beforeMonth_succ year (ha.trans hab)]
    omega

theorem beforeYear_succ (year : Int) :
    beforeYear (year + 1) = beforeYear year + beforeMonth year 13 := by
  have hyear : (beforeMonth year 13 : Int) =
      365 + if isLeapYear (year % 400).toNat then 1 else 0 := by
    unfold beforeMonth
    cases hleap : isLeapYear (year % 400).toNat <;>
      simp [Day.daysBeforeMonth, List.range', daysInMonth, hleap]
  rw [hyear]
  unfold beforeYear
  split
  · rename_i hleap
    simp [isLeapYear] at hleap
    omega
  · rename_i hleap
    simp [isLeapYear] at hleap
    omega

theorem beforeYear_mono {a b : Int} (h : a ≤ b) : beforeYear a ≤ beforeYear b := by
  induction b, h using Int.leInduction with
  | base => exact Int.le_refl _
  | succ year _ ih =>
    rw [beforeYear_succ]
    omega

/-! ## Numbers of days -/

theorem number_lt_of_before {a b : Date} (h : Before a b) : a.number < b.number := by
  have ha := month_bounds a.isDay
  have hb := month_bounds b.isDay
  have haday := a.isDay
  have hbday := b.isDay
  have hmonth := beforeMonth_succ a.year ha.1
  unfold number
  obtain hyear | ⟨hyear, hmonths | ⟨hmonths, hday⟩⟩ := h
  · have hstart : beforeYear (a.year + 1) ≤ beforeYear b.year := beforeYear_mono (by omega)
    have hend := beforeMonth_mono a.year (b := 13) (show 1 ≤ a.month + 1 by omega) (by omega)
    rw [beforeYear_succ] at hstart
    omega
  · have hstart := beforeMonth_mono a.year (show 1 ≤ a.month + 1 by omega) hmonths
    rw [← hyear]
    omega
  · rw [← hyear, ← hmonths]
    omega

theorem eq_or_before (a b : Date) : a = b ∨ a.Before b ∨ b.Before a := by
  by_cases hsame : a.year = b.year ∧ a.month = b.month ∧ a.day = b.day
  · left
    obtain ⟨hyear, hmonth, hday⟩ := hsame
    cases a
    cases b
    cases hyear
    cases hmonth
    cases hday
    rfl
  · right
    unfold Before
    omega

theorem number_lt_iff {a b : Date} : a.number < b.number ↔ Before a b := by
  refine ⟨fun h => ?_, number_lt_of_before⟩
  obtain rfl | hbefore | hback := eq_or_before a b
  · exact absurd h (lt_irrefl _)
  · exact hbefore
  · exact absurd (number_lt_of_before hback) (lt_asymm h)

theorem number_injective {a b : Date} (h : a.number = b.number) : a = b := by
  obtain hsame | hbefore | hback := eq_or_before a b
  · exact hsame
  · exact absurd h (number_lt_of_before hbefore).ne
  · exact absurd h (number_lt_of_before hback).ne'

theorem ofParts?_eq_some {year : Int} {month day : Nat} {d : Date}
    (h : ofParts? year month day = some d) : d.year = year ∧ d.month = month ∧ d.day = day := by
  unfold ofParts? at h
  split at h
  · cases h
    exact ⟨rfl, rfl, rfl⟩
  · cases h

theorem monthLength_pos (year : Int) {month : Nat} (hlow : 1 ≤ month) (hhigh : month ≤ 12) :
    1 ≤ monthLength year month := by
  unfold monthLength
  interval_cases month <;> simp only [daysInMonth] <;> first | omega | (split <;> omega)

theorem number_previous {d p : Date} (h : d.previous? = some p) : p.number + 1 = d.number := by
  have hday := d.isDay
  have hmonths := month_bounds hday
  unfold number
  unfold previous? at h
  split at h
  · obtain ⟨hyear, hmonth, hpday⟩ := ofParts?_eq_some h
    rw [hyear, hmonth, hpday]
    omega
  · split at h
    · obtain ⟨hyear, hmonth, hpday⟩ := ofParts?_eq_some h
      have hstep := beforeMonth_succ d.year (show 1 ≤ d.month - 1 by omega)
      have hlength := monthLength_pos d.year (show 1 ≤ d.month - 1 by omega) (by omega)
      rw [Nat.sub_add_cancel hmonths.1] at hstep
      rw [hyear, hmonth, hpday]
      omega
    · obtain ⟨hyear, hmonth, hpday⟩ := ofParts?_eq_some h
      have hstep := beforeYear_succ (d.year - 1)
      have hlast : beforeMonth (d.year - 1) 13 = beforeMonth (d.year - 1) 12 + 31 :=
        beforeMonth_succ (d.year - 1) (by decide)
      have hfirst : beforeMonth d.year 1 = 0 := rfl
      have hjanuary : d.month = 1 := by omega
      rw [Int.sub_add_cancel] at hstep
      rw [hyear, hmonth, hpday, hjanuary, hfirst]
      omega

def firstNumber : Int := beforeYear firstYear

theorem exists_previous {d : Date} (h : firstNumber < d.number) : ∃ p, d.previous? = some p := by
  have hday := d.isDay
  have hmonths := month_bounds hday
  have hrange := d.inRange
  unfold previous?
  split
  · have hlower : 1 ≤ d.day - 1 ∧ d.day - 1 ≤ monthLength d.year d.month := by omega
    exact ⟨_, dif_pos ⟨hrange, hlower⟩⟩
  · split
    · have hlength := monthLength_pos d.year (show 1 ≤ d.month - 1 by omega) (by omega)
      exact ⟨_, dif_pos ⟨hrange, hlength, Nat.le_refl _⟩⟩
    · have hyear : d.year ≠ firstYear := by
        intro hyear
        have hjanuary : d.month = 1 := by omega
        have hfirst : beforeMonth firstYear 1 = 0 := rfl
        rw [number, hyear, hjanuary, hfirst] at h
        unfold firstNumber at h
        omega
      have hlower : firstYear ≤ d.year - 1 ∧ d.year - 1 ≤ lastYear := by omega
      have hlast : 1 ≤ 31 ∧ 31 ≤ monthLength (d.year - 1) 12 := ⟨by decide, Nat.le_refl 31⟩
      exact ⟨_, dif_pos ⟨hlower, hlast⟩⟩

theorem number_daysBefore {d e : Date} {n : Nat} (h : d.daysBefore? n = some e) :
    e.number + n = d.number := by
  induction n generalizing d with
  | zero =>
    cases h
    exact Int.add_zero _
  | succ n ih =>
    obtain ⟨p, hp, he⟩ := Option.bind_eq_some_iff.1 h
    have hstep := number_previous hp
    have hrest := ih he
    push_cast
    omega

theorem exists_daysBefore {d : Date} {n : Nat} (h : firstNumber + n ≤ d.number) :
    ∃ e, d.daysBefore? n = some e := by
  induction n generalizing d with
  | zero => exact ⟨d, rfl⟩
  | succ n ih =>
    obtain ⟨p, hp⟩ := exists_previous (d := d) (by omega)
    have hstep := number_previous hp
    obtain ⟨e, he⟩ := ih (d := p) (by omega)
    refine ⟨e, ?_⟩
    rw [daysBefore?, hp]
    exact he

theorem firstNumber_le (d : Date) : firstNumber ≤ d.number := by
  have hyear : beforeYear firstYear ≤ beforeYear d.year := beforeYear_mono d.inRange.1
  have hday := d.isDay.1
  unfold firstNumber number
  omega

/-- The difference of two numbers counts the steps from day to day. -/
theorem daysBefore?_eq_some_iff {d e : Date} {n : Nat} :
    d.daysBefore? n = some e ↔ d.number - e.number = n := by
  refine ⟨fun h => ?_, fun h => ?_⟩
  · have hnumber := number_daysBefore h
    omega
  · have hfirst := firstNumber_le e
    obtain ⟨f, hf⟩ := exists_daysBefore (d := d) (n := n) (by omega)
    have hnumber := number_daysBefore hf
    rw [hf, number_injective (show f.number = e.number by omega)]

theorem daysInMonth_mod (year month : Nat) :
    daysInMonth ((year : Int) % 400).toNat month = daysInMonth year month := by
  have hleap : isLeapYear ((year : Int) % 400).toNat = isLeapYear year := by
    have hmod : ((year : Int) % 400).toNat = year % 400 := by omega
    unfold isLeapYear
    rw [hmod, Nat.mod_mod, Nat.mod_mod_of_dvd year (by decide : 4 ∣ 400),
      Nat.mod_mod_of_dvd year (by decide : 100 ∣ 400)]
  unfold daysInMonth
  rw [hleap]

def ofDay (d : Day) : Date where
  year := d.year
  month := d.month
  day := d.day
  inRange := by
    have hyear := d.isDay.1
    unfold firstYear lastYear
    omega
  isDay := by
    rw [monthLength, daysInMonth_mod]
    exact d.isDay.2

theorem number_ofDay (d : Day) : (ofDay d).number = d.number := by
  have hyear : beforeYear d.year = Day.daysBeforeYear d.year := by
    unfold beforeYear Day.daysBeforeYear
    omega
  have hmonth : beforeMonth d.year d.month = Day.daysBeforeMonth d.year d.month := by
    unfold beforeMonth Day.daysBeforeMonth
    rw [funext (daysInMonth_mod d.year)]
  have hday := d.isDay.2.1
  show beforeYear d.year + beforeMonth d.year d.month + ((d.day : Int) - 1) = d.number
  rw [hyear, hmonth, Day.number]
  omega

end Date

open Date

/-! ## A week apart -/

/-- The week before a day that can be written is in the calendar, and the days at least a week
before are those that are not behind it. -/
theorem exists_week (first second : Day) :
    ∃ week, (ofDay first).daysBefore? 7 = some week ∧
      (7 ≤ (first.number : Int) - second.number ↔
        ¬ (ofDay first).Before (ofDay second) ∧ ¬ week.Before (ofDay second)) := by
  have hfirst : firstNumber + (7 : Nat) ≤ (ofDay first).number := by
    have hstart : firstNumber + 7 ≤ 0 := by decide
    rw [number_ofDay]
    omega
  obtain ⟨week, hweek⟩ := exists_daysBefore hfirst
  have hnumber := number_daysBefore hweek
  refine ⟨week, hweek, ?_⟩
  rw [← number_lt_iff, ← number_lt_iff, number_ofDay, number_ofDay]
  rw [number_ofDay] at hnumber
  omega

theorem evaluate_period (a b : String) :
    evaluate .period a b =
      match parseDay a, parseDay b with
      | .error _, _ => .error (.invalidDate a)
      | .ok _, .error _ => .error (.invalidDate b)
      | .ok first, .ok second => .ok (decide (7 ≤ (first.number : Int) - second.number)) := by
  cases ha : parseDay a with
  | error f =>
    rw [← parseDay_eq_error ha]
    simp only [evaluate, ha]
    rfl
  | ok first =>
    cases hb : parseDay b with
    | error f =>
      rw [← parseDay_eq_error hb]
      simp only [evaluate, ha, hb]
      rfl
    | ok second =>
      have hrule : (second.number ≤ first.number ∧ second.number + 7 ≤ first.number) ↔
          7 ≤ (first.number : Int) - second.number := by omega
      simp only [evaluate, ha, hb, ← decide_eq_decide.2 hrule]
      rfl

/-- A text is a day exactly if its digits are those of the day, whatever stands around them, and is
refused by itself if they are not. Two texts are held against each other only if both are days, and
the first that is none is named. Then the answer is whether the first day is at least a week behind
the second, as counted in steps from day to day; the week before a day that can be written is always
in the calendar. -/
theorem days_read_and_counted :
    (∀ s d, parseDay s = .ok d ↔ s.toList.filter Char.isDigit = digits d) ∧
    (∀ s, (∃ d, parseDay s = .ok d) ∨ parseDay s = .error (.invalidDate s)) ∧
    (∀ noise d, (∀ i, ∀ c ∈ noise i, c.isDigit = false) →
      parseDay (String.ofList (strewn noise (digits d))) = .ok d) ∧
    (∀ a b, evaluate .period a b =
      match parseDay a, parseDay b with
      | .error _, _ => .error (.invalidDate a)
      | .ok _, .error _ => .error (.invalidDate b)
      | .ok first, .ok second => .ok (decide (7 ≤ (first.number : Int) - second.number))) ∧
    (∀ first second n, (ofDay first).daysBefore? n = some (ofDay second) ↔
      (first.number : Int) - second.number = n) ∧
    ∀ first second, ∃ week, (ofDay first).daysBefore? 7 = some week ∧
      (7 ≤ (first.number : Int) - second.number ↔
        ¬ (ofDay first).Before (ofDay second) ∧ ¬ week.Before (ofDay second)) := by
  refine ⟨fun _ _ => parseDay_eq_ok_iff, fun s => ?_, fun _ d hnoise => parseDay_strewn hnoise d,
    evaluate_period, fun first second n => ?_, exists_week⟩
  · cases h : parseDay s with
    | ok d => exact .inl ⟨d, rfl⟩
    | error f => exact .inr (by rw [parseDay_eq_error h])
  · rw [daysBefore?_eq_some_iff, number_ofDay, number_ofDay]

def strokes (i : Nat) : List Char := if i = 2 ∨ i = 4 then [' ', '/'] else [' ']

/-- The first day that can be written, with blanks and strokes around its digits. -/
theorem first_day_read :
    (∀ i, ∀ c ∈ strokes i, c.isDigit = false) ∧
      parseDay " 0 1 /0 1 /0 0 0 0 " = .ok ⟨0, 1, 1, by decide⟩ := by
  have hnoise : ∀ i, ∀ c ∈ strokes i, c.isDigit = false := by
    intro i c hc
    unfold strokes at hc
    split at hc
    · simp only [List.mem_cons, List.not_mem_nil, or_false] at hc
      obtain rfl | rfl := hc <;> rfl
    · obtain rfl := List.mem_singleton.1 hc
      rfl
  have htext : String.ofList (strewn strokes (digits ⟨0, 1, 1, by decide⟩)) =
      " 0 1 /0 1 /0 0 0 0 " := by decide
  refine ⟨hnoise, ?_⟩
  rw [← htext]
  exact days_read_and_counted.2.2.1 strokes ⟨0, 1, 1, by decide⟩ hnoise

end Playback.Proofs.Calendar
