/-!
# Days of the calendar

Days of the proleptic Gregorian calendar from the year 0 to 9999, how they are numbered, and how one
is read from the digits of a text.
-/

namespace Playback

def isLeapYear (year : Nat) : Bool := year % 4 == 0 && (year % 100 != 0 || year % 400 == 0)

/-- The number of days of a month; 0 where there is no such month. -/
def daysInMonth (year month : Nat) : Nat :=
  match month with
  | 1 => 31
  | 2 => if isLeapYear year then 29 else 28
  | 3 => 31
  | 4 => 30
  | 5 => 31
  | 6 => 30
  | 7 => 31
  | 8 => 31
  | 9 => 30
  | 10 => 31
  | 11 => 30
  | 12 => 31
  | _ => 0

def IsDay (year month day : Nat) : Prop := year ≤ 9999 ∧ 1 ≤ day ∧ day ≤ daysInMonth year month

instance (year month day : Nat) : Decidable (IsDay year month day) :=
  inferInstanceAs (Decidable (_ ∧ _))

structure Day where
  year : Nat
  month : Nat
  day : Nat
  isDay : IsDay year month day
  deriving DecidableEq, Repr

namespace Day

def daysBeforeYear (year : Nat) : Nat :=
  365 * year + (year + 3) / 4 - (year + 99) / 100 + (year + 399) / 400

def daysBeforeMonth (year month : Nat) : Nat :=
  ((List.range' 1 (month - 1)).map (daysInMonth year)).foldl (· + ·) 0

/-- The number of days from the first day of the year 0 to this one. -/
def number (d : Day) : Nat := daysBeforeYear d.year + daysBeforeMonth d.year d.month + (d.day - 1)

def padded (width n : Nat) : String :=
  let cs := Nat.toDigits 10 n
  String.ofList (List.replicate (width - cs.length) '0' ++ cs)

def iso (d : Day) : String := padded 4 d.year ++ "-" ++ padded 2 d.month ++ "-" ++ padded 2 d.day

def dashed (d : Day) : String :=
  padded 2 d.day ++ "-" ++ padded 2 d.month ++ "-" ++ padded 4 d.year

/-- The day that exactly eight digits spell as day, month and year. -/
def ofDigits? : List Char → Option Day
  | [d₁, d₂, m₁, m₂, y₁, y₂, y₃, y₄] =>
    let digit (c : Char) : Nat := c.toNat - 48
    let year := ((digit y₁ * 10 + digit y₂) * 10 + digit y₃) * 10 + digit y₄
    let month := digit m₁ * 10 + digit m₂
    let day := digit d₁ * 10 + digit d₂
    if h : IsDay year month day then some ⟨year, month, day, h⟩ else none
  | _ => none

/-- The day written by the digits of the text; all other characters are passed over. -/
def ofText? (s : String) : Option Day := ofDigits? (s.toList.filter Char.isDigit)

end Day

end Playback
