import Playback.Decimal.Binary64
import Playback.Text.Blank
/-!
# Amounts in text

Numbers as people write them and as they are read off a screen: a point or a comma may stand before
the decimals, and with both present the last one does.
-/

namespace Playback

/-- The double that a decimal numeral spells: an optional sign, then digits with at most one point
and at least one digit. -/
def Binary64.ofNumeral? (cs : List Char) : Option Binary64 :=
  let (negative, body) := match cs with
    | '-' :: rest => (true, rest)
    | '+' :: rest => (false, rest)
    | rest => (false, rest)
  let (whole, rest) := body.span Char.isDigit
  let number (digits : List Char) (places : Nat) : Binary64 :=
    .ofDecimal negative (digits.foldl (fun n c => n * 10 + (c.toNat - 48)) 0) (-places)
  match rest with
  | [] => if whole.isEmpty then none else some (number whole 0)
  | '.' :: fraction =>
    if fraction.all Char.isDigit && !(whole.isEmpty && fraction.isEmpty) then
      some (number (whole ++ fraction) fraction.length)
    else none
  | _ => none

namespace Amount

def isAmountChar (c : Char) : Bool := c.isDigit || c == '.' || c == ',' || c == '-' || c == '+'

/-- The amount with a point before its decimals and without the separators of the other kind. -/
def normalize (cs : List Char) : List Char :=
  let commaToPoint (c : Char) : Char := if c == ',' then '.' else c
  match cs.reverse.find? fun c => c == '.' || c == ',' with
  | some '.' => cs.filter (· != ',')
  | some _ =>
    if cs.contains '.' then (cs.filter (· != '.')).map commaToPoint else cs.map commaToPoint
  | none => cs

def ofText? (s : String) : Option Binary64 :=
  let cs := s.toList.filter fun c => !Text.isBlank c
  if cs.isEmpty || !cs.all isAmountChar then none else Binary64.ofNumeral? (normalize cs)

end Amount

end Playback
