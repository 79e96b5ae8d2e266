/-
Amounts as nodes write them: digits, and perhaps a point with at most eight
digits behind it.

An amount is counted in units of the eighth place, so the digits behind the
point are filled up with zeros and the point is dropped. What does not fit into
a signed 64-bit number is refused, and nothing is ever rounded.
-/
import MergedMining.Digits

namespace MergedMining.Amount

/-- How many digits can stand behind the point. -/
def places : Nat := 8

/-- The most units that an amount can have. -/
def largest : Nat := 2 ^ 63 - 1

/-- An amount that is refused: the text as it was given. -/
structure Error where
  text : String
  deriving DecidableEq, Repr

/-- What is said of an amount that is refused. -/
def Error.message (e : Error) : String := "invalid amount: " ++ e.text

/-- The units that a text spells, whatever their number. -/
def units? (text : List Char) : Option Nat :=
  let whole := text.takeWhile (· ≠ '.')
  let fraction := (text.dropWhile (· ≠ '.')).drop 1
  if !whole.isEmpty && whole.all Char.isDigit && fraction.length ≤ places
      && fraction.all Char.isDigit then
    some (Digits.value (whole ++ fraction ++ List.replicate (places - fraction.length) '0'))
  else none

/-- The amount that a text spells, or the text if it spells none or one too large. -/
def parse (text : String) : Except Error Int64 :=
  match units? text.toList with
  | some n => if n ≤ largest then .ok (Int64.ofNat n) else .error ⟨text⟩
  | none => .error ⟨text⟩

end MergedMining.Amount
