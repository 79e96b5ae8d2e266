/-
Digits in text: decimal ones, which spell a number, and hexadecimal ones, which spell
bytes.

A string of decimal digits is the number it spells, leading zeros and all. Only the ten
digits of the basic alphabet count.

Hexadecimal text has two digits for each byte, the high half first. Writing uses lower
case; reading takes either case and names the first thing that is wrong. The length is
looked at before any digit is, and a digit's position is counted in bytes of the text, so a
text with an odd number of bytes is refused for that alone, whatever it holds.
-/
import MergedMining.Octets

namespace MergedMining

namespace Digits

/-- The number that digits spell, the highest first. -/
def value (digits : List Char) : Nat :=
  digits.foldl (fun n c => 10 * n + (c.toNat - 48)) 0

/-- The number that a text spells which is digits only, and at least one. -/
def parse? (text : List Char) : Option Nat :=
  if !text.isEmpty && text.all Char.isDigit then some (value text) else none

end Digits

namespace Hex

-- ============================================================== writing

/-- The digit of a number below sixteen. -/
def digit (half : UInt8) : Char :=
  if half < 10 then Char.ofNat (48 + half.toNat) else Char.ofNat (87 + half.toNat)

/-- The two digits of a byte. -/
def digits (byte : UInt8) : List Char :=
  [digit (byte >>> 4), digit (byte &&& 15)]

/-- The digits of bytes, in the order of the bytes. -/
def encode (bytes : List UInt8) : String :=
  String.ofList (bytes.flatMap digits)

-- ============================================================== reading

/-- Why a text is not hexadecimal. -/
inductive Error where
  | oddLength
  | badDigit (byte : UInt8) (position : Nat)
  deriving DecidableEq, Repr

/-- The number that a digit stands for, if the byte is one. -/
def value? (byte : UInt8) : Option UInt8 :=
  if 48 ≤ byte ∧ byte ≤ 57 then some (byte - 48)
  else if 97 ≤ byte ∧ byte ≤ 102 then some (byte - 87)
  else if 65 ≤ byte ∧ byte ≤ 70 then some (byte - 55)
  else none

/-- Reads digits pair by pair, `position` being that of the next one. -/
def decodePairs (position : Nat) : List UInt8 → Except Error (List UInt8)
  | [] => .ok []
  | [_] => .error .oddLength
  | high :: low :: rest =>
      match value? high with
      | none => .error (.badDigit high position)
      | some h =>
          match value? low with
          | none => .error (.badDigit low (position + 1))
          | some l => do
              let tail ← decodePairs (position + 2) rest
              return (h <<< 4 ||| l) :: tail

/-- Reads the digits of a text given as its bytes. -/
def decodeBytes (text : List UInt8) : Except Error (List UInt8) :=
  if text.length % 2 = 1 then .error .oddLength else decodePairs 0 text

/-- Reads a text of hexadecimal digits. -/
def decode (text : String) : Except Error (List UInt8) :=
  decodeBytes text.toUTF8.toList

-- ============================================================ the wording

/-- The hexadecimal digits of a code below 256, without leading zeros. -/
private def bareDigits (byte : UInt8) : List Char :=
  if byte < 16 then [digit byte] else digits byte

/-- A byte shown as the character of that code point between apostrophes.
The apostrophe, the backslash and the usual blanks have a short escape; what
cannot be seen (controls, the no-break space, the soft hyphen) is written as its
code. -/
def shownByte (byte : UInt8) : String :=
  let inner : List Char :=
    match byte.toNat with
    | 0 => ['\\', '0']
    | 9 => ['\\', 't']
    | 10 => ['\\', 'n']
    | 13 => ['\\', 'r']
    | 39 => ['\\', Char.ofNat 39]
    | 92 => ['\\', '\\']
    | code =>
        if code < 32 ∨ (127 ≤ code ∧ code ≤ 160) ∨ code = 173 then
          ['\\', 'u', Char.ofNat 123] ++ bareDigits byte ++ [Char.ofNat 125]
        else [Char.ofNat code]
  String.ofList (Char.ofNat 39 :: inner ++ [Char.ofNat 39])

/-- What is said of a text that is not hexadecimal. -/
def Error.message : Error → String
  | .oddLength => "Odd number of digits"
  | .badDigit byte position =>
      "Invalid character " ++ shownByte byte ++ " at position " ++ toString position

end Hex

end MergedMining
