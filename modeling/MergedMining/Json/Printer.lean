/-
The text of a JSON value, without blanks.

In strings the quote, the backslash and the controls are escaped, in their short
form where there is one; all else stands for itself.
-/
import MergedMining.Digits
import MergedMining.Json.Value

namespace MergedMining.Json

/-- A character of a string as it is written. -/
def escaped (c : Char) : List Char :=
  match c.toNat with
  | 0x22 => ['\\', '"']
  | 0x5c => ['\\', '\\']
  | 0x08 => ['\\', 'b']
  | 0x09 => ['\\', 't']
  | 0x0a => ['\\', 'n']
  | 0x0c => ['\\', 'f']
  | 0x0d => ['\\', 'r']
  | code =>
      if code < 0x20 then ['\\', 'u', '0', '0'] ++ Hex.digits (UInt8.ofNat code) else [c]

/-- A text between quotes, with what has to be escaped in it. -/
def quoted (s : String) : String :=
  String.ofList ('"' :: (s.toList.flatMap escaped ++ ['"']))

/-- A key and the colon behind it. -/
def label (key : Option String) : String := quoted (key.getD "") ++ ":"

end MergedMining.Json

namespace MergedMining.JsonValue

open Json

mutual

/-- The text of a value. A string that is no text is written as the empty one. -/
def render : JsonValue → String
  | .null => "null"
  | .bool true => "true"
  | .bool false => "false"
  | .integer n => toString n
  | .decimal written => written
  | .string s => quoted (s.getD "")
  | .array [] => "[]"
  | .array (item :: items) => "[" ++ render item ++ renderItems items ++ "]"
  | .object [] => "\x7b\x7d"
  | .object ((key, value) :: fields) =>
      "\x7b" ++ label key ++ render value ++ renderFields fields ++ "\x7d"

/-- The text of the items behind the first. -/
def renderItems : List JsonValue → String
  | [] => ""
  | item :: items => "," ++ render item ++ renderItems items

/-- The text of the fields behind the first. -/
def renderFields : List (Option String × JsonValue) → String
  | [] => ""
  | (key, value) :: fields => "," ++ label key ++ render value ++ renderFields fields

end

end MergedMining.JsonValue
