/-
JSON values.

A value keeps what its readers tell apart and nothing else: a number is an
integer if it is written as one, and a string is a text if its escapes spell
whole characters. What is neither is still a value, so that it can be skipped.
-/
namespace MergedMining

/-- A JSON value. -/
inductive JsonValue where
  | null
  | bool (value : Bool)
  | integer (value : Int)
  /-- Any other number, as it is written; negative zero is one. -/
  | decimal (written : String)
  /-- A string, unless its escapes leave half a character. -/
  | string (text : Option String)
  | array (items : List JsonValue)
  /-- Fields in the order they are written, repeated ones included. -/
  | object (fields : List (Option String × JsonValue))
  deriving Inhabited, Repr

namespace JsonValue

/-- A string that is text. -/
def text (s : String) : JsonValue := .string (some s)

/-- An object whose keys are all text. -/
def record (fields : List (String × JsonValue)) : JsonValue :=
  .object (fields.map fun (key, value) => (some key, value))

/-- The first field of a name. -/
def field? (key : String) : JsonValue → Option JsonValue
  | .object fields => fields.lookup (some key)
  | _ => none

mutual

/-- Whether every string in a value is a text, and it is nested at most so deep. -/
def isWhole : (depth : Nat) → JsonValue → Bool
  | _, .string none => false
  | 0, .array _ => false
  | 0, .object _ => false
  | depth + 1, .array items => areWhole depth items
  | depth + 1, .object fields => haveWhole depth fields
  | _, _ => true

/-- Whether every string in these values is a text, and they are nested at most so deep. -/
def areWhole (depth : Nat) : List JsonValue → Bool
  | [] => true
  | item :: items => isWhole depth item && areWhole depth items

/-- Whether every string in these fields is a text, and they are nested at most so deep. -/
def haveWhole (depth : Nat) : List (Option String × JsonValue) → Bool
  | [] => true
  | (key, value) :: fields => key.isSome && isWhole depth value && haveWhole depth fields

end

end JsonValue

end MergedMining
