/-
The value that a JSON text spells.

The tokens are taken one at a time. What is open is a pile of arrays and objects
with what they hold so far, and besides it stands what may come next.
-/
import MergedMining.Json.Token

namespace MergedMining.Json

/-- An array or object that is not closed yet, what it holds the last first. -/
inductive Frame where
  | array (items : List JsonValue)
  /-- An object, and the key of the field whose value comes next. -/
  | object (fields : List (Option String × JsonValue)) (key : Option String)
  deriving Repr

/-- What can come next in a document. -/
inductive Expected where
  | value
  /-- The first item of an array, or its end. -/
  | itemOrEnd
  /-- The first key of an object, or its end. -/
  | keyOrEnd
  | key
  | colon
  | next
  deriving DecidableEq, Repr

/-- A document that is read so far. -/
structure Builder where
  /-- What is open, the innermost first. -/
  frames : List Frame
  expected : Expected
  result : Option JsonValue
  deriving Repr

namespace Builder

/-- Nothing was read. -/
def start : Builder := ⟨[], .value, none⟩

/-- Puts a complete value where it belongs. -/
def put (b : Builder) (value : JsonValue) : Builder :=
  match b.frames with
  | [] => { b with expected := .next, result := some value }
  | .array items :: outer =>
      { b with frames := .array (value :: items) :: outer, expected := .next }
  | .object fields key :: outer =>
      { b with frames := .object ((key, value) :: fields) none :: outer, expected := .next }

/-- Opens an array or an object. -/
def enter (b : Builder) (frame : Frame) (expected : Expected) : Builder :=
  { b with frames := frame :: b.frames, expected }

/-- Closes the array that is open, if one is. -/
def closeArray? (b : Builder) : Option Builder :=
  match b.frames with
  | .array items :: outer => some (put { b with frames := outer } (.array items.reverse))
  | _ => none

/-- Closes the object that is open, if one is. -/
def closeObject? (b : Builder) : Option Builder :=
  match b.frames with
  | .object fields _ :: outer => some (put { b with frames := outer } (.object fields.reverse))
  | _ => none

/-- A comma was read: another item follows, or another key. -/
def more? (b : Builder) : Option Builder :=
  match b.frames with
  | [] => none
  | .array _ :: _ => some { b with expected := .value }
  | .object .. :: _ => some { b with expected := .key }

/-- A key was read, or a text that is none. -/
def named? (b : Builder) (key : Option String) : Option Builder :=
  match b.frames with
  | .object fields _ :: outer =>
      some { b with frames := .object fields key :: outer, expected := .colon }
  | _ => none

/-- Takes the token that begins or is a value. -/
def value? (b : Builder) : Token → Option Builder
  | .scalar value => some (b.put value)
  | .arrayStart => some (b.enter (.array []) .itemOrEnd)
  | .objectStart => some (b.enter (.object [] none) .keyOrEnd)
  | _ => none

/-- Reads one token. -/
def step (b : Builder) (token : Token) : Option Builder :=
  match b.expected, token with
  | .value, token => b.value? token
  | .itemOrEnd, .arrayEnd => b.closeArray?
  | .itemOrEnd, token => b.value? token
  | .keyOrEnd, .objectEnd => b.closeObject?
  | .keyOrEnd, .scalar (.string key) => b.named? key
  | .key, .scalar (.string key) => b.named? key
  | .colon, .colon => some { b with expected := .value }
  | .next, .comma => b.more?
  | .next, .arrayEnd => b.closeArray?
  | .next, .objectEnd => b.closeObject?
  | _, _ => none

end Builder

/-- The value that tokens spell, if nothing is left open. -/
def valueOf? (tokens : List Token) : Option JsonValue := do
  let b ← tokens.foldlM Builder.step .start
  if b.frames.isEmpty then b.result else none

end MergedMining.Json

namespace MergedMining

/-- The value that a text spells, and nothing else but blanks. -/
def JsonValue.parse? (text : String) : Option JsonValue := do
  Json.valueOf? (← Json.Token.ofText? text)

end MergedMining
