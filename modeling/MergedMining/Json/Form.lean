/-
JSON forms: how the values of a type are written as JSON and read back.

There are two dialects. In the plain one, which nodes and configuration files
speak, a byte string is an array of numbers and every integer is a number. In
the one for display, bytes are hexadecimal text and 64-bit integers are decimal
text, and a value that travels on the wire may be given by its encoding.

A record is written as an object, and is read from an object or from an array of
its fields in order. Fields it does not know are passed over. A field that it
knows may be given once; one that is missing has a default or is an error, and
so has an array that ends early.
-/
import MergedMining.Digest
import MergedMining.Json.Document
import MergedMining.Json.Printer
import MergedMining.Wire.Format

namespace MergedMining

/-- How JSON spells bytes and wide integers. -/
inductive Dialect where
  | plain
  | display
  deriving DecidableEq, Repr

/-- Why a JSON value is not the form of a value. -/
inductive FormError where
  | shape
  | digest (cause : Digest.TextError)
  /-- Its text is not hexadecimal. -/
  | hex (cause : Hex.Error)
  /-- Its bytes are not the encoding of a value. -/
  | encoding (cause : Wire.Error)
  deriving DecidableEq, Repr

/-- What is said of a document that does not have the form. -/
def FormError.message : FormError → String
  | .shape => "unexpected value"
  | .digest cause => cause.message
  | .hex cause => cause.message
  | .encoding cause => cause.message

/-- A type with a JSON form. -/
class JsonForm (α : Type) where
  write : Dialect → α → JsonValue
  read : Dialect → JsonValue → Except FormError α

namespace JsonForm

variable {α β : Type}

/-- Reads the value that a JSON text spells. -/
def parse [JsonForm α] (text : String) : Except FormError α :=
  match JsonValue.parse? text with
  | some value => read .plain value
  | none => .error .shape

/-- A value in the plain dialect, as text. -/
def print [JsonForm α] (value : α) : String := (write .plain value).render

-- ================================================================ scalars

/-- The text of a string, if the value is one that is text. -/
def textOf : JsonValue → Except FormError String
  | .string (some s) => .ok s
  | _ => .error .shape

instance : JsonForm Unit := ⟨fun _ _ => .null, fun _ _ => .ok ()⟩

instance : JsonForm JsonValue := ⟨fun _ v => v, fun _ v => .ok v⟩

instance : JsonForm Bool where
  write _ b := .bool b
  read _
    | .bool b => .ok b
    | _ => .error .shape

instance : JsonForm String := ⟨fun _ s => .text s, fun _ v => textOf v⟩

/-- The form of integers from `least` up to but not including `bound`. -/
@[reducible] def bounded (least bound : Int) (toInt : α → Int) (ofInt : Int → α) : JsonForm α where
  write _ n := .integer (toInt n)
  read _
    | .integer n => if least ≤ n ∧ n < bound then .ok (ofInt n) else .error .shape
    | _ => .error .shape

instance : JsonForm UInt8 := bounded 0 (2 ^ 8) (·.toNat) (UInt8.ofNat ·.toNat)
instance : JsonForm UInt16 := bounded 0 (2 ^ 16) (·.toNat) (UInt16.ofNat ·.toNat)
instance : JsonForm UInt32 := bounded 0 (2 ^ 32) (·.toNat) (UInt32.ofNat ·.toNat)
instance : JsonForm Int32 := bounded (-2 ^ 31) (2 ^ 31) (·.toInt) Int32.ofInt
instance : JsonForm Nat := bounded 0 (2 ^ 64) Int.ofNat Int.toNat

/-- The form of 64-bit integers, which are texts on display. -/
@[reducible] def wide (narrow : JsonForm α) (toInt : α → Int) : JsonForm α where
  write
    | .plain, n => narrow.write .plain n
    | .display, n => .text (toString (toInt n))
  read
    | .plain, v => narrow.read .plain v
    | .display, v => do
        match (← textOf v).toInt? with
        | some n => narrow.read .plain (.integer n)
        | none => .error .shape

instance : JsonForm UInt64 :=
  wide (bounded 0 (2 ^ 64) (·.toNat) (UInt64.ofNat ·.toNat)) (·.toNat)

instance : JsonForm Int64 := wide (bounded (-2 ^ 63) (2 ^ 63) (·.toInt) Int64.ofInt) (·.toInt)

-- ================================================================== lists

instance [JsonForm α] : JsonForm (List α) where
  write d items := .array (items.map (write d))
  read d
    | .array items => items.mapM (read d)
    | _ => .error .shape

instance [JsonForm α] : JsonForm (Option α) where
  write d
    | some value => write d value
    | none => .null
  read d
    | .null => .ok none
    | v => some <$> read d v

instance [JsonForm α] [JsonForm β] : JsonForm (α × β) where
  write d p := .array [write d p.1, write d p.2]
  read d
    | .array [a, b] => do return (← read d a, ← read d b)
    | _ => .error .shape

-- ================================================================== bytes

/-- The bytes that hexadecimal text spells. -/
def hexOf (v : JsonValue) : Except FormError Bytes := do
  (Hex.decode (← textOf v)).mapError .hex

instance : JsonForm Bytes where
  write
    | .plain, bytes => .array (bytes.map (write .plain))
    | .display, bytes => .text (Hex.encode bytes)
  read
    | .plain, .array items => items.mapM (read .plain)
    | .plain, _ => .error .shape
    | .display, v => hexOf v

instance (n : Nat) : JsonForm (Octets n) where
  write d o := write d o.bytes
  read d v := do
    match Octets.ofBytes? n (← read d v) with
    | some o => .ok o
    | none => .error .shape

/-- A digest is its text in either dialect. -/
instance : JsonForm Digest where
  write _ d := .text d.text
  read _ v := do (Digest.ofText (← textOf v)).mapError .digest

-- ================================================================ records

/-- Whether a name stands more than once in a list. -/
def repeated (names : List String) : Bool := !decide names.Nodup

/-- The fields of a record that go by these names. -/
def fields (names : List String) : JsonValue → Except FormError (List (String × JsonValue))
  | .object given => do
      let given ← given.mapM fun (key, value) =>
        match key with
        | some key => Except.ok (key, value)
        | none => .error .shape
      let known := given.filter fun (key, _) => key ∈ names
      if repeated (known.map Prod.fst) then .error .shape else .ok known
  | .array items => if names.length < items.length then .error .shape else .ok (names.zip items)
  | _ => .error .shape

/-- Reads the field of a name, which has to be there. -/
def get [JsonForm α] (d : Dialect) (given : List (String × JsonValue)) (name : String) :
    Except FormError α :=
  match given.lookup name with
  | some value => read d value
  | none => .error .shape

/-- Reads the field of a name, or takes a default if it is not there. -/
def getD [JsonForm α] (d : Dialect) (given : List (String × JsonValue)) (name : String)
    (default : α) : Except FormError α :=
  match given.lookup name with
  | some value => read d value
  | none => .ok default

/-- A field of this name that holds a value. -/
def field [JsonForm α] (d : Dialect) (name : String) (value : α) : String × JsonValue :=
  (name, write d value)

/-- Reads a value of the wire: on display it may be given by its encoding. -/
def coded [Wire α] (structured : Dialect → JsonValue → Except FormError α) (d : Dialect)
    (v : JsonValue) : Except FormError α :=
  match d, v with
  | .display, .string _ => do (Wire.decode (← hexOf v)).mapError .encoding
  | _, _ => structured d v

end JsonForm

end MergedMining
