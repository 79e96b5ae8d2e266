/-
Reading the wire: a reader takes values off the front of a byte string.

A reader that fails says why and leaves behind what it did not consume, so the
bytes that went before the failure are gone: a count whose tag was read stays
read, and so do the items in front of a bad one. Numbers are little-endian.
Counts are written in the shortest of four forms, and a longer form than needed
is refused, so that a value has one spelling.
-/
import MergedMining.Digits
import MergedMining.Octets

namespace MergedMining.Wire

-- =============================================================== failures

/-- Why bytes are not the encoding of a value. -/
inductive Error where
  /-- A fixed-size read of `needed` bytes found only `remaining`. -/
  | endOfInput (needed remaining : Nat)
  | trailing (count : Nat)
  /-- A count is written in a longer form than it needs. -/
  | longCount
  /-- So many items cannot fit into what remains. -/
  | countTooLarge (count remaining : Nat)
  /-- No payload layout is known for transactions of this type. -/
  | unknownPayload (kind : UInt8)
  /-- A side-mining payload was asked of a transaction of this type. -/
  | notSideMining (kind : UInt8)
  /-- A block header ends in this byte instead of the terminator. -/
  | badTerminator (byte : UInt8)
  /-- The parent chain's transaction format does not accept the input. -/
  | badParentCoinbase
  /-- The parent chain's header format does not accept the input. -/
  | badParentHeader
  deriving DecidableEq, Repr

/-- What is said of bytes that are not of a type. -/
def Error.message : Error → String
  | .endOfInput needed remaining =>
      s!"unexpected end of buffer: needed {needed} bytes, {remaining} left"
  | .trailing count => s!"trailing data: {count} bytes"
  | .longCount => "non-canonical var-uint"
  | .countTooLarge count remaining => s!"length exceeded: {count} > {remaining}"
  | .unknownPayload kind =>
      "invalid data in payload: unsupported transaction type 0x" ++ Hex.encode [kind]
  | .notSideMining kind =>
      "invalid data in side mining payload: transaction type 0x" ++ Hex.encode [kind]
  | .badTerminator byte => "invalid data in block header: terminator 0x" ++ Hex.encode [byte]
  | .badParentCoinbase => "invalid data in parent coinbase"
  | .badParentHeader => "invalid data in parent header"

-- ================================================================ readers

/-- Takes a value off the front of the input, or fails; either way what is left
of the input is kept. -/
abbrev Reader (α : Type) := EStateM Error Bytes α

namespace Reader

variable {α : Type}

/-- Reads a byte string of a fixed length. -/
def octets (n : Nat) : Reader (Octets n) := fun input =>
  if h : n ≤ input.length then
    .ok ⟨input.take n, by rw [List.length_take, Nat.min_eq_left h]⟩ (input.drop n)
  else .error (.endOfInput n input.length) input

/-- The next `n` bytes, `n` being known only now. -/
def bytes (n : Nat) : Reader Bytes := Octets.bytes <$> octets n

/-- The number in the next `width` bytes. -/
def number (width : Nat) : Reader Nat := (littleEndian ·.bytes) <$> octets width

def u8 : Reader UInt8 := UInt8.ofNat <$> number 1

def u16 : Reader UInt16 := UInt16.ofNat <$> number 2

def u32 : Reader UInt32 := UInt32.ofNat <$> number 4

def u64 : Reader UInt64 := UInt64.ofNat <$> number 8

/-- A signed 32-bit number, in two's complement. -/
def i32 : Reader Int32 := UInt32.toInt32 <$> u32

/-- A signed 64-bit number, in two's complement. -/
def i64 : Reader Int64 := UInt64.toInt64 <$> u64

/-- Refuses a number that a shorter form could have carried. -/
def atLeast (least : UInt64) (value : UInt64) : Reader UInt64 :=
  if value < least then throw .longCount else pure value

/-- A count: one byte below 253, else a tag and two, four or eight bytes. -/
def varUint : Reader UInt64 := do
  let tag ← u8
  if tag = 0xfd then atLeast 0xfd (← u16).toUInt64
  else if tag = 0xfe then atLeast 0x10000 (← u32).toUInt64
  else if tag = 0xff then atLeast 0x100000000 (← u64)
  else pure tag.toUInt64

/-- How many bytes are left. -/
def remaining : Reader Nat := fun input => .ok input.length input

/-- A count of items that each take at least `leastSize` bytes, refused when they
cannot fit into the rest of the input. An item counts as one byte at least. -/
def count (leastSize : Nat) : Reader Nat := do
  let n ← varUint
  let left ← remaining
  if n.toNat * max leastSize 1 ≤ left then pure n.toNat
  else throw (.countTooLarge n.toNat left)

/-- A byte string behind its length. -/
def varBytes : Reader Bytes := do bytes (← count 1)

/-- Runs a reader `n` times and collects the values. -/
def times (n : Nat) (item : Reader α) : Reader (List α) :=
  match n with
  | 0 => pure []
  | n + 1 => do
      let first ← item
      let others ← times n item
      pure (first :: others)

/-- Runs a walk for its length alone: the value is the bytes it consumed. -/
def captured (walk : Reader Unit) : Reader Bytes := fun input =>
  match walk input with
  | .ok () rest => .ok (input.take (input.length - rest.length)) rest
  | .error cause rest => .error cause rest

/-- Reads another chain's format: on failure nothing is consumed, and the cause is
the one given here. -/
def foreign (cause : Error) (format : Reader α) : Reader α := fun input =>
  match format input with
  | .ok value rest => .ok value rest
  | .error _ _ => .error cause input

/-- Succeeds at the end of the input only. -/
def finish : Reader Unit := fun input =>
  match input with
  | [] => .ok () []
  | _ => .error (.trailing input.length) input

end Reader

end MergedMining.Wire
