/-
The wire format of a type: how a value is written, how it is read back, and how
many bytes it takes at the least.

The lower bound serves sequences. A sequence's count is checked against the rest
of the input before its items are read, so that no input can announce more items
than it could hold.
-/
import MergedMining.Wire.Reader
import MergedMining.Digest

namespace MergedMining

/-- A type whose values travel between the chains. -/
class Wire (α : Type) where
  write : α → Bytes
  read : Wire.Reader α
  /-- No encoding is shorter. -/
  leastSize : Nat := 1

namespace Wire

variable {α : Type}

-- ========================================================= complete values

/-- Reads a byte string that holds one value and nothing else. -/
def decode [Wire α] (input : Bytes) : Except Error α :=
  match (do let value ← read; Reader.finish; pure value : Reader α) input with
  | .ok value _ => .ok value
  | .error cause _ => .error cause

-- ================================================================ writing

def writeU16 (v : UInt16) : Bytes := toLittleEndian 2 v.toNat

def writeU32 (v : UInt32) : Bytes := toLittleEndian 4 v.toNat

def writeU64 (v : UInt64) : Bytes := toLittleEndian 8 v.toNat

/-- A signed 32-bit number, in two's complement. -/
def writeI32 (v : Int32) : Bytes := writeU32 v.toUInt32

/-- A signed 64-bit number, in two's complement. -/
def writeI64 (v : Int64) : Bytes := writeU64 v.toUInt64

/-- A count, in the shortest form that holds it. -/
def writeVarUint (v : UInt64) : Bytes :=
  if v < 0xfd then [v.toUInt8]
  else if v ≤ 0xffff then 0xfd :: toLittleEndian 2 v.toNat
  else if v ≤ 0xffffffff then 0xfe :: toLittleEndian 4 v.toNat
  else 0xff :: toLittleEndian 8 v.toNat

/-- The number of items of a list, as a count. -/
def writeCount (items : List α) : Bytes := writeVarUint (UInt64.ofNat items.length)

/-- A byte string behind its length. -/
def writeVarBytes (bytes : Bytes) : Bytes := writeCount bytes ++ bytes

-- ============================================================== sequences

/-- A list of values behind their count. -/
def writeSeq [Wire α] (items : List α) : Bytes := writeCount items ++ items.flatMap write

/-- Reads a list of values behind their count. -/
def readSeq [Wire α] : Reader (List α) := do
  Reader.times (← Reader.count (leastSize α)) read

-- ================================================================ digests

/-- A digest travels as its bytes, with no length in front. -/
instance : Wire Digest where
  write := Octets.bytes
  read := Reader.octets 32
  leastSize := 32

end Wire

end MergedMining
