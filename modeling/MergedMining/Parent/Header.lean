/-
Headers of the parent chain and the work they show.

A header shows work when its hash, read as a number, is at most the target that
its own `bits` encode: a mantissa of three bytes and an exponent that counts
bytes.
-/
import MergedMining.Wire.Format

namespace MergedMining.Parent

open Wire

/-- A header of the parent chain. -/
structure Header where
  version : Int32
  previous : Digest
  merkleRoot : Digest
  time : UInt32
  bits : UInt32
  nonce : UInt32
  deriving DecidableEq, Repr

def Header.bytes (h : Header) : Bytes :=
  writeI32 h.version ++ h.previous.bytes ++ h.merkleRoot.bytes ++ writeU32 h.time
    ++ writeU32 h.bits ++ writeU32 h.nonce

def readHeader : Reader Header := do
  let version ← Reader.i32
  let previous ← read
  let merkleRoot ← read
  let time ← Reader.u32
  let bits ← Reader.u32
  let nonce ← Reader.u32
  return { version, previous, merkleRoot, time, bits, nonce }

/-- A header that is refused is refused whole. -/
instance : Wire Header where
  write := Header.bytes
  read := Reader.foreign .badParentHeader readHeader
  leastSize := 80

/-- The target that compact bits encode. An exponent of three leaves the mantissa as
it is; each step below drops a byte of it and each step above appends one, the
shift counting modulo the 256 bits a target has. A mantissa with its top bit set
is negative and encodes no target. -/
def target (bits : UInt32) : Nat :=
  let exponent := bits.toNat / 2 ^ 24
  let mantissa := bits.toNat % 2 ^ 24
  if exponent ≤ 3 then
    let kept := mantissa / 2 ^ (8 * (3 - exponent))
    if 0x7fffff < kept then 0 else kept
  else if 0x7fffff < mantissa then 0
  else mantissa * 2 ^ (8 * (exponent - 3) % 256) % 2 ^ 256

namespace Header

def hash (h : Header) : Digest := Digest.ofBytes h.bytes

/-- Whether the hash is at most the target of the header's own bits. -/
def meetsTarget (h : Header) : Bool := littleEndian h.hash.bytes ≤ target h.bits

/-- A header that says nothing. -/
def empty : Header := ⟨1, Digest.zero, Digest.zero, 0, 0, 0⟩

end Header

end MergedMining.Parent
