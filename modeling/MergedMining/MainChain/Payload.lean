/-
Payloads of main-chain transactions.

A payload carries no length of its own. Where it ends follows from its layout,
which the transaction's kind and payload version choose, so a reader walks the
layout and keeps the bytes walked over. A layout is a list of pieces, and only
one kind of piece repeats.
-/
import MergedMining.Wire.Format

namespace MergedMining.MainChain

-- ================================================================== kinds

namespace Kind

/-- The kind of a transaction that pays the miner. -/
def coinbase : UInt8 := 0

/-- The kind of a transaction that registers an asset. -/
def registerAsset : UInt8 := 1

/-- The kind of a transaction that moves an asset. -/
def transferAsset : UInt8 := 2

/-- The kind of a transaction that records something. -/
def record : UInt8 := 3

/-- Commits the main chain to a block of a side chain. -/
def sideMining : UInt8 := 5

/-- Moves coins from the main chain to a side chain. -/
def recharge : UInt8 := 6

/-- Moves coins from a side chain back to the main chain. -/
def withdraw : UInt8 := 7

/-- Sends coins to addresses of a side chain. -/
def transferCrossChain : UInt8 := 8

end Kind

-- ================================================================ layouts

/-- A part of a payload that does not repeat. -/
inductive Field where
  | fixed (size : Nat)
  /-- A byte string behind its length. -/
  | varBytes
  | varUint
  deriving DecidableEq, Repr

/-- A part of a payload. -/
inductive Piece where
  | one (field : Field)
  /-- A count, and so many items of the same fields; no item is shorter than
  `leastSize`. -/
  | many (leastSize : Nat) (item : List Field)
  deriving DecidableEq, Repr

/-- Reads over a field. -/
def Field.walk : Field → Wire.Reader Unit
  | .fixed size => discard (Wire.Reader.octets size)
  | .varBytes => discard Wire.Reader.varBytes
  | .varUint => discard Wire.Reader.varUint

/-- Reads over a part. -/
def Piece.walk : Piece → Wire.Reader Unit
  | .one field => field.walk
  | .many leastSize item => do
      let n ← Wire.Reader.count leastSize
      discard (Wire.Reader.times n (item.forM Field.walk))

/-- The pieces of a payload of this kind and version, if the kind has a layout. -/
def layout (kind version : UInt8) : Option (List Piece) :=
  if kind = Kind.coinbase then some [.one .varBytes]
  else if kind = Kind.registerAsset then
    -- name, description, precision with the two types, amount, controller
    some [.one .varBytes, .one .varBytes, .one (.fixed 3), .one (.fixed 8), .one (.fixed 21)]
  else if kind = Kind.transferAsset then some []
  else if kind = Kind.record then some [.one .varBytes, .one .varBytes]
  else if kind = Kind.sideMining then
    -- side block, side genesis, height, signed data
    some [.one (.fixed 32), .one (.fixed 32), .one (.fixed 4), .one .varBytes]
  else if kind = Kind.recharge then
    if version = 0 then some [.one .varBytes, .one .varBytes] else some [.one (.fixed 32)]
  else if kind = Kind.withdraw then
    -- height, genesis address, side transactions
    some [.one (.fixed 4), .one .varBytes, .many 32 [.fixed 32]]
  else if kind = Kind.transferCrossChain then
    -- address, output index, amount
    some [.many 10 [.varBytes, .varUint, .fixed 8]]
  else none

/-- Reads a payload of this kind and version as its bytes. -/
def readPayload (kind version : UInt8) : Wire.Reader Bytes :=
  Wire.Reader.captured <|
    match layout kind version with
    | some pieces => pieces.forM Piece.walk
    | none => throw (.unknownPayload kind)

-- ============================================================ side mining

/-- What a side-mining transaction says. -/
structure SideMining where
  sideBlock : Digest
  /-- The side chain, named by its first block. -/
  sideGenesis : Digest
  blockHeight : UInt32
  signedData : Bytes
  deriving DecidableEq, Repr

/-- The fields in order, the signature behind its length. -/
instance : Wire SideMining where
  write p :=
    p.sideBlock.bytes ++ p.sideGenesis.bytes ++ Wire.writeU32 p.blockHeight
      ++ Wire.writeVarBytes p.signedData
  read := do
    let sideBlock ← Wire.read
    let sideGenesis ← Wire.read
    let blockHeight ← Wire.Reader.u32
    let signedData ← Wire.Reader.varBytes
    return { sideBlock, sideGenesis, blockHeight, signedData }

end MergedMining.MainChain
