/-
Transactions of the main chain.

A transaction is named by the hash of everything but its programs, so a
signature can be added or changed without changing the name.
-/
import MergedMining.MainChain.Payload

namespace MergedMining.MainChain

open Wire

-- ================================================================== parts

/-- An output of an earlier transaction. -/
structure OutPoint where
  transaction : Digest
  index : UInt16
  deriving DecidableEq, Inhabited, Repr

/-- What a transaction spends. -/
structure Input where
  previous : OutPoint
  sequence : UInt32
  deriving DecidableEq, Inhabited, Repr

/-- What a transaction pays out. -/
structure Output where
  asset : Digest
  /-- The amount, in units of 10⁻⁸. -/
  value : Int64
  /-- The height below which the output is locked. -/
  lock : UInt32
  programHash : Octets 21
  deriving DecidableEq, Repr

/-- Something that a transaction says beside what it does. -/
structure Attribute where
  usage : UInt8
  data : Bytes
  deriving DecidableEq, Repr

/-- The right to spend: a program and what it is run on. -/
structure Program where
  code : Bytes
  parameter : Bytes
  deriving DecidableEq, Repr

/-- A transaction. The payload is kept as the bytes it is written as. -/
structure Transaction where
  kind : UInt8
  payloadVersion : UInt8
  payload : Bytes
  attributes : List Attribute
  inputs : List Input
  outputs : List Output
  lockTime : UInt32
  programs : List Program
  deriving DecidableEq, Repr

-- ================================================================= format

instance : Wire OutPoint where
  write p := p.transaction.bytes ++ writeU16 p.index
  read := do
    let transaction ← read
    let index ← Reader.u16
    return { transaction, index }
  leastSize := 34

instance : Wire Input where
  write i := write i.previous ++ writeU32 i.sequence
  read := do
    let previous ← read
    let sequence ← Reader.u32
    return { previous, sequence }
  leastSize := 38

instance : Wire Output where
  write o := o.asset.bytes ++ writeI64 o.value ++ writeU32 o.lock ++ o.programHash.bytes
  read := do
    let asset ← read
    let value ← Reader.i64
    let lock ← Reader.u32
    let programHash ← Reader.octets 21
    return { asset, value, lock, programHash }
  leastSize := 65

instance : Wire Attribute where
  write a := a.usage :: writeVarBytes a.data
  read := do
    let usage ← Reader.u8
    let data ← Reader.varBytes
    return { usage, data }
  leastSize := 2

/-- The parameter goes first. -/
instance : Wire Program where
  write p := writeVarBytes p.parameter ++ writeVarBytes p.code
  read := do
    let parameter ← Reader.varBytes
    let code ← Reader.varBytes
    return { code, parameter }
  leastSize := 2

namespace Transaction

/-- The encoding up to the programs. -/
def unsigned (t : Transaction) : Bytes :=
  t.kind :: t.payloadVersion :: t.payload ++ writeSeq t.attributes ++ writeSeq t.inputs
    ++ writeSeq t.outputs ++ writeU32 t.lockTime

/-- The number of a transaction, which is the hash of its unsigned bytes. -/
def id (t : Transaction) : Digest := Digest.ofBytes t.unsigned

/-- Whether the transaction creates new coins. -/
def isCoinbase (t : Transaction) : Bool := t.kind = Kind.coinbase

/-- Whether the transaction commits to a block of a side chain. -/
def isSideMining (t : Transaction) : Bool := t.kind = Kind.sideMining

/-- What a side-mining transaction says. -/
def sideMining (t : Transaction) : Except Error SideMining :=
  if t.isSideMining then decode t.payload else .error (.notSideMining t.kind)

end Transaction

instance : Wire Transaction where
  write t := t.unsigned ++ writeSeq t.programs
  read := do
    let kind ← Reader.u8
    let payloadVersion ← Reader.u8
    let payload ← readPayload kind payloadVersion
    let attributes ← readSeq
    let inputs ← readSeq
    let outputs ← readSeq
    let lockTime ← Reader.u32
    let programs ← readSeq
    return { kind, payloadVersion, payload, attributes, inputs, outputs, lockTime, programs }
  leastSize := 10

end MergedMining.MainChain
