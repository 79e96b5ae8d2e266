/-
Transactions of the parent chain, whose coinbase carries the commitment to a
main-chain block.

There are two forms. The one with witnesses has a zero count and a flag where
the older form has the count of inputs; it is used when some input has a witness
or there are no inputs at all, since those would read as that zero count. The
name of a transaction never depends on its witnesses.
-/
import MergedMining.Wire.Format

namespace MergedMining.Parent

open Wire

/-- What a transaction spends, and its right to. -/
structure Input where
  transaction : Digest
  index : UInt32
  script : Bytes
  sequence : UInt32
  witness : List Bytes
  deriving DecidableEq, Repr

/-- What a transaction pays out. -/
structure Output where
  value : UInt64
  script : Bytes
  deriving DecidableEq, Repr

/-- A transaction of the parent chain. -/
structure Transaction where
  version : Int32
  inputs : List Input
  outputs : List Output
  lockTime : UInt32
  deriving DecidableEq, Repr

-- ================================================================ writing

/-- The part of an input that every form has. -/
def Input.bytes (i : Input) : Bytes :=
  i.transaction.bytes ++ writeU32 i.index ++ writeVarBytes i.script ++ writeU32 i.sequence

def Output.bytes (o : Output) : Bytes := writeU64 o.value ++ writeVarBytes o.script

def Input.witnessBytes (i : Input) : Bytes :=
  writeCount i.witness ++ i.witness.flatMap writeVarBytes

namespace Transaction

/-- The inputs and the outputs, each behind their count. -/
def bodyBytes (t : Transaction) : Bytes :=
  writeCount t.inputs ++ t.inputs.flatMap Input.bytes
    ++ (writeCount t.outputs ++ t.outputs.flatMap Output.bytes)

/-- The form without witnesses. -/
def legacyBytes (t : Transaction) : Bytes :=
  writeI32 t.version ++ t.bodyBytes ++ writeU32 t.lockTime

/-- Whether the form with witnesses is used. -/
def needsWitnessForm (t : Transaction) : Bool :=
  t.inputs.isEmpty || t.inputs.any (!·.witness.isEmpty)

/-- The bytes of a transaction, with its witnesses if it has any. -/
def bytes (t : Transaction) : Bytes :=
  if t.needsWitnessForm then
    writeI32 t.version ++ 0 :: 1 :: t.bodyBytes
      ++ (t.inputs.flatMap Input.witnessBytes ++ writeU32 t.lockTime)
  else t.legacyBytes

/-- The number of a transaction, which leaves its witnesses out. -/
def id (t : Transaction) : Digest := Digest.ofBytes t.legacyBytes

end Transaction

-- ================================================================ reading

/-- What the items of a witness may take together, their lengths included; also
the most items it may have. -/
def witnessLimit : Nat := 4000000

/-- A byte string behind its length. -/
def readScript : Reader Bytes := do Reader.bytes (← Reader.varUint).toNat

/-- Reads an input, which has no witness yet. -/
def readInput : Reader Input := do
  let transaction ← read
  let index ← Reader.u32
  let script ← readScript
  let sequence ← Reader.u32
  return { transaction, index, script, sequence, witness := [] }

def readOutput : Reader Output := do
  let value ← Reader.u64
  let script ← readScript
  return { value, script }

/-- A list of items behind their count, which nothing bounds but the input. -/
def readAll {α : Type} (item : Reader α) : Reader (List α) := do
  Reader.times (← Reader.varUint).toNat item

/-- Items of a witness, `used` being what the ones before take. -/
def readWitnessItems : (count used : Nat) → Reader (List Bytes)
  | 0, _ => pure []
  | count + 1, used => do
      let size ← Reader.varUint
      let total := used + size.toNat + (writeVarUint size).length
      if witnessLimit < total then throw .badParentCoinbase
      let item ← Reader.bytes size.toNat
      let others ← readWitnessItems count total
      return item :: others

def readWitness : Reader (List Bytes) := do
  let count ← Reader.varUint
  if witnessLimit < count.toNat then throw .badParentCoinbase
  readWitnessItems count.toNat 0

/-- Reads the witness of each input in turn. -/
def readWitnesses : List Input → Reader (List Input)
  | [] => pure []
  | input :: rest => do
      let witness ← readWitness
      let others ← readWitnesses rest
      return { input with witness } :: others

/-- A transaction in either form. The form with witnesses must have one that is not
empty, unless there are no inputs. -/
def readTransaction : Reader Transaction := do
  let version ← Reader.i32
  let inputs ← readAll readInput
  if inputs.isEmpty then
    let flag ← Reader.u8
    unless flag = 1 do throw .badParentCoinbase
    let bare ← readAll readInput
    let outputs ← readAll readOutput
    let inputs ← readWitnesses bare
    if !inputs.isEmpty && inputs.all (·.witness.isEmpty) then throw .badParentCoinbase
    let lockTime ← Reader.u32
    return { version, inputs, outputs, lockTime }
  else
    let outputs ← readAll readOutput
    let lockTime ← Reader.u32
    return { version, inputs, outputs, lockTime }

/-- A transaction that is refused is refused whole. -/
instance : Wire Transaction where
  write := Transaction.bytes
  read := Reader.foreign .badParentCoinbase readTransaction
  leastSize := 10

/-- A coinbase that pays nothing: the input that spends no output, and no script. -/
def Transaction.emptyCoinbase : Transaction where
  version := 1
  inputs := [{
    transaction := Digest.zero, index := 0xffffffff, script := [], sequence := 0xffffffff,
    witness := [] }]
  outputs := []
  lockTime := 0

end MergedMining.Parent
