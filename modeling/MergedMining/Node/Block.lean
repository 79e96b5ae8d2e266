/-
Blocks of a side chain, as its node describes them.

A node tells of a transaction what it spends and whom it pays. Amounts are text,
since a node writes them as decimals.
-/
import MergedMining.Json.Form

namespace MergedMining.Node

/-- What a transaction of a side chain spends, as its node writes it. -/
structure Input where
  transaction : String
  index : UInt16
  sequence : UInt32
  deriving DecidableEq, Repr

/-- What a transaction of a side chain pays out, as its node writes it. -/
structure Output where
  value : String
  index : UInt16
  address : String
  /-- The height from which it can be spent. -/
  lock : UInt32
  deriving DecidableEq, Repr

/-- A transaction of a side chain. -/
structure Transaction where
  id : String
  kind : UInt8
  inputs : List Input
  outputs : List Output
  deriving DecidableEq, Repr

/-- A block of a side chain, as its node writes it. -/
structure Block where
  hash : String
  height : UInt32
  transactions : List Transaction
  deriving DecidableEq, Repr

-- ============================================================= JSON forms

open JsonForm

instance : JsonForm Input where
  write d i := .record [field d "txid" i.transaction, field d "vout" i.index,
    field d "sequence" i.sequence]
  read d v := do
    let r ← fields ["txid", "vout", "sequence"] v
    return {
      transaction := ← get d r "txid", index := ← get d r "vout"
      sequence := ← getD d r "sequence" 0 }

instance : JsonForm Output where
  write d o := .record [field d "value" o.value, field d "n" o.index, field d "address" o.address,
    field d "outputlock" o.lock]
  read d v := do
    let r ← fields ["value", "n", "address", "outputlock"] v
    return {
      value := ← get d r "value", index := ← get d r "n", address := ← get d r "address"
      lock := ← getD d r "outputlock" 0 }

instance : JsonForm Transaction where
  write d t := .record [field d "txid" t.id, field d "type" t.kind, field d "vin" t.inputs,
    field d "vout" t.outputs]
  read d v := do
    let r ← fields ["txid", "type", "vin", "vout"] v
    return {
      id := ← get d r "txid", kind := ← get d r "type", inputs := ← getD d r "vin" []
      outputs := ← getD d r "vout" [] }

instance : JsonForm Block where
  write d b := .record [field d "hash" b.hash, field d "height" b.height,
    field d "tx" b.transactions]
  read d v := do
    let r ← fields ["hash", "height", "tx"] v
    return {
      hash := ← get d r "hash", height := ← get d r "height"
      transactions := ← getD d r "tx" [] }

end MergedMining.Node
