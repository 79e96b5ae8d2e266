/-
Tracking what the watched addresses of a side chain can spend.

Each block first records the outputs that it pays to a watched address and then
drops the outputs that it spends, both in one go. Recording what is there and
dropping what is not there change nothing, so a block can be handled again. An
output whose amount is no amount is passed over, so that no block can hold up
the cursor.
-/
import MergedMining.Amount
import MergedMining.CatchUp
import MergedMining.MainChain.Payload
import MergedMining.Store.Side

namespace MergedMining.Sync

open CatchUp

/-- A side chain whose outputs are tracked. -/
structure Tracker where
  name : String
  /-- The address of the chain's first block, under which the store knows it. -/
  address : String
  monitored : List String
  /-- How many blocks deep a coinbase has to lie before it can be spent. -/
  maturity : UInt32
  deriving DecidableEq, Repr

/-- What a block does to the rows of a chain. -/
inductive Effect where
  | record (utxos : List Utxo)
  | drop (outpoints : List (String × UInt16))
  deriving DecidableEq, Repr

/-- The sum of two heights, or the largest height. -/
def addHeights (a b : UInt32) : UInt32 := UInt32.ofNat (min (a.toNat + b.toNat) (2 ^ 32 - 1))

namespace Tracker

variable (t : Tracker)

/-- The height from which an output can be spent. -/
def spendableFrom (height : UInt32) (tx : Node.Transaction) (output : Node.Output) : UInt32 :=
  if tx.kind = MainChain.Kind.coinbase then addHeights height t.maturity else output.lock

/-- What is recorded of an output. -/
def utxo? (height : UInt32) (tx : Node.Transaction) (output : Node.Output) : Option Utxo :=
  if output.address ∈ t.monitored then
    match Amount.parse output.value with
    | .ok amount => some {
        output := {
          transaction := tx.id, index := output.index
          sequence := t.spendableFrom height tx output }
        amount, genesis := t.address, address := output.address }
    | .error _ => none
  else none

/-- The outputs of a block that are recorded. -/
def received (block : Node.Block) : List Utxo :=
  block.transactions.flatMap fun tx => tx.outputs.filterMap (t.utxo? block.height tx)

/-- The outputs that a block spends. -/
def spent (block : Node.Block) : List (String × UInt16) :=
  block.transactions.flatMap fun tx => tx.inputs.map fun i => (i.transaction, i.index)

/-- The effects of a block. Nothing is written for nothing. -/
def effects (block : Node.Block) : List Effect :=
  let received := t.received block
  let spent := spent block
  (if received.isEmpty then [] else [.record received])
    ++ (if spent.isEmpty then [] else [.drop spent])

/-- The call of the store that an effect is. -/
def apply : Effect → Store.Op SideTables Unit
  | .record utxos => SideStore.addUtxos utxos
  | .drop outpoints => (fun _ => ()) <$> SideStore.removeUtxos outpoints t.address

/-- Follows the chain with a side-chain store. Every block can be handled. -/
def follower : Follower SideStore Node.Block Effect Empty where
  cursor height := Store.attempt (SideStore.height t.address height)
  heightOf block := block.height
  plan block := .ok (t.effects block)
  act effect store :=
    match store.attempt (t.apply effect) with
    | .ok (_, store) => .done store
    | .error cause => .failed (.store cause)
  interruptible := false
  fatal _ := false

end Tracker

/-- What is said of a tick that failed. -/
def message : CatchUp.Error Empty → String
  | .rpc cause => "rpc: " ++ cause.message
  | .store cause => "store: " ++ cause.message
  | .wrongHeight expected found => s!"asked for block {expected}, node returned {found}"

end MergedMining.Sync
