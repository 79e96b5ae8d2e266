/-
JSON forms of what the stores hold.

On display the output that an unspent amount lies on stands beside the amount
and not in a record of its own.
-/
import MergedMining.Json.Form
import MergedMining.Store.Main
import MergedMining.Store.Registry
import MergedMining.Store.Settled
import MergedMining.Store.Side

namespace MergedMining.JsonForm

instance : JsonForm MainTx where
  write d t := .record [field d "tx_hash" t.hash, field d "genesis_block_address" t.genesis,
    field d "tx" t.tx, field d "merkle_proof" t.proof]
  read d v := do
    let r ← fields ["tx_hash", "genesis_block_address", "tx", "merkle_proof"] v
    return {
      hash := ← get d r "tx_hash", genesis := ← get d r "genesis_block_address"
      tx := ← get d r "tx", proof := ← get d r "merkle_proof" }

instance : JsonForm SideTx where
  write d t := .record [field d "tx_hash" t.hash, field d "genesis_block_address" t.genesis,
    field d "tx" t.tx, field d "block_height" t.blockHeight]
  read d v := do
    let r ← fields ["tx_hash", "genesis_block_address", "tx", "block_height"] v
    return {
      hash := ← get d r "tx_hash", genesis := ← get d r "genesis_block_address"
      tx := ← get d r "tx", blockHeight := ← get d r "block_height" }

/-- The fields of a spendable output. -/
def outputFields (d : Dialect) (o : SpendableOutput) : List (String × JsonValue) :=
  [field d "tx_id" o.transaction, field d "index" o.index, field d "sequence" o.sequence]

instance : JsonForm SpendableOutput where
  write d o := .record (outputFields d o)
  read d v := do
    let r ← fields ["tx_id", "index", "sequence"] v
    return {
      transaction := ← get d r "tx_id", index := ← get d r "index"
      sequence := ← get d r "sequence" }

instance : JsonForm Utxo where
  write d u :=
    let output :=
      match d with
      | .plain => [field d "input" u.output]
      | .display => outputFields d u.output
    .record (output ++ [field d "amount" u.amount, field d "genesis_block_address" u.genesis,
      field d "destroy_address" u.address])
  read d v := do
    let r ← fields ["input", "amount", "genesis_block_address", "destroy_address"] v
    let output : SpendableOutput ←
      match d with
      | .plain => get d r "input"
      | .display => read d v
    return {
      output, amount := ← get d r "amount", genesis := ← get d r "genesis_block_address"
      address := ← get d r "destroy_address" }

instance : JsonForm Deposit where
  write d t := .record [field d "tx_hash" t.hash, field d "genesis_block_address" t.genesis,
    field d "succeeded" t.succeeded]
  read d v := do
    let r ← fields ["tx_hash", "genesis_block_address", "succeeded"] v
    return {
      hash := ← get d r "tx_hash", genesis := ← get d r "genesis_block_address"
      succeeded := ← get d r "succeeded" }

instance : JsonForm Withdraw where
  write d w := .record [field d "tx_hash" w.hash, field d "side_chain_tx" w.payout,
    field d "succeeded" w.succeeded]
  read d v := do
    let r ← fields ["tx_hash", "side_chain_tx", "succeeded"] v
    return {
      hash := ← get d r "tx_hash", payout := ← get d r "side_chain_tx"
      succeeded := ← get d r "succeeded" }

instance : JsonForm Registration where
  write d r := .record [field d "tx_hash" r.hash, field d "genesis_block_hash" r.genesis,
    field d "register_info" r.info, field d "height" r.height]
  read d v := do
    let r ← fields ["tx_hash", "genesis_block_hash", "register_info", "height"] v
    return {
      hash := ← get d r "tx_hash", genesis := ← get d r "genesis_block_hash"
      info := ← get d r "register_info", height := ← get d r "height" }

end MergedMining.JsonForm
