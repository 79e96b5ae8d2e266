/-
A store's file, as somebody else counts and changes what is in it.

From outside a table goes by the name it has in the file, and so does a column.
Counting sees what was committed. A column of numbers can be set to one number in
all rows of a table, with no regard to what the number is to mean. While a
transaction is running the file is locked, and nothing can be changed.
-/
import MergedMining.Store.Main
import MergedMining.Store.Registry
import MergedMining.Store.Settled
import MergedMining.Store.Side

namespace MergedMining

/-- Tables of which the names in the file are known. -/
class Outside (τ : Type) where
  count (tables : τ) (table : String) : Nat
  overwrite (tables : τ) (table column : String) (value : Int) : τ

namespace Store

variable {τ : Type} [Outside τ]

/-- How many rows a table has in the file. -/
def countRows (s : Store τ) (table : String) : Nat := Outside.count s.file table

/-- Sets a column of a table to a number. -/
def overwrite (s : Store τ) (table column : String) (value : Int) : Store τ :=
  match s.link with
  | .unfinished _ => s
  | _ => { s with tables := Outside.overwrite s.tables table column value }

/-- Puts every cursor at a number that the program could not have chosen. -/
def Cursors.overwrite (value : Int) (cursors : Cursors) : Cursors :=
  cursors.map fun (chain, _) => (chain, value)

end Store

instance : Outside MainTables where
  count
    | t, "heights" => t.cursors.length
    | t, "main_chain_txs" => t.deposits.rows.length
    | _, _ => 0
  overwrite
    | t, "heights", "height", v => { t with cursors := t.cursors.overwrite v }
    | t, "main_chain_txs", "id", v => { t with deposits := t.deposits.renumber v }
    | t, _, _, _ => t

instance : Outside SideTables where
  count
    | t, "heights" => t.cursors.length
    | t, "side_chain_txs" => t.withdraws.rows.length
    | t, "address_utxos" => t.utxos.length
    | _, _ => 0
  overwrite
    | t, "heights", "height", v => { t with cursors := t.cursors.overwrite v }
    | t, "side_chain_txs", "id", v => { t with withdraws := t.withdraws.renumber v }
    | t, "side_chain_txs", "block_height", v =>
        { t with withdraws := t.withdraws.map ({ · with blockHeight := v }) }
    | t, "address_utxos", "input_index", v =>
        { t with utxos := t.utxos.map ({ · with index := v }) }
    | t, "address_utxos", "input_sequence", v =>
        { t with utxos := t.utxos.map ({ · with sequence := v }) }
    | t, "address_utxos", "amount", v =>
        { t with utxos := t.utxos.map ({ · with amount := Int64.ofInt v }) }
    | t, _, _, _ => t

instance : Outside SettledTables where
  count
    | t, "deposit_txs" => t.deposits.rows.length
    | t, "withdraw_txs" => t.withdraws.rows.length
    | t, "side_chain_txs" => t.payouts.length
    | _, _ => 0
  overwrite
    | t, "deposit_txs", "id", v => { t with deposits := t.deposits.renumber v }
    | t, "deposit_txs", "succeeded", v =>
        { t with deposits := t.deposits.map ({ · with succeeded := v }) }
    | t, "withdraw_txs", "id", v => { t with withdraws := t.withdraws.renumber v }
    | t, "withdraw_txs", "succeeded", v =>
        { t with withdraws := t.withdraws.map ({ · with succeeded := v }) }
    | t, "withdraw_txs", "side_chain_tx_id", v =>
        { t with withdraws := t.withdraws.map ({ · with payout := v }) }
    | t, _, _, _ => t

instance : Outside RegistryTables where
  count
    | t, "registered_side_chains" => t.chains.rows.length
    | _, _ => 0
  overwrite
    | t, "registered_side_chains", "id", v => ⟨t.chains.renumber v⟩
    | t, "registered_side_chains", "height", v => ⟨t.chains.map ({ · with height := v })⟩
    | t, _, _, _ => t

end MergedMining
