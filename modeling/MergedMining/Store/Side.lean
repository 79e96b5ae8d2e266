/-
The side-chain store: withdraws seen on side chains that wait to be paid out on
the main chain, the unspent outputs of the addresses that are watched, and one
cursor for each chain.

Outputs are kept by transaction, index and chain. Recording an output that is
there already keeps what is there, and dropping one that is not there is no
failure, so a block can be handled twice.
-/
import MergedMining.Octets
import MergedMining.Store.Cursor
import MergedMining.Store.Numbered

namespace MergedMining

-- ================================================================ records

/-- A withdraw that waits to be paid out. -/
structure SideTx where
  hash : String
  genesis : String
  tx : Bytes
  blockHeight : UInt32
  deriving DecidableEq, Repr

/-- An output, and the height from which it can be spent. -/
structure SpendableOutput where
  transaction : String
  index : UInt16
  sequence : UInt32
  deriving DecidableEq, Repr

/-- An unspent output of an address that is watched. -/
structure Utxo where
  output : SpendableOutput
  /-- The amount, in units of 10⁻⁸. -/
  amount : Int64
  genesis : String
  address : String
  deriving DecidableEq, Repr

-- =================================================================== rows

/-- A withdraw as it lies in the file. -/
structure SideTxRow where
  hash : String
  genesis : String
  tx : Bytes
  blockHeight : Int
  deriving DecidableEq, Repr

namespace SideTxRow

def ofTx (t : SideTx) : SideTxRow := { t with blockHeight := t.blockHeight.toNat }

/-- What a row means. -/
def toTx (r : SideTxRow) : Except Store.Error SideTx := do
  return { r with blockHeight := ← Store.as32 "block_height" r.blockHeight }

/-- Whether two rows are of one transaction. -/
def clash (a b : SideTxRow) : Bool := a.hash = b.hash

/-- Rows go by the height of their block. -/
def before (a b : SideTxRow) : Bool := a.blockHeight ≤ b.blockHeight

end SideTxRow

/-- An output as it lies in the file. -/
structure UtxoRow where
  transaction : String
  index : Int
  sequence : Int
  amount : Int64
  genesis : String
  address : String
  deriving DecidableEq, Repr

namespace UtxoRow

def ofUtxo (u : Utxo) : UtxoRow where
  transaction := u.output.transaction
  index := u.output.index.toNat
  sequence := u.output.sequence.toNat
  amount := u.amount
  genesis := u.genesis
  address := u.address

/-- What a row means. -/
def toUtxo (r : UtxoRow) : Except Store.Error Utxo := do
  let index ← Store.as16 "input_index" r.index
  let sequence ← Store.as32 "input_sequence" r.sequence
  return {
    output := { transaction := r.transaction, index, sequence }
    amount := r.amount, genesis := r.genesis, address := r.address }

/-- What names an output: its transaction, its index, its chain. -/
def key (r : UtxoRow) : String × Int × String := (r.transaction, r.index, r.genesis)

/-- Whether two rows are of one output. -/
def clash (a b : UtxoRow) : Bool := a.key = b.key

/-- Rows go by transaction, then index, then chain. -/
def before (a b : UtxoRow) : Bool :=
  if a.transaction = b.transaction then
    if a.index = b.index then !decide (b.genesis < a.genesis) else a.index < b.index
  else a.transaction < b.transaction

end UtxoRow

-- ================================================================== store

/-- The tables of the side-chain store. -/
structure SideTables where
  cursors : Store.Cursors
  withdraws : Store.Numbered SideTxRow
  utxos : List UtxoRow
  deriving DecidableEq, Repr

instance : Tables SideTables := ⟨"side_chain", ⟨[], .empty, []⟩⟩

/-- A store of side chains. -/
abbrev SideStore := Store SideTables

namespace SideStore

open Store

/-- Moves a chain's cursor up; the value is where it stands. -/
def height (genesis : String) (height : UInt32) : Op SideTables UInt32 :=
  Cursors.move ⟨(·.cursors), fun t cursors => { t with cursors }⟩ genesis height

-- -------------------------------------------------------------- withdraws

def table : NumberedTable SideTables SideTxRow where
  get := (·.withdraws)
  set t withdraws := { t with withdraws }
  clash := SideTxRow.clash

/-- Adds a withdraw that is not there yet. -/
def add (tx : SideTx) : Op SideTables Unit := table.add (.ofTx tx) tx.hash

/-- Adds withdraws, and says of each whether it was new. -/
def addAll (txs : List SideTx) : Op SideTables (List Bool) := table.addAll (txs.map .ofTx)

/-- Whether a withdraw is there. -/
def contains (hash : String) : Op SideTables Bool :=
  .query fun t => .ok (t.withdraws.rows.any (·.hash = hash))

def removeAll (hashes : List String) : Op SideTables Unit :=
  table.removeAll (fun hash row => row.hash = hash) hashes

def remove (hash : String) : Op SideTables Unit := removeAll [hash]

/-- The withdraws of these transactions that are there. -/
def withHashes (hashes : List String) : Op SideTables (List SideTx) :=
  .query fun t =>
    (hashes.filterMap fun hash => t.withdraws.rows.find? (·.hash = hash)).mapM SideTxRow.toTx

/-- The withdraws of a chain, by the height of their block. -/
def ofChain (genesis : String) : Op SideTables (List SideTx) :=
  .query fun t =>
    let rows := t.withdraws.rows.filter (·.genesis = genesis)
    (Table.sorted SideTxRow.before rows).mapM SideTxRow.toTx

-- ---------------------------------------------------------------- outputs

/-- Records an output, unless it is there. -/
def addUtxo (utxo : Utxo) : Op SideTables Unit :=
  .update fun t => { t with utxos := (Table.insert UtxoRow.clash t.utxos (.ofUtxo utxo)).2 }

/-- Records outputs, leaving alone the ones that are there. -/
def addUtxos (utxos : List Utxo) : Op SideTables Unit :=
  .update fun t =>
    { t with utxos := (Table.insertAll UtxoRow.clash t.utxos (utxos.map .ofUtxo)).2 }

/-- Whether a row is that of an outpoint on a chain. -/
def isOutpoint (genesis : String) (outpoint : String × UInt16) (row : UtxoRow) : Bool :=
  row.key = (outpoint.1, (outpoint.2.toNat : Int), genesis)

/-- Drops an output that was spent, and says whether it was there. -/
def removeUtxo (transaction : String) (index : UInt16) (genesis : String) : Op SideTables Bool :=
  .transaction fun t =>
    let (found, utxos) := Table.delete (isOutpoint genesis (transaction, index)) t.utxos
    .commit found { t with utxos }

/-- Drops outputs that were spent, and says of each whether it was there. -/
def removeUtxos (outpoints : List (String × UInt16)) (genesis : String) :
    Op SideTables (List Bool) :=
  .transaction fun t =>
    let (found, utxos) := Table.deleteAll (isOutpoint genesis) t.utxos outpoints
    .commit found { t with utxos }

/-- The outputs of a kind, by transaction and index. -/
def utxosWhere (kind : UtxoRow → Bool) : Op SideTables (List Utxo) :=
  .query fun t => (Table.sorted UtxoRow.before (t.utxos.filter kind)).mapM UtxoRow.toUtxo

/-- The outputs of a chain. -/
def utxosOfChain (genesis : String) : Op SideTables (List Utxo) :=
  utxosWhere (·.genesis = genesis)

/-- The outputs paid to an address, on whatever chain. -/
def utxosOfAddress (address : String) : Op SideTables (List Utxo) :=
  utxosWhere (·.address = address)

end SideStore

end MergedMining
