/-
The main-chain store: deposits seen on the main chain that wait to be sent to a
side chain, and the main chain's cursor.

A deposit is named by its transaction and the side chain it goes to, since one
transaction can deposit on several chains.
-/
import MergedMining.Octets
import MergedMining.Store.Cursor
import MergedMining.Store.Numbered

namespace MergedMining

/-- A deposit that waits to be sent to a side chain. -/
structure MainTx where
  hash : String
  genesis : String
  tx : Bytes
  proof : Bytes
  deriving DecidableEq, Repr

/-- The transaction and the chain that name a deposit. -/
def MainTx.key (t : MainTx) : String × String := (t.hash, t.genesis)

/-- Whether two deposits are named alike. -/
def MainTx.clash (a b : MainTx) : Bool := a.key = b.key

/-- The tables of the main-chain store. -/
structure MainTables where
  cursors : Store.Cursors
  deposits : Store.Numbered MainTx
  deriving DecidableEq, Repr

instance : Tables MainTables := ⟨"main_chain", ⟨[], .empty⟩⟩

/-- A store of the main chain. -/
abbrev MainStore := Store MainTables

namespace MainStore

open Store

/-- The key under which the main chain's cursor is kept. -/
def chain : String := "main"

def table : NumberedTable MainTables MainTx where
  get := (·.deposits)
  set t deposits := { t with deposits }
  clash := MainTx.clash

/-- Moves the main chain's cursor up; the value is where it stands. -/
def height (height : UInt32) : Op MainTables UInt32 :=
  Cursors.move ⟨(·.cursors), fun t cursors => { t with cursors }⟩ chain height

/-- Adds a deposit that is not there yet. -/
def add (tx : MainTx) : Op MainTables Unit := table.add tx s!"{tx.hash} ({tx.genesis})"

/-- Adds deposits, and says of each whether it was new. -/
def addAll (txs : List MainTx) : Op MainTables (List Bool) := table.addAll txs

/-- Whether there is a deposit of this transaction for a chain. -/
def contains (hash genesis : String) : Op MainTables Bool :=
  .query fun t => .ok (t.deposits.rows.any (·.key = (hash, genesis)))

def removeAll (keys : List (String × String)) : Op MainTables Unit :=
  table.removeAll (fun key row => row.key = key) keys

def remove (hash genesis : String) : Op MainTables Unit := removeAll [(hash, genesis)]

def keys : Op MainTables (List (String × String)) :=
  .query fun t => .ok (t.deposits.rows.map MainTx.key)

/-- All deposits, in the order they were added. -/
def all : Op MainTables (List MainTx) := .query fun t => .ok t.deposits.rows

/-- The deposits of each transaction, whatever chain they go to. -/
def withHashes (hashes : List String) : Op MainTables (List MainTx) :=
  .query fun t => .ok (hashes.flatMap fun hash => t.deposits.rows.filter (·.hash = hash))

end MainStore

end MergedMining
