/-
The registry: the side chains that were registered on the main chain.

A chain registers once, and a transaction registers one chain.
-/
import MergedMining.Octets
import MergedMining.Store.Numbered

namespace MergedMining

/-- A side chain that was registered. -/
structure Registration where
  hash : String
  /-- The first block of the chain. -/
  genesis : String
  info : Bytes
  height : UInt32
  deriving DecidableEq, Repr

/-- A registration as it lies in the file. -/
structure RegistrationRow where
  hash : String
  genesis : String
  info : Bytes
  height : Int
  deriving DecidableEq, Repr

namespace RegistrationRow

def ofRegistration (r : Registration) : RegistrationRow := { r with height := r.height.toNat }

/-- What a row means. -/
def toRegistration (r : RegistrationRow) : Except Store.Error Registration := do
  return { r with height := ← Store.as32 "height" r.height }

/-- Whether two rows are of one transaction or of one chain. -/
def clash (a b : RegistrationRow) : Bool := a.hash = b.hash || a.genesis = b.genesis

/-- Rows go by height. -/
def before (a b : RegistrationRow) : Bool := a.height ≤ b.height

end RegistrationRow

/-- The table of the registry. -/
structure RegistryTables where
  chains : Store.Numbered RegistrationRow
  deriving DecidableEq, Repr

instance : Tables RegistryTables := ⟨"registered_side_chains", ⟨.empty⟩⟩

/-- A store of registered side chains. -/
abbrev Registry := Store RegistryTables

namespace Registry

open Store

def table : NumberedTable RegistryTables RegistrationRow where
  get := (·.chains)
  set _ chains := ⟨chains⟩
  clash := RegistrationRow.clash

/-- Registers a chain that is not registered yet. -/
def add (chain : Registration) : Op RegistryTables Unit :=
  table.add (.ofRegistration chain) chain.genesis

/-- Registers chains, and says of each whether it was new. -/
def addAll (chains : List Registration) : Op RegistryTables (List Bool) :=
  table.addAll (chains.map .ofRegistration)

/-- The registration of a chain, named by its first block. -/
def find? (genesis : String) : Op RegistryTables (Option Registration) :=
  .query fun t => (t.chains.rows.find? (·.genesis = genesis)).mapM RegistrationRow.toRegistration

/-- Whether a chain is registered. -/
def contains (genesis : String) : Op RegistryTables Bool := Option.isSome <$> find? genesis

/-- All registrations, in the order of their rows. -/
def all : Op RegistryTables (List Registration) :=
  .query fun t =>
    (Table.sorted RegistrationRow.before t.chains.rows).mapM RegistrationRow.toRegistration

def removeAll (genesis : List String) : Op RegistryTables Unit :=
  table.removeAll (fun chain row => row.genesis = chain) genesis

def remove (genesis : String) : Op RegistryTables Unit := removeAll [genesis]

end Registry

end MergedMining
