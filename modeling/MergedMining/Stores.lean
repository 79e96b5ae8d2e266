/-
The four stores together: opened at the start, reported on, closed at the end.

They are opened in a fixed order, and each registers its release when it is
open, so that closing happens in that order too. The report says where the
stores left off. It goes through them in order and stops at the first that fails;
what it said until then stays said.
-/
import MergedMining.Config
import MergedMining.Store.Main
import MergedMining.Store.Registry
import MergedMining.Store.Settled
import MergedMining.Store.Shutdown
import MergedMining.Store.Side

namespace MergedMining

/-- The four stores. -/
inductive StoreKind where
  | main
  | side
  | settled
  | registry
  deriving DecidableEq, Repr

/-- The stores, and what is to be released in the end. -/
structure Stores where
  main : MainStore
  side : SideStore
  settled : SettledStore
  registry : Registry
  releases : Releases StoreKind

namespace Stores

/-- The main-chain store among the stores. -/
def mainPart : Part Stores MainStore := ⟨(·.main), fun s main => { s with main }⟩

/-- The side-chain store among the stores. -/
def sidePart : Part Stores SideStore := ⟨(·.side), fun s side => { s with side }⟩

/-- The settled store among the stores. -/
def settledPart : Part Stores SettledStore := ⟨(·.settled), fun s settled => { s with settled }⟩

/-- The registry among the stores. -/
def registryPart : Part Stores Registry := ⟨(·.registry), fun s registry => { s with registry }⟩

-- ================================================================= opening

/-- What is found in the directory of the stores. -/
structure Places where
  dataDir : String
  usable : Bool
  main : Store.Place MainTables
  side : Store.Place SideTables
  settled : Store.Place SettledTables
  registry : Store.Place RegistryTables

/-- A directory with nothing in it. -/
def Places.fresh (dataDir : String) : Places := ⟨dataDir, true, .free, .free, .free, .free⟩

/-- Why the stores cannot be opened. -/
inductive OpenError where
  | dataDir (dir : String)
  | store (kind : StoreKind) (cause : Store.Error)
  deriving DecidableEq, Repr

/-- What is said of stores that could not be opened. -/
def OpenError.message : OpenError → String
  | .dataDir dir => "Failed to create data dir " ++ dir
  | .store .main _ => "Failed to open main chain store"
  | .store .side _ => "Failed to open side chain store"
  | .store .settled _ => "Failed to open finished tx store"
  | .store .registry _ => "Failed to open registered side chain store"

/-- Opens the stores in turn; the first that cannot be opened is reported. -/
def openAt (p : Places) : Except OpenError Stores := do
  unless p.usable do throw (.dataDir p.dataDir)
  let main ← (Store.openAt p.main).mapError (.store .main)
  let side ← (Store.openAt p.side).mapError (.store .side)
  let settled ← (Store.openAt p.settled).mapError (.store .settled)
  let registry ← (Store.openAt p.registry).mapError (.store .registry)
  let releases := [.main, .side, .settled, .registry].foldl Releases.register .none
  return { main, side, settled, registry, releases }

/-- What the stores leave in their directory. -/
def places (s : Stores) (dataDir : String) : Places where
  dataDir := dataDir
  usable := true
  main := .file s.main.file
  side := .file s.side.file
  settled := .file s.settled.file
  registry := .file s.registry.file

-- ================================================================= closing

/-- Closes one of the stores. -/
def close (kind : StoreKind) (s : Stores) : Stores :=
  match kind with
  | .main => mainPart.modify Store.close s
  | .side => sidePart.modify Store.close s
  | .settled => settledPart.modify Store.close s
  | .registry => registryPart.modify Store.close s

/-- Closes what is registered to be closed. -/
def shutdown (s : Stores) : Stores :=
  let (closed, releases) := s.releases.shutdown (fun kind s => (close kind s, [])) s
  { closed with releases }

-- ================================================================== report

/-- What is reported on when the stores are open. -/
inductive Event where
  | mainStore (height : UInt32) (pending : Nat)
  | sideCursor (chain : String) (height : UInt32)
  | failedSettlements (deposits withdraws : Nat)
  | registered (chain : String) (genesis : Digest)
  | unregistered (chain : String) (genesis : Digest)
  deriving DecidableEq, Repr

namespace Event

/-- Whether somebody should look at it. -/
def isWarning : Event → Bool
  | .failedSettlements .. | .unregistered .. => true
  | _ => false

/-- The words of an event. -/
def message : Event → String
  | .mainStore .. => "main chain store"
  | .sideCursor .. => "side chain cursor"
  | .failedSettlements .. => "finished store holds failed settlements"
  | .registered .. => "side chain registered"
  | .unregistered .. => "side chain not registered on the main chain"

/-- The names and values that an event comes with. -/
def fields : Event → List (String × String)
  | .mainStore height pending =>
      [("main_height", toString height), ("pending_deposits", toString pending)]
  | .sideCursor chain height => [("chain", chain), ("height", toString height)]
  | .failedSettlements deposits withdraws =>
      [("failed_deposits", toString deposits), ("failed_withdraws", toString withdraws)]
  | .registered chain genesis | .unregistered chain genesis =>
      [("chain", chain), ("genesis", genesis.text)]

end Event

/-- A report on the stores, which may fail and keeps what was said before. -/
abbrev Report (α : Type) := ExceptT Store.Error (StateM (Stores × List Event)) α

namespace Report

variable {α τ : Type}

/-- Reports an event. -/
def say (e : Event) : Report Unit := modify fun (s, said) => (s, said ++ [e])

/-- Calls one of the stores. -/
def ask (part : Part Stores (Store τ)) (op : Store.Op τ α) : Report α :=
  ExceptT.mk fun (s, said) =>
    let (outcome, store) := (part.get s).run op
    (outcome, part.set s store, said)

end Report

/-- Reports on the stores with regard to the side chains served. -/
def report (chains : List SideChain) : Report Unit := do
  let height ← Report.ask mainPart (MainStore.height 0)
  let pending ← Report.ask mainPart MainStore.keys
  Report.say (.mainStore height pending.length)
  for c in chains do
    let height ← Report.ask sidePart (SideStore.height c.address 0)
    Report.say (.sideCursor c.name height)
  let deposits ← Report.ask settledPart (SettledStore.deposits false)
  let withdraws ← Report.ask settledPart (SettledStore.withdraws false)
  unless deposits.isEmpty && withdraws.isEmpty do
    Report.say (.failedSettlements deposits.length withdraws.length)
  for c in chains do
    let there ← Report.ask registryPart (Registry.contains c.genesis.text)
    Report.say (if there then .registered c.name c.genesis else .unregistered c.name c.genesis)

/-- Runs a report: whether it came to its end, the stores afterwards, and what it said. -/
def reported (s : Stores) (chains : List SideChain) :
    Except Store.Error Unit × Stores × List Event :=
  (report chains).run.run (s, [])

end Stores

end MergedMining
