/-
The side chains that are served, tracked side by side on one store.

Each has a loop of its own and knows nothing of the others. What they have in common is
the store, of which a step makes one call at the most. In what order the loops take
their steps is up to nobody here: it comes in as a list of turns, and with each turn
what its step meets outside.
-/
import MergedMining.Config
import MergedMining.Sync

namespace MergedMining

open CatchUp

/-- What is tracked of a side chain. -/
def SideChain.tracker (chain : SideChain) (maturity : UInt32) : Sync.Tracker where
  name := chain.name
  address := chain.address
  monitored := chain.monitored
  maturity

/-- The trackers of the side chains, in the order in which these are listed. -/
def Config.trackers (c : Config) : List Sync.Tracker := c.sideChains.map (·.tracker c.maturity)

/-- A tracker, and how far its loop is. -/
structure Syncer where
  tracker : Sync.Tracker
  loop : Loop Sync.Effect Empty

/-- The loops of several side chains on one store. -/
structure Tracking where
  store : SideStore
  syncers : List Syncer

namespace Tracking

/-- Every loop begins. -/
def start (trackers : List Sync.Tracker) (store : SideStore) : Tracking where
  store
  syncers := trackers.map fun tracker => ⟨tracker, .ticking .ask⟩

/-- The loop of the side chain at this position takes a step. -/
structure Turn where
  position : Nat
  now : Moment Node.Block

/-- One turn: the loop of one chain takes a step on the store that they share. -/
def step (s : Tracking) (turn : Turn) : Tracking :=
  match s.syncers[turn.position]? with
  | some syncer =>
      let (store, loop) := syncer.loop.step syncer.tracker.follower turn.now s.store
      { store, syncers := s.syncers.set turn.position { syncer with loop } }
  | none => s

/-- What turns leave, one after the other. -/
def run (turns : List Turn) (s : Tracking) : Tracking := turns.foldl step s

end Tracking

end MergedMining
