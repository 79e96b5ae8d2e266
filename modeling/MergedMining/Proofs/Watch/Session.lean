/-
Histories of a watcher: ticks that are called one after the other on one store, with
whatever can come between two of their steps.

Between any two steps a tick can be dropped and another be called, the call of the store
that is at hand can fail, the store can be closed, and the program can die and be started
again on its file. The queue belongs to others as well: what waits in it can be received,
the receiver can go away, and there can be another queue. Of the node it is only asked
that it does not lie about the block it is asked for and reports no height that would
send the cursor back.

Beside the world and the tick a session keeps what happened, call by call.
-/
import MergedMining.Proofs.Watch.Moves

namespace MergedMining.Watch

open CatchUp Store

-- ================================================================== sessions

/-- What the watcher works on, and what it did so far. -/
structure Session where
  world : World
  tick : Tick Notification Failure
  /-- What happened in the calls before this one, the first first. -/
  earlier : List (List Event)
  /-- What happened in the call that goes on. -/
  call : List Event

namespace Session

/-- A program that was just started on these tables. -/
def started (tables : MainTables) (channel : Channel Notification) : Session :=
  ⟨⟨⟨tables, .steady⟩, channel⟩, .ask, [], []⟩

/-- The cursor of the main chain as the program sees it. -/
def cursor (s : Session) : Except Store.Error UInt32 :=
  s.world.store.tables.cursors.stored MainStore.chain

/-- All that happened so far. -/
def log (s : Session) : List Event := s.earlier.flatten ++ s.call

-- ===================================================================== turns

/-- What happens next. -/
inductive Turn where
  /-- The tick takes a step. -/
  | step (now : Moment MainChain.Block)
  /-- The call of the store that is at hand fails and commits nothing. -/
  | fails (cause : Store.Error)
  /-- A tick is called; the one before it is dropped, if it is not over. -/
  | call
  /-- Others do something with the queue, or it is another one. -/
  | channel (channel : Channel Notification)
  /-- The store is closed. -/
  | close
  /-- The program dies and is started again on the file. -/
  | restart

/-- The tick takes a step, and what happens is kept. -/
def step (served : List Digest) (now : Moment MainChain.Block) (s : Session) : Session :=
  let (world, tick) := s.tick.step (follower served) now s.world
  { s with world, tick, call := s.call ++ events s.world s.tick world tick }

/-- The next tick is called. -/
def again (s : Session) : Session :=
  { s with tick := .ask, earlier := s.earlier ++ [s.call], call := [] }

/-- What a turn leaves. -/
def turn (served : List Digest) (s : Session) : Turn → Session
  | .step now => s.step served now
  | .fails cause => { s with tick := .over (.error (.store cause)) }
  | .call => s.again
  | .channel channel => { s with world := { s.world with channel } }
  | .close => { s with world := { s.world with store := s.world.store.close } }
  | .restart => { s.again with world := { s.world with store := s.world.store.reopen } }

/-- The node reports no height that would send the cursor back, and vouches for the chain. -/
def Turn.Honest (chain : Chain) (s : Session) : Turn → Prop
  | .step now =>
      (∀ reported, now.height = .arrived reported → reported ≠ resetHeight)
        ∧ chain.Vouches now s.tick
  | _ => True

/-- The sessions that turns lead to. -/
inductive Reaches (served : List Digest) (chain : Chain) (first : Session) : Session → Prop where
  | refl : Reaches served chain first first
  | turn {s : Session} (before : Reaches served chain first s) (turn : Turn)
      (honest : turn.Honest chain s) : Reaches served chain first (s.turn served turn)

/-- A step at a node that reports so many blocks and answers with the block of this height. -/
def answer (chain : Chain) (reported height : UInt32) : Turn :=
  .step ⟨.arrived reported, .arrived (chain.block height), false⟩

/-- The sessions that a node leads to which answers with these blocks in turn. -/
theorem Reaches.answers {served : List Digest} {chain : Chain} {reported : UInt32}
    {first s : Session} (hs : Reaches served chain first s) (hreported : reported ≠ resetHeight)
    (heights : List UInt32) :
    Reaches served chain first
      ((heights.map (answer chain reported)).foldl (Session.turn served) s) := by
  induction heights generalizing s with
  | nil => exact hs
  | cons height heights ih =>
      have honest : (answer chain reported height).Honest chain s := by
        refine ⟨?_, chain.vouches_block rfl _⟩
        rintro _ ⟨⟩
        exact hreported
      exact ih (hs.turn _ honest)

end Session

end MergedMining.Watch
