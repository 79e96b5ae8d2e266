/-
Runs of a tracker: ticks that are called one after the other on one store, with
whatever can come between two of their steps.

Between any two steps a tick can be dropped and another be called, the call of the
store that is at hand can fail, the store can be closed, and the program can die
and be started again on its file. What the node answers is not chosen by the
tracker either, but a node does not lie: a block of the height that was asked for
is the chain's block of that height. Answers of other heights can be anything.

Beside the store and the tick, a session keeps which effects of the block at the
cursor were done since the cursor came there. If there are none, the block was not
started.
-/
import MergedMining.Sync

namespace MergedMining.Sync

open CatchUp Store

-- ==================================================================== chains

/-- A side chain: a block for every height. -/
structure Chain where
  block : UInt32 → Node.Block
  height_block : ∀ height, (block height).height = height

-- ================================================================== sessions

/-- A store, and the tick that works on it. -/
structure Session where
  store : SideStore
  tick : Tick Effect Empty
  /-- The effects of the block at the cursor that were done since the cursor came there. -/
  written : List Effect

namespace Session

/-- A program that was just started on these tables. -/
def started (tables : SideTables) : Session := ⟨⟨tables, .steady⟩, .ask, []⟩

/-- The rows of outputs as the program sees them. -/
def rows (s : Session) : List UtxoRow := s.store.tables.utxos

/-- The cursor of a chain as the program sees it. -/
def cursor (s : Session) (address : String) : Except Store.Error UInt32 :=
  s.store.tables.cursors.stored address

end Session

-- ===================================================================== turns

/-- What happens next. -/
inductive Turn where
  /-- The tick takes a step. -/
  | step (now : Moment Node.Block)
  /-- The call of the store that is at hand fails and commits nothing. -/
  | fails (cause : Store.Error)
  /-- A tick is called; the one before it is dropped, if it is not over. -/
  | call
  /-- The store is closed. -/
  | close
  /-- The program dies and is started again on the file. -/
  | restart

namespace Tracker

variable (t : Tracker)

/-- A tick takes a step, and what it wrote of the block at hand is kept in mind. -/
def step (now : Moment Node.Block) (s : Session) : Session :=
  let (store, tick) := s.tick.step t.follower now s.store
  { store, tick
    written :=
      match s.tick, tick with
      | .act _ (effect :: _), .act .. => s.written ++ [effect]
      | .act _ [], .over (.error _) => s.written
      | .act _ [], _ => []
      | _, _ => s.written }

/-- What a turn leaves. -/
def turn (s : Session) : Turn → Session
  | .step now => t.step now s
  | .fails cause => { s with tick := .over (.error (.store cause)) }
  | .call => { s with tick := .ask }
  | .close => { s with store := s.store.close }
  | .restart => { s with store := s.store.reopen, tick := .ask }

end Tracker

/-- The node reports no height that would send the cursor back, and its block of the height
that was asked for is the chain's. -/
def Turn.Honest (chain : Chain) (s : Session) : Turn → Prop
  | .step now =>
      (∀ reported, now.height = .arrived reported → reported ≠ resetHeight)
        ∧ ∀ span block, s.tick = .fetch span → now.block = .arrived block →
          block.height = span.current → block = chain.block span.current
  | _ => True

/-- The sessions that turns lead to. -/
inductive Tracker.Reaches (t : Tracker) (chain : Chain) (first : Session) : Session → Prop where
  | refl : t.Reaches chain first first
  | turn {s : Session} (before : t.Reaches chain first s) (turn : Turn)
      (honest : turn.Honest chain s) : t.Reaches chain first (t.turn s turn)

-- ============================================================ answers of a chain

/-- The node answers with its number of blocks, or with the block of this height. -/
def Chain.answer (chain : Chain) (reported height : UInt32) : Turn :=
  .step ⟨.arrived reported, .arrived (chain.block height), false⟩

/-- A node that answers from its chain is honest, whatever it is asked. -/
theorem Chain.honest_answer (chain : Chain) {reported : UInt32} (hreported : reported ≠ resetHeight)
    (height : UInt32) (s : Session) : (chain.answer reported height).Honest chain s := by
  constructor
  · rintro _ ⟨⟩
    exact hreported
  · rintro span _ - ⟨⟩ hheight
    rw [chain.height_block] at hheight
    rw [hheight]

/-- The sessions that a node leads to which answers with these blocks in turn. -/
theorem Tracker.Reaches.answers {t : Tracker} {chain : Chain} {reported : UInt32}
    {first s : Session} (hs : t.Reaches chain first s) (hreported : reported ≠ resetHeight)
    (heights : List UInt32) :
    t.Reaches chain first ((heights.map (chain.answer reported)).foldl t.turn s) := by
  induction heights generalizing s with
  | nil => exact hs
  | cons height heights ih => exact ih (hs.turn _ (chain.honest_answer hreported height s))

end MergedMining.Sync
