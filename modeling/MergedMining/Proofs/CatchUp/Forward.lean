/-
The two followers move forward and come to an end.

Tracking a side chain never waits: the store takes an effect or the tick is over. A
watcher waits when its queue is full, for as long as nobody receives anything. Both
pass on the height behind a block to their store, and no node is kept from reporting
the one height that stores take for something else. Then the cursor goes back to zero
at the top, and the tick goes on from there.
-/
import MergedMining.Proofs.CatchUp.Run
import MergedMining.Proofs.Sync.Convergence
import MergedMining.Proofs.Watch.Moves

namespace MergedMining

open CatchUp Store

-- ==================================================================== trackers

namespace Sync.Tracker

variable (t : Tracker) {effect : Effect} {store after : SideStore}

/-- The cursor of the chain in a side-chain store. -/
def stored (store : SideStore) : Except Store.Error UInt32 :=
  store.tables.cursors.stored t.address

/-- An effect that is done is done by the call that it stands for. -/
theorem attempt_of_act (h : t.follower.act effect store = .done after) :
    store.attempt (t.apply effect) = .ok ((), after) := by
  cases happly : store.attempt (t.apply effect) with
  | ok out =>
      rw [act_of_ok happly] at h
      cases h
      rfl
  | error cause =>
      rw [act_of_error happly] at h
      cases h

/-- The effects of a tracker leave its cursor where it is. -/
theorem keeps : t.follower.Keeps t.stored where
  cursor h := Cursors.of_attempt_move (fun _ _ => rfl) h
  act := by
    intro effect store after h
    have happly := t.attempt_of_act h
    rw [attempt_apply] at happly
    have hcursors : after.tables.cursors = store.tables.cursors := by
      rcases of_attempt_transaction happly with hact | ⟨hact, -⟩
      · injection hact with _ htables
        rw [← htables]
        rfl
      · cases hact
    show after.tables.cursors.stored t.address = _
    rw [hcursors]
    rfl

/-- Writing rows never waits for anybody. -/
private theorem act_ne_waits : t.follower.act effect store ≠ .waits := by
  intro h
  cases happly : store.attempt (t.apply effect) with
  | ok out =>
      rw [act_of_ok happly] at h
      cases h
  | error cause =>
      rw [act_of_error happly] at h
      cases h

end Sync.Tracker

-- ==================================================================== watchers

namespace Watch

variable (served : List Digest) {n : Notification} {w after : World}

/-- The cursor of the main chain in a watcher's store. -/
def stored (w : World) : Except Store.Error UInt32 :=
  w.store.tables.cursors.stored MainStore.chain

/-- Sending a notification leaves the cursor where it is. -/
theorem keeps : (follower served).Keeps stored where
  cursor := by
    intro height current w after h
    obtain ⟨⟨current', store⟩, hmove, h⟩ := Outcome.bind_eq_ok.1 h
    cases h
    exact Cursors.of_attempt_move (fun _ _ => rfl) hmove
  act := by
    intro n w after h
    rw [act_eq, send] at h
    split at h
    · cases h
      rfl
    · cases h
    · cases h

/-- The queue has somebody to receive from it, and no room. -/
def Full (w : World) : Prop :=
  w.channel.isOpen = true ∧ w.channel.capacity ≤ w.channel.queued.length

/-- A notification that waits has found the channel full. -/
private theorem full_of_waits (h : (follower served).act n w = .waits) : Full w := by
  rw [act_eq, send] at h
  split at h
  · cases h
  · next hsend => exact Channel.send_eq_full hsend
  · cases h

end Watch

-- ======================================================================= forward

namespace CatchUp

/-- A tracker and a watcher move the cursor up with each block that they complete, complete no
more blocks than lie between the cursor and the height they are told of, and then the call is
over; or, for a watcher, its queue is full from some step on. Of all heights that a node can
report this leaves out one. -/
theorem forward_and_over {start reported : UInt32} (hreported : reported ≠ resetHeight) :
    (∀ (t : Sync.Tracker) (now : Nat → Moment Node.Block) (others : Nat → SideStore → SideStore)
        (store : SideStore), Undisturbed t.stored start reported now others store →
      Forward t.stored start reported (run t.follower now others store)
        ∧ ∃ n outcome, (run t.follower now others store n).2 = .over outcome)
      ∧ ∀ (served : List Digest) (now : Nat → Moment MainChain.Block)
          (others : Nat → Watch.World → Watch.World) (world : Watch.World),
        Undisturbed Watch.stored start reported now others world →
        Forward Watch.stored start reported (run (Watch.follower served) now others world)
          ∧ ∃ n, (∃ outcome, (run (Watch.follower served) now others world n).2 = .over outcome)
            ∨ ∀ k, n ≤ k →
              Watch.Full (others k (run (Watch.follower served) now others world k).1) := by
  constructor
  · intro t now others store h
    refine ⟨h.forward t.keeps hreported, ?_⟩
    obtain ⟨n, hover | hwaits⟩ := h.ends_or_waits t.keeps hreported
    · exact ⟨n, hover⟩
    · obtain ⟨_, effect, _, -, hact⟩ := hwaits n (Nat.le_refl n)
      exact absurd hact t.act_ne_waits
  · intro served now others world h
    refine ⟨h.forward (Watch.keeps served) hreported, ?_⟩
    obtain ⟨n, hover | hwaits⟩ := h.ends_or_waits (Watch.keeps served) hreported
    · exact ⟨n, Or.inl hover⟩
    · refine ⟨n, Or.inr fun k hk => ?_⟩
      obtain ⟨_, effect, _, -, hact⟩ := hwaits k hk
      exact Watch.full_of_waits served hact

/-- A node that reports two blocks, and gives each when it is asked for. -/
def twoBlocks {β : Type} (block : UInt32 → β) (n : Nat) : Moment β :=
  ⟨.arrived 2, .arrived (block (if n < 5 then 0 else 1)), false⟩

/-- A call of a tracker at this node, and nobody else about. -/
def tracking : Nat → SideStore × Tick Sync.Effect Empty :=
  run Sync.Tracker.sample.follower (twoBlocks Sync.Tracker.sampleChain.block) (fun _ store => store)
    Store.create

/-- A call of a watcher at this node, with a queue that holds one announcement and is emptied
between the steps. -/
def watching : Nat → Watch.World × Tick Notification Watch.Failure :=
  run (Watch.follower Watch.sampleServed) (twoBlocks Watch.sampleChain.block)
    (fun _ w => { w with channel := .create 1 }) ⟨Store.create, .create 1⟩

/-- Over two blocks both loops go forward, and both ticks come to an end. -/
theorem forward_and_over_twoBlocks :
    (2 : UInt32) ≠ resetHeight
      ∧ Forward Sync.Tracker.sample.stored 0 2 tracking ∧ blocks tracking 9 = 2
      ∧ (∃ n outcome, (tracking n).2 = .over outcome)
      ∧ Forward Watch.stored 0 2 watching ∧ ∃ n outcome, (watching n).2 = .over outcome := by
  have hreported : (2 : UInt32) ≠ resetHeight := by decide
  obtain ⟨htracks, hwatches⟩ := @forward_and_over 0 2 hreported
  obtain ⟨htracking, htracked⟩ := htracks Sync.Tracker.sample
    (twoBlocks Sync.Tracker.sampleChain.block) (fun _ store => store) Store.create
    ⟨rfl, rfl, fun _ _ => rfl⟩
  obtain ⟨hwatching, n, hover | hfull⟩ := hwatches Watch.sampleServed
    (twoBlocks Watch.sampleChain.block) (fun _ w => { w with channel := .create 1 })
    ⟨Store.create, .create 1⟩ ⟨rfl, rfl, fun _ _ => rfl⟩
  · exact ⟨hreported, htracking, by decide, htracked, hwatching, n, hover⟩
  · obtain ⟨-, hlen⟩ := hfull n (Nat.le_refl n)
    exact absurd hlen (Nat.not_succ_le_zero 0)

-- ======================================================================= the top

/-- A store whose cursor is as high as a cursor can get. -/
def topStore : SideStore :=
  ⟨{ (Tables.empty : SideTables) with cursors := [(Sync.Tracker.sample.address, 2 ^ 32 - 2)] },
    .steady⟩

/-- A node that reports one block above this cursor, and gives each block that it is asked for. -/
def topAnswers (n : Nat) : Moment Node.Block :=
  ⟨.arrived resetHeight, .arrived ⟨"", if n < 4 then resetHeight - 1 else 0, []⟩, false⟩

/-- There one block is left, and completing it sends the cursor back to zero, from where the
call goes on. -/
theorem sent_back_at_top :
    let r := run Sync.Tracker.sample.follower topAnswers (fun _ store => store) topStore
    Undisturbed Sync.Tracker.sample.stored (resetHeight - 1) resetHeight topAnswers
        (fun _ store => store) topStore
      ∧ (r 3).2.completes (r 4).2 = true
      ∧ Sync.Tracker.sample.stored (r 3).1 = .ok (resetHeight - 1)
      ∧ Sync.Tracker.sample.stored (r 4).1 = .ok 0
      ∧ resetHeight.toNat - (resetHeight - 1).toNat < blocks r 6 := by
  intro r
  have hstarts : Sync.Tracker.sample.stored topStore = .ok (resetHeight - 1) :=
    Outcome.eq_ok_of_toOption (by decide)
  refine ⟨⟨hstarts, rfl, fun _ _ => rfl⟩, by decide, ?_, ?_, by decide⟩
  · exact Outcome.eq_ok_of_toOption (by decide)
  · exact Outcome.eq_ok_of_toOption (by decide)

end CatchUp

end MergedMining
