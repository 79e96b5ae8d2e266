/-
Where a session stands depends on its cursor and not on how it came there.

The rows that belong to a cursor are those that the blocks below it leave, each
handled once and in order. A session keeps to them in this sense: if the block at the
cursor was not started, its rows are these rows, and if it was, handling the block
again leads to the rows that belong to the next cursor. The first follows from the
second when the cursor moves, since it moves only when a tick has done all effects of
the block; the second holds at every effect, since a block can be handled again from
wherever it was cut off. Turns that do no effect and move no cursor change no row.
-/
import MergedMining.Proofs.Store.Calls
import MergedMining.Proofs.Sync.Replay
import MergedMining.Proofs.Sync.Session

namespace MergedMining.Sync

open CatchUp Store

namespace Tracker

variable (t : Tracker) (chain : Chain)

-- ============================================================= rows of a cursor

/-- The rows that the blocks from one height up to another leave, handled once and in
order. -/
def rowsBelow (start : UInt32) (rows : List UtxoRow) (height : UInt32) : List UtxoRow :=
  (List.range' start.toNat (height.toNat - start.toNat)).foldl
    (fun rows h => t.handle (chain.block (UInt32.ofNat h)) rows) rows

variable {t chain} {start height : UInt32} {rows : List UtxoRow} {s : Session}

theorem rowsBelow_self : t.rowsBelow chain start rows start = rows := by
  rw [rowsBelow, Nat.sub_self, List.range'_zero, List.foldl_nil]

/-- The rows below the next height are those below this one, with its block handled. -/
private theorem rowsBelow_succ (hstart : start ≤ height)
    (hsucc : (height + 1).toNat = height.toNat + 1) :
    t.rowsBelow chain start rows (height + 1)
      = t.handle (chain.block height) (t.rowsBelow chain start rows height) := by
  have hle := UInt32.le_iff_toNat_le.1 hstart
  unfold rowsBelow
  rw [hsucc, Nat.succ_sub hle, List.range'_concat, List.foldl_append, List.foldl_cons,
    List.foldl_nil, Nat.one_mul, Nat.add_sub_cancel' hle, UInt32.ofNat_toNat]

-- ==================================================================== invariant

/-- The tick works on the block at the cursor, and what is left to be done leads to the rows
to which handling the block again would lead. -/
def Fits (t : Tracker) (chain : Chain) (height : UInt32) (rows : List UtxoRow) :
    Tick Effect Empty → Prop
  | .measure reported => reported ≠ resetHeight
  | .fetch span => span.current = height ∧ height < span.target ∧ span.target ≠ resetHeight
  | .act span todo =>
      span.current = height ∧ height < span.target ∧ span.target ≠ resetHeight
        ∧ (∃ done, t.effects (chain.block height) = done ++ todo)
        ∧ t.settle todo rows = t.handle (chain.block height) rows
  | _ => True

/-- What holds of a session whose cursor is at a height. -/
structure Settled (t : Tracker) (chain : Chain) (start : UInt32) (rows : List UtxoRow)
    (height : UInt32) (s : Session) : Prop where
  link : s.store.link = .steady ∨ s.store.link = .closed
  cursor : s.cursor t.address = .ok height
  start_le : start ≤ height
  again : t.handle (chain.block height) s.rows
    = t.handle (chain.block height) (t.rowsBelow chain start rows height)
  fresh : s.written = [] → s.rows = t.rowsBelow chain start rows height
  fits : t.Fits chain height s.rows s.tick

/-- A session begins with the rows of its tables. -/
private theorem settled_started {tables : SideTables}
    (hcursor : tables.cursors.stored t.address = .ok start) :
    t.Settled chain start tables.utxos start (Session.started tables) where
  link := Or.inl rfl
  cursor := hcursor
  start_le := UInt32.le_refl start
  again := by rw [rowsBelow_self]; rfl
  fresh _ := by rw [rowsBelow_self]; rfl
  fits := trivial

/-- A session keeps what holds of it when its tick is replaced. -/
theorem Settled.replace (h : t.Settled chain start rows height s) {tick : Tick Effect Empty}
    (hfits : t.Fits chain height s.rows tick) :
    t.Settled chain start rows height { s with tick } :=
  { h with fits := hfits }

-- ================================================================ store calls

/-- A closed store moves no cursor. -/
private theorem cursor_of_closed {store : SideStore} (hlink : store.link = .closed) :
    t.follower.cursor height store = .error (.closed "side_chain") := by
  show store.attempt (SideStore.height t.address height) = _
  rw [SideStore.height, Cursors.move, attempt_of_closed hlink]
  rfl

/-- The cursor is asked for by a move to zero. -/
theorem cursor_zero {store : SideStore} (hlink : store.link = .steady)
    (hcursor : store.tables.cursors.stored t.address = .ok height) :
    t.follower.cursor 0 store = .ok (height, store) :=
  Cursors.attempt_move_zero hlink hcursor

/-- The cursor is moved up, and nothing else. -/
theorem cursor_up {store : SideStore} {current : UInt32} (hlink : store.link = .steady)
    (hcursor : store.tables.cursors.stored t.address = .ok current) (hlt : current < height)
    (hreset : height ≠ resetHeight) :
    t.follower.cursor height store
      = .ok (height, ⟨{ store.tables with
          cursors := store.tables.cursors.set t.address height }, .steady⟩) :=
  Cursors.attempt_move_up hlink hcursor hlt hreset

/-- The tables after an effect. -/
def onTables (t : Tracker) (effect : Effect) (tables : SideTables) : SideTables :=
  { tables with utxos := effect.onRows t.address tables.utxos }

/-- Doing an effect is one transaction. -/
theorem attempt_apply (t : Tracker) (effect : Effect) (store : SideStore) :
    store.attempt (t.apply effect)
      = store.attempt (Op.transaction fun tables => .commit () (t.onTables effect tables)) := by
  cases effect with
  | record utxos => rfl
  | drop outpoints => exact attempt_map_commit _ _ _

/-- An effect is done if its statement succeeds. -/
theorem act_of_ok {store store' : SideStore} {effect : Effect}
    (h : store.attempt (t.apply effect) = .ok ((), store')) :
    t.follower.act effect store = .done store' := by
  simp only [follower, h]

/-- An effect fails as its statement does. -/
theorem act_of_error {store : SideStore} {effect : Effect} {cause : Store.Error}
    (h : store.attempt (t.apply effect) = .error cause) :
    t.follower.act effect store = .failed (.store cause) := by
  simp only [follower, h]

/-- An effect that is done leaves the rows that it should. -/
theorem act_of_steady {store : SideStore} (effect : Effect) (hlink : store.link = .steady) :
    t.follower.act effect store = .done ⟨t.onTables effect store.tables, .steady⟩ := by
  refine act_of_ok ?_
  rw [attempt_apply]
  exact attempt_of_commit hlink rfl

/-- A closed store takes no effect. -/
private theorem act_of_closed {store : SideStore} (effect : Effect) (hlink : store.link = .closed) :
    t.follower.act effect store = .failed (.store (.closed "side_chain")) := by
  refine act_of_error ?_
  rw [attempt_apply, attempt_of_closed hlink]
  rfl

-- ====================================================================== steps

/-- The cursor moves past a block of which nothing is left to be done. -/
theorem Settled.move {span : Span} (h : t.Settled chain start rows height s)
    (htick : s.tick = .act span []) (now : Moment Node.Block) :
    ∃ height', t.Settled chain start rows height' (t.step now s) := by
  have hfits := h.fits
  rw [htick] at hfits
  obtain ⟨hcurrent, hlt, htarget, -, hhandled⟩ := hfits
  rcases h.link with hlink | hlink
  · have hsucc := toNat_succ hlt
    have hup : t.follower.cursor (span.current + 1) s.store
        = .ok (height + 1, ⟨{ s.store.tables with
            cursors := s.store.tables.cursors.set t.address (height + 1) }, .steady⟩) := by
      rw [hcurrent]
      exact cursor_up hlink h.cursor (lt_succ hlt) (succ_ne_reset hlt htarget)
    have hstep : t.step now s = {
        store := ⟨{ s.store.tables with
          cursors := s.store.tables.cursors.set t.address (height + 1) }, .steady⟩
        tick := .goOn { span with current := height + 1 }
        written := [] } := by
      unfold step
      rw [htick]
      simp only [Tick.step, hup]
      unfold Tick.goOn
      split <;> rfl
    -- nothing of the block is left, so its effects are those of the whole block
    have hrows : s.rows = t.rowsBelow chain start rows (height + 1) := by
      rw [rowsBelow_succ h.start_le hsucc, ← h.again]
      exact hhandled
    rw [hstep]
    exact ⟨height + 1, {
      link := Or.inl rfl
      cursor := Cursors.stored_set _ _ _
      start_le := UInt32.le_of_lt (UInt32.lt_of_le_of_lt h.start_le (lt_succ hlt))
      again := congrArg _ hrows
      fresh := fun _ => hrows
      fits := by
        unfold Tick.goOn
        split
        · next hnext => exact ⟨rfl, hnext, htarget⟩
        · exact trivial }⟩
  · -- a closed store ends the tick and keeps its tables
    have hstep : t.step now s
        = { s with tick := .over (.error (.store (.closed "side_chain"))) } := by
      unfold step
      rw [htick]
      simp only [Tick.step, cursor_of_closed hlink]
    rw [hstep]
    exact ⟨height, h.replace trivial⟩

/-- One more effect of the block at the cursor is done. -/
theorem Settled.write {span : Span} {effect : Effect} {todo : List Effect}
    (h : t.Settled chain start rows height s) (htick : s.tick = .act span (effect :: todo))
    (now : Moment Node.Block) : t.Settled chain start rows height (t.step now s) := by
  have hfits := h.fits
  rw [htick] at hfits
  obtain ⟨hcurrent, hlt, htarget, ⟨done, heffects⟩, htodo⟩ := hfits
  rcases h.link with hlink | hlink
  · have hstep : t.step now s = {
        store := ⟨{ s.store.tables with utxos := effect.onRows t.address s.rows }, .steady⟩
        tick := .act { span with effects := span.effects + 1 } todo
        written := s.written ++ [effect] } := by
      unfold step
      rw [htick]
      simp only [Tick.step, act_of_steady effect hlink]
      rfl
    -- to handle the whole block again covers what was done of it
    have hagain := t.handle_onRows heffects htodo
    rw [hstep]
    exact {
      link := Or.inl rfl
      cursor := h.cursor
      start_le := h.start_le
      again := hagain.trans h.again
      fresh := fun hnil => absurd hnil (List.concat_ne_nil _ _)
      fits := ⟨hcurrent, hlt, htarget, ⟨done ++ [effect], by simp [heffects]⟩,
        htodo.trans hagain.symm⟩ }
  · have hstep : t.step now s
        = { s with tick := .over (.error (.store (.closed "side_chain"))) } := by
      unfold step
      rw [htick]
      simp only [Tick.step, act_of_closed effect hlink]
      rfl
    rw [hstep]
    exact h.replace trivial

/-- A tick that does not work on a block leaves the store as it is, and if it begins to
work on a block then on the one at the cursor. -/
theorem Settled.look (h : t.Settled chain start rows height s) {now : Moment Node.Block}
    (honest : (Turn.step now).Honest chain s) (hact : ∀ span todo, s.tick ≠ .act span todo) :
    ∃ tick, s.tick.step t.follower now s.store = (s.store, tick)
      ∧ t.Fits chain height s.rows tick := by
  cases htick : s.tick with
  | ask =>
      rw [Tick.step]
      cases hnow : now.height with
      | arrived reported => exact ⟨_, rfl, honest.1 reported hnow⟩
      | failed cause => exact ⟨_, rfl, trivial⟩
      | cancelled => exact ⟨_, rfl, trivial⟩
  | halt =>
      rw [Tick.step]
      rcases h.link with hlink | hlink
      · rw [cursor_zero hlink h.cursor]
        exact ⟨_, rfl, trivial⟩
      · rw [cursor_of_closed hlink]
        exact ⟨_, rfl, trivial⟩
  | measure reported =>
      have hreported : reported ≠ resetHeight := by
        have hfits := h.fits
        rw [htick] at hfits
        exact hfits
      rw [Tick.step]
      rcases h.link with hlink | hlink
      · rw [cursor_zero hlink h.cursor]
        by_cases hle : reported ≤ height
        · exact ⟨_, if_pos hle, trivial⟩
        · exact ⟨_, if_neg hle, rfl, UInt32.not_le.1 hle, hreported⟩
      · rw [cursor_of_closed hlink]
        exact ⟨_, rfl, trivial⟩
  | fetch span =>
      have hfits := h.fits
      rw [htick] at hfits
      obtain ⟨hcurrent, hlt, htarget⟩ := hfits
      rw [Tick.step]
      by_cases hcancelled : now.cancelled = true
      · exact ⟨_, if_pos hcancelled, trivial⟩
      · rw [if_neg hcancelled]
        cases hnow : now.block with
        | arrived block =>
            refine ⟨_, rfl, ?_⟩
            rw [Tick.take]
            by_cases hheight : t.follower.heightOf block = span.current
            · -- the node does not lie, so this is the block at the cursor
              obtain rfl := honest.2 span block htick hnow hheight
              rw [if_pos hheight, hcurrent]
              exact ⟨hcurrent, hlt, htarget, ⟨[], rfl⟩, rfl⟩
            · rw [if_neg hheight]
              trivial
        | failed cause => exact ⟨_, rfl, trivial⟩
        | cancelled => exact ⟨_, rfl, trivial⟩
  | act span todo => exact absurd htick (hact span todo)
  | «over» outcome => exact ⟨_, rfl, trivial⟩

/-- A step leaves the rows settled, at this height or the next. -/
theorem Settled.step (h : t.Settled chain start rows height s) {now : Moment Node.Block}
    (honest : (Turn.step now).Honest chain s) :
    ∃ height', t.Settled chain start rows height' (t.step now s) := by
  by_cases hact : ∃ span todo, s.tick = .act span todo
  · obtain ⟨span, todo, htick⟩ := hact
    cases todo with
    | nil => exact h.move htick now
    | cons effect todo => exact ⟨height, h.write htick now⟩
  · have hother : ∀ span todo, s.tick ≠ .act span todo := fun span todo h => hact ⟨span, todo, h⟩
    obtain ⟨tick, hstep, hfits⟩ := h.look honest hother
    have hsame : t.step now s = { s with tick } := by
      unfold Tracker.step
      rw [hstep]
      cases htick : s.tick with
      | act span todo => exact absurd htick (hother span todo)
      | _ => rfl
    rw [hsame]
    exact ⟨height, h.replace hfits⟩

-- ================================================================= convergence

/-- The file shows what the handle shows. -/
private theorem Settled.file_eq (h : t.Settled chain start rows height s) :
    s.store.file = s.store.tables := by
  rcases h.link with hlink | hlink
  · rw [Store.file, hlink]
  · rw [Store.file, hlink]

/-- Any turn leaves a session settled. -/
theorem Settled.turn (h : t.Settled chain start rows height s) {turn : Turn}
    (honest : turn.Honest chain s) :
    ∃ height', t.Settled chain start rows height' (t.turn s turn) := by
  cases turn with
  | step now => exact h.step honest
  | fails cause => exact ⟨height, h.replace trivial⟩
  | call => exact ⟨height, h.replace trivial⟩
  | close =>
      exact ⟨height, by
        show t.Settled chain start rows height { s with store := ⟨s.store.file, .closed⟩ }
        rw [h.file_eq]
        exact { h with link := Or.inr rfl }⟩
  | restart =>
      exact ⟨height, by
        show t.Settled chain start rows height
          { s with store := ⟨s.store.file, .steady⟩, tick := .ask }
        rw [h.file_eq]
        exact { h with link := Or.inl rfl, fits := trivial }⟩

/-- Every session that a settled one leads to is settled. -/
theorem Reaches.settled {first : Session} (hfirst : t.Settled chain start rows start first)
    (h : t.Reaches chain first s) : ∃ height, t.Settled chain start rows height s := by
  induction h with
  | refl => exact ⟨start, hfirst⟩
  | turn before turn honest ih =>
      obtain ⟨height, hsettled⟩ := ih
      exact hsettled.turn honest

/-- A session that has not started the block at its cursor has the rows that belong there. -/
theorem Reaches.rows_eq {tables : SideTables} (h : t.Reaches chain (.started tables) s)
    (hstart : tables.cursors.stored t.address = .ok start)
    (hcursor : s.cursor t.address = .ok height) (hfresh : s.written = []) :
    s.rows = t.rowsBelow chain start tables.utxos height := by
  obtain ⟨reached, hsettled⟩ := h.settled (settled_started hstart)
  obtain rfl : reached = height := by
    have heq := hsettled.cursor
    rw [hcursor] at heq
    exact (Except.ok.inj heq).symm
  exact hsettled.fresh hfresh

/-- Sessions on one chain that began with the same tables and have come to the same cursor,
without having started the block there, have the same rows, whatever became of their
ticks on the way. -/
theorem rows_converge {tables : SideTables} {s s' : Session}
    (hstart : tables.cursors.stored t.address = .ok start)
    (h : t.Reaches chain (.started tables) s) (h' : t.Reaches chain (.started tables) s')
    (hcursor : s.cursor t.address = .ok height) (hcursor' : s'.cursor t.address = .ok height)
    (hfresh : s.written = []) (hfresh' : s'.written = []) : s.rows = s'.rows := by
  rw [h.rows_eq hstart hcursor hfresh, h'.rows_eq hstart hcursor' hfresh']

/-- A tracker of one chain that watches one address. -/
def sample : Tracker := ⟨"sample", "genesis", ["watched"], 10⟩

/-- A chain whose first block pays the address, and whose second spends this and pays it twice,
once an amount that is none. -/
def sampleChain : Chain where
  block height :=
    { hash := "", height
      transactions :=
        if height = 0 then [⟨"a", 0, [], [⟨"1.5", 0, "watched", 0⟩]⟩]
        else if height = 1 then
          [⟨"b", 2, [⟨"a", 0, 0⟩], [⟨"1", 0, "watched", 7⟩, ⟨"much", 1, "watched", 0⟩]⟩]
        else [] }
  height_block _ := rfl

/-- A session at height 2 that nothing disturbed. -/
def straight : Session :=
  ([0, 0, 0, 0, 0, 1, 1, 1, 1].map (sampleChain.answer 2)).foldl sample.turn (.started Tables.empty)

/-- One in which the program died between the effects of the second block. -/
def disturbed : Session :=
  let died := ([0, 0, 0, 0, 0, 1, 1].map (sampleChain.answer 2)).foldl sample.turn
    (.started Tables.empty)
  ([0, 0, 1, 1, 1, 1].map (sampleChain.answer 2)).foldl sample.turn (sample.turn died .restart)

private theorem reaches_straight : sample.Reaches sampleChain (.started Tables.empty) straight :=
  Reaches.refl.answers (by decide) _

theorem reaches_disturbed : sample.Reaches sampleChain (.started Tables.empty) disturbed :=
  ((Reaches.refl.answers (by decide) _).turn .restart trivial).answers (by decide) _

private theorem cursor_straight : straight.cursor sample.address = .ok 2 :=
  Outcome.eq_ok_of_toOption (by decide)

theorem cursor_disturbed : disturbed.cursor sample.address = .ok 2 :=
  Outcome.eq_ok_of_toOption (by decide)

/-- With and without a disturbance the sample ends with the same rows. -/
theorem rows_converge_sample :
    (Tables.empty : SideTables).cursors.stored sample.address = .ok 0
      ∧ sample.Reaches sampleChain (.started Tables.empty) straight
      ∧ sample.Reaches sampleChain (.started Tables.empty) disturbed
      ∧ straight.cursor sample.address = .ok 2 ∧ disturbed.cursor sample.address = .ok 2
      ∧ straight.written = [] ∧ disturbed.written = []
      ∧ straight.rows = disturbed.rows := by
  have hstraight : straight.written = [] := by decide
  have hdisturbed : disturbed.written = [] := by decide
  exact ⟨rfl, reaches_straight, reaches_disturbed, cursor_straight, cursor_disturbed, hstraight,
    hdisturbed, rows_converge rfl reaches_straight reaches_disturbed cursor_straight
      cursor_disturbed hstraight hdisturbed⟩

end Tracker

end MergedMining.Sync
