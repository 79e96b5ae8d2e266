/-
Resetting the store of a tracker that is at work.

A reset drops the rows and the cursor between any two steps of a tick, and the tick does not
learn of it. A tick that has not read the cursor yet, or is over, starts from nothing. But one
that works on a block goes on with that block, and then moves the cursor past it. A cursor
only moves up, so it comes to stand behind a block of which nothing below is in the store: the
rows are those that the blocks from there on leave, on top of what was left to be done of that
block.

So beside the session it is kept what its tick had at hand when the store was reset last. The
tick either goes on with that, at a cursor of zero, or the session is as if it had begun at a
cursor: at zero, or behind the block that was cut. A step and a reset keep to this.
-/
import MergedMining.Proofs.Sync.Convergence

namespace MergedMining.Sync

open CatchUp Store

-- =================================================================== sessions

namespace Tracker

variable (t : Tracker) (chain : Chain)

/-- The height of the block that a tick works on, and what is left to be done of it. -/
def atHand? : Tick Effect Empty → Option (UInt32 × List Effect)
  | .fetch span => some (span.current, t.effects (chain.block span.current))
  | .act span todo => some (span.current, todo)
  | _ => none

end Tracker

namespace Resets

/-- A session, and what its tick had at hand when the store was reset last. -/
structure State where
  session : Session
  cut : Option (UInt32 × List Effect)

/-- A program that was just started on a new file. -/
def started : State := ⟨.started Tables.empty, none⟩

/-- What happens next, if the store can be reset. -/
inductive Turn where
  /-- The tick takes a step. -/
  | step (now : Moment Node.Block)
  /-- A tick is called after the one before it is over. -/
  | call
  /-- The tables of the store are dropped and made anew. -/
  | reset

/-- What a turn leaves. -/
def turn (t : Tracker) (chain : Chain) (s : State) : Turn → State
  | .step now => { s with session := t.step now s.session }
  | .call => { s with session := { s.session with tick := .ask } }
  | .reset => {
      session := { s.session with store := (s.session.store.run Op.reset).2, written := [] }
      cut := t.atHand? chain s.session.tick }

/-- The node answers from its chain and reports no height that would send the cursor back; a
tick is called when the one before it is over. -/
def Turn.Allowed (chain : Chain) (s : State) : Turn → Prop
  | .step now => (Sync.Turn.step now).Honest chain s.session
  | .call => ∃ outcome, s.session.tick = .over outcome
  | .reset => True

/-- The states that turns lead to from a new file. -/
inductive Reaches (t : Tracker) (chain : Chain) : State → Prop where
  | refl : Reaches t chain started
  | turn {s : State} (before : Reaches t chain s) (turn : Turn) (allowed : turn.Allowed chain s) :
      Reaches t chain (Resets.turn t chain s turn)

/-- The states that a node leads to which answers with these blocks in turn. -/
theorem Reaches.answers {t : Tracker} {chain : Chain} {reported : UInt32} {s : State}
    (hs : Reaches t chain s) (hreported : reported ≠ resetHeight) (heights : List UInt32) :
    Reaches t chain
      ((heights.map fun height =>
        Turn.step ⟨.arrived reported, .arrived (chain.block height), false⟩).foldl
          (Resets.turn t chain) s) := by
  induction heights generalizing s with
  | nil => exact hs
  | cons height heights ih =>
      exact ih (hs.turn _ (chain.honest_answer hreported height s.session))

end Resets

-- ====================================================================== steps

namespace Tracker

variable {t : Tracker} {s : Session}

/-- A step that does an effect does it to the tables and goes on to the next. -/
private theorem step_effect {span : Span} {effect : Effect} {todo : List Effect}
    (hlink : s.store.link = .steady) (htick : s.tick = .act span (effect :: todo))
    (now : Moment Node.Block) :
    t.step now s = {
      store := ⟨t.onTables effect s.store.tables, .steady⟩
      tick := .act { span with effects := span.effects + 1 } todo
      written := s.written ++ [effect] } := by
  unfold step
  rw [htick]
  simp only [Tick.step, act_of_steady effect hlink]
  rfl

/-- A step past a block moves the cursor and goes on with the next block. -/
private theorem step_pass {span : Span} {before : UInt32} (hlink : s.store.link = .steady)
    (htick : s.tick = .act span []) (hcursor : s.cursor t.address = .ok before)
    (hlt : before < span.current + 1) (hreset : span.current + 1 ≠ resetHeight)
    (now : Moment Node.Block) :
    t.step now s = {
      store := ⟨{ s.store.tables with
        cursors := s.store.tables.cursors.set t.address (span.current + 1) }, .steady⟩
      tick := .goOn { span with current := span.current + 1 }
      written := [] } := by
  unfold step
  rw [htick]
  simp only [Tick.step, cursor_up hlink hcursor hlt hreset]
  unfold Tick.goOn
  split <;> rfl

/-- A tick that works on no block leaves the store as it is. -/
theorem step_look {height : UInt32} (hlink : s.store.link = .steady)
    (hcursor : s.cursor t.address = .ok height) (hact : ∀ span todo, s.tick ≠ .act span todo)
    (now : Moment Node.Block) :
    t.step now s = { s with tick := (s.tick.step t.follower now s.store).2 } := by
  have hstore : (s.tick.step t.follower now s.store).1 = s.store := by
    cases htick : s.tick with
    | ask =>
        rw [Tick.step]
        split <;> rfl
    | halt => rw [Tick.step, cursor_zero hlink hcursor]
    | measure reported =>
        rw [Tick.step, cursor_zero hlink hcursor]
        dsimp only
        split <;> rfl
    | fetch span =>
        rw [Tick.step]
        split
        · rfl
        · split <;> rfl
    | act span todo => exact absurd htick (hact span todo)
    | «over» outcome => rfl
  have hwritten : (t.step now s).written = s.written := by
    unfold step
    cases htick : s.tick with
    | act span todo => exact absurd htick (hact span todo)
    | _ => rfl
  have hparts : t.step now s = ⟨(s.tick.step t.follower now s.store).1,
      (s.tick.step t.follower now s.store).2, (t.step now s).written⟩ := rfl
  rw [hparts, hstore, hwritten]

end Tracker

namespace Resets

-- =================================================================== invariant

variable (t : Tracker) (chain : Chain)

/-- Where a session begins after a cut: at zero with nothing, or behind the block that was cut,
with what was left of it. -/
def Begins (cut : Option (UInt32 × List Effect)) (start : UInt32) (rows : List UtxoRow) : Prop :=
  start = 0 ∧ rows = []
    ∨ ∃ height todo, cut = some (height, todo) ∧ height < start ∧ start = height + 1
      ∧ rows = t.settle todo []

/-- The tick goes on with the block that was cut. -/
def Strays (height : UInt32) (left : List Effect) (rows : List UtxoRow) :
    Tick Effect Empty → Prop
  | .fetch span =>
      span.current = height ∧ height < span.target ∧ span.target ≠ resetHeight
        ∧ left = t.effects (chain.block height) ∧ rows = []
  | .act span todo =>
      span.current = height ∧ height < span.target ∧ span.target ≠ resetHeight
        ∧ t.settle todo rows = t.settle left []
  | _ => False

/-- How a session stands to the store: it is as if it had begun at some cursor, or it goes on
with a block that was cut. -/
inductive Stands (s : State) : Prop where
  | settled {start height : UInt32} {rows : List UtxoRow} (begins : Begins t s.cut start rows)
      (settled : t.Settled chain start rows height s.session)
  | strays {height : UInt32} {left : List Effect} (cut : s.cut = some (height, left))
      (cursor : s.session.cursor t.address = .ok 0)
      (strays : Strays t chain height left s.session.rows s.session.tick)

/-- What holds after any turns. -/
structure Holds (s : State) : Prop where
  steady : s.session.store.link = .steady
  /-- Only a tick that works on a block has started it. -/
  idle : (∀ span todo, s.session.tick ≠ .act span todo) → s.session.written = []
  stands : Stands t chain s

variable {t chain} {s : State}

/-- A session that stands has its cursor at some height. -/
private theorem Stands.cursor (h : Stands t chain s) :
    ∃ height, s.session.cursor t.address = .ok height := by
  cases h with
  | settled begins settled => exact ⟨_, settled.cursor⟩
  | strays cut cursor strays => exact ⟨0, cursor⟩

/-- With nothing in the store, a session is as if it began at zero. -/
theorem stands_of_nothing (hlink : s.session.store.link = .steady)
    (hcursor : s.session.cursor t.address = .ok 0) (hrows : s.session.rows = [])
    (hfits : t.Fits chain 0 s.session.rows s.session.tick) : Stands t chain s := by
  have settled : t.Settled chain 0 [] 0 s.session := {
    link := Or.inl hlink
    cursor := hcursor
    start_le := UInt32.le_refl 0
    again := by rw [Tracker.rowsBelow_self, hrows]
    fresh := fun _ => by rw [Tracker.rowsBelow_self, hrows]
    fits := hfits }
  exact .settled (Or.inl ⟨rfl, rfl⟩) settled

private theorem holds_started : Holds t chain started where
  steady := rfl
  idle _ := rfl
  stands := stands_of_nothing rfl rfl rfl trivial

-- ====================================================================== resets

/-- A tick that works on a block works below what was reported, which is no height that sends a
cursor back. -/
def Within : Tick Effect Empty → Prop
  | .measure reported => reported ≠ resetHeight
  | .fetch span | .act span _ => span.current < span.target ∧ span.target ≠ resetHeight
  | _ => True

/-- A tick that fits its cursor works below what was reported. -/
private theorem within_of_fits {height : UInt32} {rows : List UtxoRow} {tick : Tick Effect Empty}
    (h : t.Fits chain height rows tick) : Within tick := by
  cases tick with
  | measure reported => exact h
  | fetch span =>
      obtain ⟨rfl, hlt, htarget⟩ := h
      exact ⟨hlt, htarget⟩
  | act span todo =>
      obtain ⟨rfl, hlt, htarget, -⟩ := h
      exact ⟨hlt, htarget⟩
  | _ => trivial

/-- So does one that strays. -/
private theorem within_of_strays {height : UInt32} {left : List Effect} {rows : List UtxoRow}
    {tick : Tick Effect Empty} (h : Strays t chain height left rows tick) : Within tick := by
  cases tick with
  | fetch span =>
      obtain ⟨rfl, hlt, htarget, -⟩ := h
      exact ⟨hlt, htarget⟩
  | act span todo =>
      obtain ⟨rfl, hlt, htarget, -⟩ := h
      exact ⟨hlt, htarget⟩
  | _ => exact h.elim

private theorem Stands.within (h : Stands t chain s) : Within s.session.tick := by
  cases h with
  | settled begins settled => exact within_of_fits settled.fits
  | strays cut cursor strays => exact within_of_strays strays

private theorem run_reset {session : Session} (hlink : session.store.link = .steady) :
    (session.store.run Op.reset).2 = ⟨Tables.empty, .steady⟩ :=
  congrArg Prod.snd (run_update hlink _)

/-- A tick that works on a block goes on with it after a reset, and any other begins at zero. -/
theorem Holds.reset (h : Holds t chain s) : Holds t chain (turn t chain s .reset) := by
  have hstore := run_reset h.steady
  have hturn : turn t chain s .reset
      = ⟨⟨⟨Tables.empty, .steady⟩, s.session.tick, []⟩, t.atHand? chain s.session.tick⟩ := by
    rw [turn, hstore]
  have hwithin := h.stands.within
  rw [hturn]
  refine ⟨rfl, fun _ => rfl, ?_⟩
  cases htick : s.session.tick with
  | fetch span =>
      rw [htick] at hwithin
      exact .strays rfl rfl ⟨rfl, hwithin.1, hwithin.2, rfl, rfl⟩
  | act span todo =>
      rw [htick] at hwithin
      exact .strays rfl rfl ⟨rfl, hwithin.1, hwithin.2, rfl⟩
  | measure reported =>
      rw [htick] at hwithin
      exact stands_of_nothing rfl rfl rfl hwithin
  | ask => exact stands_of_nothing rfl rfl rfl trivial
  | halt => exact stands_of_nothing rfl rfl rfl trivial
  | «over» outcome => exact stands_of_nothing rfl rfl rfl trivial

-- ======================================================================= steps

/-- A call begins when the one before it is over, so no block that was cut is at hand. -/
theorem Holds.call (h : Holds t chain s) {outcome : Except (CatchUp.Error Empty) Progress}
    (hover : s.session.tick = .over outcome) : Holds t chain (turn t chain s .call) where
  steady := h.steady
  idle _ := h.idle fun span todo hact => nomatch hover.symm.trans hact
  stands := by
    cases h.stands with
    | settled begins settled => exact .settled begins (settled.replace trivial)
    | strays cut cursor strays =>
        rw [hover] at strays
        exact strays.elim

/-- A tick with nothing left to be done of its block moves the cursor up to behind it. -/
theorem Stands.pass (h : Stands t chain s) {span : Span} (htick : s.session.tick = .act span []) :
    ∃ before, s.session.cursor t.address = .ok before ∧ before < span.current + 1
      ∧ span.current + 1 ≠ resetHeight := by
  have hwithin := h.within
  rw [htick] at hwithin
  obtain ⟨hlt, htarget⟩ := hwithin
  have hreset := succ_ne_reset hlt htarget
  cases h with
  | settled begins settled =>
      have hfits := settled.fits
      rw [htick] at hfits
      obtain ⟨rfl, -⟩ := hfits
      exact ⟨_, settled.cursor, lt_succ hlt, hreset⟩
  | strays cut cursor strays =>
      exact ⟨0, cursor, UInt32.lt_of_le_of_lt UInt32.zero_le (lt_succ hlt), hreset⟩

/-- A step leaves the handle working, and a tick that works on no block has not started it. -/
theorem Holds.step_idle (h : Holds t chain s) (now : Moment Node.Block) :
    (t.step now s.session).store.link = .steady
      ∧ ((∀ span todo, (t.step now s.session).tick ≠ .act span todo) →
        (t.step now s.session).written = []) := by
  obtain ⟨height, hcursor⟩ := h.stands.cursor
  by_cases hact : ∃ span todo, s.session.tick = .act span todo
  · obtain ⟨span, todo, htick⟩ := hact
    cases todo with
    | nil =>
        obtain ⟨before, hbefore, hlt, hreset⟩ := h.stands.pass htick
        rw [Tracker.step_pass h.steady htick hbefore hlt hreset]
        exact ⟨rfl, fun _ => rfl⟩
    | cons effect todo =>
        rw [Tracker.step_effect h.steady htick]
        exact ⟨rfl, fun hidle => absurd rfl (hidle _ _)⟩
  · have hother : ∀ span todo, s.session.tick ≠ .act span todo :=
      fun span todo htick => hact ⟨span, todo, htick⟩
    rw [Tracker.step_look h.steady hcursor hother]
    exact ⟨h.steady, fun _ => h.idle hother⟩

section Strays

variable {height : UInt32} {left : List Effect} {span : Span}

/-- The block that was cut arrives and is done from its beginning, or the tick is over with
nothing in the store. -/
theorem stands_of_fetch (h : Holds t chain s) (cut : s.cut = some (height, left))
    (cursor : s.session.cursor t.address = .ok 0) (htick : s.session.tick = .fetch span)
    (strays : Strays t chain height left s.session.rows (.fetch span)) {now : Moment Node.Block}
    (honest : (Sync.Turn.step now).Honest chain s.session) :
    Stands t chain (turn t chain s (.step now)) := by
  obtain ⟨rfl, hlt, htarget, rfl, hrows⟩ := strays
  have hother : ∀ span todo, s.session.tick ≠ .act span todo :=
    fun span todo hact => nomatch htick.symm.trans hact
  have hstep := Tracker.step_look h.steady cursor hother now
  -- whatever else arrives ends the tick, with no rows and the cursor at zero
  have hover : ∀ outcome, t.step now s.session = { s.session with tick := .over outcome } →
      Stands t chain (turn t chain s (.step now)) := by
    intro outcome hstep
    rw [turn, hstep]
    exact stands_of_nothing h.steady cursor hrows trivial
  rw [htick, Tick.step] at hstep
  by_cases hcancelled : now.cancelled = true
  · rw [if_pos hcancelled] at hstep
    exact hover _ hstep
  · rw [if_neg hcancelled] at hstep
    cases hnow : now.block with
    | failed cause =>
        rw [hnow] at hstep
        exact hover _ hstep
    | cancelled =>
        rw [hnow] at hstep
        exact hover _ hstep
    | arrived block =>
        rw [hnow] at hstep
        dsimp only at hstep
        by_cases hheight : t.follower.heightOf block = span.current
        · obtain rfl := honest.2 span block htick hnow hheight
          have htake : Tick.take t.follower span (chain.block span.current)
              = .act span (t.effects (chain.block span.current)) := by
            rw [Tick.take, if_pos hheight]
            rfl
          rw [htake] at hstep
          rw [turn, hstep]
          exact .strays cut cursor ⟨rfl, hlt, htarget, congrArg _ hrows⟩
        · rw [Tick.take, if_neg hheight] at hstep
          exact hover _ hstep

/-- One more effect of the block that was cut is done. -/
theorem stands_of_effect (h : Holds t chain s) (cut : s.cut = some (height, left))
    (cursor : s.session.cursor t.address = .ok 0) {effect : Effect} {todo : List Effect}
    (htick : s.session.tick = .act span (effect :: todo))
    (strays : Strays t chain height left s.session.rows (.act span (effect :: todo)))
    (now : Moment Node.Block) : Stands t chain (turn t chain s (.step now)) := by
  obtain ⟨rfl, hlt, htarget, htodo⟩ := strays
  rw [turn, Tracker.step_effect h.steady htick]
  exact .strays cut cursor ⟨rfl, hlt, htarget, htodo⟩

/-- The cursor comes to stand behind the block that was cut. -/
theorem stands_of_pass (h : Holds t chain s) (cut : s.cut = some (height, left))
    (htick : s.session.tick = .act span [])
    (strays : Strays t chain height left s.session.rows (.act span []))
    (now : Moment Node.Block) : Stands t chain (turn t chain s (.step now)) := by
  obtain ⟨rfl, hlt, htarget, hleft⟩ := strays
  obtain ⟨before, hbefore, hup, hreset⟩ := h.stands.pass htick
  have hrows : s.session.rows = t.settle left [] := hleft
  rw [turn, Tracker.step_pass h.steady htick hbefore hup hreset]
  have begins : Begins t s.cut (span.current + 1) (t.settle left []) :=
    Or.inr ⟨_, left, cut, lt_succ hlt, rfl, rfl⟩
  refine @Stands.settled _ _ _ _ (span.current + 1) _ begins ?_
  exact {
    link := Or.inl rfl
    cursor := Cursors.stored_set _ _ _
    start_le := UInt32.le_refl _
    again := by
      rw [Tracker.rowsBelow_self, ← hrows]
      rfl
    fresh := by
      rw [Tracker.rowsBelow_self, ← hrows]
      exact fun _ => rfl
    fits := by
      unfold Tick.goOn
      split
      · next hnext => exact ⟨rfl, hnext, htarget⟩
      · exact trivial }

end Strays

/-- An honest step keeps what holds. -/
private theorem Holds.step (h : Holds t chain s) {now : Moment Node.Block}
    (honest : (Sync.Turn.step now).Honest chain s.session) :
    Holds t chain (turn t chain s (.step now)) := by
  obtain ⟨hlink, hidle⟩ := h.step_idle now
  refine ⟨hlink, hidle, ?_⟩
  cases h.stands with
  | settled begins settled =>
      obtain ⟨height', hsettled⟩ := settled.step honest
      exact .settled begins hsettled
  | strays cut cursor strays =>
      cases htick : s.session.tick with
      | fetch span =>
          rw [htick] at strays
          exact stands_of_fetch h cut cursor htick strays honest
      | act span todo =>
          rw [htick] at strays
          cases todo with
          | nil => exact stands_of_pass h cut htick strays now
          | cons effect todo => exact stands_of_effect h cut cursor htick strays now
      | _ =>
          rw [htick] at strays
          exact strays.elim

-- ======================================================================== runs

/-- Any allowed turn keeps what holds. -/
private theorem Holds.turn (h : Holds t chain s) {turn : Turn} (allowed : turn.Allowed chain s) :
    Holds t chain (Resets.turn t chain s turn) := by
  cases turn with
  | step now => exact h.step allowed
  | call =>
      obtain ⟨outcome, hover⟩ := allowed
      exact h.call hover
  | reset => exact h.reset

/-- It holds of everything that is reached. -/
private theorem Reaches.holds (h : Reaches t chain s) : Holds t chain s := by
  induction h with
  | refl => exact holds_started
  | turn before turn allowed ih => exact ih.turn allowed

/-- When no tick is at work, the rows are those of the blocks below the cursor, unless the last
reset cut a tick off from the blocks below the one that it worked on. Then they are those of the
blocks above this one, on top of what was left to be done of it. -/
theorem rows_after_resets (h : Reaches t chain s)
    {outcome : Except (CatchUp.Error Empty) Progress} (hover : s.session.tick = .over outcome) :
    ∃ height, s.session.cursor t.address = .ok height
      ∧ (s.session.rows = t.rowsBelow chain 0 [] height
        ∨ ∃ cut left, s.cut = some (cut, left) ∧ cut < height
          ∧ s.session.rows = t.rowsBelow chain (cut + 1) (t.settle left []) height) := by
  have hholds := h.holds
  have hidle : s.session.written = [] :=
    hholds.idle fun span todo hact => nomatch hover.symm.trans hact
  cases hholds.stands with
  | settled begins settled =>
      refine ⟨_, settled.cursor, ?_⟩
      have hrows := settled.fresh hidle
      rcases begins with ⟨rfl, rfl⟩ | ⟨cut, left, hcut, hlt, rfl, rfl⟩
      · exact Or.inl hrows
      · exact Or.inr ⟨cut, left, hcut, UInt32.lt_of_lt_of_le hlt settled.start_le, hrows⟩
  | strays cut cursor strays =>
      rw [hover] at strays
      exact strays.elim

/-- A chain of which every block pays the address. -/
def payingChain : Chain where
  block height :=
    { hash := "", height
      transactions := [⟨if height = 0 then "a" else "b", 0, [], [⟨"1", 0, "watched", 0⟩]⟩] }
  height_block _ := rfl

/-- The answers of a node that has two such blocks. -/
def answers (heights : List UInt32) (s : State) : State :=
  (heights.map fun height => Turn.step
    ⟨.arrived 2, .arrived (payingChain.block height), false⟩).foldl
      (turn Tracker.sample payingChain) s

/-- A call during which the store is reset after the first block was done. -/
def gap : State :=
  answers [1, 1, 1] (turn Tracker.sample payingChain (answers [0, 0, 0, 0, 0] started) .reset)

private theorem reaches_gap : Reaches Tracker.sample payingChain gap :=
  ((Reaches.refl.answers (by decide) _).turn .reset trivial).answers (by decide) _

private theorem cursor_gap : gap.session.cursor Tracker.sample.address = .ok 2 :=
  Outcome.eq_ok_of_toOption (by decide)

/-- In the state with the gap the rows are those of what was left of the cut block and of the blocks
after it. -/
theorem rows_after_resets_gap :
    ∃ outcome, Reaches Tracker.sample payingChain gap ∧ gap.session.tick = .over outcome
      ∧ ∃ height, gap.session.cursor Tracker.sample.address = .ok height
        ∧ (gap.session.rows = Tracker.sample.rowsBelow payingChain 0 [] height
          ∨ ∃ cut left, gap.cut = some (cut, left) ∧ cut < height
            ∧ gap.session.rows = Tracker.sample.rowsBelow payingChain (cut + 1)
              (Tracker.sample.settle left []) height) := by
  have hover : gap.session.tick = .over (.ok (.caughtUp 0 2 2)) := by rfl
  exact ⟨_, reaches_gap, hover, rows_after_resets reaches_gap hover⟩

/-- There the first block's row is missing below the cursor. -/
theorem gap_below_cursor :
    Reaches Tracker.sample payingChain gap
      ∧ gap.session.tick = .over (.ok (.caughtUp 0 2 2))
      ∧ gap.session.cursor Tracker.sample.address = .ok 2
      ∧ gap.session.rows ≠ Tracker.sample.rowsBelow payingChain 0 [] 2 := by
  have hover : gap.session.tick = .over (.ok (.caughtUp 0 2 2)) := by rfl
  exact ⟨reaches_gap, hover, cursor_gap, by decide⟩

end Resets

end MergedMining.Sync
