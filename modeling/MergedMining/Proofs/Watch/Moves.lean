/-
What one step of a watcher does.

A step is taken at a cursor, and what it can do is little: ask, begin with the block at
the cursor, put one announcement into the queue, move the cursor past the block, or end.
Here every step is taken for one of these moves. The node is one that does not lie about
the block that it is asked for; that it answers anything at all is not assumed, nor that
the queue has room or the store is open. Whatever is to be kept from step to step has
then to be kept by each kind of move, and no step is taken apart again.
-/
import MergedMining.Proofs.Store.Calls
import MergedMining.Proofs.Submission.Inclusion
import MergedMining.Proofs.Watch.Announcements

namespace MergedMining

/-- What is queued is put behind the rest. There is somebody to receive it, and room for it. -/
theorem Channel.send_eq_queued {α : Type} {channel channel' : Channel α} {item : α}
    (h : channel.send item = .queued channel') :
    channel.isOpen = true ∧ channel.queued.length < channel.capacity
      ∧ channel' = { channel with queued := channel.queued ++ [item] } := by
  unfold send at h
  split at h
  · cases h
  · next hopen =>
      split at h
      · next hroom =>
          cases h
          exact ⟨by simpa using hopen, hroom, rfl⟩
      · cases h

/-- A queue that is full has somebody to receive from it, and no room. -/
theorem Channel.send_eq_full {α : Type} {channel : Channel α} {item : α}
    (h : channel.send item = .full) :
    channel.isOpen = true ∧ channel.capacity ≤ channel.queued.length := by
  unfold send at h
  split at h
  · cases h
  · next hopen =>
      split at h
      · cases h
      · next hroom => exact ⟨by simpa using hopen, Nat.not_lt.1 hroom⟩

namespace Watch

open CatchUp Store

-- ==================================================================== chains

/-- A main chain: a block for every height. -/
structure Chain where
  block : UInt32 → MainChain.Block
  height_block : ∀ height, (block height).header.height = height

/-- A block of the height that is asked for is the chain's. Blocks of other heights can be
anything. -/
def Chain.Vouches (chain : Chain) (now : Moment MainChain.Block)
    (tick : Tick Notification Failure) : Prop :=
  ∀ span block, tick = .fetch span → now.block = .arrived block →
    block.header.height = span.current → block = chain.block span.current

/-- A node that answers with a block of the chain vouches for it. -/
theorem Chain.vouches_block (chain : Chain) {now : Moment MainChain.Block} {height : UInt32}
    (hnow : now.block = .arrived (chain.block height)) (tick : Tick Notification Failure) :
    chain.Vouches now tick := by
  intro span block _ hblock hheight
  obtain rfl : chain.block height = block := by
    rw [hnow] at hblock
    cases hblock
    rfl
  rw [chain.height_block] at hheight
  rw [hheight]

/-- A chain whose first two blocks have a side-mining transaction each. -/
def sampleChain : Chain where
  block height :=
    { header := { MainChain.Header.empty with height }
      transactions := if height < 2 then [Submission.Pipeline.mined] else [] }
  height_block _ := rfl

/-- The side chain that its transactions name. -/
def sampleServed : List Digest := [Submission.Pipeline.minedGenesis]

-- ==================================================================== events

/-- What can be told of a watcher from outside. -/
inductive Event where
  /-- It begins with the block at this height. -/
  | began (height : UInt32)
  | sent (n : Notification)
  /-- The cursor moves past this height. -/
  | passed (height : UInt32)
  deriving DecidableEq, Repr

/-- The announcements that were sent. -/
def sends (log : List Event) : List Notification :=
  log.filterMap fun
    | .sent n => some n
    | _ => none

/-- What happens in a step that leads from one world and tick to others. What is sent is what
the queue has more. -/
def events (before : World) (tick : Tick Notification Failure) (after : World)
    (tick' : Tick Notification Failure) : List Event :=
  match tick, tick' with
  | .fetch span, .act .. => [.began span.current]
  | .act _ [], .over (.error _) => []
  | .act span [], _ => [.passed span.current]
  | .act .., _ => (after.channel.queued.drop before.channel.queued.length).map .sent
  | _, _ => []

/-- What happened while a block was worked on is what was queued. -/
private theorem events_act {before after : World} {span : Span} {n : Notification}
    {todo : List Notification} {tick' : Tick Notification Failure} :
    events before (.act span (n :: todo)) after tick'
      = (after.channel.queued.drop before.channel.queued.length).map .sent := by
  cases tick' <;> rfl

-- ===================================================================== moves

/-- How a watcher gets from a cursor, a world and a tick to the next ones, and what happens. -/
inductive Move (served : List Digest) (chain : Chain) (now : Moment MainChain.Block)
    (height : UInt32) (world : World) :
    Tick Notification Failure → List Event → UInt32 → World → Tick Notification Failure → Prop where
  | asked {reported : UInt32} (answer : now.height = .arrived reported) :
      Move served chain now height world .ask [] height world (.measure reported)
  | halted : Move served chain now height world .ask [] height world .halt
  | opened {reported : UInt32} (behind : height < reported) :
      Move served chain now height world (.measure reported) [] height world
        (.fetch ⟨height, height, reported, 0⟩)
  | begun {span : Span} :
      Move served chain now height world (.fetch span) [.began height] height world
        (.act span (announced served (chain.block height)))
  | sent {span : Span} {n : Notification} {todo : List Notification}
      {channel : Channel Notification} (queued : world.channel.send n = .queued channel) :
      Move served chain now height world (.act span (n :: todo)) [.sent n] height
        { world with channel } (.act { span with effects := span.effects + 1 } todo)
  | waited {span : Span} {todo : List Notification} :
      Move served chain now height world (.act span todo) [] height world (.act span todo)
  | passed {span : Span} {store : MainStore} (link : store.link = .steady)
      (cursor : store.tables.cursors.stored MainStore.chain = .ok (Cursors.past height)) :
      Move served chain now height world (.act span []) [.passed height] (Cursors.past height)
        { world with store } (.goOn { span with current := Cursors.past height })
  | ended {tick : Tick Notification Failure}
      (outcome : Except (CatchUp.Error Failure) Progress) :
      Move served chain now height world tick [] height world (.over outcome)

/-- A tick that works on a block works on the one at the cursor, which the chain has. -/
def AtCursor (height : UInt32) : Tick Notification Failure → Prop
  | .fetch span => span.current = height ∧ height < span.target
  | .act span _ => span.current = height ∧ height < span.target
  | _ => True

/-- What holds between the steps of a watcher whose cursor is at a height. -/
structure Placed (height : UInt32) (world : World) (tick : Tick Notification Failure) : Prop where
  link : world.store.link = .steady ∨ world.store.link = .closed
  cursor : world.store.tables.cursors.stored MainStore.chain = .ok height
  atCursor : AtCursor height tick

section Steps

variable {served : List Digest} {chain : Chain} {now : Moment MainChain.Block}
  {height : UInt32} {world : World} {tick : Tick Notification Failure}

-- ---------------------------------------------------------------- the cursor

private theorem cursor_zero (hlink : world.store.link = .steady)
    (hcursor : world.store.tables.cursors.stored MainStore.chain = .ok height) :
    (follower served).cursor 0 world = .ok (height, world) :=
  Outcome.bind_eq_ok.2 ⟨_, Cursors.attempt_move_zero hlink hcursor, rfl⟩

/-- A closed store moves no cursor. -/
private theorem cursor_of_closed (hlink : world.store.link = .closed) :
    (follower served).cursor height world = .error (.closed "main_chain") := by
  have hclosed : world.store.attempt (MainStore.height height) = .error (.closed "main_chain") := by
    rw [MainStore.height, Cursors.move, attempt_of_closed hlink]
    rfl
  show cursor height world = _
  rw [cursor, hclosed]
  rfl

/-- The cursor is moved past a block, and the queue is left alone. -/
private theorem cursor_past {bound : UInt32} (hlink : world.store.link = .steady)
    (hcursor : world.store.tables.cursors.stored MainStore.chain = .ok height)
    (hlt : height < bound) :
    ∃ store, (follower served).cursor (height + 1) world
        = .ok (Cursors.past height, { world with store })
      ∧ store.link = .steady
      ∧ store.tables.cursors.stored MainStore.chain = .ok (Cursors.past height) :=
  ⟨_, Outcome.bind_eq_ok.2 ⟨_, Cursors.attempt_move_past hlink hcursor hlt, rfl⟩, rfl,
    Cursors.stored_set ..⟩

-- ------------------------------------------------------------------ one step

theorem act_eq {n : Notification} : (follower served).act n world = send n world := rfl

/-- Asking for the block at the cursor. -/
theorem Placed.move_fetch {span : Span} (h : Placed height world (.fetch span))
    (honest : chain.Vouches now (.fetch span)) :
    ∃ tick', (Tick.fetch span).step (follower served) now world = (world, tick')
      ∧ Move served chain now height world (.fetch span)
        (events world (.fetch span) world tick') height world tick' := by
  obtain ⟨rfl, hlt⟩ := h.atCursor
  rw [Tick.step]
  by_cases hcancelled : now.cancelled = true
  · exact ⟨_, if_pos hcancelled, .ended _⟩
  · rw [if_neg hcancelled]
    cases hnow : now.block with
    | failed cause => exact ⟨_, rfl, .ended _⟩
    | cancelled => exact ⟨_, rfl, .ended _⟩
    | arrived block =>
        refine ⟨_, rfl, ?_⟩
        rw [Tick.take]
        by_cases hheight : (follower served).heightOf block = span.current
        · obtain rfl := honest span block rfl hnow hheight
          rw [if_pos hheight, plan_eq]
          exact .begun
        · rw [if_neg hheight]
          exact .ended _

/-- Putting an announcement into the queue. -/
theorem move_act {span : Span} {n : Notification} {todo : List Notification} :
    ∃ world' tick', (Tick.act span (n :: todo)).step (follower served) now world = (world', tick')
      ∧ Move served chain now height world (.act span (n :: todo))
        (events world (.act span (n :: todo)) world' tick') height world' tick' := by
  have hquiet : world.channel.queued.drop world.channel.queued.length = [] := List.drop_length
  rw [Tick.step]
  by_cases hcancelled : ((follower served).interruptible && now.cancelled) = true
  · refine ⟨_, _, if_pos hcancelled, ?_⟩
    rw [Tick.interrupt, events_act, hquiet]
    exact .ended _
  · rw [if_neg hcancelled]
    rw [act_eq, send]
    cases hsend : world.channel.send n with
    | queued channel =>
        obtain ⟨-, -, rfl⟩ := Channel.send_eq_queued hsend
        refine ⟨_, _, rfl, ?_⟩
        rw [events_act, List.drop_left]
        exact .sent hsend
    | full =>
        refine ⟨_, _, rfl, ?_⟩
        rw [events_act, hquiet]
        exact .waited
    | closed =>
        refine ⟨_, _, rfl, ?_⟩
        rw [events_act, hquiet]
        exact .ended _

/-- Moving the cursor past a block. -/
theorem Placed.move_cursor {span : Span} (h : Placed height world (.act span [])) :
    ∃ height' world' tick', (Tick.act span []).step (follower served) now world = (world', tick')
      ∧ Move served chain now height world (.act span [])
        (events world (.act span []) world' tick') height' world' tick' := by
  obtain ⟨rfl, hlt⟩ := h.atCursor
  rw [Tick.step]
  rcases h.link with hlink | hlink
  · obtain ⟨store, hpast, hsteady, hstored⟩ := cursor_past hlink h.cursor hlt
    rw [hpast]
    refine ⟨Cursors.past span.current, _, _, rfl, ?_⟩
    have hevents : events world (.act span []) { world with store }
        (.goOn { span with current := Cursors.past span.current }) = [.passed span.current] := by
      unfold Tick.goOn
      split <;> rfl
    rw [hevents]
    exact .passed hsteady hstored
  · rw [cursor_of_closed hlink]
    exact ⟨_, _, _, rfl, .ended _⟩

/-- Every step of a watcher is one of the moves. -/
theorem Placed.move (served : List Digest) (h : Placed height world tick)
    (honest : chain.Vouches now tick) :
    ∃ height' world' tick', tick.step (follower served) now world = (world', tick')
      ∧ Move served chain now height world tick (events world tick world' tick') height' world'
        tick' := by
  cases tick with
  | ask =>
      rw [Tick.step]
      cases hnow : now.height with
      | arrived reported => exact ⟨_, _, _, rfl, .asked hnow⟩
      | failed cause => exact ⟨_, _, _, rfl, .ended _⟩
      | cancelled => exact ⟨_, _, _, rfl, .halted⟩
  | halt =>
      rw [Tick.step]
      rcases h.link with hlink | hlink
      · rw [cursor_zero hlink h.cursor]
        exact ⟨_, _, _, rfl, .ended _⟩
      · rw [cursor_of_closed hlink]
        exact ⟨_, _, _, rfl, .ended _⟩
  | measure reported =>
      rw [Tick.step]
      rcases h.link with hlink | hlink
      · rw [cursor_zero hlink h.cursor]
        by_cases hle : reported ≤ height
        · exact ⟨_, _, _, if_pos hle, .ended _⟩
        · exact ⟨_, _, _, if_neg hle, .opened (UInt32.not_le.1 hle)⟩
      · rw [cursor_of_closed hlink]
        exact ⟨_, _, _, rfl, .ended _⟩
  | fetch span =>
      obtain ⟨tick', hstep, hmove⟩ := h.move_fetch honest
      exact ⟨_, _, _, hstep, hmove⟩
  | act span todo =>
      cases todo with
      | nil => exact h.move_cursor
      | cons n todo => exact ⟨_, move_act⟩
  | «over» outcome => exact ⟨_, _, _, rfl, .ended _⟩

/-- After a move the watcher stands at its cursor again. -/
theorem Placed.of_move {height' : UInt32} {world' : World}
    {tick' : Tick Notification Failure} {happened : List Event} (h : Placed height world tick)
    (hmove : Move served chain now height world tick happened height' world' tick') :
    Placed height' world' tick' := by
  cases hmove with
  | asked answer => exact { h with atCursor := trivial }
  | halted => exact { h with atCursor := trivial }
  | opened behind => exact { h with atCursor := ⟨rfl, behind⟩ }
  | begun => exact { h with atCursor := h.atCursor }
  | sent queued => exact { h with atCursor := h.atCursor }
  | waited => exact h
  | passed link cursor =>
      refine ⟨Or.inl link, cursor, ?_⟩
      unfold Tick.goOn
      split
      · next hnext => exact ⟨rfl, hnext⟩
      · trivial
  | ended outcome => exact { h with atCursor := trivial }

/-- The file shows what the handle shows, so a store that is closed or opened again keeps its
cursor. -/
theorem Placed.file_eq (h : Placed height world tick) : world.store.file = world.store.tables := by
  rcases h.link with hlink | hlink <;> rw [Store.file, hlink]

/-- A store that is closed keeps its cursor. -/
theorem Placed.close (h : Placed height world tick) :
    Placed height { world with store := world.store.close } tick where
  link := Or.inr rfl
  cursor := by
    show world.store.file.cursors.stored MainStore.chain = _
    rw [h.file_eq, h.cursor]
  atCursor := h.atCursor

/-- So does one that is opened again. -/
theorem Placed.reopen (h : Placed height world tick) :
    Placed height { world with store := world.store.reopen } tick where
  link := Or.inl rfl
  cursor := by
    show world.store.file.cursors.stored MainStore.chain = _
    rw [h.file_eq, h.cursor]
  atCursor := h.atCursor

/-- What is sent in a move is what the queue has more, and there was room for it. -/
theorem Move.channel_eq {height' : UInt32} {world' : World} {tick' : Tick Notification Failure}
    {happened : List Event}
    (hmove : Move served chain now height world tick happened height' world' tick') :
    (sends happened = [] ∧ world'.channel = world.channel)
      ∨ ∃ n, sends happened = [n] ∧ world.channel.send n = .queued world'.channel := by
  cases hmove with
  | sent queued => exact Or.inr ⟨_, rfl, queued⟩
  | _ => exact Or.inl ⟨rfl, rfl⟩

end Steps

end Watch

end MergedMining
