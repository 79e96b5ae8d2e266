/-
What the pipeline is handed of what the watcher announces.

Only the cursor lasts. It is moved past a block when all announcements of the block were
queued, so what lies below it was handed over, waits, or is lost; and it is lost only with
the queue, of which there are two ways to go away: the pipeline stops because somebody
cancels, or the program is started again. At each of these as much can be lost as the queue
has room for. When the pipeline stops because the watcher has stopped, nothing waits.

So the invariant counts what waited when the queue went away as gone like what was handed
over, and every turn only moves announcements among these three places.
-/
import MergedMining.Delivery
import MergedMining.Proofs.Watch.Moves

namespace MergedMining

open CatchUp Watch

-- ==================================================================== coverage

namespace Watch

/-- Everything that is announced of the blocks below the cursor is among these, and of the
block at the cursor everything that is not left to be sent. -/
structure Covered (served : List Digest) (chain : Chain) (start : UInt32)
    (gone : List Notification) (height : UInt32) (tick : Tick Notification Failure) : Prop where
  below : ∀ h, start ≤ h → h < height → announced served (chain.block h) ⊆ gone
  begun : ∀ span todo, tick = .act span todo →
    ∀ n ∈ announced served (chain.block height), n ∈ todo ∨ n ∈ gone

section Covered

variable {served : List Digest} {chain : Chain} {now : Moment MainChain.Block}
  {start height height' : UInt32} {world world' : World} {tick tick' : Tick Notification Failure}
  {gone gone' : List Notification} {happened : List Event}

/-- More may be gone. -/
private theorem Covered.mono (h : Covered served chain start gone height tick)
    (hsub : gone ⊆ gone') :
    Covered served chain start gone' height tick where
  below h' hstart hlt := List.Subset.trans (h.below h' hstart hlt) hsub
  begun span todo htick n hn := (h.begun span todo htick n hn).imp_right (@hsub n)

/-- Between ticks nothing is left to be sent. -/
theorem Covered.replace (h : Covered served chain start gone height tick)
    (hnot : ∀ span todo, tick' ≠ .act span todo) :
    Covered served chain start gone height tick' where
  below := h.below
  begun span todo htick := absurd htick (hnot span todo)

/-- Below the height that follows there is nothing new but this height. -/
theorem lt_or_eq_of_lt_past {h : UInt32} (hlt : h < Store.Cursors.past height) :
    h < height ∨ h = height := by
  unfold Store.Cursors.past at hlt
  split at hlt
  · exact absurd hlt (UInt32.not_lt.2 UInt32.zero_le)
  · rw [UInt32.lt_iff_toNat_lt, UInt32.toNat_add, UInt32.toNat_one] at hlt
    rw [UInt32.lt_iff_toNat_lt, ← UInt32.toNat_inj]
    omega

/-- After a move everything due is covered, if what it sent is counted in. -/
private theorem Covered.of_move (h : Covered served chain start gone height tick)
    (hmove : Move served chain now height world tick happened height' world' tick') :
    Covered served chain start (gone ++ sends happened) height' tick' := by
  cases hmove with
  | begun =>
      refine ⟨(h.mono (List.subset_append_left ..)).below, ?_⟩
      intro span todo htick n hn
      cases htick
      exact Or.inl hn
  | @sent span n todo channel queued =>
      refine ⟨(h.mono (List.subset_append_left ..)).below, ?_⟩
      intro span' todo' htick n' hn'
      cases htick
      rcases h.begun _ _ rfl n' hn' with hmem | hmem
      · rcases List.mem_cons.1 hmem with rfl | hmem
        · exact Or.inr (List.mem_append_right _ (List.mem_singleton_self _))
        · exact Or.inl hmem
      · exact Or.inr (List.mem_append_left _ hmem)
  | waited => exact h.mono (List.subset_append_left ..)
  | @passed span store link cursor =>
      -- nothing of the block was left, so all that it announces is gone
      have hall : announced served (chain.block height) ⊆ gone := by
        intro n hn
        rcases h.begun _ _ rfl n hn with hmem | hmem
        · cases hmem
        · exact hmem
      refine ⟨?_, ?_⟩
      · intro h' hstart hlt
        refine List.Subset.trans ?_ (List.subset_append_left ..)
        rcases lt_or_eq_of_lt_past hlt with hlt | rfl
        · exact h.below h' hstart hlt
        · exact hall
      · intro span' todo htick
        unfold Tick.goOn at htick
        split at htick <;> cases htick
  | _ => exact (h.mono (List.subset_append_left ..)).replace (by intro _ _ h; cases h)

end Covered

end Watch

namespace Delivery

-- ==================================================================== turns

/-- The tick of a loop. Between ticks it is as good as one that was just called. -/
def tickOf : Loop Notification Failure → Tick Notification Failure
  | .ticking tick => tick
  | _ => .ask

/-- The cursor of the main chain as the program sees it. -/
def cursor (d : Delivery) : Except Store.Error UInt32 :=
  d.world.store.tables.cursors.stored MainStore.chain

/-- In the turns of the watcher the node vouches for the chain. -/
def Vouched (served : List Digest) (chain : Chain) : List Turn → Delivery → Prop
  | [], _ => True
  | turn :: turns, d =>
      (∀ now, turn = .watcher now → chain.Vouches now (tickOf d.watcher))
        ∧ Vouched served chain turns (d.step served turn)

/-- What is lost in a turn: what waits when the pipeline notices that somebody cancels, and
what waits when both begin again. -/
def lost (d : Delivery) : Turn → List Notification
  | .watcher _ => []
  | .pipeline cancelled => if d.receiving && cancelled then d.world.channel.queued else []
  | .restart => d.world.channel.queued

/-- What is lost in each of the turns. -/
def losses (served : List Digest) : List Turn → Delivery → List (List Notification)
  | [], _ => []
  | turn :: turns, d => d.lost turn :: losses served turns (d.step served turn)

-- ================================================================ invariant

section Runs

variable {served : List Digest} {chain : Chain} {now : Moment MainChain.Block}
  {capacity : Nat} {start height : UInt32} {d : Delivery} {gone : List (List Notification)}

/-- What holds between turns of the watcher's loop that was started at a cursor, when these
were lost. -/
structure Kept (served : List Digest) (chain : Chain) (capacity : Nat) (start : UInt32)
    (gone : List (List Notification)) (height : UInt32) (d : Delivery) : Prop where
  placed : Placed height d.world (tickOf d.watcher)
  covered : Covered served chain start (gone.flatten ++ d.handed ++ d.world.channel.queued) height
    (tickOf d.watcher)
  capacity_eq : d.world.channel.capacity = capacity
  room : d.world.channel.queued.length ≤ capacity
  few : ∀ waiting ∈ gone, waiting.length ≤ capacity
  empty : d.receiving = false → d.world.channel.queued = [] ∧ d.world.channel.isOpen = false

/-- A step of the loop is a move of its tick, or changes nothing between two ticks. -/
theorem step_loop (served : List Digest) {world : World} {loop : Loop Notification Failure}
    (h : Placed height world (tickOf loop)) (honest : chain.Vouches now (tickOf loop)) :
    ∃ world' loop', loop.step (follower served) now world = (world', loop')
      ∧ ((∃ happened height',
            Move served chain now height world (tickOf loop) happened height' world' (tickOf loop'))
          ∨ world' = world ∧ tickOf loop' = .ask) := by
  cases loop with
  | resting =>
      rw [Loop.step]
      split
      · exact ⟨_, _, rfl, Or.inr ⟨rfl, rfl⟩⟩
      · exact ⟨_, _, rfl, Or.inr ⟨rfl, rfl⟩⟩
  | stopped => exact ⟨_, _, rfl, Or.inr ⟨rfl, rfl⟩⟩
  | ticking tick =>
      by_cases hover : ∃ outcome, tick = .over outcome
      · obtain ⟨outcome, rfl⟩ := hover
        rw [Loop.step]
        split
        · exact ⟨_, _, rfl, Or.inr ⟨rfl, rfl⟩⟩
        · exact ⟨_, _, rfl, Or.inr ⟨rfl, rfl⟩⟩
      · have hplaced : Placed height world tick := h
        have hvouches : chain.Vouches now tick := honest
        obtain ⟨height', world', tick', hstep, hmove⟩ := hplaced.move served hvouches
        refine ⟨world', .ticking tick', ?_, Or.inl ⟨_, height', hmove⟩⟩
        rw [Loop.step, hstep]
        intro outcome houtcome
        exact hover ⟨outcome, houtcome⟩

/-- At the start nothing is due and nothing is queued. -/
private theorem kept_start {tables : MainTables}
    (hstart : tables.cursors.stored MainStore.chain = .ok start) :
    Kept served chain capacity start [] start (.start capacity ⟨tables, .steady⟩) where
  placed := ⟨Or.inl rfl, hstart, trivial⟩
  covered := ⟨fun _ hle hlt => absurd hlt (UInt32.not_lt.2 hle), fun _ _ h => nomatch h⟩
  capacity_eq := rfl
  room := Nat.zero_le capacity
  few := List.forall_mem_nil _
  empty h := nomatch h

/-- A turn in which nothing happens loses nothing. -/
theorem Kept.still (h : Kept served chain capacity start gone height d) :
    Kept served chain capacity start (gone ++ [[]]) height d :=
  { h with
    covered := by simpa using h.covered
    few := List.forall_mem_append.2 ⟨h.few, List.forall_mem_singleton.2 (Nat.zero_le capacity)⟩ }

/-- A turn of the watcher. -/
theorem Kept.watch (h : Kept served chain capacity start gone height d)
    (honest : chain.Vouches now (tickOf d.watcher)) :
    ∃ height', Kept served chain capacity start gone height' (d.step served (.watcher now)) := by
  obtain ⟨world', loop', hstep, hturn⟩ := step_loop served h.placed honest
  have hd : d.step served (.watcher now) = { d with world := world', watcher := loop' } := by
    rw [step, hstep]
  rw [hd]
  rcases hturn with ⟨happened, height', hmove⟩ | ⟨rfl, hask⟩
  · have hplaced := h.placed.of_move hmove
    have hcovered := h.covered.of_move hmove
    rcases hmove.channel_eq with ⟨hsends, hchannel⟩ | ⟨n, hsends, hqueued⟩
    · rw [hsends, List.append_nil] at hcovered
      exact ⟨height', {
        placed := hplaced
        covered := by rwa [hchannel]
        capacity_eq := by rw [hchannel]; exact h.capacity_eq
        room := by rw [hchannel]; exact h.room
        few := h.few
        empty := by rw [hchannel]; exact h.empty }⟩
    · -- what was sent went from what is due into the queue
      obtain ⟨hopen, hroom, hchannel⟩ := Channel.send_eq_queued hqueued
      rw [hsends, List.append_assoc] at hcovered
      exact ⟨height', {
        placed := hplaced
        covered := by rwa [hchannel]
        capacity_eq := by rw [hchannel]; exact h.capacity_eq
        room := by
          rw [hchannel, List.length_append, ← h.capacity_eq]
          exact hroom
        few := h.few
        empty := by
          intro hreceiving
          rw [(h.empty hreceiving).2] at hopen
          cases hopen }⟩
  · exact ⟨height, {
      placed := { h.placed with atCursor := by rw [hask]; trivial }
      covered := h.covered.replace (by intro _ _ h; rw [hask] at h; cases h)
      capacity_eq := h.capacity_eq
      room := h.room
      few := h.few
      empty := h.empty }⟩

/-- When the pipeline stops, what waits is lost. -/
theorem Kept.stop (h : Kept served chain capacity start gone height d) :
    Kept served chain capacity start (gone ++ [d.world.channel.queued]) height d.stopReceiving where
  placed := ⟨h.placed.link, h.placed.cursor, h.placed.atCursor⟩
  covered := h.covered.mono (by
    intro n hn
    simp only [List.flatten_append, List.flatten_singleton, List.mem_append] at hn ⊢
    rcases hn with (hn | hn) | hn
    · exact Or.inl (Or.inl (Or.inl hn))
    · exact Or.inl (Or.inr hn)
    · exact Or.inl (Or.inl (Or.inr hn)))
  capacity_eq := h.capacity_eq
  room := Nat.zero_le capacity
  few := List.forall_mem_append.2 ⟨h.few, List.forall_mem_singleton.2 h.room⟩
  empty _ := ⟨rfl, rfl⟩

/-- A turn of the pipeline that nobody cancels. -/
theorem Kept.receive (h : Kept served chain capacity start gone height d)
    (hreceiving : d.receiving = true) :
    Kept served chain capacity start (gone ++ [[]]) height d.receive := by
  unfold Delivery.receive Channel.receive?
  cases hqueued : d.world.channel.queued with
  | nil =>
      show Kept _ _ _ _ _ _ (if d.watcherStopped then d.stopReceiving else d)
      split
      · rw [← hqueued]
        exact h.stop
      · exact h.still
  | cons n waiting =>
      exact {
        placed := ⟨h.placed.link, h.placed.cursor, h.placed.atCursor⟩
        covered := by
          have hcovered := h.covered
          rw [hqueued] at hcovered
          simpa using hcovered
        capacity_eq := h.capacity_eq
        room := by
          have hroom := h.room
          rw [hqueued] at hroom
          exact Nat.le_of_succ_le hroom
        few := h.still.few
        empty := by
          intro h
          rw [hreceiving] at h
          cases h }

/-- What is lost in a turn is what waits. -/
theorem Kept.turn (h : Kept served chain capacity start gone height d) (turn : Turn)
    (honest : ∀ now, turn = .watcher now → chain.Vouches now (tickOf d.watcher)) :
    ∃ height', Kept served chain capacity start (gone ++ [d.lost turn]) height'
      (d.step served turn) := by
  cases turn with
  | watcher now =>
      obtain ⟨height', h'⟩ := h.watch (honest now rfl)
      exact ⟨height', h'.still⟩
  | pipeline cancelled =>
      refine ⟨height, ?_⟩
      rw [lost, step]
      cases hreceiving : d.receiving with
      | false => exact h.still
      | true =>
          cases cancelled with
          | false => exact h.receive hreceiving
          | true => exact h.stop
  | restart =>
      exact ⟨height, {
        placed := ⟨h.placed.link, h.placed.cursor, trivial⟩
        covered := h.stop.covered.replace (by intro _ _ h; cases h)
        capacity_eq := h.capacity_eq
        room := Nat.zero_le capacity
        few := h.stop.few
        empty := by intro h; cases h }⟩

/-- After any turns all that is due was handed over, is queued or was lost. -/
private theorem Kept.run (turns : List Turn) (h : Kept served chain capacity start gone height d)
    (honest : Vouched served chain turns d) :
    ∃ height', Kept served chain capacity start (gone ++ losses served turns d) height'
      (run served turns d) := by
  induction turns generalizing gone height d with
  | nil => exact ⟨height, by rwa [losses, List.append_nil]⟩
  | cons turn turns ih =>
      obtain ⟨height', h'⟩ := h.turn turn honest.1
      rw [losses, List.append_cons]
      exact ih h' honest.2

-- ============================================================= what is handed over

/-- When both have stopped, every served transaction of the blocks below the cursor was handed
to the pipeline, with the proof of its block, or it was lost in one of the turns; and in no
turn is more lost than the queue has room for. -/
theorem handed_or_lost {tables : MainTables} {turns : List Turn}
    (hstart : tables.cursors.stored MainStore.chain = .ok start)
    (honest : Vouched served chain turns (.start capacity ⟨tables, .steady⟩))
    (hd : run served turns (.start capacity ⟨tables, .steady⟩) = d)
    (hstopped : d.isStopped = true) (hcursor : d.cursor = .ok height) :
    (∀ h tx payload, start ≤ h → h < height → tx ∈ (chain.block h).transactions →
        tx.sideMining = .ok payload → payload.sideGenesis ∈ served →
        ∃ proof, blockProof served (chain.block h) = .ok proof
          ∧ (⟨proof, tx⟩ ∈ d.handed
            ∨ ∃ waiting ∈ losses served turns (.start capacity ⟨tables, .steady⟩),
                ⟨proof, tx⟩ ∈ waiting))
      ∧ ∀ waiting ∈ losses served turns (.start capacity ⟨tables, .steady⟩),
          waiting.length ≤ capacity := by
  obtain ⟨height', hkept⟩ := Kept.run turns (kept_start hstart) honest
  rw [hd, List.nil_append] at hkept
  obtain rfl : height' = height := Except.ok.inj (hkept.placed.cursor.symm.trans hcursor)
  have hreceiving : d.receiving = false := by
    rw [isStopped, Bool.and_eq_true] at hstopped
    simpa using hstopped.2
  refine ⟨?_, hkept.few⟩
  intro h tx payload hle hlt htx hpayload hserved
  obtain ⟨proof, hproof⟩ := exists_blockProof served htx
  have hannounced : ⟨proof, tx⟩ ∈ announced served (chain.block h) :=
    mem_announced_iff.2 ⟨hproof, htx, isServed_iff.2 ⟨payload, hpayload, hserved⟩⟩
  have hgone := hkept.covered.below h hle hlt hannounced
  rw [(hkept.empty hreceiving).1, List.append_nil, List.mem_append, List.mem_flatten] at hgone
  exact ⟨proof, hproof, hgone.symm⟩

end Runs

/-- The watcher takes turns at a node that has so many blocks and answers with these. -/
def answers (reported : UInt32) (heights : List UInt32) : List Turn :=
  heights.map fun height => .watcher ⟨.arrived reported, .arrived (sampleChain.block height), false⟩

/-- The watcher notices that somebody cancels. -/
def cancels : Turn := .watcher ⟨.cancelled, .cancelled, true⟩

/-- A turn in which the node answers from the chain or not at all. -/
def Truthful : Turn → Prop
  | .watcher now =>
      now.block = .cancelled ∨ ∃ height, now.block = .arrived (sampleChain.block height)
  | _ => True

private theorem truthful_answers (reported : UInt32) (heights : List UInt32) :
    ∀ turn ∈ answers reported heights, Truthful turn :=
  List.forall_mem_map.2 fun height _ => Or.inr ⟨height, rfl⟩

private theorem truthful_cancels : Truthful cancels := Or.inl rfl

/-- The chain vouches for turns that are truthful. -/
private theorem vouched_of_truthful {served : List Digest} {turns : List Turn} {d : Delivery}
    (h : ∀ turn ∈ turns, Truthful turn) : Vouched served sampleChain turns d := by
  induction turns generalizing d with
  | nil => trivial
  | cons turn turns ih =>
      refine ⟨?_, ih fun turn hturn => h turn (List.mem_cons_of_mem _ hturn)⟩
      rintro now rfl
      rcases h _ List.mem_cons_self with hnone | ⟨height, hblock⟩
      · intro span block _ hblock
        rw [hnone] at hblock
        cases hblock
      · exact sampleChain.vouches_block hblock _

/-- One announcement is handed over, and one waits when the pipeline stops. -/
def halfway : List Turn :=
  answers 2 [0, 0, 0, 0, 0] ++ .pipeline false :: answers 2 [1, 1, 1]
    ++ .pipeline true :: answers 2 [1] ++ [cancels]

/-- The two begin with a store on a new file. -/
def sampleStart : Delivery := .start 64 ⟨Tables.empty, .steady⟩

/-- The chain vouches for the turns that cancel halfway. -/
private theorem vouched_halfway : Vouched sampleServed sampleChain halfway sampleStart := by
  refine vouched_of_truthful ?_
  simp only [halfway, List.forall_mem_append, List.forall_mem_cons]
  exact ⟨⟨⟨truthful_answers _ _, trivial, truthful_answers _ _⟩, trivial, truthful_answers _ _⟩,
    truthful_cancels, List.forall_mem_nil _⟩

/-- With a cancel halfway one notification is handed over and one is lost. -/
theorem handed_or_lost_halfway :
    (Tables.empty : MainTables).cursors.stored MainStore.chain = .ok 0
      ∧ Vouched sampleServed sampleChain halfway sampleStart
      ∧ ∃ d, run sampleServed halfway sampleStart = d ∧ d.isStopped = true ∧ d.cursor = .ok 2
        ∧ d.handed.length = 1 ∧ (losses sampleServed halfway sampleStart).flatten.length = 1
        ∧ (∀ h tx payload, 0 ≤ h → h < 2 → tx ∈ (sampleChain.block h).transactions →
            tx.sideMining = .ok payload → payload.sideGenesis ∈ sampleServed →
            ∃ proof, blockProof sampleServed (sampleChain.block h) = .ok proof
              ∧ (⟨proof, tx⟩ ∈ d.handed
                ∨ ∃ waiting ∈ losses sampleServed halfway sampleStart, ⟨proof, tx⟩ ∈ waiting))
        ∧ ∀ waiting ∈ losses sampleServed halfway sampleStart, waiting.length ≤ 64 := by
  have hstopped : (run sampleServed halfway sampleStart).isStopped = true := by decide
  have hcursor : (run sampleServed halfway sampleStart).cursor = .ok 2 :=
    Outcome.eq_ok_of_toOption (by decide)
  exact ⟨rfl, vouched_halfway, _, rfl, hstopped, hcursor, by decide, by decide,
    handed_or_lost rfl vouched_halfway rfl hstopped hcursor⟩

/-- The only announcement waits when the pipeline stops. Then both begin again, and stop when
there is nothing to do. -/
def tooEarly : List Turn :=
  answers 1 [0, 0, 0, 0, 0] ++ .pipeline true :: answers 1 [0] ++ cancels
    :: .restart :: answers 1 [0, 0, 0] ++ [cancels, .pipeline false]

/-- The chain vouches for the turns that cancel too early. -/
private theorem vouched_tooEarly : Vouched sampleServed sampleChain tooEarly sampleStart := by
  refine vouched_of_truthful ?_
  simp only [tooEarly, List.forall_mem_append, List.forall_mem_cons]
  exact ⟨⟨⟨truthful_answers _ _, trivial, truthful_answers _ _⟩, truthful_cancels, trivial,
    truthful_answers _ _⟩, truthful_cancels, trivial, List.forall_mem_nil _⟩

/-- A served transaction of a block below the cursor that is never handed to the pipeline. -/
theorem not_handed_tooEarly :
    (Tables.empty : MainTables).cursors.stored MainStore.chain = .ok 0
      ∧ Vouched sampleServed sampleChain tooEarly sampleStart
      ∧ ∃ d tx payload, run sampleServed tooEarly sampleStart = d ∧ d.isStopped = true
        ∧ d.cursor = .ok 1 ∧ tx ∈ (sampleChain.block 0).transactions
        ∧ tx.sideMining = .ok payload ∧ payload.sideGenesis ∈ sampleServed
        ∧ ∀ n ∈ d.handed, n.transaction ≠ tx := by
  have hstopped : (run sampleServed tooEarly sampleStart).isStopped = true := by decide +kernel
  have hcursor : (run sampleServed tooEarly sampleStart).cursor = .ok 1 :=
    Outcome.eq_ok_of_toOption (by decide +kernel)
  have hnone : (run sampleServed tooEarly sampleStart).handed = [] :=
    List.eq_nil_of_length_eq_zero (by rfl)
  have hmined : isServed sampleServed Submission.Pipeline.mined = true := by decide
  obtain ⟨payload, hpayload, hserved⟩ := isServed_iff.1 hmined
  refine ⟨rfl, vouched_tooEarly, _, _, payload, rfl, hstopped, hcursor, List.mem_cons_self,
    hpayload, hserved, ?_⟩
  rw [hnone]
  exact List.forall_mem_nil _

end Delivery

end MergedMining
