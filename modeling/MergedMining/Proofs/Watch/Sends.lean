/-
What a watcher sends over all of its calls.

Sorted by height, the events of a history have one shape. A block below the cursor was
begun some number of times in vain, each time its announcements were sent as far as the
call came, and then once to the end. A block at the cursor was only begun in vain, or is
being announced now. Nothing ever happened above the cursor. Each move extends the shape of
the block at the cursor by one event, and a call that is dropped turns what it did with this
block into one more beginning in vain. That is the one invariant; all that is said of how
often something is sent is read off it.

Within one call no block is begun twice. So what one call sends is, in order, what is
announced of the blocks from the one at which it set out.
-/
import MergedMining.Proofs.Watch.Session

namespace MergedMining.Watch

open CatchUp Store

-- ===================================================================== events

/-- The height of the block that an event is about. An announcement is about the block that
its proof is of. -/
def Event.height : Event → UInt32
  | .began height => height
  | .sent n => n.proof.height
  | .passed height => height

/-- What happened with the block at a height. -/
def atHeight (height : UInt32) (log : List Event) : List Event := log.filter (·.height = height)

/-- What was sent with the proof of the block at a height. -/
def sentAt (height : UInt32) (log : List Event) : List Notification :=
  (sends log).filter (·.proof.height = height)

/-- Some call began with the block at a height and did not move the cursor past it. -/
def CutOff (log : List Event) (height : UInt32) : Prop :=
  log.count (.passed height) < log.count (.began height)

instance (log : List Event) (height : UInt32) : Decidable (CutOff log height) :=
  inferInstanceAs (Decidable (_ < _))

private theorem sends_append (xs ys : List Event) : sends (xs ++ ys) = sends xs ++ sends ys :=
  List.filterMap_append

private theorem sends_map_sent (ns : List Notification) : sends (ns.map .sent) = ns := by
  rw [sends, List.filterMap_map]
  exact List.filterMap_some

private theorem atHeight_append (height : UInt32) (xs ys : List Event) :
    atHeight height (xs ++ ys) = atHeight height xs ++ atHeight height ys :=
  List.filter_append ..

/-- What was sent for a block is what was sent of what happened with it. -/
theorem sentAt_eq_sends (height : UInt32) (log : List Event) :
    sentAt height log = sends (atHeight height log) := by
  rw [sentAt, sends, sends, atHeight, List.filter_filterMap, List.filterMap_filter]
  congr 1
  funext event
  cases event with
  | sent n => rfl
  | _ => simp

private theorem count_atHeight {event : Event} {height : UInt32} (h : event.height = height)
    (log : List Event) : log.count event = (atHeight height log).count event :=
  (List.count_filter (by simpa using h)).symm

-- =================================================================== attempts

section Attempts

variable (served : List Digest) (chain : Chain)

/-- What happens with a block when a call begins with it and comes as far as so many
announcements. -/
def attempt (height : UInt32) (k : Nat) : List Event :=
  .began height :: ((announced served (chain.block height)).take k).map .sent

/-- What happens when a call begins with a block and moves the cursor past it. -/
def whole (height : UInt32) : List Event :=
  .began height :: (announced served (chain.block height)).map .sent ++ [.passed height]

variable {served chain} {height : UInt32} {k : Nat} {n : Notification}

private theorem attempt_zero : attempt served chain height 0 = [.began height] := rfl

private theorem attempt_succ (h : (announced served (chain.block height))[k]? = some n) :
    attempt served chain height (k + 1) = attempt served chain height k ++ [.sent n] := by
  rw [attempt, attempt, List.take_add_one, h, List.map_append]
  rfl

private theorem attempt_all (h : (announced served (chain.block height)).length ≤ k) :
    attempt served chain height k ++ [.passed height] = whole served chain height := by
  rw [attempt, whole, List.take_of_length_le h]

private theorem sends_attempt :
    sends (attempt served chain height k) = (announced served (chain.block height)).take k :=
  sends_map_sent _

private theorem sends_whole :
    sends (whole served chain height) = announced served (chain.block height) := by
  rw [whole, sends_append]
  exact (List.append_nil _).trans (sends_map_sent _)

/-- Beginnings in vain send only what is announced of the block. -/
theorem sends_flatMap_attempt_subset (cuts : List Nat) :
    sends (cuts.flatMap (attempt served chain height)) ⊆ announced served (chain.block height) := by
  intro n hn
  rw [sends, List.filterMap_flatMap] at hn
  obtain ⟨k, -, hk⟩ := List.mem_flatMap.1 hn
  rw [← sends, sends_attempt] at hk
  exact List.mem_of_mem_take hk

/-- Among sends there is no other event. -/
private theorem count_map_sent {event : Event} (h : ∀ n, event ≠ .sent n) (ns : List Notification) :
    (ns.map .sent).count event = 0 := by
  rw [List.count_eq_zero, List.mem_map]
  intro hmem
  obtain ⟨n, -, hn⟩ := hmem
  exact h n hn.symm

/-- A block that was begun in vain and then to the end was begun once more than in vain. -/
theorem count_began (cuts : List Nat) :
    (cuts.flatMap (attempt served chain height) ++ whole served chain height).count (.began height)
      = cuts.length + 1 := by
  induction cuts with
  | nil => simp [whole, count_map_sent]
  | cons k cuts ih => simp [attempt, -List.map_take, count_map_sent, ih]

/-- However often it was begun, a block is passed once. -/
private theorem count_passed (cuts : List Nat) :
    (cuts.flatMap (attempt served chain height) ++ whole served chain height).count (.passed height)
      = 1 := by
  induction cuts with
  | nil => simp [whole, count_map_sent]
  | cons k cuts ih => simp [attempt, -List.map_take, count_map_sent, ih]

end Attempts

-- ============================================================== all calls

/-- The tick's chain ends below the height that would send the cursor back. -/
def Bounded : Tick Notification Failure → Prop
  | .measure reported => reported ≠ resetHeight
  | .fetch span => span.target ≠ resetHeight
  | .act span _ => span.target ≠ resetHeight
  | _ => True

/-- What happened so far when the cursor is at a height. -/
structure Logged (served : List Digest) (chain : Chain) (start : UInt32) (log : List Event)
    (height : UInt32) (tick : Tick Notification Failure) : Prop where
  start_le : start ≤ height
  nothing : ∀ h, h < start ∨ height < h → atHeight h log = []
  done : ∀ h, start ≤ h → h < height → ∃ cuts : List Nat,
    atHeight h log = cuts.flatMap (attempt served chain h) ++ whole served chain h
  begun : ∃ cuts : List Nat, atHeight height log = cuts.flatMap (attempt served chain height)
  going : ∀ span todo, tick = .act span todo → ∃ (cuts : List Nat) (k : Nat),
    atHeight height log
        = cuts.flatMap (attempt served chain height) ++ attempt served chain height k
      ∧ todo = (announced served (chain.block height)).drop k

section Histories

variable {served : List Digest} {chain : Chain} {now : Moment MainChain.Block}
  {start height height' : UInt32} {world world' : World} {tick tick' : Tick Notification Failure}
  {log happened : List Event}

/-- A move stays below the height that would send the cursor back. -/
private theorem Bounded.of_move (h : Bounded tick)
    (hreported : ∀ reported, now.height = .arrived reported → reported ≠ resetHeight)
    (hmove : Move served chain now height world tick happened height' world' tick') :
    Bounded tick' := by
  cases hmove with
  | asked answer => exact hreported _ answer
  | opened behind => exact h
  | begun => exact h
  | sent queued => exact h
  | waited => exact h
  | @passed span store link cursor =>
      unfold Tick.goOn
      split
      · exact h
      · trivial
  | _ => trivial

/-- Where the chain ends below that height a cursor moves up. -/
theorem past_eq {bound : UInt32} (hlt : height < bound) (hbound : bound ≠ resetHeight) :
    Cursors.past height = height + 1 :=
  if_neg (succ_ne_reset hlt hbound)

/-- The announcements of a block are about it. -/
theorem height_of_mem_announced {n : Notification} (h : n ∈ announced served (chain.block height)) :
    n.proof.height = height := by
  obtain ⟨hproof, -⟩ := mem_announced_iff.1 h
  obtain ⟨-, -, hn⟩ := Merkle.PartialProof.build_eq_ok_iff.1 hproof
  rw [hn]
  exact chain.height_block height

private theorem Logged.replace (h : Logged served chain start log height tick)
    (hnot : ∀ span todo, tick' ≠ .act span todo) :
    Logged served chain start log height tick' :=
  { h with going := fun span todo htick => absurd htick (hnot span todo) }

private theorem atHeight_concat_self {event : Event} (hevent : event.height = height) :
    atHeight height (log ++ [event]) = atHeight height log ++ [event] := by
  rw [atHeight_append]
  simp [atHeight, hevent]

private theorem atHeight_concat_of_ne {event : Event} (h : event.height ≠ height) :
    atHeight height (log ++ [event]) = atHeight height log := by
  rw [atHeight_append]
  simp [atHeight, h]

/-- An event of the block at the cursor leaves what is above as it is. -/
theorem Logged.nothing_concat (h : Logged served chain start log height tick) {event : Event}
    (hevent : event.height = height) {h' : UInt32} (hout : h' < start ∨ height < h') :
    atHeight h' (log ++ [event]) = [] := by
  have hne : event.height ≠ h' := by
    rintro rfl
    rw [hevent] at hout
    exact hout.elim (UInt32.not_lt.2 h.start_le) (UInt32.lt_irrefl height)
  rw [atHeight_concat_of_ne hne, h.nothing h' hout]

/-- It leaves what is below as it is, too. -/
theorem Logged.done_concat (h : Logged served chain start log height tick) {event : Event}
    (hevent : event.height = height) {h' : UInt32} (hle : start ≤ h') (hlt : h' < height) :
    ∃ cuts : List Nat, atHeight h' (log ++ [event])
      = cuts.flatMap (attempt served chain h') ++ whole served chain h' := by
  have hne : event.height ≠ h' := by
    rw [hevent]
    exact (UInt32.ne_of_lt hlt).symm
  rw [atHeight_concat_of_ne hne]
  exact h.done h' hle hlt

/-- One more event of the block at the cursor, which is announced as far as `k`. -/
theorem Logged.go (h : Logged served chain start log height tick) {event : Event}
    {cuts : List Nat} {k : Nat} {span : Span} {todo : List Notification}
    (hevent : event.height = height)
    (hgoing : atHeight height log ++ [event]
      = cuts.flatMap (attempt served chain height) ++ attempt served chain height k)
    (htodo : todo = (announced served (chain.block height)).drop k) :
    Logged served chain start (log ++ [event]) height (.act span todo) where
  start_le := h.start_le
  nothing _ := h.nothing_concat hevent
  done _ := h.done_concat hevent
  begun := by
    refine ⟨cuts ++ [k], ?_⟩
    rw [atHeight_concat_self hevent, hgoing, List.flatMap_append, List.flatMap_singleton]
  going span' todo' htick := by
    cases htick
    exact ⟨cuts, k, (atHeight_concat_self hevent).trans hgoing, htodo⟩

/-- The cursor moves up past a block of which everything was announced. -/
theorem Logged.pass {span : Span} (h : Logged served chain start log height (.act span []))
    (hsucc : (height + 1).toNat = height.toNat + 1)
    (hnot : ∀ span todo, tick' ≠ .act span todo) :
    Logged served chain start (log ++ [.passed height]) (height + 1) tick' := by
  have hlt_iff (h' : UInt32) : h' < height + 1 ↔ h' < height ∨ h' = height := by
    rw [UInt32.lt_iff_toNat_lt, UInt32.lt_iff_toNat_lt, ← UInt32.toNat_inj, hsucc]
    omega
  have hlt : height < height + 1 := (hlt_iff height).2 (Or.inr rfl)
  refine ⟨UInt32.le_trans h.start_le (UInt32.le_of_lt hlt), ?_, ?_, ⟨[], ?_⟩, ?_⟩
  · intro h' hout
    exact h.nothing_concat rfl (hout.imp_right (UInt32.lt_trans hlt))
  · intro h' hle hlt'
    rcases (hlt_iff h').1 hlt' with hbelow | rfl
    · exact h.done_concat rfl hle hbelow
    · obtain ⟨cuts, k, hgoing, htodo⟩ := h.going span [] rfl
      refine ⟨cuts, ?_⟩
      rw [atHeight_concat_self (show (Event.passed h').height = h' from rfl), hgoing,
        List.append_assoc, attempt_all (List.drop_eq_nil_iff.1 htodo.symm)]
  · exact h.nothing_concat rfl (Or.inr hlt)
  · intro span' todo' htick
    exact absurd htick (hnot span' todo')

/-- A move is logged as the history of its block allows. -/
private theorem Logged.of_move (h : Logged served chain start log height tick)
    (hplaced : Placed height world tick) (hbounded : Bounded tick)
    (hmove : Move served chain now height world tick happened height' world' tick') :
    Logged served chain start (log ++ happened) height' tick' := by
  cases hmove with
  | @begun span =>
      obtain ⟨cuts, hcuts⟩ := h.begun
      exact h.go rfl (by rw [hcuts, attempt_zero]) rfl
  | @sent span n todo channel queued =>
      obtain ⟨cuts, k, hgoing, htodo⟩ := h.going _ _ rfl
      have hn : (announced served (chain.block height))[k]? = some n := by
        rw [← List.head?_drop, ← htodo, List.head?_cons]
      refine h.go (height_of_mem_announced (List.mem_of_getElem? hn))
        (by rw [hgoing, attempt_succ hn, List.append_assoc]) ?_
      rw [← List.tail_drop, ← htodo, List.tail_cons]
  | waited => rwa [List.append_nil]
  | @passed span store link cursor =>
      obtain ⟨hcurrent, hlt⟩ := hplaced.atCursor
      rw [past_eq hlt hbounded]
      refine h.pass (toNat_succ hlt) ?_
      unfold Tick.goOn
      split <;> simp
  | _ =>
      rw [List.append_nil]
      exact h.replace (by simp)

/-- For a block below the cursor everything was sent, and only once if no call was cut off. -/
theorem Logged.sentAt_eq (h : Logged served chain start log height tick) {h' : UInt32}
    (hle : start ≤ h') (hlt : h' < height) :
    announced served (chain.block h') ⊆ sentAt h' log
      ∧ (¬CutOff log h' → sentAt h' log = announced served (chain.block h')) := by
  obtain ⟨cuts, hdone⟩ := h.done h' hle hlt
  have hsent : sentAt h' log
      = sends (cuts.flatMap (attempt served chain h')) ++ announced served (chain.block h') := by
    rw [sentAt_eq_sends, hdone, sends_append, sends_whole]
  have hbegan : log.count (.began h') = cuts.length + 1 := by
    rw [count_atHeight (show (Event.began h').height = h' from rfl), hdone, count_began]
  have hpassed : log.count (.passed h') = 1 := by
    rw [count_atHeight (show (Event.passed h').height = h' from rfl), hdone, count_passed]
  rw [hsent, CutOff, hbegan, hpassed]
  refine ⟨List.subset_append_right .., fun hwhole => ?_⟩
  obtain rfl : cuts = [] := List.eq_nil_of_length_eq_zero (by omega)
  rfl

/-- What was sent is announced of the block that its proof is of, which is not above the
cursor. -/
theorem Logged.mem_announced (h : Logged served chain start log height tick) {n : Notification}
    (hn : n ∈ sends log) :
    start ≤ n.proof.height ∧ n.proof.height ≤ height
      ∧ n ∈ announced served (chain.block n.proof.height) := by
  have hat : n ∈ sends (atHeight n.proof.height log) := by
    rw [← sentAt_eq_sends]
    exact List.mem_filter.2 ⟨hn, by simp⟩
  obtain ⟨hle, hge⟩ : start ≤ n.proof.height ∧ n.proof.height ≤ height := by
    rw [← UInt32.not_lt, ← UInt32.not_lt, ← not_or]
    intro hout
    rw [h.nothing _ hout] at hat
    cases hat
  refine ⟨hle, hge, ?_⟩
  rcases UInt32.lt_or_eq_of_le hge with hlt | heq
  · obtain ⟨cuts, hdone⟩ := h.done _ hle hlt
    rw [hdone, sends_append, sends_whole] at hat
    rcases List.mem_append.1 hat with hcut | hwhole
    · exact sends_flatMap_attempt_subset cuts hcut
    · exact hwhole
  · obtain ⟨cuts, hbegun⟩ := h.begun
    rw [heq] at hat ⊢
    rw [hbegun] at hat
    exact sends_flatMap_attempt_subset cuts hat

end Histories

-- ================================================================== one call

section Call

variable (served : List Digest) (chain : Chain)

/-- What is announced of so many blocks, in order. -/
def announcedFrom (first count : Nat) : List Notification :=
  (List.range' first count).flatMap fun height => announced served (chain.block (.ofNat height))

/-- What a call sends is a beginning of what is announced of the blocks from some height on.
There is only one block for each height. -/
def InOrder (call : List Event) : Prop :=
  ∃ first count, first + count ≤ UInt32.size
    ∧ sends call <+: announcedFrom served chain first count

/-- What a call that goes on sent so far. -/
def Paced (call : List Event) (height : UInt32) : Tick Notification Failure → Prop
  | .fetch span =>
      span.start ≤ height
        ∧ sends call = announcedFrom served chain span.start.toNat (height.toNat - span.start.toNat)
  | .act span todo =>
      span.start ≤ height
        ∧ sends call ++ todo
          = announcedFrom served chain span.start.toNat (height.toNat - span.start.toNat)
            ++ announced served (chain.block height)
  | .over _ => InOrder served chain call
  | _ => sends call = []

variable {served chain} {now : Moment MainChain.Block} {height height' : UInt32}
  {world world' : World} {tick tick' : Tick Notification Failure} {call happened : List Event}

/-- One more block announces what is announced of it. -/
private theorem announcedFrom_succ {first : UInt32} (h : first ≤ height) :
    announcedFrom served chain first.toNat (height.toNat + 1 - first.toNat)
      = announcedFrom served chain first.toNat (height.toNat - first.toNat)
        ++ announced served (chain.block height) := by
  have hle := UInt32.le_iff_toNat_le.1 h
  unfold announcedFrom
  rw [Nat.succ_sub hle, List.range'_concat, List.flatMap_append, List.flatMap_singleton,
    Nat.one_mul, Nat.add_sub_cancel' hle, UInt32.ofNat_toNat]

/-- Sending all that is announced from one height up to another is in order. -/
theorem inOrder_of_sends_eq {first : UInt32} (h : first ≤ height)
    (hsends : sends call
      = announcedFrom served chain first.toNat (height.toNat - first.toNat)) :
    InOrder served chain call := by
  refine ⟨_, _, ?_, [], (List.append_nil _).trans hsends⟩
  rw [Nat.add_sub_cancel' (UInt32.le_iff_toNat_le.1 h)]
  exact Nat.le_of_lt height.toNat_lt_size

/-- Whatever a call does next, it was in order so far. -/
theorem Paced.inOrder (h : Paced served chain call height tick) : InOrder served chain call := by
  cases tick with
  | fetch span => exact inOrder_of_sends_eq h.1 h.2
  | act span todo =>
      refine ⟨span.start.toNat, height.toNat + 1 - span.start.toNat, ?_, ?_⟩
      · rw [Nat.add_sub_cancel' (Nat.le_succ_of_le (UInt32.le_iff_toNat_le.1 h.1))]
        exact height.toNat_lt_size
      · rw [announcedFrom_succ h.1, ← h.2]
        exact List.prefix_append ..
  | «over» outcome => exact h
  | _ =>
      refine ⟨0, 0, Nat.zero_le _, ?_⟩
      rw [show sends call = [] from h]
      exact List.nil_prefix

/-- Within a call each move sends what is next. -/
private theorem Paced.of_move (h : Paced served chain call height tick)
    (hplaced : Placed height world tick) (hbounded : Bounded tick)
    (hmove : Move served chain now height world tick happened height' world' tick') :
    Paced served chain (call ++ happened) height' tick' := by
  cases hmove with
  | asked answer => rwa [List.append_nil]
  | halted => rwa [List.append_nil]
  | opened behind =>
      rw [List.append_nil]
      refine ⟨UInt32.le_refl height, ?_⟩
      rw [Nat.sub_self, show sends call = [] from h]
      rfl
  | begun =>
      refine ⟨h.1, ?_⟩
      rw [sends_append, h.2]
      exact congrArg (· ++ _) (List.append_nil _)
  | sent queued =>
      refine ⟨h.1, ?_⟩
      rw [sends_append, ← h.2, List.append_assoc]
      rfl
  | waited => rwa [List.append_nil]
  | @passed span store link cursor =>
      obtain ⟨hcurrent, hlt⟩ := hplaced.atCursor
      obtain ⟨hle, hsends⟩ := h
      -- the block is done, so all that it announces was sent
      have hall : sends (call ++ [.passed height])
          = announcedFrom served chain span.start.toNat
            ((height + 1).toNat - span.start.toNat) := by
        rw [toNat_succ hlt, announcedFrom_succ hle, ← hsends, sends_append]
        rfl
      rw [past_eq hlt hbounded]
      have hup := UInt32.le_trans hle (UInt32.le_of_lt (lt_succ hlt))
      unfold Tick.goOn
      split
      · exact ⟨hup, hall⟩
      · exact inOrder_of_sends_eq hup hall
  | ended outcome =>
      rw [List.append_nil]
      exact h.inOrder

end Call

-- ================================================================== sessions

namespace Session

section Sessions

variable {served : List Digest} {chain : Chain} {start height : UInt32} {s : Session}

/-- What holds between turns when the cursor is at a height. -/
structure Told (served : List Digest) (chain : Chain) (start height : UInt32) (s : Session) :
    Prop where
  placed : Placed height s.world s.tick
  bounded : Bounded s.tick
  logged : Logged served chain start s.log height s.tick
  paced : Paced served chain s.call height s.tick
  ordered : ∀ call ∈ s.earlier, InOrder served chain call

/-- A session begins with nothing to tell. -/
private theorem told_started {tables : MainTables} {channel : Channel Notification}
    (hstart : tables.cursors.stored MainStore.chain = .ok start) :
    Told served chain start start (started tables channel) where
  placed := ⟨Or.inl rfl, hstart, trivial⟩
  bounded := trivial
  logged :=
    { start_le := UInt32.le_refl start
      nothing := fun _ _ => rfl
      done := fun _ hle hlt => absurd hlt (UInt32.not_lt.2 hle)
      begun := ⟨[], rfl⟩
      going := fun _ _ h => nomatch h }
  paced := rfl
  ordered := List.forall_mem_nil _

/-- An honest step goes on telling, at this height or the next. -/
private theorem Told.step (h : Told served chain start height s) {now : Moment MainChain.Block}
    (honest : (Turn.step now).Honest chain s) :
    ∃ height', Told served chain start height' (s.step served now) := by
  obtain ⟨hreported, hvouches⟩ := honest
  obtain ⟨height', world', tick', hstep, hmove⟩ := h.placed.move served hvouches
  have hs : s.step served now
      = { s with
          world := world', tick := tick'
          call := s.call ++ events s.world s.tick world' tick' } := by
    rw [Session.step, hstep]
  rw [hs]
  exact ⟨height', {
    placed := h.placed.of_move hmove
    bounded := h.bounded.of_move hreported hmove
    logged := by
      have hlogged := h.logged.of_move h.placed h.bounded hmove
      rwa [log, List.append_assoc] at hlogged
    paced := h.paced.of_move h.placed h.bounded hmove
    ordered := h.ordered }⟩

/-- A call that is dropped leaves what it did. -/
theorem Told.again (h : Told served chain start height s) :
    Told served chain start height s.again where
  placed := ⟨h.placed.link, h.placed.cursor, trivial⟩
  bounded := trivial
  logged := by
    have hlog : s.again.log = s.log := by
      simp [log, Session.again]
    rw [hlog]
    exact h.logged.replace (by simp [Session.again])
  paced := rfl
  ordered := List.forall_mem_append.2 ⟨h.ordered, List.forall_mem_singleton.2 h.paced.inOrder⟩

/-- Any honest turn goes on telling. -/
private theorem Told.turn (h : Told served chain start height s) (turn : Turn)
    (honest : turn.Honest chain s) :
    ∃ height', Told served chain start height' (s.turn served turn) := by
  cases turn with
  | step now => exact h.step honest
  | fails cause =>
      exact ⟨height, { h with
        placed := ⟨h.placed.link, h.placed.cursor, trivial⟩
        bounded := trivial
        logged := h.logged.replace (by simp [Session.turn])
        paced := h.paced.inOrder }⟩
  | call => exact ⟨height, h.again⟩
  | channel channel =>
      exact ⟨height, { h with placed := ⟨h.placed.link, h.placed.cursor, h.placed.atCursor⟩ }⟩
  | close => exact ⟨height, { h with placed := h.placed.close }⟩
  | restart => exact ⟨height, { h.again with placed := h.again.placed.reopen }⟩

/-- All that is reached is told of. -/
private theorem Reaches.told {tables : MainTables} {channel : Channel Notification}
    (h : Reaches served chain (started tables channel) s)
    (hstart : tables.cursors.stored MainStore.chain = .ok start) :
    ∃ height, Told served chain start height s := by
  induction h with
  | refl => exact ⟨start, told_started hstart⟩
  | turn before turn honest ih =>
      obtain ⟨height, htold⟩ := ih
      exact htold.turn turn honest

/-- What was sent when the cursor is at a height. Of every block from the first cursor up to
there each transaction that names a chain that is served was sent with the block's proof. If
no call was cut off inside the block, what was sent for it are its announcements, each once
and in order. Nothing else was ever sent, and every call sent in the order of the blocks and
of their transactions. -/
theorem Reaches.never_skips {tables : MainTables} {channel : Channel Notification}
    (hs : Reaches served chain (started tables channel) s)
    (hstart : tables.cursors.stored MainStore.chain = .ok start)
    (hcursor : s.cursor = .ok height) :
    (∀ h, start ≤ h → h < height →
        (∀ tx payload, tx ∈ (chain.block h).transactions → tx.sideMining = .ok payload →
          payload.sideGenesis ∈ served →
          ∃ proof, blockProof served (chain.block h) = .ok proof
            ∧ ⟨proof, tx⟩ ∈ sentAt h s.log)
        ∧ (¬CutOff s.log h → sentAt h s.log = announced served (chain.block h)))
      ∧ (∀ n ∈ sends s.log, ∃ h, start ≤ h ∧ h ≤ height
          ∧ blockProof served (chain.block h) = .ok n.proof
          ∧ n.transaction ∈ (chain.block h).transactions
          ∧ ∃ payload, n.transaction.sideMining = .ok payload ∧ payload.sideGenesis ∈ served)
      ∧ ∀ call ∈ s.earlier ++ [s.call], InOrder served chain call := by
  obtain ⟨height', htold⟩ := hs.told hstart
  obtain rfl : height' = height := Except.ok.inj (htold.placed.cursor.symm.trans hcursor)
  refine ⟨?_, ?_, List.forall_mem_append.2
    ⟨htold.ordered, List.forall_mem_singleton.2 htold.paced.inOrder⟩⟩
  · intro h hle hlt
    obtain ⟨hall, honce⟩ := htold.logged.sentAt_eq hle hlt
    refine ⟨?_, honce⟩
    intro tx payload htx hpayload hserved
    obtain ⟨proof, hproof⟩ := exists_blockProof served htx
    -- a transaction that names a chain that is served is announced
    have hannounced : ⟨proof, tx⟩ ∈ announced served (chain.block h) :=
      mem_announced_iff.2 ⟨hproof, htx, isServed_iff.2 ⟨payload, hpayload, hserved⟩⟩
    exact ⟨proof, hproof, hall hannounced⟩
  · intro n hn
    obtain ⟨hle, hge, hannounced⟩ := htold.logged.mem_announced hn
    obtain ⟨hproof, htx, hserved⟩ := mem_announced_iff.1 hannounced
    exact ⟨_, hle, hge, hproof, htx, isServed_iff.1 hserved⟩

end Sessions

/-- The program dies when the announcement of the first block was sent, and is then started
again. -/
def disturbed : Session :=
  let died := ([0, 0, 0, 0].map (answer sampleChain 2)).foldl (Session.turn sampleServed)
    (started Tables.empty (.create 64))
  ([0, 0, 0, 0, 0, 1, 1, 1].map (answer sampleChain 2)).foldl (Session.turn sampleServed)
    (died.turn sampleServed .restart)

private theorem reaches_disturbed :
    Reaches sampleServed sampleChain (started Tables.empty (.create 64)) disturbed :=
  ((Reaches.refl.answers (by decide) _).turn .restart trivial).answers (by decide) _

/-- In the disturbed session the first block is cut off and sent again, and the second is sent
once. -/
theorem never_skips_disturbed :
    (Tables.empty : MainTables).cursors.stored MainStore.chain = .ok 0
      ∧ Reaches sampleServed sampleChain (started Tables.empty (.create 64)) disturbed
      ∧ disturbed.cursor = .ok 2 ∧ CutOff disturbed.log 0 ∧ ¬CutOff disturbed.log 1
      ∧ (∃ proof, blockProof sampleServed (sampleChain.block 0) = .ok proof
        ∧ ⟨proof, Submission.Pipeline.mined⟩ ∈ sentAt 0 disturbed.log)
      ∧ sentAt 1 disturbed.log = announced sampleServed (sampleChain.block 1)
      ∧ InOrder sampleServed sampleChain disturbed.call := by
  have hcursor : disturbed.cursor = .ok 2 := Outcome.eq_ok_of_toOption (by decide +kernel)
  have hwhole : ¬CutOff disturbed.log 1 := by decide +kernel
  have hmined : isServed sampleServed Submission.Pipeline.mined = true := by decide
  obtain ⟨payload, hpayload, hserved⟩ := isServed_iff.1 hmined
  obtain ⟨hsent, -, hordered⟩ := reaches_disturbed.never_skips rfl hcursor
  exact ⟨rfl, reaches_disturbed, hcursor, by decide, hwhole,
    (hsent 0 (by decide) (by decide)).1 _ payload List.mem_cons_self hpayload hserved,
    (hsent 1 (by decide) (by decide)).2 hwhole,
    hordered _ (List.mem_append_right _ (List.mem_singleton_self _))⟩

end Session

end MergedMining.Watch
