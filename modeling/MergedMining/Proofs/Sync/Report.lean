/-
What a tracker's call says of the chain's cursor, and that it is so.

A call that is over says where it started and where it stopped, or what went wrong. Where it
stopped is where the cursor is then, in the store and in the file, as long as nobody else moves
it: the blocks below were done from first to last, each once and in order. When the node is what
went wrong, the block that it failed to give, or gave another for, is the one at the cursor, and
nothing of it was written.
-/
import MergedMining.Proofs.CatchUp.Forward
import MergedMining.Proofs.CatchUp.Parts
import MergedMining.Proofs.CatchUp.Trail
import MergedMining.Proofs.Sync.Rescan

namespace MergedMining

open CatchUp Store

-- ======================================================================= files

namespace Store

variable {τ α : Type} {s s' : Store τ} {act : τ → Ending τ α} {value : α}

/-- Whether the file has what the handle shows, and goes on to have it. -/
def isCommitted (s : Store τ) : Bool :=
  match s.link with
  | .closed | .steady => true
  | .adrift | .unfinished _ => false

/-- The file of a committed store has what the handle shows. -/
private theorem file_of_isCommitted (h : s.isCommitted = true) : s.file = s.tables := by
  unfold isCommitted at h
  unfold file
  split at h
  · next hlink => rw [hlink]
  · next hlink => rw [hlink]
  · cases h
  · cases h

/-- A transaction that ends well leaves it at that. -/
theorem isCommitted_of_attempt [Tables τ] (h : s.attempt (Op.transaction act) = .ok (value, s')) :
    s'.isCommitted = s.isCommitted := by
  have hrun := run_of_attempt h
  by_cases hopen : s.isOpen = true
  · rw [run_transaction_of_isOpen hopen] at hrun
    split at hrun
    · cases hrun
      rfl
    · split at hrun
      · next hlink =>
          cases hrun
          rw [isCommitted, isCommitted, hlink]
      · cases hrun
        rfl
    · cases hrun
  · rw [run_transaction_of_not_isOpen hopen] at hrun
    cases hrun

end Store

namespace Sync.Tracker

variable (t : Tracker)

-- ====================================================================== reports

/-- What holds of a tracker's call that is over. First it asked the node for its number of blocks.
Then it found the cursor at one height, if the store was open, and in the end left it at another. -/
structure Report (answer : Answer UInt32) (readable : Prop) (start stop : UInt32)
    (blocks : List Node.Block) (rest told : List (Deed Node.Block Effect))
    (outcome : Except (CatchUp.Error Empty) Progress) : Prop where
  start_le : start ≤ stop
  heights : blocks.map (·.height.toNat) = List.range' start.toNat (stop.toNat - start.toNat)
  /-- Each of the blocks was done once and in order. -/
  trail_eq : told = (blocks.flatMap fun block =>
    .asked block.height (.arrived block) :: (t.effects block).map .did ++ [.passed block.height])
      ++ rest
  unfinished : Unfinished stop rest
  idle : ∀ height, outcome = .ok (.idle height) ↔
    height = start ∧ readable ∧ ∃ reported, answer = .arrived reported ∧ reported ≤ start
  idle_told : ∀ {height}, outcome = .ok (.idle height) → stop = start ∧ told = []
  caughtUp : ∀ {first last effects}, outcome = .ok (.caughtUp first last effects) →
    first = start ∧ last = stop ∧ answer = .arrived stop ∧ rest = []
  interrupted : ∀ {first last}, outcome = .ok (.interrupted first last) →
    first = start ∧ last = stop
  /-- The node gave no number of blocks, or not the next block, of which nothing was written. -/
  rpc : ∀ {cause}, outcome = .error (.rpc cause) →
    stop = start ∧ told = [] ∧ answer = .failed cause ∨ rest = [.asked stop (.failed cause)]
  wrongHeight : ∀ {expected found}, outcome = .error (.wrongHeight expected found) →
    expected = stop ∧ found ≠ stop
      ∧ ∃ block : Node.Block, block.height = found ∧ rest = [.asked stop (.arrived block)]

variable {t} {answer : Answer UInt32} {start stop : UInt32} {blocks : List Node.Block}
  {rest told : List (Deed Node.Block Effect)} {store after : SideStore}
  {outcome : Except (CatchUp.Error Empty) Progress}

/-- An effect fails with a failure of the store only. -/
private theorem act_failed {effect : Effect} {cause : CatchUp.Error Empty}
    (h : t.follower.act effect store = .failed cause) : ∃ cause', cause = .store cause' := by
  cases happly : store.attempt (t.apply effect) with
  | ok out =>
      rw [act_of_ok happly] at h
      cases h
  | error cause' =>
      rw [act_of_error happly] at h
      cases h
      exact ⟨cause', rfl⟩

/-- How a call is over, with what it did, is its report. -/
theorem report_of_ends {readable : Prop}
    (account : Account t.follower start stop blocks rest told)
    (ends : t.follower.Ends answer start stop rest outcome)
    (hidle : ∀ reported, answer = .arrived reported → reported ≤ start →
      (readable ∧ outcome = .ok (.idle start)
        ∨ ¬readable ∧ ∃ cause, outcome = .error (.store cause))) :
    t.Report answer readable start stop blocks rest told outcome := by
  have hlen : blocks.length = stop.toNat - start.toNat := by
    rw [account.height_eq, Nat.add_sub_cancel_left]
  refine {
    start_le := UInt32.le_iff_toNat_le.2 (by rw [account.height_eq]; exact Nat.le_add_right _ _)
    heights := ?_
    trail_eq := account.trail_eq
    unfinished := ends.unfinished
    idle := fun height => ⟨?_, ?_⟩
    idle_told := ?_
    caughtUp := ?_
    interrupted := ?_
    rpc := ?_
    wrongHeight := ?_ }
  · have hheights := account.heights
    rw [Consecutive, List.map_map, List.length_map, hlen] at hheights
    exact hheights
  · rintro rfl
    cases ends with
    | idle told le =>
        rcases hidle _ told le with ⟨hreadable, -⟩ | ⟨-, cause, hcause⟩
        · exact ⟨rfl, hreadable, _, told, le⟩
        · cases hcause
  · rintro ⟨rfl, hreadable, reported, told, le⟩
    rcases hidle reported told le with ⟨-, houtcome⟩ | ⟨hnot, -⟩
    · exact houtcome
    · exact absurd hreadable hnot
  · rintro height rfl
    cases ends with
    | idle => exact ⟨rfl, account.told_eq_nil⟩
  · rintro first last effects rfl
    cases ends with
    | caughtUp told => exact ⟨rfl, rfl, told, rfl⟩
  · rintro first last rfl
    cases ends with
    | halted => exact ⟨rfl, rfl⟩
    | interrupted => exact ⟨rfl, rfl⟩
  · rintro cause rfl
    cases ends with
    | unanswered told => exact Or.inl ⟨rfl, account.told_eq_nil, told⟩
    | lost => exact Or.inr rfl
    | broken begun hact =>
        -- an effect fails with a failure of the store, which is another outcome
        obtain ⟨_, hcause⟩ := act_failed hact
        cases hcause
  · rintro expected found rfl
    cases ends with
    | mismatched hheight => exact ⟨rfl, hheight, _, rfl, rfl⟩
    | broken begun hact =>
        obtain ⟨_, hcause⟩ := act_failed hact
        cases hcause

-- ======================================================================== runs

/-- Moving the cursor is one transaction. -/
theorem cursor_eq (t : Tracker) (height : UInt32) (store : SideStore) :
    t.follower.cursor height store
      = store.attempt (Op.transaction fun tables =>
        match tables.cursors.advance t.address height with
        | .ok (current, some cursors) => .commit current { tables with cursors }
        | .ok (current, none) => .abandon (.ok current)
        | .error e => .abandon (.error e)) := rfl

/-- An open store answers where its cursor is stored. -/
private theorem exists_cursor_zero (hopen : store.isOpen = true)
    (hstored : t.stored store = .ok start) :
    ∃ after, t.follower.cursor 0 store = .ok (start, after) := by
  have hadvance : store.tables.cursors.advance t.address 0 = .ok (start, none) :=
    Cursors.advance_zero hstored
  rw [cursor_eq, attempt, run_transaction_of_isOpen hopen, hadvance]
  cases store.link with
  | adrift => exact ⟨_, rfl⟩
  | _ => exact ⟨_, rfl⟩

private theorem cursor_of_not_isOpen {height : UInt32} (hshut : ¬store.isOpen = true) :
    t.follower.cursor height store = .error (.closed "side_chain") := by
  rw [cursor_eq, attempt, run_transaction_of_not_isOpen hshut]
  rfl

variable (t) in
/-- No call of a tracker's puts an end to committing, or begins it. -/
theorem spares_isCommitted : t.follower.Spares (fun _ => True) isCommitted where
  cursor := by
    intro height current store after h
    rw [cursor_eq] at h
    exact isCommitted_of_attempt h
  act := by
    intro effect _ store after h
    have happly := t.attempt_of_act h
    rw [attempt_apply] at happly
    exact isCommitted_of_attempt happly

variable {now : Nat → Moment Node.Block} {others : Nat → SideStore → SideStore}

/-- A run leaves the store committed if the others do. -/
private theorem isCommitted_run (hstore : store.isCommitted = true)
    (hothers : ∀ n w, w.isCommitted = true → (others n w).isCommitted = true) (n : Nat) :
    (run t.follower now others store n).1.isCommitted = true := by
  induction n with
  | zero => exact hstore
  | succ n ih =>
      have hplanned (tick : Tick Effect Empty) : tick.Planned fun _ => True := by
        cases tick with
        | act span todo => exact fun _ _ => trivial
        | _ => trivial
      exact (t.spares_isCommitted.tick (hplanned _) _ _).trans (hothers n _ ih)

/-- A call that is told of no block above the cursor has nothing to do, if the cursor can be
read. -/
theorem run_of_nothing_new {reported : UInt32} (hstarts : t.stored store = .ok start)
    (huntouched : ∀ n w, t.stored (others n w) = t.stored w)
    (hanswer : (now 0).height = .arrived reported) (hle : reported ≤ start) :
    let readable := (others 1 (others 0 store)).isOpen = true
    ∃ outcome, (run t.follower now others store 2).2 = .over outcome
      ∧ (readable ∧ outcome = .ok (.idle start)
        ∨ ¬readable ∧ ∃ cause, outcome = .error (.store cause)) := by
  intro readable
  have hasked : run t.follower now others store 1 = (others 0 store, .measure reported) := by
    show Tick.ask.step t.follower (now 0) (others 0 store) = _
    rw [Tick.step, hanswer]
  have hmeasured : run t.follower now others store 2
      = (Tick.measure reported).step t.follower (now 1) (others 1 (others 0 store)) := by
    rw [CatchUp.run, hasked]
  rw [hmeasured, Tick.step]
  by_cases hopen : readable
  · have hstored : t.stored (others 1 (others 0 store)) = .ok start := by
      rw [huntouched, huntouched, hstarts]
    obtain ⟨after, hcursor⟩ := exists_cursor_zero hopen hstored
    rw [hcursor]
    exact ⟨_, congrArg Prod.snd (if_pos hle), Or.inl ⟨hopen, rfl⟩⟩
  · rw [cursor_of_not_isOpen hopen]
    exact ⟨_, rfl, Or.inr ⟨hopen, _, rfl⟩⟩

-- ======================================================================= rows

/-- Moving the cursor leaves the rows. -/
private theorem rows_of_cursor {height current : UInt32}
    (h : t.follower.cursor height store = .ok (current, after)) :
    after.tables.utxos = store.tables.utxos := by
  rw [cursor_eq] at h
  rcases of_attempt_transaction h with hact | ⟨-, htables⟩
  · split at hact
    · injection hact with _ htables
      rw [← htables]
    · cases hact
    · cases hact
  · rw [htables]

/-- An effect leaves the rows that it makes of them. -/
private theorem rows_of_act {effect : Effect} (h : t.follower.act effect store = .done after) :
    after.tables.utxos = effect.onRows t.address store.tables.utxos := by
  have happly := t.attempt_of_act h
  rw [attempt_apply] at happly
  rcases of_attempt_transaction happly with hact | ⟨hact, -⟩
  · injection hact with _ htables
    rw [← htables]
    rfl
  · cases hact

/-- A step changes the rows by the effect that it does, if it does one. -/
theorem rows_step (tick : Tick Effect Empty) (now : Moment Node.Block) (store : SideStore) :
    (tick.step t.follower now store).1.tables.utxos
      = t.settle ((tick.deed? t.follower now store).toList.filterMap Deed.effect?)
        store.tables.utxos := by
  cases tick with
  | ask =>
      rw [Tick.step]
      split <;> rfl
  | halt =>
      rw [Tick.step]
      split
      · next hcursor => exact rows_of_cursor hcursor
      · rfl
  | measure reported =>
      rw [Tick.step]
      split
      · next hcursor =>
          split <;> exact rows_of_cursor hcursor
      · rfl
  | fetch span =>
      rw [Tick.step, Tick.deed?]
      split
      · rfl
      · split <;> rfl
  | act span todo =>
      cases todo with
      | nil =>
          rw [Tick.step, Tick.deed?]
          split
          · next hcursor =>
              rw [hcursor]
              exact rows_of_cursor hcursor
          · next hcursor =>
              rw [hcursor]
              rfl
      | cons effect todo =>
          rw [Tick.step, Tick.deed?]
          split
          · rfl
          · split
            · next hact =>
                rw [hact]
                -- of all that a step does only this writes rows
                exact rows_of_act hact
            · next hact =>
                rw [hact]
                rfl
            · next hact =>
                rw [hact]
                rfl
  | «over» outcome => rfl

private theorem settle_append (first next : List Effect) (rows : List UtxoRow) :
    t.settle (first ++ next) rows = t.settle next (t.settle first rows) :=
  List.foldl_append

/-- What a call did is what it did to the rows, if nobody else changes them. -/
theorem rows_run (hothers : ∀ n (w : SideStore), (others n w).tables.utxos = w.tables.utxos)
    (n : Nat) :
    (run t.follower now others store n).1.tables.utxos
      = t.settle ((trail t.follower now others store n).filterMap Deed.effect?)
        store.tables.utxos := by
  induction n with
  | zero => rfl
  | succ n ih =>
      rw [CatchUp.run, rows_step, hothers, ih, trail, List.filterMap_append, settle_append]

private theorem effects_of_deeds (effects : List Effect) :
    (effects.map (Deed.did (β := Node.Block))).filterMap Deed.effect? = effects := by
  rw [List.filterMap_map]
  exact List.filterMap_some

/-- Whole blocks are blocks that are handled in turn. -/
theorem settle_blocks (blocks : List Node.Block) (rows : List UtxoRow) :
    t.settle ((blocks.flatMap t.follower.whole).filterMap Deed.effect?) rows
      = t.handleAll blocks rows := by
  have hwhole (block : Node.Block) :
      (t.follower.whole block).filterMap Deed.effect? = t.effects block := by
    show ((t.effects block).map Deed.did ++ [Deed.passed block.height]).filterMap Deed.effect? = _
    rw [List.filterMap_append, effects_of_deeds]
    exact List.append_nil _
  rw [List.filterMap_flatMap]
  simp only [hwhole]
  rw [settle, List.foldl_flatMap]
  rfl

-- ======================================================================= calls

/-- A tracker's call asks for the blocks from the cursor on, one after the other, and when it is
over what it says of the cursor is so, also in the file. -/
theorem call_reports (t : Tracker) {now : Nat → Moment Node.Block}
    {others : Nat → SideStore → SideStore} {store : SideStore} {start : UInt32}
    (hstarts : t.stored store = .ok start)
    (hreported : ∀ reported, (now 0).height = .arrived reported → reported ≠ resetHeight)
    (huntouched : ∀ n w, t.stored (others n w) = t.stored w) :
    (∀ n, Consecutive start ((trail t.follower now others store n).filterMap Deed.askedFor?))
      ∧ ∀ n outcome, (run t.follower now others store n).2 = .over outcome →
        ∃ stop blocks rest,
          let after := (run t.follower now others store n).1
          t.stored after = .ok stop
            ∧ t.Report (now 0).height ((others 1 (others 0 store)).isOpen = true) start stop blocks
              rest (trail t.follower now others store n) outcome
            ∧ (store.isCommitted = true →
              (∀ n w, w.isCommitted = true → (others n w).isCommitted = true) →
              after.file.cursors.stored t.address = .ok stop)
            ∧ ((∀ n (w : SideStore), (others n w).tables.utxos = w.tables.utxos) →
              after.tables.utxos = t.settle (rest.filterMap Deed.effect?)
                (t.handleAll blocks store.tables.utxos)) := by
  have htold := told_run t.keeps hreported hstarts huntouched
  refine ⟨fun n => (htold n).asked, fun n outcome hover => ?_⟩
  obtain ⟨stop, blocks, rest, hstored, account, htells⟩ := htold n
  rw [hover] at htells
  refine ⟨stop, blocks, rest, hstored, report_of_ends account htells ?_, ?_, ?_⟩
  · intro reported hanswer hle
    obtain ⟨outcome', hover', houtcome⟩ := run_of_nothing_new hstarts huntouched hanswer hle
    rw [run_over_unique hover hover']
    exact houtcome
  · intro hstore hothers
    rw [file_of_isCommitted (isCommitted_run hstore hothers n)]
    exact hstored
  · intro hothers
    rw [rows_run hothers, account.trail_eq, List.filterMap_append, settle_append, settle_blocks]

/-- A node that has two blocks and gives the first, and for the second another. -/
def misled (n : Nat) : Moment Node.Block :=
  ⟨.arrived 2, .arrived (sampleChain.block (if n < 5 then 0 else 7)), false⟩

/-- A call whose node gives another block for the second one passes the first, and ends with the
failure for the second. -/
theorem call_reports_misled :
    let after (n : Nat) := run sample.follower misled (fun _ store => store) Store.create n
    let told := trail sample.follower misled (fun _ store => store) Store.create
    sample.stored Store.create = .ok 0
      ∧ (∀ reported, (misled 0).height = .arrived reported → reported ≠ resetHeight)
      ∧ (∀ (_ : Nat) (store : SideStore), sample.stored store = sample.stored store)
      ∧ (∀ n, Consecutive 0 ((told n).filterMap Deed.askedFor?))
      ∧ (after 6).2 = .over (.error (.wrongHeight 1 7))
      ∧ sample.stored (after 6).1 = .ok 1
      ∧ (after 6).1.file.cursors.stored sample.address = .ok 1
      ∧ ∃ blocks rest, sample.Report (.arrived 2) ((Store.create : SideStore).isOpen = true) 0 1
          blocks rest (told 6) (.error (.wrongHeight 1 7))
        ∧ (after 6).1.tables.utxos
          = sample.settle (rest.filterMap Deed.effect?) (sample.handleAll blocks []) := by
  have hreported : ∀ reported, (misled 0).height = .arrived reported → reported ≠ resetHeight := by
    rintro _ ⟨⟩
    decide
  obtain ⟨hasked, hover⟩ := @call_reports sample misled (fun _ store => store) Store.create 0 rfl
    hreported fun _ _ => rfl
  obtain ⟨stop, blocks, rest, hstored, report, hfile, hrows⟩ := hover 6 _ rfl
  obtain ⟨rfl, -⟩ := report.wrongHeight rfl
  exact ⟨rfl, hreported, fun _ _ => rfl, hasked, rfl, hstored, hfile rfl fun _ _ h => h, blocks,
    rest, report, hrows fun _ _ => rfl⟩

end Sync.Tracker

end MergedMining
