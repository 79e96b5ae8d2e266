/-
A rescan changes no row.

What becomes of the rows of one output does not depend on those of any other. A block that
spends the output takes them all away. One that does not leaves them, or records the output if
there is no row of it. So the blocks of a whole scan come to one of two things. If one of them
spends the output, what there was before it does not matter: behind the last that does, the first
to pay it decides. If none does, the rows stay, and are those of the first that pays it only where
there were none. Either way a second scan finds what the first one left and leaves it again, what
it brings back and takes away in between notwithstanding.

The rows are the same ones, but they need not stand in the same order: an output that is taken
away and recorded again comes to stand behind the others.
-/
import MergedMining.Proofs.Sync.Convergence

namespace MergedMining

open Store

-- ======================================================================= fates

namespace Store.Table

variable {ρ κ : Type}

/-- What can be done to the rows of one key. -/
inductive Fate (ρ : Type) where
  /-- These are there afterwards, whatever there was. -/
  | replaced (after : List ρ)
  /-- What there was stays. If there was nothing, these are there afterwards. -/
  | filled (new : List ρ)

namespace Fate

/-- The rows that a fate leaves. -/
def apply : Fate ρ → List ρ → List ρ
  | .replaced after, _ => after
  | .filled new, [] => new
  | .filled _, row :: rows => row :: rows

/-- Nothing to fill in is nothing done. -/
theorem filled_nil_apply (rows : List ρ) : (Fate.filled []).apply rows = rows := by
  cases rows with
  | nil => rfl
  | cons row rows => rfl

/-- What was done to the rows of a key once is not done again. -/
private theorem apply_apply (f : Fate ρ) (rows : List ρ) :
    f.apply (f.apply rows) = f.apply rows := by
  cases f with
  | replaced after => rfl
  | filled new =>
      cases rows with
      | nil =>
          cases new with
          | nil => rfl
          | cons row new => rfl
      | cons row rows => rfl

/-- One fate after another is a fate. -/
theorem exists_apply_apply (first next : Fate ρ) :
    ∃ f : Fate ρ, ∀ rows, next.apply (first.apply rows) = f.apply rows := by
  cases first with
  | replaced after => exact ⟨.replaced (next.apply after), fun _ => rfl⟩
  | filled new =>
      cases next with
      | replaced after => exact ⟨.replaced after, fun _ => rfl⟩
      | filled new' =>
          refine ⟨.filled ((Fate.filled new').apply new), fun rows => ?_⟩
          -- rows that are there stay, and where there are none the second finds what is filled in
          cases rows with
          | nil => rfl
          | cons row rows => rfl

end Fate

section Keys

variable [DecidableEq κ] {key : ρ → κ} {clash : ρ → ρ → Bool} {k : κ} {rows new : List ρ}

/-- Tables have the same rows if they have the same ones of each key. -/
theorem perm_of_filter_key [DecidableEq ρ] (key : ρ → κ) {rows' : List ρ}
    (h : ∀ k, rows.filter (key · = k) = rows'.filter (key · = k)) : rows.Perm rows' := by
  refine List.perm_iff_count.2 fun r => ?_
  have hcount : ∀ l : List ρ, (l.filter (key · = key r)).count r = l.count r :=
    fun l => List.count_filter (decide_eq_true rfl)
  rw [← hcount rows, ← hcount rows', h]

/-- A row finds its key free if there is no row of it. -/
theorem any_clash_eq_false (hclash : ∀ r q, clash r q = decide (key r = key q)) (r : ρ) :
    rows.any (clash r) = false ↔ rows.filter (key · = key r) = [] := by
  rw [List.any_eq_false, List.filter_eq_nil_iff]
  simp only [hclash, decide_eq_true_iff, eq_comm (a := key r)]

/-- Adding rows leaves what there is of a key, or adds the first of this key. -/
theorem filter_insertAll (hclash : ∀ r q, clash r q = decide (key r = key q)) (k : κ)
    (rows new : List ρ) :
    (insertAll clash rows new).2.filter (key · = k)
      = (Fate.filled (new.filter (key · = k)).head?.toList).apply (rows.filter (key · = k)) := by
  induction new generalizing rows with
  | nil => exact (Fate.filled_nil_apply _).symm
  | cons r new ih =>
      have hnext : (insertAll clash rows (r :: new)).2
          = (insertAll clash (insert clash rows r).2 new).2 := rfl
      rw [hnext, ih, insert]
      by_cases hr : key r = k
      · subst hr
        have hfirst : (r :: new).filter (key · = key r) = r :: new.filter (key · = key r) :=
          List.filter_cons_of_pos (decide_eq_true rfl)
        rw [hfirst]
        -- the first row of the key is added where there is none, and refused where there is one
        cases hrows : rows.filter (key · = key r) with
        | nil =>
            have hadded : [r].filter (key · = key r) = [r] :=
              List.filter_cons_of_pos (decide_eq_true rfl)
            rw [(any_clash_eq_false hclash r).2 hrows, if_neg Bool.false_ne_true,
              List.filter_append, hrows, hadded]
            rfl
        | cons row rest =>
            have htaken : rows.any (clash r) = true := by
              refine Bool.of_not_eq_false fun hfree => ?_
              rw [(any_clash_eq_false hclash r).1 hfree] at hrows
              cases hrows
            rw [if_pos htaken, hrows]
            rfl
      · have hskip : [r].filter (key · = k) = [] := by
          rw [List.filter_cons_of_neg (by rwa [decide_eq_true_iff]), List.filter_nil]
        rw [List.filter_cons_of_neg (by rwa [decide_eq_true_iff])]
        split
        · rfl
        · rw [List.filter_append, hskip, List.append_nil]

/-- Dropping rows takes away those of a key, or leaves them all. -/
theorem exists_filter_deleteAll {ι : Type} {kind : ι → ρ → Bool} {name : ι → κ}
    (hkind : ∀ i r, kind i r = decide (key r = name i)) (k : κ) (keys : List ι) :
    ∃ f : Fate ρ, ∀ rows : List ρ,
      (deleteAll kind rows keys).2.filter (key · = k) = f.apply (rows.filter (key · = k)) := by
  by_cases hnamed : ∃ i ∈ keys, name i = k
  · -- every row of the key goes, since one that stayed would be named
    obtain ⟨i, hi, rfl⟩ := hnamed
    refine ⟨.replaced [], fun rows => ?_⟩
    rw [deleteAll_eq_filter, List.filter_filter]
    refine List.filter_eq_nil_iff.2 fun r _ hr => ?_
    rw [Bool.and_eq_true, decide_eq_true_iff, Bool.not_eq_true', List.any_eq_false] at hr
    exact hr.2 i hi ((hkind i r).trans (decide_eq_true hr.1))
  · refine ⟨.filled [], fun rows => ?_⟩
    rw [deleteAll_eq_filter, List.filter_filter, Fate.filled_nil_apply]
    refine List.filter_congr fun r _ => ?_
    by_cases hr : key r = k
    · have hspared : keys.any (kind · r) = false := by
        refine List.any_eq_false.2 fun i hi hir => hnamed ⟨i, hi, ?_⟩
        rw [hkind, decide_eq_true_iff] at hir
        exact hir.symm.trans hr
      rw [hspared, Bool.not_false, Bool.and_true]
    · rw [decide_eq_false hr, Bool.false_and]

end Keys

end Store.Table

namespace Sync.Tracker

variable (t : Tracker)

-- ====================================================================== blocks

/-- The rows of outputs after blocks that are handled in turn. -/
def handleAll (blocks : List Node.Block) (rows : List UtxoRow) : List UtxoRow :=
  blocks.foldl (fun rows block => t.handle block rows) rows

/-- A block decides about the rows of an output by these alone. -/
theorem exists_filter_handle (block : Node.Block) (key : String × Int × String) :
    ∃ f : Table.Fate UtxoRow, ∀ rows,
      (t.handle block rows).filter (·.key = key) = f.apply (rows.filter (·.key = key)) := by
  have hclash (r q : UtxoRow) : r.clash q = decide (r.key = q.key) := rfl
  have hkind (i : String × UInt16) (r : UtxoRow) :
      SideStore.isOutpoint t.address i r = decide (r.key = (i.1, (i.2.toNat : Int), t.address)) :=
    rfl
  obtain ⟨dropped, hdropped⟩ := Table.exists_filter_deleteAll hkind key (spent block)
  obtain ⟨f, hf⟩ := Table.Fate.exists_apply_apply
    (.filled (((t.received block).map UtxoRow.ofUtxo).filter (·.key = key)).head?.toList) dropped
  refine ⟨f, fun rows => ?_⟩
  rw [handle_eq, hdropped, Table.filter_insertAll hclash, hf]

/-- So do blocks that are handled in turn. -/
theorem exists_filter_handleAll (blocks : List Node.Block) (key : String × Int × String) :
    ∃ f : Table.Fate UtxoRow, ∀ rows,
      (t.handleAll blocks rows).filter (·.key = key) = f.apply (rows.filter (·.key = key)) := by
  induction blocks with
  | nil => exact ⟨.filled [], fun rows => (Table.Fate.filled_nil_apply _).symm⟩
  | cons block blocks ih =>
      obtain ⟨first, hfirst⟩ := t.exists_filter_handle block key
      obtain ⟨rest, hrest⟩ := ih
      obtain ⟨f, hf⟩ := Table.Fate.exists_apply_apply first rest
      refine ⟨f, fun rows => ?_⟩
      show (t.handleAll blocks (t.handle block rows)).filter _ = _
      rw [hrest, hfirst, hf]

/-- Handling blocks again from the first ends in the rows in which it ended before. -/
theorem handleAll_handleAll_perm (blocks : List Node.Block) (rows : List UtxoRow) :
    (t.handleAll blocks (t.handleAll blocks rows)).Perm (t.handleAll blocks rows) := by
  refine Table.perm_of_filter_key UtxoRow.key fun key => ?_
  obtain ⟨f, hf⟩ := t.exists_filter_handleAll blocks key
  rw [hf, hf, Table.Fate.apply_apply]

-- ======================================================================= scans

/-- Does all effects of blocks, one block after the other. -/
def process (blocks : List Node.Block) : Op SideTables Unit :=
  forM blocks fun block => forM (t.effects block) t.apply

/-- A store with other rows of outputs. -/
def withRows (store : SideStore) (rows : List UtxoRow) : SideStore :=
  { store with tables := { store.tables with utxos := rows } }

variable {t} {store : SideStore}

/-- On an open store an effect is done to the rows. -/
private theorem run_apply (effect : Effect) (hopen : store.isOpen = true) :
    store.run (t.apply effect)
      = (.ok (), withRows store (effect.onRows t.address store.tables.utxos)) := by
  refine run_of_attempt ?_
  rw [attempt_apply, attempt, run_transaction_of_isOpen hopen]
  rfl

/-- On an open store effects are done to the rows one after the other. -/
private theorem run_effects (effects : List Effect) (hopen : store.isOpen = true) :
    store.run (forM effects t.apply)
      = (.ok (), withRows store (t.settle effects store.tables.utxos)) := by
  induction effects generalizing store with
  | nil => rfl
  | cons effect effects ih =>
      rw [List.forM_cons, Store.run_bind_of_ok (run_apply effect hopen)]
      exact ih hopen

/-- On an open store, blocks are handled without fail. -/
theorem run_process (blocks : List Node.Block) (hopen : store.isOpen = true) :
    store.run (t.process blocks)
      = (.ok (), withRows store (t.handleAll blocks store.tables.utxos)) := by
  induction blocks generalizing store with
  | nil => rfl
  | cons block blocks ih =>
      rw [process, List.forM_cons, Store.run_bind_of_ok (run_effects (t.effects block) hopen)]
      exact ih hopen

/-- A cursor that can be read is sent back to zero, and no row changes. -/
theorem run_reset_cursor {height : UInt32} (hopen : store.isOpen = true)
    (hcursor : store.tables.cursors.stored t.address = .ok height) :
    store.run (SideStore.height t.address resetHeight)
      = (.ok 0, { store with tables :=
          { store.tables with cursors := store.tables.cursors.set t.address 0 } }) := by
  rw [SideStore.height, Cursors.move, run_transaction_of_isOpen hopen]
  dsimp only
  rw [Cursors.advance_reset hcursor]

/-- Scanning the same blocks once more, after the cursor was sent back, leaves the rows that the
first scan left, in the tables and in the file. -/
theorem rows_rescan (t : Tracker) (blocks : List Node.Block) {store : SideStore} {height : UInt32}
    (hopen : store.isOpen = true)
    (hcursor : store.tables.cursors.stored t.address = .ok height) :
    ∃ once reset again,
      store.run (t.process blocks) = (.ok (), once)
        ∧ once.run (SideStore.height t.address resetHeight) = (.ok 0, reset)
        ∧ reset.run (t.process blocks) = (.ok (), again)
        ∧ again.tables.utxos.Perm once.tables.utxos
        ∧ again.file.utxos.Perm once.file.utxos
        ∧ again.tables.cursors.stored t.address = .ok 0 := by
  have hagain := t.handleAll_handleAll_perm blocks store.tables.utxos
  refine ⟨_, _, _, run_process blocks hopen, run_reset_cursor hopen hcursor,
    run_process blocks hopen, hagain, ?_, Cursors.stored_set _ _ _⟩
  unfold file withRows
  cases store.link with
  | unfinished tables => rfl
  | _ => exact hagain

/-- Blocks that spend an output before it is there, and pay another one twice, with different
amounts, between which it is spent. -/
def entangled : List Node.Block :=
  let block (height : UInt32) (tx : Node.Transaction) : Node.Block := ⟨"", height, [tx]⟩
  [block 0 ⟨"a", 2, [⟨"b", 0, 0⟩], [⟨"1", 0, "watched", 0⟩]⟩,
    block 1 ⟨"b", 2, [⟨"a", 0, 0⟩], [⟨"2", 0, "watched", 0⟩]⟩,
    block 2 ⟨"a", 2, [], [⟨"3", 0, "watched", 7⟩]⟩,
    block 3 ⟨"c", 2, [], [⟨"1.5", 0, "watched", 0⟩]⟩]

/-- A store in which the first of these outputs is recorded, and the cursor at the end. -/
def scanned : SideStore :=
  withRows ⟨{ (Tables.empty : SideTables) with cursors := [("genesis", 4)] }, .steady⟩
    [⟨"a", 0, 0, 9, "genesis", "watched"⟩]

/-- The entangled blocks leave the same rows when they are passed a second time. -/
theorem rows_rescan_entangled :
    scanned.isOpen = true ∧ scanned.tables.cursors.stored sample.address = .ok 4
      ∧ ∃ once reset again,
        scanned.run (sample.process entangled) = (.ok (), once)
          ∧ once.run (SideStore.height sample.address resetHeight) = (.ok 0, reset)
          ∧ reset.run (sample.process entangled) = (.ok (), again)
          ∧ again.tables.utxos.Perm once.tables.utxos
          ∧ again.file.utxos.Perm once.file.utxos
          ∧ again.tables.cursors.stored sample.address = .ok 0 := by
  have hcursor : scanned.tables.cursors.stored sample.address = .ok 4 :=
    Outcome.eq_ok_of_toOption (by decide)
  exact ⟨rfl, hcursor, rows_rescan sample entangled rfl hcursor⟩

/-- There the rows come to stand in another order. -/
example :
    let once := sample.handleAll entangled scanned.tables.utxos
    once.map (·.transaction) = ["b", "a", "c"]
      ∧ (sample.handleAll entangled once).map (·.transaction) = ["c", "b", "a"] := by
  decide

end Sync.Tracker

end MergedMining
