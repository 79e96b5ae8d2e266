/-
Batches, and the single operations that they stand for.

A batch is one transaction, and operations on its entries in turn are many. Where a table's
rows are fixed by the records that stand both come to the same tables. For settled withdraws
they do not: a batch keeps one payout for all that it records, and single operations keep one
for each, under other numbers. But what shows of the rows is the same, and a store answers by
what shows, now and after whatever is done with it.
-/
import MergedMining.Proofs.Records.Main
import MergedMining.Proofs.Records.Registry
import MergedMining.Proofs.Records.Settled
import MergedMining.Proofs.Records.Side

namespace MergedMining

namespace Store

variable {τ α β : Type}

/-- A batch does what operations on its entries do in turn: it works, its answer goes with
theirs, and nothing that is done later tells whether it was the batch or the operations. -/
structure Batch [Callable τ] (s : Store τ) (batch : Op τ α) (singles : List (Op τ β))
    (goes : α → List (Except Error β) → Prop) : Prop where
  answers : ∃ answer, (s.run batch).1 = .ok answer ∧ goes answer (s.runEach singles).1
  alike : Alike (s.run batch).2 (s.runEach singles).2

/-- Of each entry it is said whether adding it went well. -/
def TellsAdded (added : List Bool) (outcomes : List (Except Error Unit)) : Prop :=
  added = outcomes.map Except.isOk

/-- Of each entry the same is said. -/
def TellsEach (answers : List Bool) (outcomes : List (Except Error Bool)) : Prop :=
  outcomes = answers.map .ok

/-- Nothing is said, and all went well. -/
def TellsDone (_ : Unit) (outcomes : List (Except Error Unit)) : Prop :=
  ∀ outcome ∈ outcomes, outcome = .ok ()

/-- A call that leaves the store as the single calls do, with an answer that fits theirs, is their
batch. -/
private theorem batch_of_run [Callable τ] {s : Store τ} {batch : Op τ α} {singles : List (Op τ β)}
    {goes : α → List (Except Error β) → Prop} {answer : α}
    (hrun : s.run batch = (.ok answer, (s.runEach singles).2))
    (hgoes : goes answer (s.runEach singles).1) : Batch s batch singles goes where
  answers := ⟨answer, congrArg Prod.fst hrun, hgoes⟩
  alike := by
    rw [hrun]
    exact Alike.refl _

end Store

open Store

-- ==================================================================== the four

/-- The batches of the main-chain store. -/
structure MainStore.Batches (s : MainStore) : Prop where
  addAll : ∀ txs, Batch s (addAll txs) (txs.map add) TellsAdded
  removeAll : ∀ keys,
    Batch s (removeAll keys) (keys.map fun key => remove key.1 key.2) TellsDone

/-- The batches of the side-chain store. -/
structure SideStore.Batches (s : SideStore) : Prop where
  addAll : ∀ txs, Batch s (addAll txs) (txs.map add) TellsAdded
  removeAll : ∀ hashes, Batch s (removeAll hashes) (hashes.map remove) TellsDone
  addUtxos : ∀ utxos, Batch s (addUtxos utxos) (utxos.map addUtxo) TellsDone
  removeUtxos : ∀ outpoints genesis, Batch s (removeUtxos outpoints genesis)
    (outpoints.map fun outpoint => removeUtxo outpoint.1 outpoint.2 genesis) TellsEach

/-- The batches of the settled store. -/
structure SettledStore.Batches (s : SettledStore) : Prop where
  addDeposits : ∀ deposits, Batch s (addDeposits deposits) (deposits.map addDeposit) TellsAdded
  removeDeposits : ∀ keys,
    Batch s (removeDeposits keys) (keys.map fun key => removeDeposit key.1 key.2) TellsDone
  addWithdraws : ∀ hashes payout succeeded, Batch s (addWithdraws hashes payout succeeded)
    (hashes.map fun hash => addWithdraw hash payout succeeded) TellsAdded
  removeWithdraws : ∀ hashes,
    Batch s (removeWithdraws hashes) (hashes.map removeWithdraw) TellsDone

/-- The batches of the registry. -/
structure Registry.Batches (s : Registry) : Prop where
  addAll : ∀ chains, Batch s (addAll chains) (chains.map add) TellsAdded
  removeAll : ∀ genesis, Batch s (removeAll genesis) (genesis.map remove) TellsDone

-- ====================================================== tables of records

section Tables

variable {τ ρ κ ν : Type} [Callable τ] [Tables τ] {table : NumberedTable τ ν} {k : Keying ρ κ}
  {row : ρ → ν} {kind : κ → ν → Bool} {t : τ} {standing : List ρ}

/-- Adding records in one call is adding each in turn. -/
private theorem Store.NumberedTable.Of.batch_addAll (h : table.Of k row kind)
    (hget : table.get t = .endless (standing.map row)) (key : ρ → String) (new : List ρ) :
    Batch ⟨t, .steady⟩ (table.addAll (new.map row))
      (new.map fun record => table.add (row record) (key record)) TellsAdded :=
  batch_of_run (h.addAll_inTurn hget key new) rfl

/-- Removing by keys in one call is removing by each in turn. -/
private theorem Store.NumberedTable.Of.batch_removeAll (h : table.Of k row kind)
    (hget : table.get t = .endless (standing.map row)) (keys : List κ) :
    Batch ⟨t, .steady⟩ (table.removeAll kind keys)
      (keys.map fun key => table.removeAll kind [key]) TellsDone :=
  batch_of_run (h.removeAll_inTurn hget keys).1 (h.removeAll_inTurn hget keys).2

end Tables

/-- The batched calls of the main store do what single ones do in turn. -/
theorem MainStore.Holds.batches {calls : List Call} {t : MainTables} (h : Holds calls t) :
    Batches ⟨t, .steady⟩ where
  addAll txs := by
    have hbatch := table_of.batch_addAll h MainTx.label txs
    rw [List.map_id] at hbatch
    exact hbatch
  removeAll keys := table_of.batch_removeAll h keys

/-- So do those of the registry. -/
theorem Registry.Holds.batches {calls : List Call} {t : RegistryTables} (h : Holds calls t) :
    Batches ⟨t, .steady⟩ where
  addAll chains := table_of.batch_addAll h Registration.genesis chains
  removeAll genesis := table_of.batch_removeAll h genesis

-- ================================================================= outputs

namespace SideStore

variable {t : SideTables} {utxos : List Utxo}

/-- The tables, but with the rows of these outputs. -/
def holdingUtxos (t : SideTables) (utxos : List Utxo) : SideTables :=
  { t with utxos := utxos.map .ofUtxo }

/-- Adding an output edits those that stand. -/
private theorem run_addUtxo (t : SideTables) (utxos : List Utxo) (utxo : Utxo) :
    (⟨holdingUtxos t utxos, .steady⟩ : SideStore).run (addUtxo utxo)
      = (.ok (), ⟨holdingUtxos t (Utxo.keying.edit utxos (.add utxo)), .steady⟩) := by
  rw [addUtxo, run_update rfl]
  simp only [holdingUtxos, Utxo.keying_rows.insert]

/-- Adding outputs edits those that stand one after the other. -/
private theorem run_addUtxos (t : SideTables) (utxos new : List Utxo) :
    (⟨holdingUtxos t utxos, .steady⟩ : SideStore).run (addUtxos new)
      = (.ok (), ⟨holdingUtxos t (Utxo.keying.editAll utxos (new.map .add)), .steady⟩) := by
  rw [addUtxos, run_update rfl]
  simp only [holdingUtxos, Utxo.keying_rows.insertAll]

/-- Removing by an outpoint answers whether an output of the chain stood there. -/
private theorem run_removeUtxo (t : SideTables) (utxos : List Utxo) (transaction : String)
    (index : UInt16) (genesis : String) :
    (⟨holdingUtxos t utxos, .steady⟩ : SideStore).run (removeUtxo transaction index genesis)
      = (.ok (utxos.any ((Utxo.keyingOn genesis).names (transaction, index))),
          ⟨holdingUtxos t ((Utxo.keyingOn genesis).edit utxos (.drop (transaction, index))),
            .steady⟩) := by
  refine run_of_commit rfl ?_
  simp only [holdingUtxos, (Utxo.keyingOn_rows genesis).delete]

/-- Removing by outpoints answers this for each, in the order given. -/
private theorem run_removeUtxos (t : SideTables) (utxos : List Utxo)
    (outpoints : List (String × UInt16))
    (genesis : String) :
    (⟨holdingUtxos t utxos, .steady⟩ : SideStore).run (removeUtxos outpoints genesis)
      = (.ok (inTurn (fun utxos outpoint => utxos.any ((Utxo.keyingOn genesis).names outpoint))
            (fun utxos outpoint => (Utxo.keyingOn genesis).edit utxos (.drop outpoint)) utxos
            outpoints),
          ⟨holdingUtxos t ((Utxo.keyingOn genesis).editAll utxos (outpoints.map .drop)),
            .steady⟩) := by
  refine run_of_commit rfl ?_
  simp only [holdingUtxos, (Utxo.keyingOn_rows genesis).deleteAll]

/-- Adding outputs in one call is adding each in turn. -/
private theorem batch_addUtxos (t : SideTables) (utxos new : List Utxo) :
    Batch (⟨holdingUtxos t utxos, .steady⟩ : SideStore) (addUtxos new) (new.map addUtxo)
      TellsDone := by
  have hturn := runEach_states (run_addUtxo t) utxos new
  have hgoes : TellsDone ()
      (runEach (⟨holdingUtxos t utxos, .steady⟩ : SideStore) (new.map addUtxo)).1 := by
    rw [hturn]
    exact fun outcome => eq_of_mem_inTurn fun _ _ => rfl
  refine batch_of_run ?_ hgoes
  rw [run_addUtxos, hturn, Keying.editAll, List.foldl_map]

/-- Removing by outpoints in one call is removing by each in turn, with the same answers. -/
private theorem batch_removeUtxos (t : SideTables) (utxos : List Utxo)
    (outpoints : List (String × UInt16))
    (genesis : String) :
    Batch (⟨holdingUtxos t utxos, .steady⟩ : SideStore) (removeUtxos outpoints genesis)
      (outpoints.map fun outpoint => removeUtxo outpoint.1 outpoint.2 genesis) TellsEach := by
  have hturn := runEach_states
    (fun utxos outpoint => run_removeUtxo t utxos outpoint.1 outpoint.2 genesis) utxos outpoints
  have hgoes : TellsEach
      (inTurn (fun utxos outpoint => utxos.any ((Utxo.keyingOn genesis).names outpoint))
        (fun utxos outpoint => (Utxo.keyingOn genesis).edit utxos (.drop outpoint)) utxos outpoints)
      (runEach (⟨holdingUtxos t utxos, .steady⟩ : SideStore)
        (outpoints.map fun outpoint => removeUtxo outpoint.1 outpoint.2 genesis)).1 := by
    rw [TellsEach, hturn, map_inTurn]
  refine batch_of_run ?_ hgoes
  rw [run_removeUtxos, hturn, Keying.editAll, List.foldl_map]

private theorem Holds.eq_holdingUtxos {calls : List Call} {t : SideTables} (h : Holds calls t) :
    t = holdingUtxos t (standingUtxos calls) := by
  rw [holdingUtxos, ← h.utxos]

/-- The batched calls of the store do what single ones do in turn. -/
theorem Holds.batches {calls : List Call} {t : SideTables} (h : Holds calls t) :
    Batches ⟨t, .steady⟩ where
  addAll txs := table_of.batch_addAll h.withdraws SideTx.hash txs
  removeAll hashes := table_of.batch_removeAll h.withdraws hashes
  addUtxos utxos := by
    rw [h.eq_holdingUtxos]
    exact batch_addUtxos t _ utxos
  removeUtxos outpoints genesis := by
    rw [h.eq_holdingUtxos]
    exact batch_removeUtxos t _ outpoints genesis

end SideStore

-- =================================================================== settled

namespace SettledStore

open SettledTables

/-- No call tells two stores apart that have the same deposits and withdraws. -/
theorem simulation : Simulation fun t t' : SettledTables =>
    ∃ ds ws, Shows ds ws t ∧ Shows ds ws t' where
  steady {t t'} h c := by
    obtain ⟨ds, ws, ht, ht'⟩ := h
    obtain ⟨after, hrun, hafter⟩ := ht.call c
    obtain ⟨after', hrun', hafter'⟩ := ht'.call c
    exact ⟨_, after, after', hrun, hrun', _, _, hafter, hafter'⟩
  closed c := by
    cases c <;> exact ⟨_, fun _ => rfl⟩

variable {ds : List Deposit} {ws : List Withdraw} {t : SettledTables}

/-- A store that works has these deposits and withdraws. -/
def Open (ds : List Deposit) (ws : List Withdraw) (s : SettledStore) : Prop :=
  ∃ t, s = ⟨t, .steady⟩ ∧ Shows ds ws t

/-- Two open stores that show the same records answer alike from then on. -/
private theorem Open.alike {s s' : SettledStore} (h : Open ds ws s) (h' : Open ds ws s') :
    Alike s s' := by
  obtain ⟨t, rfl, ht⟩ := h
  obtain ⟨t', rfl, ht'⟩ := h'
  exact simulation.alike ⟨ds, ws, ht, ht'⟩ (Or.inl rfl)

/-- What a call leaves behind is open again. -/
private theorem open_of_leaves {α : Type} {op : Op SettledTables α} {answer : Except Error α}
    (h : Leaves op t answer (Shows ds ws)) :
    (run op ⟨t, .steady⟩).1 = answer ∧ Open ds ws (run op ⟨t, .steady⟩).2 := by
  obtain ⟨after, hrun, hafter⟩ := h
  rw [hrun]
  exact ⟨rfl, after, rfl, hafter⟩

/-- Adding withdraws in one call shares one payout among them, which no answer tells apart from a
payout for each. -/
private theorem batch_addWithdraws (h : Shows ds ws t) (hashes : List String) (payout : Bytes)
    (succeeded : Bool) :
    Batch (⟨t, .steady⟩ : SettledStore) (addWithdraws hashes payout succeeded)
      (hashes.map fun hash => addWithdraw hash payout succeeded) TellsAdded := by
  -- each single call settles its hash with a payout of its own
  have hstep {ws : List Withdraw} {s : SettledStore} (hs : Open ds ws s) (hash : String) :
      (s.run (addWithdraw hash payout succeeded)).1
          = NumberedTable.outcome Withdraw.keying Withdraw.hash ws ⟨hash, payout, succeeded⟩
        ∧ Open ds (Withdraw.keying.edit ws (.add ⟨hash, payout, succeeded⟩))
          (s.run (addWithdraw hash payout succeeded)).2 := by
    obtain ⟨t, rfl, ht⟩ := hs
    exact open_of_leaves (ht.addWithdraw hash payout succeeded)
  obtain ⟨hanswers, hopen⟩ := runEach_inTurn (R := Open ds) hstep ⟨t, rfl, h⟩ hashes
  obtain ⟨hanswer, hopen'⟩ := open_of_leaves (h.addWithdraws hashes payout succeeded)
  rw [Keying.editAll, List.foldl_map, Withdraw.settledBy, List.foldl_map] at hopen'
  refine ⟨⟨_, hanswer, ?_⟩, hopen'.alike hopen⟩
  rw [TellsAdded, hanswers, map_inTurn, Withdraw.settledBy, inTurn_map]
  simp only [NumberedTable.isOk_outcome]

/-- Removing withdraws in one call drops their payouts together, which no answer tells apart
either. -/
private theorem batch_removeWithdraws (h : Shows ds ws t) (hashes : List String) :
    Batch (⟨t, .steady⟩ : SettledStore) (removeWithdraws hashes) (hashes.map removeWithdraw)
      TellsDone := by
  -- each single call forgets its hash, and its payout with the last row of it
  have hstep {ws : List Withdraw} {s : SettledStore} (hs : Open ds ws s) (hash : String) :
      (s.run (removeWithdraw hash)).1 = .ok ()
        ∧ Open ds (Withdraw.keying.edit ws (.drop hash)) (s.run (removeWithdraw hash)).2 := by
    obtain ⟨t, rfl, ht⟩ := hs
    exact open_of_leaves (ht.call (.removeWithdraw hash))
  obtain ⟨hanswers, hopen⟩ := runEach_inTurn (R := Open ds) hstep ⟨t, rfl, h⟩ hashes
  obtain ⟨hanswer, hopen'⟩ := open_of_leaves (h.call (.removeWithdraws hashes))
  have hsame : Withdraw.keying.editAll ws (Call.removeWithdraws hashes).withdrawEdits
      = hashes.foldl (fun ws hash => Withdraw.keying.edit ws (.drop hash)) ws := List.foldl_map
  rw [hsame] at hopen'
  refine ⟨⟨(), hanswer, ?_⟩, hopen'.alike hopen⟩
  rw [hanswers]
  exact fun outcome => eq_of_mem_inTurn fun _ _ => rfl

theorem Holds.batches {calls : List Call} (h : Holds calls t) : Batches ⟨t, .steady⟩ where
  addDeposits deposits :=
    depositTable_of.batch_addAll h.deposits Deposit.label deposits
  removeDeposits keys := depositTable_of.batch_removeAll h.deposits keys
  addWithdraws := batch_addWithdraws h
  removeWithdraws := batch_removeWithdraws h

end SettledStore

-- ===================================================================== batches

/-- Whatever was done with a store before, as long as it is open a batch does what the single
operations on its entries do in turn. -/
theorem batches_as_singles :
    (∀ uses, (after uses : MainStore).isOpen = true → MainStore.Batches (after uses))
      ∧ (∀ uses, (after uses : SideStore).isOpen = true → SideStore.Batches (after uses))
      ∧ (∀ uses, (after uses : SettledStore).isOpen = true → SettledStore.Batches (after uses))
      ∧ ∀ uses, (after uses : Registry).isOpen = true → Registry.Batches (after uses) := by
  refine ⟨fun uses hopen => ?_, fun uses hopen => ?_, fun uses hopen => ?_, fun uses hopen => ?_⟩
  · obtain ⟨calls, t, hafter, h⟩ := MainStore.keeps.after_open hopen
    rw [hafter]
    exact h.batches
  · obtain ⟨calls, t, hafter, h⟩ := SideStore.keeps.after_open hopen
    rw [hafter]
    exact h.batches
  · obtain ⟨calls, t, hafter, h⟩ := SettledStore.keeps.after_open hopen
    rw [hafter]
    exact SettledStore.Holds.batches h
  · obtain ⟨calls, t, hafter, h⟩ := Registry.keeps.after_open hopen
    rw [hafter]
    exact h.batches

/-- Stores that were written to, closed and opened again. -/
theorem batches_as_singles_reopened :
    ((after [.call (MainStore.Call.add ⟨"a", "c", [], []⟩), .close, .reopen] :
          MainStore).isOpen = true
        ∧ MainStore.Batches
          (after [.call (MainStore.Call.add ⟨"a", "c", [], []⟩), .close, .reopen]))
      ∧ ((after [.call (SideStore.Call.add ⟨"a", "c", [], 1⟩), .close, .reopen] :
          SideStore).isOpen = true
        ∧ SideStore.Batches
          (after [.call (SideStore.Call.add ⟨"a", "c", [], 1⟩), .close, .reopen]))
      ∧ ((after [.call (SettledStore.Call.addWithdraws ["a", "b"] [1] true), .close, .reopen] :
          SettledStore).isOpen = true
        ∧ SettledStore.Batches
          (after [.call (SettledStore.Call.addWithdraws ["a", "b"] [1] true), .close, .reopen]))
      ∧ ((after [.call (Registry.Call.add ⟨"a", "c", [], 1⟩), .close, .reopen] :
          Registry).isOpen = true
        ∧ Registry.Batches
          (after [.call (Registry.Call.add ⟨"a", "c", [], 1⟩), .close, .reopen])) :=
  ⟨⟨rfl, batches_as_singles.1 _ rfl⟩, ⟨rfl, batches_as_singles.2.1 _ rfl⟩,
    ⟨rfl, batches_as_singles.2.2.1 _ rfl⟩, rfl, batches_as_singles.2.2.2 _ rfl⟩

/-- A withdraw that is named twice is recorded once, by a batch as by single operations. -/
example :
    ((Store.create : SettledStore).run (SettledStore.addWithdraws ["a", "b", "a"] [1] true)).1
      = .ok [true, true, false] := rfl

end MergedMining
