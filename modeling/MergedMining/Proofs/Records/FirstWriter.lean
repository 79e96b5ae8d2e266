/-
What a store answers about its records, by the edits that were made.

The first writer of a key wins: a record is refused exactly if one stands that it clashes
with, and nothing is changed then. What is looked up are the records that stand and are asked
for, as they were added, in the order that the question asks for. No number of a row is ever
refused, since each was written from a number that the column can mean.
-/
import MergedMining.Proofs.Records.Main
import MergedMining.Proofs.Records.Ordered
import MergedMining.Proofs.Records.Registry
import MergedMining.Proofs.Records.Settled
import MergedMining.Proofs.Records.Side

namespace MergedMining

open Store

-- ============================================================ order of outputs

/-- Outputs go by the bytes of their transaction's name, then by index. -/
def Utxo.InOrder (a b : Utxo) : Prop :=
  Text.bytes a.output.transaction < Text.bytes b.output.transaction
    ∨ a.output.transaction = b.output.transaction ∧ a.output.index ≤ b.output.index

namespace UtxoRow

/-- Rows are compared by transaction, then by index, then by chain. -/
private theorem before_iff {a b : UtxoRow} :
    a.before b = true ↔ a.transaction < b.transaction ∨ a.transaction = b.transaction
      ∧ (a.index < b.index ∨ a.index = b.index ∧ a.genesis ≤ b.genesis) := by
  unfold before
  split
  · next htx =>
      rw [htx]
      split
      · next hindex =>
          rw [Bool.not_eq_true', decide_eq_false_iff_not, String.not_lt, hindex]
          simp
      · next hindex =>
          rw [decide_eq_true_iff]
          simp [hindex]
  · next htx =>
      rw [decide_eq_true_iff]
      simp [htx]

/-- The order of rows is transitive. -/
private theorem before_trans (a b c : UtxoRow) (hab : a.before b = true) (hbc : b.before c = true) :
    a.before c = true := by
  rw [before_iff] at hab hbc ⊢
  rcases hab with hab | ⟨htx, hab⟩
  · rcases hbc with hbc | ⟨htx', -⟩
    · exact Or.inl (String.lt_trans hab hbc)
    · exact Or.inl (htx' ▸ hab)
  · rcases hbc with hbc | ⟨htx', hbc⟩
    · exact Or.inl (htx ▸ hbc)
    · refine Or.inr ⟨htx.trans htx', ?_⟩
      rcases hab with hab | ⟨hindex, hab⟩
      · rcases hbc with hbc | ⟨hindex', -⟩
        · exact Or.inl (Int.lt_trans hab hbc)
        · exact Or.inl (hindex' ▸ hab)
      · rcases hbc with hbc | ⟨hindex', hbc⟩
        · exact Or.inl (hindex ▸ hbc)
        · exact Or.inr ⟨hindex.trans hindex', String.le_trans hab hbc⟩

/-- Any two rows are in order one way or the other. -/
private theorem before_total (a b : UtxoRow) : (a.before b || b.before a) = true := by
  rw [Bool.or_eq_true, before_iff, before_iff]
  by_cases htx : a.transaction = b.transaction
  · by_cases hindex : a.index = b.index
    · rcases String.le_total a.genesis b.genesis with h | h
      · exact Or.inl (Or.inr ⟨htx, Or.inr ⟨hindex, h⟩⟩)
      · exact Or.inr (Or.inr ⟨htx.symm, Or.inr ⟨hindex.symm, h⟩⟩)
    · rcases Int.lt_or_gt_of_ne hindex with h | h
      · exact Or.inl (Or.inr ⟨htx, Or.inl h⟩)
      · exact Or.inr (Or.inr ⟨htx.symm, Or.inl h⟩)
  · by_cases hle : b.transaction ≤ a.transaction
    · refine Or.inr (Or.inl (String.not_le.1 fun hle' => htx (String.le_antisymm hle' hle)))
    · exact Or.inl (Or.inl (String.not_le.1 hle))

/-- Rows of outputs are in order if the outputs are. -/
theorem inOrder_of_before {u v : Utxo} (h : (ofUtxo u).before (ofUtxo v) = true) : u.InOrder v := by
  rcases before_iff.1 h with h | ⟨htx, h⟩
  · exact Or.inl (Text.bytes_lt_bytes_iff.2 h)
  · refine Or.inr ⟨htx, ?_⟩
    rw [UInt16.le_iff_toNat_le]
    rcases h with h | ⟨h, -⟩
    · exact Int.ofNat_le.1 (Int.le_of_lt h)
    · exact Int.ofNat_le.1 (Int.le_of_eq h)

end UtxoRow

-- =================================================================== the stores

/-- What a main-chain store answers that has these deposits. -/
structure MainStore.Answers (s : MainStore) (live : List MainTx) : Prop where
  add : ∀ tx, (s.run (add tx)).1 =
    if live.any (MainTx.keying.clash tx) then .error (.duplicate s!"{tx.hash} ({tx.genesis})")
    else .ok ()
  refused : ∀ tx, live.any (MainTx.keying.clash tx) = true → (s.run (MainStore.add tx)).2 = s
  contains : ∀ hash genesis,
    s.run (contains hash genesis) = (.ok (live.any (·.key = (hash, genesis))), s)
  keys : s.run keys = (.ok (live.map MainTx.key), s)
  all : s.run all = (.ok live, s)
  withHashes : ∀ hashes, s.run (withHashes hashes)
    = (.ok (hashes.flatMap fun hash => live.filter (·.hash = hash)), s)

/-- What a side-chain store answers that has these withdraws and outputs. -/
structure SideStore.Answers (s : SideStore) (live : List SideTx) (utxos : List Utxo) : Prop where
  add : ∀ tx, (s.run (add tx)).1 =
    if live.any (SideTx.keying.clash tx) then .error (.duplicate tx.hash) else .ok ()
  refused : ∀ tx, live.any (SideTx.keying.clash tx) = true → (s.run (SideStore.add tx)).2 = s
  contains : ∀ hash, s.run (contains hash) = (.ok (live.any (·.hash = hash)), s)
  withHashes : ∀ hashes, s.run (withHashes hashes)
    = (.ok (hashes.filterMap fun hash => live.find? (·.hash = hash)), s)
  ofChain : ∀ genesis, ∃ sorted, s.run (ofChain genesis) = (.ok sorted, s)
    ∧ Ascending (·.blockHeight.toNat) (live.filter (·.genesis = genesis)) sorted
  addUtxo : ∀ utxo, (s.run (addUtxo utxo)).1 = .ok ()
  ignored : ∀ utxo, utxos.any (Utxo.keying.clash utxo) = true →
    (s.run (SideStore.addUtxo utxo)).2 = s
  utxosOfChain : ∀ genesis, ∃ sorted, s.run (utxosOfChain genesis) = (.ok sorted, s)
    ∧ sorted.Perm (utxos.filter (·.genesis = genesis)) ∧ sorted.Pairwise Utxo.InOrder
  utxosOfAddress : ∀ address, ∃ sorted, s.run (utxosOfAddress address) = (.ok sorted, s)
    ∧ sorted.Perm (utxos.filter (·.address = address)) ∧ sorted.Pairwise Utxo.InOrder

/-- What a settled store answers that has these deposits. -/
structure SettledStore.Answers (s : SettledStore) (live : List Deposit) : Prop where
  addDeposit : ∀ deposit, (s.run (addDeposit deposit)).1 =
    if live.any (Deposit.keying.clash deposit) then
      .error (.duplicate s!"{deposit.hash} ({deposit.genesis})")
    else .ok ()
  refused : ∀ deposit, live.any (Deposit.keying.clash deposit) = true →
    (s.run (SettledStore.addDeposit deposit)).2 = s
  containsDeposit : ∀ hash genesis, s.run (containsDeposit hash genesis)
    = (.ok (live.any fun d => (d.hash, d.genesis) = (hash, genesis)), s)
  depositsWithHash : ∀ hash,
    s.run (depositsWithHash hash) = (.ok (live.filter (·.hash = hash)), s)
  deposits : ∀ succeeded,
    s.run (deposits succeeded) = (.ok (live.filter (·.succeeded = succeeded)), s)

/-- What a registry answers that has these registrations. -/
structure Registry.Answers (s : Registry) (live : List Registration) : Prop where
  add : ∀ chain, (s.run (add chain)).1 =
    if live.any (Registration.keying.clash chain) then .error (.duplicate chain.genesis)
    else .ok ()
  refused : ∀ chain, live.any (Registration.keying.clash chain) = true →
    (s.run (Registry.add chain)).2 = s
  find? : ∀ genesis, s.run (find? genesis) = (.ok (live.find? (·.genesis = genesis)), s)
  contains : ∀ genesis, s.run (contains genesis) = (.ok (live.any (·.genesis = genesis)), s)
  all : ∃ sorted, s.run all = (.ok sorted, s) ∧ Ascending (·.height.toNat) live sorted

-- ==================================================================== answering

section Tables

variable {τ ρ κ ν : Type} [Tables τ] {table : NumberedTable τ ν} {k : Keying ρ κ} {row : ρ → ν}
  {kind : κ → ν → Bool} {t : τ} {live : List ρ}

/-- A record is refused with its key if it clashes with one that stands. -/
private theorem Store.NumberedTable.Of.add_answer (h : table.Of k row kind)
    (hget : table.get t = .endless (live.map row)) (key : ρ → String) (record : ρ) :
    ((⟨t, .steady⟩ : Store τ).run (table.add (row record) (key record))).1
      = if live.any (k.clash record) then .error (.duplicate (key record)) else .ok () := by
  have hrun := h.run_add (t := t) key live record
  rw [← h.eq_holding hget] at hrun
  rw [hrun, outcome, Keying.isFree]
  cases live.any (k.clash record) <;> rfl

/-- A record that is refused changes nothing. -/
private theorem Store.NumberedTable.Of.add_refused (h : table.Of k row kind)
    (hget : table.get t = .endless (live.map row)) (key : ρ → String) {record : ρ}
    (htaken : live.any (k.clash record) = true) :
    ((⟨t, .steady⟩ : Store τ).run (table.add (row record) (key record))).2 = ⟨t, .steady⟩ := by
  have hrun := h.run_add (t := t) key live record
  rw [Keying.edit, if_pos htaken, ← h.eq_holding hget] at hrun
  rw [hrun]

end Tables

/-- The lookups of the main store answer with the records that stand. -/
theorem MainStore.Holds.answers {calls : List Call} {t : MainTables} (h : Holds calls t) :
    Answers ⟨t, .steady⟩ (standing calls) := by
  have hrows : t.deposits = .endless (standing calls) := by
    rw [← List.map_id (standing calls)]
    exact h
  exact {
    add := table_of.add_answer h MainTx.label
    refused := fun tx => table_of.add_refused h MainTx.label
    contains := by
      intro hash genesis
      rw [MainStore.contains, run_query rfl, hrows]
      rfl
    keys := by
      rw [MainStore.keys, run_query rfl, hrows]
      rfl
    all := by
      rw [MainStore.all, run_query rfl, hrows]
      rfl
    withHashes := by
      intro hashes
      rw [MainStore.withHashes, run_query rfl, hrows]
      rfl }

/-- A listing of outputs has those that stand and are of the kind, in order. -/
private theorem SideStore.Holds.utxosWhere_sorted {calls : List Call} {t : SideTables}
    (h : Holds calls t)
    (kind : UtxoRow → Bool) :
    ∃ sorted, (⟨t, .steady⟩ : SideStore).run (utxosWhere kind) = (.ok sorted, ⟨t, .steady⟩)
      ∧ sorted.Perm ((standingUtxos calls).filter fun u => kind (.ofUtxo u))
      ∧ sorted.Pairwise Utxo.InOrder := by
  let live := (standingUtxos calls).filter fun u => kind (.ofUtxo u)
  refine ⟨live.mergeSort fun u v => UtxoRow.before (.ofUtxo u) (.ofUtxo v), ?_,
    List.mergeSort_perm live _, ?_⟩
  · rw [utxosWhere, run_query rfl]
    show ((Table.sorted UtxoRow.before (t.utxos.filter kind)).mapM UtxoRow.toUtxo, _) = _
    rw [h.utxos, mapM_sorted UtxoRow.toUtxo_ofUtxo]
  · have hsorted := List.pairwise_mergeSort
      (fun u v w : Utxo => UtxoRow.before_trans (.ofUtxo u) (.ofUtxo v) (.ofUtxo w))
      (fun u v => UtxoRow.before_total (.ofUtxo u) (.ofUtxo v)) live
    exact hsorted.imp UtxoRow.inOrder_of_before

/-- The lookups of the side store answer with the withdraws and outputs that stand. -/
theorem SideStore.Holds.answers {calls : List Call} {t : SideTables} (h : Holds calls t) :
    Answers ⟨t, .steady⟩ (standing calls) (standingUtxos calls) := by
  have hrows : t.withdraws.rows = (standing calls).map .ofTx := congrArg Numbered.rows h.withdraws
  exact {
    add := table_of.add_answer h.withdraws SideTx.hash
    refused := fun tx => table_of.add_refused h.withdraws SideTx.hash
    contains := by
      intro hash
      rw [SideStore.contains, run_query rfl, hrows, List.any_map]
      rfl
    withHashes := by
      intro hashes
      rw [SideStore.withHashes, run_query rfl]
      have hfound : (hashes.filterMap fun hash => t.withdraws.rows.find? (·.hash = hash))
          = (hashes.filterMap fun hash => (standing calls).find? (·.hash = hash)).map .ofTx := by
        rw [hrows, List.map_filterMap]
        congr 1
        funext hash
        exact List.find?_map
      rw [hfound, mapM_row SideTxRow.toTx_ofTx]
    ofChain := by
      intro genesis
      let live := (standing calls).filter (·.genesis = genesis)
      have hbefore : (fun a b : SideTx => SideTxRow.before (.ofTx a) (.ofTx b))
          = fun a b => decide (a.blockHeight.toNat ≤ b.blockHeight.toNat) := by
        funext a b
        exact decide_eq_decide.2 Int.ofNat_le
      refine ⟨live.mergeSort (·.blockHeight.toNat ≤ ·.blockHeight.toNat), ?_,
        ascending_mergeSort _ live⟩
      rw [SideStore.ofChain, run_query rfl]
      show ((Table.sorted SideTxRow.before (t.withdraws.rows.filter (·.genesis = genesis))).mapM
        SideTxRow.toTx, _) = _
      rw [hrows, mapM_sorted SideTxRow.toTx_ofTx, hbefore]
      rfl
    addUtxo := by
      intro utxo
      rw [SideStore.addUtxo, run_update rfl]
    ignored := by
      intro utxo htaken
      have hinsert := Utxo.keying_rows.insert (standingUtxos calls) utxo
      rw [Keying.edit, if_pos htaken, ← h.utxos] at hinsert
      rw [SideStore.addUtxo, run_update rfl]
      show (⟨{ t with utxos := (Table.insert UtxoRow.clash t.utxos _).2 }, _⟩ : SideStore) = _
      rw [hinsert]
    utxosOfChain := fun genesis => h.utxosWhere_sorted (·.genesis = genesis)
    utxosOfAddress := fun address => h.utxosWhere_sorted (·.address = address) }

/-- The lookups of deposits answer with those that stand. -/
theorem SettledTables.Shows.answers {ds : List Deposit} {ws : List Withdraw} {t : SettledTables}
    (h : Shows ds ws t) : SettledStore.Answers ⟨t, .steady⟩ ds := by
  exact {
    addDeposit := SettledStore.depositTable_of.add_answer h.deposits Deposit.label
    refused := fun d => SettledStore.depositTable_of.add_refused h.deposits Deposit.label
    containsDeposit := by
      intro hash genesis
      rw [SettledStore.containsDeposit, run_query rfl]
      simp only [h.containsDeposit]
    depositsWithHash := by
      intro hash
      rw [SettledStore.depositsWithHash, run_query rfl]
      simp only [h.deposits_withHash]
    deposits := by
      intro succeeded
      rw [SettledStore.deposits, run_query rfl]
      simp only [h.deposits_marked] }

/-- The lookups of the registry answer with the registrations that stand. -/
theorem Registry.Holds.answers {calls : List Call} {t : RegistryTables} (h : Holds calls t) :
    Answers ⟨t, .steady⟩ (standing calls) := by
  have hrows : t.chains.rows = (standing calls).map .ofRegistration := congrArg Numbered.rows h
  have hfind (genesis : String) : (⟨t, .steady⟩ : Registry).run (Registry.find? genesis)
      = (.ok ((standing calls).find? (·.genesis = genesis)), ⟨t, .steady⟩) := by
    rw [Registry.find?, run_query rfl]
    show ((t.chains.rows.find? (·.genesis = genesis)).mapM RegistrationRow.toRegistration, _) = _
    have hfound : t.chains.rows.find? (·.genesis = genesis)
        = ((standing calls).find? (·.genesis = genesis)).map .ofRegistration := by
      rw [hrows]
      exact List.find?_map
    rw [hfound]
    cases (standing calls).find? (·.genesis = genesis) with
    | none => rfl
    | some r =>
        rw [Option.map_some, Option.mapM_some, RegistrationRow.toRegistration_ofRegistration]
        rfl
  exact {
    add := table_of.add_answer h Registration.genesis
    refused := fun chain => table_of.add_refused h Registration.genesis
    find? := hfind
    contains := by
      intro genesis
      rw [Registry.contains, run_map, hfind, ← List.isSome_find?]
      rfl
    all := by
      have hbefore : (fun a b : Registration =>
            RegistrationRow.before (.ofRegistration a) (.ofRegistration b))
          = fun a b => decide (a.height.toNat ≤ b.height.toNat) := by
        funext a b
        exact decide_eq_decide.2 Int.ofNat_le
      refine ⟨(standing calls).mergeSort (·.height.toNat ≤ ·.height.toNat), ?_,
        ascending_mergeSort _ (standing calls)⟩
      rw [Registry.all, run_query rfl]
      show ((Table.sorted RegistrationRow.before t.chains.rows).mapM
        RegistrationRow.toRegistration, _) = _
      rw [hrows, sorted_map, hbefore, mapM_row RegistrationRow.toRegistration_ofRegistration] }

-- ================================================================ first writers

/-- The stores are keyed tables in which the first writer wins, and they answer what stands in
them. -/
theorem first_writer_wins :
    (∀ calls : List MainStore.Call,
        MainTx.keying.FirstWins (calls.flatMap MainStore.Call.edits) (MainStore.standing calls)
          ∧ MainStore.Answers (after (calls.map .call)) (MainStore.standing calls))
      ∧ (∀ calls : List SideStore.Call,
        SideTx.keying.FirstWins (calls.flatMap SideStore.Call.edits) (SideStore.standing calls)
          ∧ Utxo.keying.FirstWins (calls.flatMap SideStore.Call.utxoEdits)
            (SideStore.standingUtxos calls)
          ∧ SideStore.Answers (after (calls.map .call)) (SideStore.standing calls)
            (SideStore.standingUtxos calls))
      ∧ (∀ calls : List SettledStore.Call,
        Deposit.keying.FirstWins (calls.flatMap SettledStore.Call.depositEdits)
            (SettledStore.standingDeposits calls)
          ∧ SettledStore.Answers (Store.after (calls.map .call))
            (SettledStore.standingDeposits calls))
      ∧ ∀ calls : List Registry.Call,
        Registration.keying.FirstWins (calls.flatMap Registry.Call.edits)
            (Registry.standing calls)
          ∧ Registry.Answers (after (calls.map .call)) (Registry.standing calls) := by
  refine ⟨fun calls => ⟨Keying.firstWins _ _, ?_⟩, fun calls => ⟨Keying.firstWins _ _,
    Keying.firstWins _ _, ?_⟩, fun calls => ⟨Keying.firstWins _ _, ?_⟩,
    fun calls => ⟨Keying.firstWins _ _, ?_⟩⟩
  · obtain ⟨t, hafter, h⟩ := MainStore.keeps.after_calls calls
    rw [hafter]
    exact h.answers
  · obtain ⟨t, hafter, h⟩ := SideStore.keeps.after_calls calls
    rw [hafter]
    exact h.answers
  · obtain ⟨t, hafter, h⟩ := SettledStore.keeps.after_calls calls
    rw [hafter]
    exact SettledTables.Shows.answers h
  · obtain ⟨t, hafter, h⟩ := Registry.keeps.after_calls calls
    rw [hafter]
    exact h.answers

end MergedMining
