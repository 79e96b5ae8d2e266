/-
Whether a record is there when adding it went well or was refused as a duplicate.

Callers take a duplicate for success, since the record is there already. What is there is
some record that the new one clashes with. Where records clash exactly if they are named
alike that is enough, and looking the record up by its name finds it. A registration is
named by its chain but clashes by its transaction as well, so a chain can be refused as a
duplicate that is not there: its transaction registered another one.
-/
import MergedMining.Proofs.Records.FirstWriter

namespace MergedMining

open Store

namespace Store

variable {τ ρ : Type}

/-- Whether callers take an outcome for success. -/
def countsAsAdded : Except Error Unit → Bool
  | .ok () => true
  | .error e => e.isDuplicate

/-- A record is there after it was added and callers take that for success, and after it was
added with others in a batch that went through. -/
structure Present (s : Store τ) (add : ρ → Op τ Unit) (addAll : List ρ → Op τ (List Bool))
    (there : Store τ → ρ → Prop) : Prop where
  single : ∀ r, countsAsAdded (s.run (add r)).1 = true → there (s.run (add r)).2 r
  batch : ∀ rs told, (s.run (addAll rs)).1 = .ok told → ∀ r ∈ rs, there (s.run (addAll rs)).2 r

section Adding

variable [Callable τ] {ν κ : Type} {k : Keying ν κ} {edits : Callable.Call τ → List (Edit ν κ)}
  {record : ρ → ν} {add : ρ → Op τ Unit} {addAll : List ρ → Op τ (List Bool)}
  {there : Store τ → ρ → Prop}

/-- Both ways of adding do what a call does of which the edits are known, and fail on a closed
handle. -/
structure Adds (k : Keying ν κ) (edits : Callable.Call τ → List (Edit ν κ)) (record : ρ → ν)
    (add : ρ → Op τ Unit) (addAll : List ρ → Op τ (List Bool)) : Prop where
  single : ∀ r, ∃ c, edits c = [.add (record r)]
    ∧ ∀ s : Store τ, (s.run (add r)).2 = (s.run (Callable.op c)).2
  batch : ∀ rs, ∃ c, edits c = rs.map (fun r => .add (record r))
    ∧ ∀ s : Store τ, (s.run (addAll rs)).2 = (s.run (Callable.op c)).2
  closed : ∀ t r, countsAsAdded (run (add r) (⟨t, .closed⟩ : Store τ)).1 = false
  closedAll : ∀ t rs told, (run (addAll rs) (⟨t, .closed⟩ : Store τ)).1 ≠ .ok told

/-- A record is there after it was added if it is there as soon as one stands that it clashes
with, whatever was done before. -/
theorem Keeps.present [Tables τ] {holds : List (Callable.Call τ) → τ → Prop} (h : Keeps holds)
    (hadds : Adds k edits record add addAll) (hrefl : ∀ r, k.clash r r = true)
    (hthere : ∀ {calls t}, holds calls t → ∀ r,
      (∃ q ∈ k.live (calls.flatMap edits), k.clash (record r) q = true) → there ⟨t, .steady⟩ r)
    (uses : List (Use (Callable.Call τ))) : Present (Store.after uses) add addAll there where
  single r hadded := by
    obtain ⟨c, hedits, hsame⟩ := hadds.single r
    rcases h.after_call uses c with ⟨calls, t, hrun, ht⟩ | ⟨t, hafter⟩
    · have hone : edits c = [record r].map .add := hedits
      rw [hsame, hrun]
      exact hthere ht r (Keying.exists_clash_of_last hrefl calls hone (List.mem_singleton_self _))
    · rw [hafter, hadds.closed] at hadded
      cases hadded
  batch rs told htold r hmem := by
    obtain ⟨c, hedits, hsame⟩ := hadds.batch rs
    rcases h.after_call uses c with ⟨calls, t, hrun, ht⟩ | ⟨t, hafter⟩
    · rw [hsame, hrun]
      exact hthere ht r (Keying.exists_clash_of_last hrefl calls
        (hedits.trans List.map_map.symm) (List.mem_map_of_mem hmem))
    · rw [hafter] at htold
      exact absurd htold (hadds.closedAll t rs told)

end Adding

end Store

-- ============================================================ named as they clash

/-- A waiting deposit is found if one that clashes with it stands. -/
theorem MainStore.Holds.contains {calls : List Call} {t : MainTables} (h : Holds calls t)
    {tx : MainTx} (hclash : ∃ q ∈ standing calls, MainTx.keying.clash tx q = true) :
    ((⟨t, .steady⟩ : MainStore).run (contains tx.hash tx.genesis)).1 = .ok true := by
  obtain ⟨q, hq, hclash⟩ := hclash
  rw [h.answers.contains, List.any_eq_true.2 ⟨q, hq, ?_⟩]
  exact decide_eq_true (of_decide_eq_true hclash).symm

private theorem MainStore.adds : Adds MainTx.keying Call.edits id add addAll where
  single tx := ⟨.add tx, rfl, fun _ => rfl⟩
  batch txs := ⟨.addAll txs, rfl, fun _ => rfl⟩
  closed _ _ := rfl
  closedAll _ _ _ h := nomatch h

/-- A waiting deposit that was added is found. -/
private theorem MainStore.present (uses : List (Use Call)) :
    Present (after uses : MainStore) add addAll
      fun s tx => (s.run (MainStore.contains tx.hash tx.genesis)).1 = .ok true :=
  keeps.present adds (fun _ => decide_eq_true rfl)
    (fun h _ hclash => Holds.contains h hclash) uses

/-- A waiting withdraw is found if one that clashes with it stands. -/
theorem SideStore.Holds.contains {calls : List Call} {t : SideTables} (h : Holds calls t)
    {tx : SideTx} (hclash : ∃ q ∈ standing calls, SideTx.keying.clash tx q = true) :
    ((⟨t, .steady⟩ : SideStore).run (contains tx.hash)).1 = .ok true := by
  obtain ⟨q, hq, hclash⟩ := hclash
  rw [h.answers.contains, List.any_eq_true.2 ⟨q, hq, ?_⟩]
  exact decide_eq_true (of_decide_eq_true hclash).symm

private theorem SideStore.adds : Adds SideTx.keying Call.edits id add addAll where
  single tx := ⟨.add tx, rfl, fun _ => rfl⟩
  batch txs := ⟨.addAll txs, rfl, fun _ => rfl⟩
  closed _ _ := rfl
  closedAll _ _ _ h := nomatch h

/-- A waiting withdraw that was added is found. -/
private theorem SideStore.present (uses : List (Use Call)) :
    Present (after uses : SideStore) add addAll
      fun s tx => (s.run (SideStore.contains tx.hash)).1 = .ok true :=
  keeps.present adds (fun _ => decide_eq_true rfl)
    (fun h _ hclash => Holds.contains h hclash) uses

/-- A settled deposit is found if one that clashes with it stands. -/
theorem SettledStore.Holds.containsDeposit {calls : List Call} {t : SettledTables}
    (h : Holds calls t) {d : Deposit}
    (hclash : ∃ q ∈ standingDeposits calls, Deposit.keying.clash d q = true) :
    ((⟨t, .steady⟩ : SettledStore).run (containsDeposit d.hash d.genesis)).1 = .ok true := by
  obtain ⟨q, hq, hclash⟩ := hclash
  rw [(SettledTables.Shows.answers h).containsDeposit, List.any_eq_true.2 ⟨q, hq, ?_⟩]
  exact decide_eq_true (of_decide_eq_true hclash).symm

private theorem SettledStore.adds_deposits :
    Adds Deposit.keying Call.depositEdits id addDeposit addDeposits where
  single deposit := ⟨.addDeposit deposit, rfl, fun _ => rfl⟩
  batch all := ⟨.addDeposits all, rfl, fun _ => rfl⟩
  closed _ _ := rfl
  closedAll _ _ _ h := nomatch h

/-- A settled deposit that was added is found. -/
private theorem SettledStore.present_deposits (uses : List (Use Call)) :
    Present (Store.after uses : SettledStore) addDeposit addDeposits
      fun s d => (s.run (containsDeposit d.hash d.genesis)).1 = .ok true :=
  keeps.present adds_deposits (fun _ => decide_eq_true rfl)
    (fun h _ hclash => Holds.containsDeposit h hclash) uses

/-- A settled withdraw is found if one that clashes with it stands. -/
theorem SettledStore.Holds.containsWithdraw {calls : List Call} {t : SettledTables}
    (h : Holds calls t) {w : Withdraw}
    (hclash : ∃ q ∈ standingWithdraws calls, Withdraw.keying.clash w q = true) :
    ((⟨t, .steady⟩ : SettledStore).run (containsWithdraw w.hash)).1 = .ok true := by
  obtain ⟨q, hq, hclash⟩ := hclash
  rw [SettledStore.containsWithdraw, run_query rfl, SettledTables.Shows.rows_eq h,
    List.any_eq_true.2 ⟨q, hq, ?_⟩]
  exact decide_eq_true (of_decide_eq_true hclash).symm

private theorem SettledStore.adds_withdraws (payout : Bytes) (succeeded : Bool) :
    Adds Withdraw.keying Call.withdrawEdits (fun hash => ⟨hash, payout, succeeded⟩)
      (fun hash => addWithdraw hash payout succeeded)
      (fun hashes => addWithdraws hashes payout succeeded) where
  single hash := ⟨.addWithdraw hash payout succeeded, rfl, fun _ => rfl⟩
  batch hashes := ⟨.addWithdraws hashes payout succeeded, List.map_map, fun _ => rfl⟩
  closed _ _ := rfl
  closedAll _ _ _ h := nomatch h

/-- A settled withdraw that was added is found. -/
private theorem SettledStore.present_withdraws (uses : List (Use Call)) (payout : Bytes)
    (succeeded : Bool) :
    Present (Store.after uses : SettledStore) (fun hash => addWithdraw hash payout succeeded)
      (fun hashes => addWithdraws hashes payout succeeded)
      fun s hash => (s.run (containsWithdraw hash)).1 = .ok true :=
  keeps.present (adds_withdraws payout succeeded) (fun _ => decide_eq_true rfl)
    (fun h _ hclash => Holds.containsWithdraw h hclash) uses

-- ================================================================ registrations

/-- Whether a chain is found under its name. -/
def Registry.There (s : Registry) (r : Registration) : Prop :=
  (s.run (Registry.contains r.genesis)).1 = .ok true

/-- Whether another chain is there that the same transaction registered. -/
def Registry.Taken (s : Registry) (r : Registration) : Prop :=
  ∃ chains, (s.run Registry.all).1 = .ok chains
    ∧ ∃ q ∈ chains, q.hash = r.hash ∧ q.genesis ≠ r.genesis

/-- A registration that clashes with one that stands is there, or its transaction is taken. -/
private theorem Registry.Holds.there_or_taken {calls : List Call} {t : RegistryTables}
    (h : Holds calls t)
    {r : Registration} (hclash : ∃ q ∈ standing calls, Registration.keying.clash r q = true) :
    There ⟨t, .steady⟩ r ∨ Taken ⟨t, .steady⟩ r := by
  obtain ⟨q, hq, hclash⟩ := hclash
  by_cases hgenesis : q.genesis = r.genesis
  · left
    rw [There, h.answers.contains, List.any_eq_true.2 ⟨q, hq, decide_eq_true hgenesis⟩]
  · right
    obtain ⟨sorted, hrun, hsorted⟩ := h.answers.all
    refine ⟨sorted, congrArg Prod.fst hrun, q, hsorted.mem_iff.2 hq, ?_, hgenesis⟩
    rcases Bool.or_eq_true_iff.1 hclash with hsame | hsame
    · exact (of_decide_eq_true hsame).symm
    · exact absurd (of_decide_eq_true hsame).symm hgenesis

private theorem Registry.adds : Adds Registration.keying Call.edits id add addAll where
  single chain := ⟨.add chain, rfl, fun _ => rfl⟩
  batch chains := ⟨.addAll chains, rfl, fun _ => rfl⟩
  closed _ _ := rfl
  closedAll _ _ _ h := nomatch h

/-- A registration that was added is there, or its transaction is taken. -/
private theorem Registry.present (uses : List (Use Call)) :
    Present (after uses : Registry) add addAll fun s r => There s r ∨ Taken s r := by
  have hrefl (r : Registration) : Registration.keying.clash r r = true := by
    rw [Registration.keying, Bool.or_eq_true]
    exact Or.inl (decide_eq_true rfl)
  exact keeps.present adds hrefl (fun h _ hclash => Holds.there_or_taken h hclash) uses

/-- A chain that was registered is found. -/
theorem Registry.there_of_added (uses : List (Use Call)) (r : Registration)
    (hadded : ((after uses : Registry).run (add r)).1 = .ok ()) :
    There ((after uses : Registry).run (add r)).2 r := by
  obtain ⟨calls, t, link, hafter, hlink, h⟩ := keeps.after uses
  rw [hafter] at hadded ⊢
  rcases hlink with rfl | rfl
  · have hfree : ¬(standing calls).any (Registration.keying.clash r) = true := by
      intro htaken
      rw [h.answers.add, if_pos htaken] at hadded
      cases hadded
    have hstands : standing (calls ++ [.add r]) = standing calls ++ [r] := by
      rw [standing, Keying.live_flatMap_concat]
      exact if_neg hfree
    obtain ⟨answer, t', hrun, h'⟩ := keeps.steady h (Call.add r)
    rw [show run (add r) ⟨t, .steady⟩ = _ from hrun, There, (Holds.answers h').contains, hstands,
      List.any_eq_true.2
        ⟨r, List.mem_append_right _ (List.mem_singleton_self r), decide_eq_true rfl⟩]
  · cases hadded

-- ================================================================== after adding

/-- A record is there if adding it went well or was refused as a duplicate. A registration can
be refused also if another chain is there that its transaction registered; one that was
registered is there. -/
theorem present_after_add (waiting : List (Use MainStore.Call)) (side : List (Use SideStore.Call))
    (settled : List (Use SettledStore.Call)) (registry : List (Use Registry.Call)) :
    Present (after waiting : MainStore) MainStore.add MainStore.addAll
        (fun s tx => (s.run (MainStore.contains tx.hash tx.genesis)).1 = .ok true)
      ∧ Present (after side : SideStore) SideStore.add SideStore.addAll
        (fun s tx => (s.run (SideStore.contains tx.hash)).1 = .ok true)
      ∧ Present (Store.after settled : SettledStore) SettledStore.addDeposit
        SettledStore.addDeposits
        (fun s d => (s.run (SettledStore.containsDeposit d.hash d.genesis)).1 = .ok true)
      ∧ (∀ payout succeeded, Present (Store.after settled : SettledStore)
        (fun hash => SettledStore.addWithdraw hash payout succeeded)
        (fun hashes => SettledStore.addWithdraws hashes payout succeeded)
        fun s hash => (s.run (SettledStore.containsWithdraw hash)).1 = .ok true)
      ∧ Present (after registry : Registry) Registry.add Registry.addAll
        (fun s r => Registry.There s r ∨ Registry.Taken s r)
      ∧ ∀ r, ((after registry : Registry).run (Registry.add r)).1 = .ok () →
        Registry.There ((after registry : Registry).run (Registry.add r)).2 r :=
  ⟨MainStore.present waiting, SideStore.present side, SettledStore.present_deposits settled,
    SettledStore.present_withdraws settled, Registry.present registry,
    Registry.there_of_added registry⟩

/-- The first chain of a registry is registered and found. -/
theorem present_after_add_first :
    ((Store.after [] : Registry).run (Registry.add ⟨"r", "g1", [0], 1⟩)).1 = .ok ()
      ∧ Registry.There ((Store.after [] : Registry).run (Registry.add ⟨"r", "g1", [0], 1⟩)).2
        ⟨"r", "g1", [0], 1⟩ :=
  ⟨rfl, (present_after_add [] [] [] []).2.2.2.2.2 ⟨"r", "g1", [0], 1⟩ rfl⟩

/-- A transaction registers one chain and then another: the other one is refused as a duplicate,
under its own name, and is not there. -/
theorem not_there_of_duplicate :
    let s : Registry := Store.after [.call (Registry.Call.add ⟨"r", "g1", [0], 1⟩)]
    let r : Registration := ⟨"r", "g2", [0], 2⟩
    (s.run (Registry.add r)).1 = .error (.duplicate "g2")
      ∧ countsAsAdded (s.run (Registry.add r)).1 = true
      ∧ ¬Registry.There (s.run (Registry.add r)).2 r :=
  ⟨rfl, rfl, fun h => nomatch h⟩

end MergedMining
