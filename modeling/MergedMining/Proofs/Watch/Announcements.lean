/-
What a watcher announces of a block.

The announcements of a block are its served transactions in order, each with the one
proof of the block. Making that proof cannot go wrong: it is asked for only when there
is a transaction to reveal, and there is one mark for each transaction. So a watcher
plans every block, and what it plans is fixed by the block.
-/
import MergedMining.Proofs.Merkle.Rebuilding
import MergedMining.Watch

namespace MergedMining.Watch

variable {served : List Digest} {block : MainChain.Block} {tx : MainChain.Transaction}

/-- A transaction is announced for a payload that names a chain that is served. -/
theorem isServed_iff :
    isServed served tx = true
      ↔ ∃ payload, tx.sideMining = .ok payload ∧ payload.sideGenesis ∈ served := by
  unfold isServed
  constructor
  · intro h
    rw [Bool.and_eq_true] at h
    cases hpayload : tx.sideMining with
    | ok payload =>
        rw [hpayload] at h
        exact ⟨payload, rfl, by simpa using h.2⟩
    | error cause =>
        rw [hpayload] at h
        cases h.2
  · intro h
    obtain ⟨payload, hpayload, hserved⟩ := h
    have hkind : tx.isSideMining = true := by
      unfold MainChain.Transaction.sideMining at hpayload
      split at hpayload
      · assumption
      · cases hpayload
    rw [hkind, hpayload]
    simpa using hserved

theorem isSideMining_of_isServed (h : isServed served tx = true) : tx.isSideMining = true :=
  (Bool.and_eq_true_iff.1 h).1

-- =============================================================== what is sent

/-- The proof of a block: it reveals what is announced of it. -/
def blockProof (served : List Digest) (block : MainChain.Block) :
    Except Merkle.Error Merkle.PartialProof :=
  Merkle.PartialProof.build block.header.hash block.header.height
    (block.transactions.map (·.id)) (block.transactions.map (isServed served))

/-- The announcements of a block, in the order of its transactions. -/
def announced (served : List Digest) (block : MainChain.Block) : List Notification :=
  match blockProof served block with
  | .ok proof => (block.transactions.filter (isServed served)).map (⟨proof, ·⟩)
  | .error _ => []

/-- A block with a transaction has a proof. -/
theorem exists_blockProof (served : List Digest) (h : tx ∈ block.transactions) :
    ∃ proof, blockProof served block = .ok proof := by
  have hleaves : block.transactions.map (·.id) ≠ [] := by
    rw [ne_eq, List.map_eq_nil_iff]
    exact List.ne_nil_of_mem h
  exact ⟨_, Merkle.PartialProof.build_eq_ok_iff.2 ⟨hleaves, by simp, rfl⟩⟩

/-- What is announced is served, with the proof of the block. -/
theorem mem_announced_iff {n : Notification} :
    n ∈ announced served block
      ↔ blockProof served block = .ok n.proof ∧ n.transaction ∈ block.transactions
        ∧ isServed served n.transaction = true := by
  unfold announced
  cases blockProof served block with
  | ok proof =>
      simp only [List.mem_map, List.mem_filter, Except.ok.injEq]
      constructor
      · intro h
        obtain ⟨tx, htx, rfl⟩ := h
        exact ⟨rfl, htx⟩
      · intro h
        obtain ⟨rfl, htx⟩ := h
        exact ⟨n.transaction, htx, rfl⟩
  | error cause => exact ⟨fun h => (nomatch h), fun h => (nomatch h.1)⟩

/-- Every block can be announced. -/
theorem notifications_eq : notifications served block = .ok (announced served block) := by
  have hserved : (block.transactions.map (isServed served)).any id = true
      ↔ ∃ tx ∈ block.transactions, isServed served tx = true := by
    simp
  unfold notifications
  by_cases hany : (block.transactions.map (isServed served)).any id = true
  · obtain ⟨tx, htx, -⟩ := hserved.1 hany
    obtain ⟨proof, hproof⟩ := exists_blockProof served htx
    rw [if_pos hany, announced, hproof]
    exact Outcome.bind_eq_ok.2 ⟨proof, hproof, rfl⟩
  · have hnone : announced served block = [] := by
      refine List.eq_nil_iff_forall_not_mem.2 fun n hn => ?_
      obtain ⟨-, htx, hn⟩ := mem_announced_iff.1 hn
      exact hany (hserved.2 ⟨n.transaction, htx, hn⟩)
    rw [if_neg hany, hnone]
    rfl

/-- What is planned for a block is what is announced of it. -/
theorem plan_eq : (follower served).plan block = .ok (announced served block) := by
  show (notifications served block).mapError _ = _
  rw [notifications_eq]
  rfl

end MergedMining.Watch
