/-
Which transactions of a block a watcher selects.

A watcher reads what a transaction says from its payload and passes over one that says nothing.
In a block that was decoded there is no such side-mining transaction: its payload was walked over
to find where it ends, and a payload that can be walked over can be read. So the choice is made
by the payload's bytes alone. A transaction is announced exactly if its kind says side mining and
the second digest of its payload is a chain that is served.
-/
import MergedMining.Proofs.MainChain.SideMining
import MergedMining.Proofs.Submission.Acceptance
import MergedMining.Proofs.Watch.Announcements

namespace MergedMining.Watch

open MainChain

variable {served : List Digest} {block : Block} {tx : Transaction}

/-- Among transactions whose payloads have their layouts the bytes of the payload decide. -/
theorem isServed_iff_bytes (hlayout : HasLayout tx.kind tx.payloadVersion tx.payload) :
    isServed served tx = true
      ↔ tx.kind = Kind.sideMining
        ∧ ∃ genesis ∈ served, genesis.bytes = (tx.payload.drop 32).take 32 := by
  rw [isServed_iff]
  constructor
  · intro h
    obtain ⟨m, hm, hserved⟩ := h
    obtain ⟨hkind, -⟩ := Transaction.sideMining_eq_ok.1 hm
    have hsays := Transaction.says_of_sideMining hm
    exact ⟨hkind, m.sideGenesis, hserved, hsays.sideGenesis⟩
  · intro h
    obtain ⟨hkind, genesis, hserved, hbytes⟩ := h
    obtain ⟨m, hsays⟩ := Transaction.exists_says hlayout hkind
    obtain rfl : genesis = m.sideGenesis := Octets.ext (hbytes.trans hsays.sideGenesis.symm)
    exact ⟨m, hsays.sideMining, hserved⟩

/-- The announcements of a block are those of the transactions that were selected. -/
theorem map_transaction_announced :
    (announced served block).map (·.transaction)
      = block.transactions.filter (isServed served) := by
  unfold announced
  cases hproof : blockProof served block with
  | ok proof =>
      rw [List.map_map]
      exact List.map_id _
  | error cause =>
      -- only a block without transactions has no proof
      have hnone : block.transactions = [] := by
        by_contra hne
        obtain ⟨tx, htx⟩ := List.exists_mem_of_ne_nil _ hne
        obtain ⟨proof, hmade⟩ := exists_blockProof served htx
        rw [hproof] at hmade
        cases hmade
      simp [hnone]

/-- A side-mining transaction that was decoded, by itself, in a side proof or in a block, says
something, and it says it at the front of its payload. Of a block that was decoded a watcher
announces, in order, the side-mining transactions of which the second digest of the payload is a
chain that is served. -/
theorem selected_by_payload :
    (∀ (input : Bytes) (tx : Transaction), Wire.decode input = .ok tx →
        tx.kind = Kind.sideMining → ∃ m, tx.Says m)
      ∧ (∀ (input : Bytes) (p : SideProof), Wire.decode input = .ok p →
        p.transaction.kind = Kind.sideMining → ∃ m, p.transaction.Says m)
      ∧ ∀ (input : Bytes) (block : Block), Wire.decode input = .ok block →
        (∀ tx ∈ block.transactions, tx.kind = Kind.sideMining → ∃ m, tx.Says m)
          ∧ ∀ served : List Digest,
            (∀ tx ∈ block.transactions, isServed served tx = true
              ↔ tx.kind = Kind.sideMining
                ∧ ∃ genesis ∈ served, genesis.bytes = (tx.payload.drop 32).take 32)
            ∧ ∃ todo, (follower served).plan block = .ok todo
              ∧ todo.map (·.transaction) = block.transactions.filter (isServed served) := by
  refine ⟨fun input tx hdecode => ?_, fun input p hdecode => ?_, fun input block hdecode => ?_⟩
  · obtain ⟨⟨hlayout, -⟩, -⟩ := Wire.Exact.decode_eq_ok.1 hdecode
    exact Transaction.exists_says hlayout
  · obtain ⟨⟨⟨hlayout, -⟩, -⟩, -⟩ := Wire.Exact.decode_eq_ok.1 hdecode
    exact Transaction.exists_says hlayout
  · obtain ⟨⟨-, -, hall⟩, -⟩ := Wire.Exact.decode_eq_ok.1 hdecode
    have hlayout (tx : Transaction) (htx : tx ∈ block.transactions) :
        HasLayout tx.kind tx.payloadVersion tx.payload := (hall tx htx).1
    refine ⟨fun tx htx => Transaction.exists_says (hlayout tx htx), fun served => ?_⟩
    refine ⟨fun tx htx => isServed_iff_bytes (hlayout tx htx), announced served block, plan_eq, ?_⟩
    exact map_transaction_announced

section Sample

open Submission.Pipeline (mined minedGenesis minedId headerOver pairBlock decode_pairBlock)

/-- A side proof of the side-mining transaction of the block of two. -/
def minedProof : SideProof := ⟨mined, .empty, headerOver minedId⟩

/-- The sample proof is read back from its bytes. -/
private theorem decode_minedProof : Wire.decode (Wire.write minedProof) = .ok minedProof := by
  have hmined : Wire.Exact.Admits mined := Wire.Exact.decode_write_eq_ok.1 rfl
  have hbranch : Wire.Exact.Admits Merkle.Branch.empty := Wire.Exact.decode_write_eq_ok.1 rfl
  have hheader : Wire.Exact.Admits AuxProof.empty := AuxProof.admits_empty
  have hproof : Wire.Exact.Admits minedProof := ⟨hmined, hbranch, hheader⟩
  exact Wire.Exact.decode_write_eq_ok.2 hproof

/-- The mined transaction is selected in its block, and not where its chain is not served. -/
theorem selected_by_payload_mined :
    Wire.decode (Wire.write mined) = .ok mined
      ∧ Wire.decode (Wire.write minedProof) = .ok minedProof
      ∧ Wire.decode (Wire.write pairBlock) = .ok pairBlock
      ∧ mined ∈ pairBlock.transactions ∧ mined.kind = Kind.sideMining
      ∧ (∃ m, mined.Says m) ∧ (∃ m, minedProof.transaction.Says m)
      ∧ isServed [minedGenesis] mined = true
      ∧ isServed [Digest.zero] mined = false := by
  have hmem : mined ∈ pairBlock.transactions := List.mem_cons_of_mem _ List.mem_cons_self
  have hmined : Wire.decode (Wire.write mined) = .ok mined := rfl
  obtain ⟨alone, inProof, inBlock⟩ := selected_by_payload
  have hserved (served : List Digest) := ((inBlock _ _ decode_pairBlock).2 served).1 _ hmem
  refine ⟨hmined, decode_minedProof, decode_pairBlock, hmem, rfl, alone _ _ hmined rfl,
    inProof _ _ decode_minedProof rfl,
    (hserved _).2 ⟨rfl, minedGenesis, List.mem_singleton_self _, by decide⟩, ?_⟩
  rw [Bool.eq_false_iff]
  intro h
  obtain ⟨-, genesis, hgenesis, hbytes⟩ := (hserved _).1 h
  rw [List.mem_singleton.1 hgenesis] at hbytes
  exact absurd hbytes (by decide)

end Sample

end MergedMining.Watch
