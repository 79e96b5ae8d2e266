/-
One parent block shares its work with at most one block of a chain.

Two accepted proofs over one parent header, with coinbase branches of one
length, are tied together from the header down. The coinbase branch stands at
index 0 in both, so the coinbases have one name and one legacy form. Forms that
agree have first scripts of which one begins with the other, so both scripts have
their only marker in one place and commit to one root, one size and one nonce.
The size fixes the depth of the auxiliary branch, the nonce and the chain fix its
index, and two branches of one depth at one index that lead to one root start at
one block.

Nothing is asked of how long scripts are or how many inputs a coinbase has: a
count that wraps still leaves one script the beginning of the other.
-/
import MergedMining.Proofs.AuxProof.Commitment
import MergedMining.Proofs.Merkle.Fold
import MergedMining.Proofs.Sha256
import MergedMining.Proofs.Wire.Count

namespace MergedMining

-- ============================================================ the coinbase

namespace Parent.Transaction

/-- Of two coinbases with one legacy form, one's first script begins with the other's. -/
theorem script_append_of_legacyBytes {s t : Transaction} {i j : Input} {is js : List Input}
    (hs : s.inputs = i :: is) (ht : t.inputs = j :: js) (h : s.legacyBytes = t.legacyBytes) :
    ∃ r u, i.script ++ r = j.script ++ u := by
  unfold legacyBytes bodyBytes at h
  simp only [Wire.writeI32, Wire.writeU32, Input.bytes, Wire.writeVarBytes, hs, ht,
    List.flatMap_cons, List.append_assoc] at h
  -- the version, the count of inputs, the output spent and its index, the script's length
  obtain ⟨-, h⟩ := Wire.toLittleEndian_append_inj h
  obtain ⟨-, h⟩ := Wire.writeCount_append_inj h
  obtain ⟨-, h⟩ := Octets.append_inj h
  obtain ⟨-, h⟩ := Wire.toLittleEndian_append_inj h
  obtain ⟨-, h⟩ := Wire.writeCount_append_inj h
  exact ⟨_, _, h⟩

end Parent.Transaction

namespace AuxProof

variable {p q : AuxProof} {b c : Digest} {chain : UInt32}

/-- What is hashed when a proof is checked for a block: the coinbase, and the pairs of
both branches. -/
def hashed (p : AuxProof) (block : Digest) : List Bytes :=
  p.coinbase.legacyBytes
    :: (Merkle.foldPairs p.coinbase.id p.coinbaseBranch.hashes p.coinbaseBranch.index.toNat
      ++ Merkle.foldPairs block p.auxBranch.hashes p.auxBranch.index.toNat)

private theorem coinbase_mem_hashed : p.coinbase.legacyBytes ∈ p.hashed b := List.mem_cons_self ..

private theorem coinbasePairs_subset_hashed :
    Merkle.foldPairs p.coinbase.id p.coinbaseBranch.hashes p.coinbaseBranch.index.toNat
      ⊆ p.hashed b :=
  fun _ hx => List.mem_cons_of_mem _ (List.mem_append_left _ hx)

private theorem auxPairs_subset_hashed :
    Merkle.foldPairs b p.auxBranch.hashes p.auxBranch.index.toNat ⊆ p.hashed b :=
  fun _ hx => List.mem_cons_of_mem _ (List.mem_append_right _ hx)

/-- A parent header holds one coinbase, if the branches to it are of one length. -/
theorem legacyBytes_eq_or_collides {tail tail' : Bytes}
    (hheader : p.parentHeader = q.parentHeader)
    (hlen : p.coinbaseBranch.hashes.length = q.coinbaseBranch.hashes.length)
    (hp : p.Accepted b chain tail) (hq : q.Accepted c chain tail') :
    p.coinbase.legacyBytes = q.coinbase.legacyBytes ∨ Collides (p.hashed b ++ q.hashed c) := by
  have hpsub : p.hashed b ⊆ p.hashed b ++ q.hashed c := List.subset_append_left ..
  have hqsub : q.hashed c ⊆ p.hashed b ++ q.hashed c := List.subset_append_right ..
  have hpairs := coinbasePairs_subset_hashed (p := p) (b := b)
  have hpairs' := coinbasePairs_subset_hashed (p := q) (b := c)
  have hroot :
      p.coinbaseBranch.rootFrom p.coinbase.id = q.coinbaseBranch.rootFrom q.coinbase.id := by
    rw [hp.rootFrom_eq, hq.rootFrom_eq, hheader]
  unfold Merkle.Branch.rootFrom at hroot
  rw [hp.index_eq_zero] at hroot hpairs
  rw [hq.index_eq_zero] at hroot hpairs'
  rcases Merkle.fold_inj hlen (fun _ hx => hpsub (hpairs hx)) (fun _ hx => hqsub (hpairs' hx)) hroot
    with ⟨hid, -⟩ | hcol
  · exact Collides.eq_or (hpsub coinbase_mem_hashed) (hqsub coinbase_mem_hashed) hid
  · exact Or.inr hcol

-- =========================================================== the commitment

/-- Scripts of which one begins with the other commit to one root, and to one size and
nonce behind it. -/
theorem commitment_agree {s t r u tail tail' : Bytes} {root root' : Digest}
    (hcomp : s ++ r = t ++ u) (hs : commitment s root = .ok tail)
    (ht : commitment t root' = .ok tail') :
    root = root' ∧ ∃ r' u', tail ++ r' = tail' ++ u' := by
  rcases List.append_eq_append_iff.1 hcomp with ⟨more, rfl, -⟩ | ⟨more, rfl, -⟩
  · obtain ⟨hroot, rfl⟩ := commitment_append hs ht
    exact ⟨hroot, more, [], (List.append_nil _).symm⟩
  · obtain ⟨hroot, rfl⟩ := commitment_append ht hs
    exact ⟨hroot.symm, [], more, List.append_nil _⟩

/-- Accepted proofs with one coinbase have auxiliary branches of one depth, at one index,
that lead to one root. -/
theorem auxBranch_agree {tail tail' : Bytes}
    (hcoinbase : p.coinbase.legacyBytes = q.coinbase.legacyBytes)
    (hp : p.Accepted b chain tail) (hq : q.Accepted c chain tail') :
    p.auxRoot b = q.auxRoot c
      ∧ p.auxBranch.hashes.length = q.auxBranch.hashes.length
      ∧ p.auxBranch.index = q.auxBranch.index := by
  obtain ⟨s, hs, hstail⟩ := hp.committed
  obtain ⟨t, ht, httail⟩ := hq.committed
  obtain ⟨i, is, hpi, rfl⟩ := script_eq_ok_iff.1 hs
  obtain ⟨j, js, hqj, rfl⟩ := script_eq_ok_iff.1 ht
  obtain ⟨r, u, hcomp⟩ := Parent.Transaction.script_append_of_legacyBytes hpi hqj hcoinbase
  obtain ⟨hroot, r', u', htails⟩ := commitment_agree hcomp hstail httail
  have hlow : tail.take 8 = tail'.take 8 := by
    have h8 := congrArg (List.take 8) htails
    rwa [List.take_append_of_le_length hp.length_tail,
      List.take_append_of_le_length hq.length_tail] at h8
  have hsize : tail.take 4 = tail'.take 4 := by
    have h4 := congrArg (List.take 4) hlow
    rwa [List.take_take, List.take_take] at h4
  have hnonce : (tail.drop 4).take 4 = (tail'.drop 4).take 4 := by
    rw [List.take_drop, List.take_drop, hlow]
  have hdepth : p.auxBranch.hashes.length = q.auxBranch.hashes.length := by
    apply (Nat.pow_right_inj (by decide : 1 < 2)).1
    rw [← hp.size_eq, ← hq.size_eq, hsize]
  refine ⟨hroot, hdepth, UInt32.toNat_inj.1 ?_⟩
  rw [hp.index_eq_slot, hq.index_eq_slot, hnonce, hdepth]

-- ================================================================= one block

/-- Proofs over one parent header that are accepted on behalf of one chain are proofs for
one block, unless byte strings that were hashed in checking them collide. -/
theorem block_unique
    (hheader : p.parentHeader = q.parentHeader)
    (hlen : p.coinbaseBranch.hashes.length = q.coinbaseBranch.hashes.length)
    (hp : p.check b chain = .ok ()) (hq : q.check c chain = .ok ()) :
    b = c ∨ Collides (p.hashed b ++ q.hashed c) := by
  obtain ⟨tail, hp⟩ := check_eq_ok_iff.1 hp
  obtain ⟨tail', hq⟩ := check_eq_ok_iff.1 hq
  rcases legacyBytes_eq_or_collides hheader hlen hp hq with hcoinbase | hcol
  · obtain ⟨hroot, hdepth, hindex⟩ := auxBranch_agree hcoinbase hp hq
    unfold auxRoot Merkle.Branch.rootFrom at hroot
    have hpairs := auxPairs_subset_hashed (p := p) (b := b)
    rw [hindex] at hroot hpairs
    rcases Merkle.fold_inj hdepth
        (fun _ hx => List.mem_append_left _ (hpairs hx))
        (fun _ hx => List.mem_append_right _ (auxPairs_subset_hashed hx)) hroot
      with ⟨hblock, -⟩ | hcol
    · exact Or.inl hblock
    · exact Or.inr hcol
  · exact Or.inr hcol

/-- A proof for the block of zeros, which has the digest of zeros for a neighbour in its
auxiliary tree. The parent block has only its coinbase, which carries this witness. -/
def sample (witness : List Bytes) : AuxProof :=
  let coinbase : Parent.Transaction := {
    version := 1
    inputs := [{
      transaction := Digest.zero, index := 0xffffffff, sequence := 0xffffffff, witness
      script := 3 :: marker
        ++ (Digest.ofNumber
            0xf98c4e9736d8eb8bb46299798906695c755369a3df99a93ffdded1713f1cf6e2).bytes.reverse
        ++ [2, 0, 0, 0, 1, 0, 0, 0] }]
    outputs := []
    lockTime := 0 }
  let parentHeader : Parent.Header := { Parent.Header.empty with
    merkleRoot := Digest.ofNumber 0xdf1da2a3e655b1f5f23154add9ba815a1ebc741d3fc13359ecc625f2122e6834
    bits := 0x217fffff }
  { coinbase, parentHash := parentHeader.hash, coinbaseBranch := .empty
    auxBranch := ⟨[Digest.zero], 0⟩, parentHeader }

/-- The sample is accepted for the block of zeros and chain 5, whatever its witness is. -/
theorem check_sample (witness : List Bytes) : (sample witness).check Digest.zero 5 = .ok () := by
  -- the witness is not hashed
  have hid : (sample []).coinbase.id = (sample []).parentHeader.merkleRoot := by
    rw [Parent.Transaction.id, Digest.ofBytes_eq_sliding]
    decide +kernel
  have hwork : (sample []).parentHeader.meetsTarget = true := by
    rw [Parent.Header.meetsTarget, Parent.Header.hash, Digest.ofBytes_eq_sliding]
    decide +kernel
  have haux : (sample []).auxRoot Digest.zero
      = Digest.ofNumber 0xf98c4e9736d8eb8bb46299798906695c755369a3df99a93ffdded1713f1cf6e2 := by
    show Digest.pair Digest.zero Digest.zero = _
    rw [Digest.pair_eq_sliding]
    decide +kernel
  have hscript : (sample []).script = .ok _ := rfl
  refine check_eq_ok_iff.2 ⟨[2, 0, 0, 0, 1, 0, 0, 0], rfl, hid, ?_, ⟨_, hscript, ?_⟩, ?_, ?_, ?_,
    rfl, hwork⟩
  · show 1 ≤ 30
    decide
  · show commitment _ ((sample []).auxRoot Digest.zero) = _
    rw [haux]
    exact commitment_eq_ok_iff.2 ⟨1, by decide, by decide, by decide, rfl⟩
  · decide
  · show littleEndian [2, 0, 0, 0] = 2 ^ 1
    decide
  · show 0 = slot (UInt32.ofNat (littleEndian [1, 0, 0, 0])) 5 1
    decide

/-- Two proofs that differ in the coinbase's witness are proofs for one block. -/
theorem block_unique_sample :
    (sample []).parentHeader = (sample [[7]]).parentHeader
      ∧ (sample []).check Digest.zero 5 = .ok ()
      ∧ (sample [[7]]).check Digest.zero 5 = .ok ()
      ∧ (Digest.zero = Digest.zero
        ∨ Collides ((sample []).hashed Digest.zero ++ (sample [[7]]).hashed Digest.zero)) :=
  ⟨rfl, check_sample [], check_sample [[7]],
    block_unique rfl rfl (check_sample []) (check_sample [[7]])⟩

end AuxProof

end MergedMining
