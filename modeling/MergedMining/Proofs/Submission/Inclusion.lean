/-
Whether a submitted transaction is in the block whose header vouches for it.

What vouches is the root in the header. It says how the block's tree looks from
the top down, but not where the leaves begin: a proof claims a count, and the
count alone fixes how far down its leaves stand. So three heights are to be told
apart. At the height of the block's own tree a leaf of the proof is a leaf of the
block. Higher up it is the digest of a pair, which no side-mining transaction is,
since a pair has 64 bytes and a side-mining transaction has more. Further down it
hangs below a leaf of the block, and then this leaf is a transaction whose unsigned
encoding is a pair. Transactions of 64 bytes exist, so the last case stays.
-/
import MergedMining.Proofs.Merkle.Extraction
import MergedMining.Proofs.Merkle.Root
import MergedMining.Proofs.Sha256
import MergedMining.Proofs.Wire.RoundTrip
import MergedMining.Proofs.Wire.Takes
import MergedMining.Submission

namespace MergedMining

-- ======================================================== what is hashed

/-- What is hashed for the names of transactions and for the root over these. -/
def MainChain.hashed (txs : List MainChain.Transaction) : List Bytes :=
  txs.map (·.unsigned) ++ Merkle.rootPairs (txs.map (·.id))

/-- The pairs that are hashed in the walk over a proof that is no fault. -/
def Merkle.PartialProof.pairs (p : Merkle.PartialProof) : List Bytes :=
  match p.extract with
  | .ok e => e.tree.pairs
  | .error _ => []

/-- What is hashed for the transaction and the proof of an announcement. -/
def Notification.hashed (n : Notification) : List Bytes :=
  n.transaction.unsigned :: n.proof.pairs

-- ============================================================== side mining

namespace MainChain

/-- A side-mining payload takes at least 69 bytes. -/
theorem SideMining.takes_read : Wire.Reader.Takes 69 (Wire.read : Wire.Reader SideMining) := by
  show Wire.Reader.Takes (32 + (32 + (4 + (1 + 0)))) _
  refine (Wire.Reader.takes_octets 32).bind fun _ => ?_
  refine (Wire.Reader.takes_octets 32).bind fun _ => ?_
  refine Wire.Reader.takes_u32.bind fun _ => ?_
  exact Wire.Reader.takes_varBytes.bind fun _ => Wire.Reader.Takes.pure _

/-- A side-mining transaction is longer than a pair. -/
theorem Transaction.lt_length_unsigned {tx : Transaction} {payload : SideMining}
    (h : tx.sideMining = .ok payload) : 64 < tx.unsigned.length := by
  unfold sideMining at h
  split at h
  · have hlen := Wire.le_length_of_decode_eq_ok SideMining.takes_read h
    simp only [unsigned, List.length_append, List.length_cons]
    omega
  · cases h

end MainChain

-- ============================================================== what is built

/-- The converted header has the root of the one that the node answered with. -/
private theorem SpvHeader.transactionsRoot_of_toHeader {source : SpvHeader}
    {header : MainChain.Header}
    (h : source.toHeader = .ok header) : header.transactionsRoot = source.merkleRoot := by
  unfold toHeader at h
  obtain ⟨auxProof, -, h⟩ := Outcome.bind_eq_ok.1 h
  cases h
  rfl

namespace Submission

/-- Everything that is checked before an announcement is turned into something to submit. -/
theorem build_eq_ok {n : Notification} {source : SpvHeader} {s : Submitted} :
    build n source = .ok s ↔
      ∃ header tree branch payload,
        source.toHeader = .ok header ∧ header.hash = n.proof.blockHash
          ∧ n.proof.extract = .ok tree ∧ tree.root = header.transactionsRoot
          ∧ tree.branchFor n.transaction.id = some branch
          ∧ (SideProof.mk n.transaction branch header).verify = true
          ∧ n.transaction.sideMining = .ok payload
          ∧ s = ⟨payload.sideGenesis, payload.sideBlock, ⟨n.transaction, branch, header⟩⟩ := by
  simp only [build, Outcome.throw_eq, Outcome.error_bind, Outcome.ite_error_eq_ok,
    Outcome.bind_eq_ok, Outcome.mapError_eq_ok, ne_eq, Decidable.not_not]
  constructor
  · intro h
    obtain ⟨header, hheader, hhash, tree, htree, hroot, h⟩ := h
    split at h
    · next branch hbranch =>
        obtain ⟨hverify, h⟩ := Outcome.ite_eq_ok.1 h
        obtain ⟨payload, hpayload, h⟩ := Outcome.bind_eq_ok.1 h
        rw [Outcome.mapError_eq_ok] at hpayload
        exact ⟨header, tree, branch, payload, hheader, hhash, htree, hroot, hbranch, hverify,
          hpayload, (Outcome.pure_eq_ok.1 h).symm⟩
    · cases h
  · intro h
    obtain ⟨header, tree, branch, payload, hheader, hhash, htree, hroot, hbranch, hverify,
      hpayload, rfl⟩ := h
    refine ⟨header, hheader, hhash, tree, htree, hroot, ?_⟩
    rw [hbranch]
    simp only [hverify, if_true, hpayload]
    rfl

namespace Pipeline

variable {p : Pipeline Id} {n : Notification} {s : Submitted}

/-- A pipeline builds what the header that its source gives lets it build. -/
theorem build_run_eq_ok :
    (p.build n).run = .ok s ↔
      n.transaction.isSideMining = true
        ∧ ∃ source, (p.header n.proof.blockHash).run = .ok source
          ∧ Submission.build n source = .ok s := by
  have hrun : (p.build n).run =
      if n.transaction.isSideMining then
        match (p.header n.proof.blockHash).run with
        | .ok source => Submission.build n source
        | .error cause => .error (.header cause)
      else .error (.notSideMining n.transaction.id) := by
    unfold build wrapping
    split
    · generalize p.header n.proof.blockHash = answer
      cases answer <;> rfl
    · rfl
  rw [hrun, Outcome.ite_eq_ok]
  cases (p.header n.proof.blockHash).run with
  | ok source =>
      refine and_congr_right fun _ => ⟨fun h => ⟨source, rfl, h⟩, ?_⟩
      intro h
      obtain ⟨source', hsource, h⟩ := h
      cases hsource
      exact h
  | error cause =>
      refine and_congr_right fun _ => ⟨fun h => (nomatch h), ?_⟩
      intro h
      obtain ⟨source', hsource, h⟩ := h
      cases hsource

-- ================================================================ inclusion

/-- A transaction that is accepted is a transaction of the block, unless a transaction of
the block is itself encoded as a pair that leads to the accepted one, in a proof that
claims a higher tree than the block has, or byte strings that were hashed collide. -/
theorem transaction_mem {txs : List MainChain.Transaction} {source : SpvHeader}
    (hsource : (p.header n.proof.blockHash).run = .ok source)
    (hroot : Merkle.root (txs.map (·.id)) = .ok source.merkleRoot)
    (hbuild : (p.build n).run = .ok s) :
    n.transaction.id ∈ txs.map (·.id)
      ∨ (∃ tx ∈ txs, ∃ levels,
          Merkle.height n.proof.transactions.toNat = Merkle.height txs.length + levels
            ∧ Merkle.PairAbove n.transaction.id levels tx.unsigned)
      ∨ Collides (MainChain.hashed txs ++ n.hashed) := by
  obtain ⟨-, source', hsource', hbuild⟩ := build_run_eq_ok.1 hbuild
  obtain rfl : source' = source := by
    rw [hsource] at hsource'
    exact (Except.ok.inj hsource').symm
  obtain ⟨header, tree, branch, payload, hheader, -, htree, hrootEq, hbranch, -, hpayload, -⟩ :=
    build_eq_ok.1 hbuild
  rw [SpvHeader.transactionsRoot_of_toHeader hheader] at hrootEq
  obtain ⟨hlen, hfold, hpairs⟩ := Merkle.PartialProof.branchFor_eq_some htree hbranch
  have hwalk : tree.tree.pairs = n.proof.pairs := by
    rw [Merkle.PartialProof.pairs, htree]
  have hproof : Merkle.foldPairs n.transaction.id branch.hashes branch.index.toNat
      ⊆ MainChain.hashed txs ++ n.hashed := by
    intro x hx
    rw [hwalk] at hpairs
    exact List.mem_append_right _ (List.mem_cons_of_mem _ (hpairs hx))
  have hblock : Merkle.rootPairs (txs.map (·.id)) ⊆ MainChain.hashed txs ++ n.hashed :=
    fun x hx => List.mem_append_left _ (List.mem_append_right _ hx)
  have hheight : Merkle.height (txs.map (·.id)).length = Merkle.height txs.length := by
    rw [List.length_map]
  rcases Merkle.start_of_fold_eq_root hroot hproof hblock (hfold.trans hrootEq)
    with ⟨-, x, hx, hdigest⟩ | ⟨-, hmem⟩ | ⟨levels, hlevels, x, hx, habove, hmem⟩ | hcol
  · -- a pair that hashes as the transaction does is not the transaction's encoding
    have hself : n.transaction.unsigned ∈ MainChain.hashed txs ++ n.hashed :=
      List.mem_append_right _ List.mem_cons_self
    rcases Collides.eq_or (hblock hx) hself hdigest with heq | hcol
    · have hpair := Merkle.length_of_mem_rootPairs hx
      have hlong := MainChain.Transaction.lt_length_unsigned hpayload
      rw [heq] at hpair
      omega
    · exact Or.inr (Or.inr hcol)
  · exact Or.inl hmem
  · -- a transaction of the block has the digest of a pair on the way, so it is encoded as this pair
    obtain ⟨tx, htx, hid⟩ := List.mem_map.1 hmem
    have hunsigned : tx.unsigned ∈ MainChain.hashed txs ++ n.hashed :=
      List.mem_append_left _ (List.mem_append_left _ (List.mem_map.2 ⟨tx, htx, rfl⟩))
    rcases Collides.eq_or hunsigned (hproof hx) hid with heq | hcol
    · refine Or.inr (Or.inl ⟨tx, htx, levels, ?_, heq ▸ habove⟩)
      rw [← hlen, hlevels, hheight]
    · exact Or.inr (Or.inr hcol)
  · exact Or.inr (Or.inr hcol)

-- ============================================================ two transactions

/-- A side-mining transaction. -/
def mined : MainChain.Transaction where
  kind := MainChain.Kind.sideMining
  payloadVersion := 0
  payload := Wire.write (MainChain.SideMining.mk
    (Digest.ofNumber 0x1111111111111111111111111111111111111111111111111111111111111111)
    (Digest.ofNumber 0x2222222222222222222222222222222222222222222222222222222222222222) 7 [])
  attributes := []
  inputs := []
  outputs := []
  lockTime := 1500
  programs := []

/-- Its name. -/
def minedId : Digest :=
  Digest.ofNumber 0x6d6a7b6cd4a56d3944b23d0a0193275e7a3ce0ad1b0b26cc2e019c538b330503

/-- The side chain that it names. -/
def minedGenesis : Digest :=
  Digest.ofNumber 0x2222222222222222222222222222222222222222222222222222222222222222

/-- The hash of the mined transaction. -/
theorem id_mined : mined.id = minedId := by
  rw [MainChain.Transaction.id, Digest.ofBytes_eq_sliding]
  decide +kernel

/-- A record that is encoded as a pair, with the name of `mined` in front. -/
def paired : MainChain.Transaction where
  kind := MainChain.Kind.record
  payloadVersion := 5
  payload := minedId.bytes.drop 2 ++ List.replicate 22 0 ++ [2, 0, 0]
  attributes := []
  inputs := []
  outputs := []
  lockTime := 0
  programs := []

/-- Its name. -/
def pairedId : Digest :=
  Digest.ofNumber 0x25b2eaa7703c783e5debed9c44c6939485e55000cbba80078f19906a24e2e174

/-- The second half of its encoding. -/
def pairedTail : Digest := Digest.ofNumber (2 ^ 177)

private theorem unsigned_paired : paired.unsigned = Digest.pairBytes minedId pairedTail := by
  decide

/-- The hash of the paired transaction. -/
theorem id_paired : paired.id = pairedId := by
  rw [MainChain.Transaction.id, Digest.ofBytes_eq_sliding]
  decide +kernel

/-- A header of a block whose transactions have this root. -/
def headerOver (root : Digest) : MainChain.Header :=
  { MainChain.Header.empty with transactionsRoot := root, height := 1 }

/-- A header with an empty auxiliary proof comes back from the source. -/
theorem toHeader_headerOver (root : Digest) :
    (SpvHeader.ofHeader (headerOver root)).toHeader = .ok (headerOver root) := by
  have haux : Wire.decode (Wire.write AuxProof.empty) = .ok AuxProof.empty :=
    Wire.Exact.decode_write_eq_ok.2 AuxProof.admits_empty
  unfold SpvHeader.toHeader
  exact Outcome.bind_eq_ok.2 ⟨AuxProof.empty, haux, rfl⟩

/-- A pipeline whose source answers with that header. -/
def answering (root : Digest) : Pipeline Id where
  header _ := ExceptT.mk (.ok (SpvHeader.ofHeader (headerOver root)))
  node? _ := none

/-- An announcement of `mined` in the block with that header. -/
def announced (root : Digest) (count : UInt32) (hashes : List Digest) (flags : Bytes) :
    Notification where
  proof := ⟨(headerOver root).hash, 1, count, hashes, flags⟩
  transaction := mined

section Announced

variable {root : Digest} {count : UInt32} {hashes : List Digest} {flags : Bytes}
  {tree : Merkle.Extracted} {branch : Merkle.Branch}

/-- What is built for `mined` where its proof gives a branch that leads to the root. -/
theorem build_announced (htree : (announced root count hashes flags).proof.extract = .ok tree)
    (hroot : tree.root = root) (hbranch : tree.branchFor minedId = some branch)
    (hverify : branch.verify minedId root = true) :
    ∃ s, Submission.build (announced root count hashes flags) (.ofHeader (headerOver root)) = .ok s
      ∧ s.sideGenesis = minedGenesis := by
  rw [← id_mined] at hbranch hverify
  obtain ⟨payload, hpayload, hgenesis⟩ :
      ∃ payload, mined.sideMining = .ok payload ∧ payload.sideGenesis = minedGenesis :=
    ⟨_, rfl, rfl⟩
  exact ⟨_, build_eq_ok.2 ⟨headerOver root, tree, branch, payload, toHeader_headerOver root, rfl,
    htree, hroot, hbranch, hverify, hpayload, rfl⟩, hgenesis⟩

/-- A pipeline builds what its source's header lets it build of `mined`. -/
theorem run_build_announced {s : Submitted}
    (hbuild : Submission.build (announced root count hashes flags) (.ofHeader (headerOver root))
      = .ok s) :
    ((answering root).build (announced root count hashes flags)).run = .ok s :=
  build_run_eq_ok.2 ⟨rfl, _, rfl, hbuild⟩

end Announced

-- ======================================================== at the block's height

/-- `mined` in a block in which the record stands in front of it. -/
def beside : Notification := announced (Digest.pair pairedId minedId) 2 [pairedId, minedId] [5]

/-- The tree of the proof in which the mined transaction stands beside the paired one. -/
private theorem extract_beside :
    beside.proof.extract
      = .ok ⟨2, .fork (Digest.pair pairedId minedId) (.cut pairedId) (.leaf minedId)⟩ := by
  have hbits : Merkle.unpackBits [5] = true :: false :: true :: List.replicate 5 false := by
    decide
  have hheight : Merkle.height 2 = 1 := by decide
  refine Merkle.PartialProof.extract_eq_ok_iff.2
    ⟨by decide, by decide, by decide, _, List.replicate 5 false, ?_, by decide, rfl⟩
  show Merkle.Walk.node 2 (Merkle.height 2) 0 ⟨Merkle.unpackBits [5], [pairedId, minedId]⟩ = _
  rw [hbits, hheight]
  exact (Merkle.Walk.node_eq_ok_of_inside (by decide)).2
    ⟨_, _, _, Merkle.Walk.node_cut _, Merkle.Walk.node_leaf _, by decide, rfl⟩

/-- From this proof a submission is built. -/
theorem build_beside :
    ∃ s, Submission.build beside (.ofHeader (headerOver (Digest.pair pairedId minedId))) = .ok s
      ∧ s.sideGenesis = minedGenesis := by
  have hbranch : (Merkle.Extracted.mk 2 (.fork (Digest.pair pairedId minedId) (.cut pairedId)
      (.leaf minedId))).branchFor minedId = some ⟨[pairedId], 1⟩ := by
    decide
  have hverify :
      (Merkle.Branch.mk [pairedId] 1).verify minedId (Digest.pair pairedId minedId) = true := by
    have hfold : (Merkle.Branch.mk [pairedId] 1).rootFrom minedId
        = Digest.pair pairedId minedId := rfl
    rw [Merkle.Branch.verify, hfold, decide_eq_true rfl]
    rfl
  exact build_announced extract_beside rfl hbranch hverify

/-- The mined transaction is in the block whose root its branch leads to. -/
theorem transaction_mem_beside :
    Merkle.root ([paired, mined].map (·.id))
        = .ok (SpvHeader.ofHeader (headerOver (Digest.pair pairedId minedId))).merkleRoot
      ∧ ∃ s, ((answering (Digest.pair pairedId minedId)).build beside).run = .ok s
        ∧ (beside.transaction.id ∈ [paired, mined].map (·.id)
          ∨ (∃ tx ∈ [paired, mined], ∃ levels,
              Merkle.height beside.proof.transactions.toNat
                  = Merkle.height [paired, mined].length + levels
                ∧ Merkle.PairAbove beside.transaction.id levels tx.unsigned)
          ∨ Collides (MainChain.hashed [paired, mined] ++ beside.hashed)) := by
  have hroot : Merkle.root ([paired, mined].map (·.id))
      = .ok (SpvHeader.ofHeader (headerOver (Digest.pair pairedId minedId))).merkleRoot := by
    rw [List.map_cons, List.map_singleton, id_paired, id_mined, Merkle.root, Merkle.rootOf,
      Merkle.nextLevel, Merkle.rootOf]
    rfl
  obtain ⟨s, hbuild, -⟩ := build_beside
  have hrun := run_build_announced hbuild
  exact ⟨hroot, s, hrun, transaction_mem rfl hroot hrun⟩

-- ======================================================== below a leaf of the block

/-- The record's block, announced as if it held two transactions, of which the first is
`mined`. -/
def below : Notification := announced pairedId 2 [minedId, pairedTail] [3]

/-- The tree of the proof in which the mined transaction stands below the paired one. -/
private theorem extract_below :
    below.proof.extract
      = .ok ⟨2, .fork (Digest.pair minedId pairedTail) (.leaf minedId) (.cut pairedTail)⟩ := by
  have hbits : Merkle.unpackBits [3] = true :: true :: List.replicate 6 false := by decide
  have hheight : Merkle.height 2 = 1 := by decide
  refine Merkle.PartialProof.extract_eq_ok_iff.2
    ⟨by decide, by decide, by decide, _, List.replicate 5 false, ?_, by decide, rfl⟩
  show Merkle.Walk.node 2 (Merkle.height 2) 0 ⟨Merkle.unpackBits [3], [minedId, pairedTail]⟩ = _
  rw [hbits, hheight]
  exact (Merkle.Walk.node_eq_ok_of_inside (by decide)).2
    ⟨_, _, _, Merkle.Walk.node_leaf _, Merkle.Walk.node_cut _, by decide, rfl⟩

private theorem pair_below : Digest.pair minedId pairedTail = pairedId := by
  rw [Digest.pair_eq, ← unsigned_paired]
  exact id_paired

/-- Of the two transactions only the unsigned bytes are hashed, once each. -/
private theorem hashed_below {x : Bytes} (h : x ∈ MainChain.hashed [paired] ++ below.hashed) :
    x = paired.unsigned ∨ x = mined.unsigned := by
  have hblock : MainChain.hashed [paired] = [paired.unsigned] := by
    rw [MainChain.hashed, List.map_singleton, List.map_singleton, Merkle.rootPairs,
      Merkle.treePairs, List.append_nil]
  have hproof : below.hashed = [mined.unsigned, paired.unsigned] := by
    rw [Notification.hashed, Merkle.PartialProof.pairs, extract_below, unsigned_paired]
    rfl
  rw [hblock, hproof] at h
  simp only [List.cons_append, List.nil_append, List.mem_cons, List.not_mem_nil, or_false] at h
  rcases h with h | h | h
  · exact Or.inl h
  · exact Or.inr h
  · exact Or.inl h

/-- A proof that claims one level too many has a transaction accepted that is not in the
block, and nothing collides. -/
theorem transaction_not_mem_below :
    Wire.decode (Wire.write paired) = .ok paired
      ∧ ((answering pairedId).header below.proof.blockHash).run
        = .ok (SpvHeader.ofHeader (headerOver pairedId))
      ∧ Merkle.root ([paired].map (·.id))
        = .ok (SpvHeader.ofHeader (headerOver pairedId)).merkleRoot
      ∧ (∃ s, ((answering pairedId).build below).run = .ok s)
      ∧ below.transaction.id ∉ [paired].map (·.id)
      ∧ ¬Collides (MainChain.hashed [paired] ++ below.hashed) := by
  have hne : paired.id ≠ mined.id := by
    rw [id_paired, id_mined]
    decide
  refine ⟨rfl, rfl, ?_, ?_, ?_, ?_⟩
  · rw [List.map_singleton, id_paired, Merkle.root, Merkle.rootOf]
    rfl
  · have hbranch : (Merkle.Extracted.mk 2 (.fork (Digest.pair minedId pairedTail) (.leaf minedId)
        (.cut pairedTail))).branchFor minedId = some ⟨[pairedTail], 0⟩ := by
      decide
    have hverify : (Merkle.Branch.mk [pairedTail] 0).verify minedId pairedId = true := by
      have hfold : (Merkle.Branch.mk [pairedTail] 0).rootFrom minedId = pairedId := pair_below
      rw [Merkle.Branch.verify, hfold]
      decide
    obtain ⟨s, hbuild, -⟩ := build_announced extract_below pair_below hbranch hverify
    exact ⟨s, run_build_announced hbuild⟩
  · intro hmem
    exact hne (List.mem_singleton.1 hmem).symm
  · intro h
    -- only two byte strings are hashed, and their digests differ
    obtain ⟨x, hx, y, hy, hxy, hdigest⟩ := h
    rcases hashed_below hx with rfl | rfl
    · rcases hashed_below hy with rfl | rfl
      · exact hxy rfl
      · exact hne hdigest
    · rcases hashed_below hy with rfl | rfl
      · exact hne hdigest.symm
      · exact hxy rfl

end Pipeline

end Submission

end MergedMining
