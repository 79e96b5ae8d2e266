/-
What a parent block has to show for a proof that is accepted.

The script is searched three times, and each search ends at the first place that it
finds. The marker is searched for twice, the second time behind the first place. Every
place where it stands is the first one or behind it, so if the second search finds
nothing there is one place only. The root is searched for from the beginning, where
anybody can have put it before. But it is refused unless it was found right behind the
marker, so there it stands. What follows it are two numbers of four bytes each, and with
them the script is known from the marker on.
-/
import MergedMining.Proofs.AuxProof.Exclusive
import MergedMining.Proofs.AuxProof.Slots

namespace MergedMining.AuxProof

-- ================================================================== every place

/-- A byte string that is not found stands nowhere. -/
theorem position?_eq_none_iff {wanted script : Bytes} :
    position? wanted script = none ↔ ∀ place, ¬wanted <+: script.drop place := by
  induction script with
  | nil =>
      simp only [position?, List.drop_nil, List.prefix_nil, forall_const]
      cases wanted <;> simp
  | cons b script ih =>
      rw [position?]
      split
      · next hw =>
        constructor
        · intro h
          cases h
        · intro h
          exact absurd (List.isPrefixOf_iff_prefix.1 hw) (h 0)
      · next hw =>
        rw [Option.map_eq_none_iff, ih]
        constructor
        · intro h place
          cases place with
          | zero => exact fun hp => hw (List.isPrefixOf_iff_prefix.2 hp)
          | succ place => exact h place
        · exact fun h place => h (place + 1)

/-- What is found is the first of all places where the byte string stands. -/
theorem le_of_position? {wanted script : Bytes} {first place : Nat}
    (h : position? wanted script = some first) (hplace : wanted <+: script.drop place) :
    first ≤ place := by
  induction script generalizing first place with
  | nil =>
      rw [position?] at h
      split at h
      · obtain rfl := Option.some.inj h
        exact Nat.zero_le _
      · cases h
  | cons b script ih =>
      rw [position?] at h
      split at h
      · obtain rfl := Option.some.inj h
        exact Nat.zero_le _
      · next hw =>
        obtain ⟨k, hk, rfl⟩ := Option.map_eq_some_iff.1 h
        cases place with
        | zero => exact absurd (List.isPrefixOf_iff_prefix.2 hplace) hw
        | succ place => exact Nat.succ_le_succ (ih hk hplace)

/-- A byte string that is not found again behind the first place stands there only. -/
theorem prefix_drop_iff_of_only {wanted script : Bytes} {first : Nat}
    (hfirst : position? wanted script = some first)
    (honly : position? wanted (script.drop (first + 1)) = none) (place : Nat) :
    wanted <+: script.drop place ↔ place = first := by
  constructor
  · intro hplace
    have hle := le_of_position? hfirst hplace
    have hbehind := position?_eq_none_iff.1 honly (place - (first + 1))
    rw [List.drop_drop] at hbehind
    by_contra hne
    have hsum : first + 1 + (place - (first + 1)) = place := by omega
    rw [hsum] at hbehind
    exact hbehind hplace
  · intro h
    rw [h]
    exact isPrefix_of_position? hfirst

-- ================================================================= commitments

/-- A script that commits to a tree: the marker stands in one place of it, and behind it
the root in the order of its text, the size of a tree of this depth, and a nonce. -/
def Commits (script : Bytes) (root : Digest) (depth : Nat) (nonce : UInt32) : Prop :=
  ∃ before after,
    script = before ++ marker ++ root.bytes.reverse ++ toLittleEndian 4 (2 ^ depth)
        ++ Wire.writeU32 nonce ++ after
      ∧ ∀ place, marker <+: script.drop place ↔ place = before.length

/-- A number in four bytes is the 32-bit number that is written so. -/
theorem writeU32_littleEndian {bytes : Bytes} (h : bytes.length = 4) :
    Wire.writeU32 (UInt32.ofNat (littleEndian bytes)) = bytes := by
  have hback := toLittleEndian_littleEndian bytes
  have hmod := littleEndian_toLittleEndian 4 (littleEndian bytes)
  rw [h] at hback
  rw [hback] at hmod
  have hlt : littleEndian bytes < 2 ^ 32 := by
    rw [hmod]
    exact Nat.mod_lt _ (by decide)
  rw [Wire.writeU32, UInt32.toNat_ofNat_of_lt' hlt, hback]

/-- What is read behind the root stands there. -/
theorem commits_of_commitment {script tail : Bytes} {root : Digest} {depth : Nat}
    (h : commitment script root = .ok tail) (hlen : 8 ≤ tail.length)
    (hsize : littleEndian (tail.take 4) = 2 ^ depth) :
    Commits script root depth (UInt32.ofNat (littleEndian ((tail.drop 4).take 4))) := by
  obtain ⟨place, hmarker, honly, hroot, htail⟩ := commitment_eq_ok_iff.1 h
  have hplace : place ≤ script.length := by
    have hroom := length_le_of_position? hmarker
    have hfour : marker.length = 4 := rfl
    omega
  obtain ⟨behind, hbehind⟩ := isPrefix_of_position? hmarker
  obtain ⟨rest, hrest⟩ := isPrefix_of_position? hroot
  have hroot32 : root.bytes.reverse.length = 32 := by
    rw [List.length_reverse, root.length_bytes]
  -- what stands behind the root is what was read there
  have hlast : rest = tail := by
    rw [← htail, ← List.drop_drop, ← hrest, List.drop_left' hroot32]
  have hparts : behind = root.bytes.reverse ++ tail := by
    rw [← hlast, hrest, ← List.drop_drop, ← hbehind, List.drop_left]
  have hfirst : (tail.take 4).length = 4 := by
    rw [List.length_take]
    omega
  have hsecond : ((tail.drop 4).take 4).length = 4 := by
    rw [List.length_take, List.length_drop]
    omega
  -- the size was read as a number and is written as it stood
  have hwritten : toLittleEndian 4 (2 ^ depth) = tail.take 4 := by
    have hback := toLittleEndian_littleEndian (tail.take 4)
    rwa [hfirst, hsize] at hback
  refine ⟨script.take place, tail.drop 8, ?_, ?_⟩
  · calc script
        = script.take place ++ script.drop place := (List.take_append_drop ..).symm
      _ = script.take place ++ (marker ++ (root.bytes.reverse ++ tail)) := by
        rw [← hbehind, hparts]
      _ = script.take place ++ (marker ++ (root.bytes.reverse
            ++ (tail.take 4 ++ ((tail.drop 4).take 4 ++ tail.drop 8)))) := by
        rw [← List.drop_drop (i := 4) (j := 4), List.take_append_drop, List.take_append_drop]
      _ = _ := by
        rw [hwritten, writeU32_littleEndian hsecond]
        simp only [List.append_assoc]
  · rw [List.length_take, Nat.min_eq_left hplace]
    exact prefix_drop_iff_of_only hmarker honly

-- ================================================================ genuine proofs

/-- What makes a claim to a parent block's work a true one. -/
structure Genuine (p : AuxProof) (block : Digest) (chain : UInt32) : Prop where
  index_eq_zero : p.coinbaseBranch.index = 0
  /-- The coinbase is the first transaction of the parent block. -/
  fold_coinbase : Merkle.fold p.coinbase.id p.coinbaseBranch.hashes 0 = p.parentHeader.merkleRoot
  depth_le : p.auxBranch.hashes.length ≤ 30
  /-- The coinbase's script commits to the tree that the block is in, and the block is in
  the slot that is drawn with the nonce and the chain. -/
  commits : ∃ input others nonce, p.coinbase.inputs = input :: others
    ∧ Commits input.script (Merkle.fold block p.auxBranch.hashes p.auxBranch.index.toNat)
        p.auxBranch.hashes.length nonce
    ∧ p.auxBranch.index.toNat
        = ((nonce.toNat * 1103515245 + 12345 + chain.toNat) * 1103515245 + 12345)
          % 2 ^ p.auxBranch.hashes.length
  /-- The index has no bit above the branch's height. -/
  index_lt : p.auxBranch.index.toNat < 2 ^ p.auxBranch.hashes.length
  parentHash_eq : p.parentHash = p.parentHeader.hash
  /-- The parent header's hash is at most the target of its own bits. -/
  work : littleEndian p.parentHeader.hash.bytes ≤ Parent.target p.parentHeader.bits

/-- A proof that is accepted is a true claim to the parent block's work. -/
theorem genuine_of_check {p : AuxProof} {block : Digest} {chain : UInt32}
    (h : p.check block chain = .ok ()) : p.Genuine block chain := by
  obtain ⟨tail, h⟩ := check_eq_ok_iff.1 h
  obtain ⟨script, hscript, htail⟩ := h.committed
  obtain ⟨input, others, hinputs, rfl⟩ := script_eq_ok_iff.1 hscript
  have hdepth : p.auxBranch.hashes.length ≤ 30 := h.depth_le
  have hslot := h.index_eq_slot
  rw [slot_eq (by omega)] at hslot
  exact {
    index_eq_zero := h.index_eq_zero
    fold_coinbase := by
      have hroot := h.rootFrom_eq
      rwa [Merkle.Branch.rootFrom, h.index_eq_zero] at hroot
    depth_le := hdepth
    commits :=
      ⟨input, others, _, hinputs, commits_of_commitment htail h.length_tail h.size_eq, hslot⟩
    index_lt := by
      rw [hslot]
      exact Nat.mod_lt _ (Nat.pow_pos (by decide))
    parentHash_eq := h.hash_eq.symm
    work := of_decide_eq_true h.meetsTarget }

/-- The sample is accepted, so it is genuine. -/
theorem genuine_sample :
    (sample []).check Digest.zero 5 = .ok () ∧ (sample []).Genuine Digest.zero 5 :=
  ⟨check_sample [], genuine_of_check (check_sample [])⟩

end MergedMining.AuxProof
