/-
What a branch that verifies says.

At every level of a tree a node and its neighbour are the pair that was hashed for
the node above them. So the neighbours that are read off the levels fold back to the
root, and a branch that was built verifies, be it computed from the leaves or read off
a proof that was built for them. A fold can be undone pair by pair once the sides are
known, and the index tells them. So nothing else verifies at the same index, unless two
pairs that were hashed have one digest.

An index behind the last leaf belongs to no branch that is built. It leads down the
right edge of the tree, along nodes that are paired with themselves, and still ends
at a leaf; that it does needs no positions.
-/
import MergedMining.Proofs.Merkle.Rebuilding

namespace MergedMining.Merkle

-- ================================================================= one level

/-- A node and its neighbour are the pair that is hashed for the node above them. -/
theorem getElem?_levelPairs_div_two {level : List Digest} {position : Nat} {node : Digest}
    (h : level[position]? = some node) :
    (levelPairs level)[position / 2]?
      = some (sideBytes node (neighbour level position) position) := by
  obtain ⟨parent, rfl | rfl⟩ := Nat.even_or_odd' position
  · have hparent : 2 * parent / 2 = parent := by omega
    rw [sideBytes_of_even _ _ (Nat.mul_mod_right 2 parent), neighbour_even h rfl, hparent,
      getElem?_levelPairs, h]
    rfl
  · have hparent : (2 * parent + 1) / 2 = parent := by omega
    have hlt : 2 * parent < level.length := by
      have := (List.getElem?_eq_some_iff.1 h).1
      omega
    have hleft := List.getElem?_eq_getElem hlt
    rw [sideBytes_of_odd _ _ (Nat.mul_add_mod 2 parent 1), neighbour_odd hleft, hparent,
      getElem?_levelPairs, hleft, h]
    rfl

-- ================================================================ all levels

section Built

variable {leaves : List Digest} {index : Nat} {leaf r : Digest}

/-- The neighbours on the lowest levels fold from a leaf to the node above it, and the pairs
on the way are pairs of the tree. -/
theorem fold_neighbours (hleaf : leaves[index]? = some leaf) {k : Nat}
    (hk : k ≤ height leaves.length) :
    (level leaves k)[index / 2 ^ k]?
        = some (fold leaf ((List.range k).map fun j => neighbour (level leaves j) (index / 2 ^ j))
            index)
      ∧ foldPairs leaf ((List.range k).map fun j => neighbour (level leaves j) (index / 2 ^ j))
          index ⊆ rootPairs leaves := by
  induction k with
  | zero =>
      rw [Nat.pow_zero, Nat.div_one]
      exact ⟨hleaf, List.nil_subset _⟩
  | succ k ih =>
      obtain ⟨hnode, hpairs⟩ := ih (Nat.le_of_succ_le hk)
      have hside := getElem?_levelPairs_div_two hnode
      have hlevel := @levelPairs_subset_rootPairs leaves k hk
      have hlen : ((List.range k).map fun j => neighbour (level leaves j) (index / 2 ^ j)).length
          = k := by simp
      obtain ⟨-, hfold, hall⟩ := Tree.fold_concat hlen rfl rfl hpairs
      rw [List.range_succ, List.map_append, List.map_singleton]
      constructor
      · rw [hfold, level, nextLevel_eq_map, List.getElem?_map, Nat.pow_succ,
          ← Nat.div_div_eq_div_mul, hside]
        rfl
      · intro x hx
        rcases List.mem_cons.1 (hall hx) with rfl | hx
        · exact hlevel (List.mem_of_getElem? hside)
        · exact hx

/-- The branch that is built for a leaf is as long as the tree is high. It leads to the root,
and its pairs are pairs of the tree. -/
theorem exists_branch (hleaf : leaves[index]? = some leaf) (hroot : root leaves = .ok r) :
    ∃ neighbours, branch leaves index = .ok ⟨neighbours, UInt32.ofNat index⟩
      ∧ neighbours.length = height leaves.length
      ∧ fold leaf neighbours index = r
      ∧ foldPairs leaf neighbours index ⊆ rootPairs leaves := by
  have hindex : index < leaves.length := (List.getElem?_eq_some_iff.1 hleaf).1
  obtain ⟨htop, hpairs⟩ := fold_neighbours hleaf (Nat.le_refl _)
  rw [div_two_pow_height hindex, root_eq_ok_iff.1 hroot] at htop
  exact ⟨_, branch_eq_ok hindex, by simp, (Option.some.inj htop).symm, hpairs⟩

/-- A branch that was built is as long as the tree is high. -/
private theorem length_of_built {b : Branch} (h : branch leaves index = .ok b) :
    b.hashes.length = height leaves.length := by
  have inside : index < leaves.length := by
    cases leaves with
    | nil => cases h
    | cons first others =>
        rw [branch] at h
        split at h
        · assumption
        · cases h
  rw [branch_eq_ok inside] at h
  cases h
  simp

/-- A branch that was built verifies. -/
theorem Branch.verify_of_built {b : Branch} (hbuilt : branch leaves index = .ok b)
    (hleaf : leaves[index]? = some leaf) (hroot : root leaves = .ok r) (hindex : index < 2 ^ 32) :
    b.verify leaf r = true := by
  obtain ⟨neighbours, hbranch, hlen, hfold, -⟩ := exists_branch hleaf hroot
  obtain rfl : (⟨neighbours, UInt32.ofNat index⟩ : Branch) = b := by
    rw [hbuilt] at hbranch
    exact (Except.ok.inj hbranch).symm
  have hback : (UInt32.ofNat index).toNat = index := UInt32.toNat_ofNat_of_lt' hindex
  have hlow : index < 2 ^ neighbours.length := by
    rw [hlen]
    exact Nat.lt_of_lt_of_le (List.getElem?_eq_some_iff.1 hleaf).1 (le_two_pow_height _)
  simp [verify, rootFrom, hback, hlow, hfold]

-- ---------------------------------------------------------- proofs that are built

/-- A proof that is built over leaves that do not repeat rebuilds to their root, with a branch
that verifies for every wanted leaf. -/
theorem PartialProof.branchFor_of_build {blockHash : Digest} {blockHeight : UInt32}
    {wanted : List Bool} {p : PartialProof}
    (hbuild : build blockHash blockHeight leaves wanted = .ok p)
    (hcount : leaves.length < 2 ^ 32) (hno : ¬Repeats leaves wanted)
    (hroot : root leaves = .ok r) (hwanted : wanted[index]? = some true)
    (hleaf : leaves[index]? = some leaf) :
    ∃ e b, p.extract = .ok e ∧ e.root = r ∧ e.branchFor leaf = some b
      ∧ b.verify leaf r = true := by
  obtain ⟨-, htransactions, hlen, tree, bits, hpruned, hflags⟩ := pruned_of_build hbuild hcount
  have hback : p.transactions.toNat = leaves.length := by
    rw [htransactions]
    exact UInt32.toNat_ofNat_of_lt' hcount
  have hextract : p.extract = .ok ⟨p.transactions, tree⟩ :=
    (hpruned.extract_eq_ok_iff hlen hback hflags).2 ⟨hno, rfl⟩
  have hsame : tree.hash = r := by
    have htop := root_eq_ok_iff.1 hroot
    rw [hpruned.getElem?_level] at htop
    exact Option.some.inj htop
  obtain ⟨first, hwanted, hleaf, hfirst⟩ := exists_first hwanted hleaf
  obtain ⟨b, hbuilt, hbranch⟩ := hpruned.branchFor_eq_some hlen hback hwanted hleaf hfirst
  have hinside : first < leaves.length := (List.getElem?_eq_some_iff.1 hleaf).1
  exact ⟨_, b, hextract, hsame, hbranch,
    Branch.verify_of_built hbuilt hleaf hroot (Nat.lt_trans hinside hcount)⟩

end Built

-- ================================================================= soundness

/-- A branch as long as the tree is high that leads to the root starts at a leaf, or one of
its pairs collides with a pair of the tree. -/
theorem mem_or_collidesWith_of_fold_eq_root {leaves ns : List Digest} {x r : Digest}
    {index : Nat} (hroot : root leaves = .ok r) (hlen : ns.length = height leaves.length)
    (h : fold x ns index = r) :
    x ∈ leaves ∨ CollidesWith (foldPairs x ns index) (rootPairs leaves) := by
  cases leaves with
  | nil => cases hroot
  | cons first others =>
      cases hroot
      exact mem_or_collidesWith_of_fold_eq hlen h

/-- A branch of the length that the leaves call for and that verifies against their root
starts at one of the leaves. At the index of a leaf it starts at that leaf and is the branch
that is built for it. Otherwise a pair that was hashed along the branch and another pair that
was hashed for the root have one digest. -/
theorem Branch.verify_sound {leaves : List Digest} {b built : Branch} {x r : Digest} {i : Nat}
    (hbuilt : branch leaves i = .ok built) (hlen : b.hashes.length = built.hashes.length)
    (hroot : root leaves = .ok r) (hverify : b.verify x r = true) :
    (x ∈ leaves ∧ ∀ inside : b.index.toNat < leaves.length,
        x = leaves[b.index.toNat] ∧ branch leaves b.index.toNat = .ok b)
      ∨ CollidesWith (foldPairs x b.hashes b.index.toNat) (rootPairs leaves) := by
  have hheight : b.hashes.length = height leaves.length := by
    rw [hlen, length_of_built hbuilt]
  have hfold : fold x b.hashes b.index.toNat = r := by
    rw [verify, Bool.and_eq_true] at hverify
    exact of_decide_eq_true hverify.2
  rcases mem_or_collidesWith_of_fold_eq_root hroot hheight hfold with hmem | hc
  · by_cases inside : b.index.toNat < leaves.length
    · -- two folds along one index that end in the root
      have hleaf := List.getElem?_eq_getElem inside
      obtain ⟨neighbours, hbranch, hown, hownFold, hownPairs⟩ := exists_branch hleaf hroot
      rcases eq_of_fold_eq (hheight.trans hown.symm) (hfold.trans hownFold.symm)
        with ⟨hx, hhashes⟩ | hc
      · refine Or.inl ⟨hmem, fun _ => ⟨hx, ?_⟩⟩
        rw [hbranch, ← hhashes, UInt32.ofNat_toNat]
      · exact Or.inr (hc.mono (List.Subset.refl _) hownPairs)
    · exact Or.inl ⟨hmem, fun h => absurd h inside⟩
  · exact Or.inr hc

/-- The branch of the last of three leaves, which is paired with itself. -/
def lastBranch : Branch :=
  ⟨[Digest.ofNumber 3, Digest.pair (Digest.ofNumber 1) (Digest.ofNumber 2)], 2⟩

/-- The same neighbours at the index behind the last leaf. -/
def edgeBranch : Branch := { lastBranch with index := 3 }

private theorem branch_threeLeaves : branch threeLeaves 2 = .ok lastBranch := by
  rw [branch_eq_ok (by decide)]
  rfl

/-- Two branches of one length verify for the third leaf, one under the index beyond the edge. -/
theorem Branch.verify_sound_threeLeaves :
    branch threeLeaves 2 = .ok lastBranch
      ∧ edgeBranch.hashes.length = lastBranch.hashes.length
      ∧ ∃ r, root threeLeaves = .ok r
        ∧ lastBranch.verify (Digest.ofNumber 3) r = true
        ∧ edgeBranch.verify (Digest.ofNumber 3) r = true
        ∧ ((Digest.ofNumber 3 ∈ threeLeaves
              ∧ ∀ inside : lastBranch.index.toNat < threeLeaves.length,
              Digest.ofNumber 3 = threeLeaves[lastBranch.index.toNat]
                ∧ branch threeLeaves lastBranch.index.toNat = .ok lastBranch)
            ∨ CollidesWith
              (foldPairs (Digest.ofNumber 3) lastBranch.hashes lastBranch.index.toNat)
              (rootPairs threeLeaves))
        ∧ ((Digest.ofNumber 3 ∈ threeLeaves
              ∧ ∀ inside : edgeBranch.index.toNat < threeLeaves.length,
              Digest.ofNumber 3 = threeLeaves[edgeBranch.index.toNat]
                ∧ branch threeLeaves edgeBranch.index.toNat = .ok edgeBranch)
            ∨ CollidesWith
              (foldPairs (Digest.ofNumber 3) edgeBranch.hashes edgeBranch.index.toNat)
              (rootPairs threeLeaves)) := by
  have hlast : lastBranch.verify (Digest.ofNumber 3) (Digest.pair
      (Digest.pair (Digest.ofNumber 1) (Digest.ofNumber 2))
      (Digest.pair (Digest.ofNumber 3) (Digest.ofNumber 3))) = true := by
    simp [Branch.verify, Branch.rootFrom, lastBranch, fold]
  have hedge : edgeBranch.verify (Digest.ofNumber 3) (Digest.pair
      (Digest.pair (Digest.ofNumber 1) (Digest.ofNumber 2))
      (Digest.pair (Digest.ofNumber 3) (Digest.ofNumber 3))) = true := by
    simp [Branch.verify, Branch.rootFrom, edgeBranch, lastBranch, fold]
  exact ⟨branch_threeLeaves, rfl, _, root_threeLeaves, hlast, hedge,
    Branch.verify_sound branch_threeLeaves rfl root_threeLeaves hlast,
    Branch.verify_sound branch_threeLeaves rfl root_threeLeaves hedge⟩

end MergedMining.Merkle
