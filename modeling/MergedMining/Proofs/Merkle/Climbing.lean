/-
What the walk up the levels hands out.

A branch and the root it leads to are read off in one walk. That walk passes the nodes
that the branch alone and the root alone are made of, so nothing new has to be shown about
the levels. It is as long as the tree is high, which is the least number of doublings that
reach the number of leaves.
-/
import Mathlib.Data.Nat.Log
import MergedMining.Proofs.Merkle.Verifying

namespace MergedMining.Merkle

/-- The height of a tree is the logarithm of the number of its leaves, rounded up. -/
theorem height_eq_clog (count : Nat) : height count = Nat.clog 2 count := by
  refine eq_of_forall_lt_iff fun k => ?_
  rw [lt_height_iff, lt_width_iff, Nat.one_mul, Nat.lt_clog_iff_pow_lt Nat.one_lt_two]

/-- The walk collects the neighbours and ends at the root. -/
theorem climb_eq (first : Digest) (others : List Digest) (position : Nat) :
    climb first others position = (neighbours first others position, rootOf first others) := by
  fun_induction climb first others position with
  | case1 first position => simp [neighbours, rootOf]
  | case2 first position second rest above top hwalk ih =>
      rw [hwalk, Prod.mk.injEq] at ih
      rw [neighbours, rootOf, ← ih.1, ← ih.2]

/-- The branch and the root come out of the one walk, or fail, as they do by themselves. -/
theorem branchAndRoot_eq (leaves : List Digest) (index : Nat) :
    branchAndRoot leaves index = do
      let b ← branch leaves index
      let r ← root leaves
      return (b, r) := by
  cases leaves with
  | nil => rfl
  | cons first others =>
      rw [branchAndRoot, branch, climb_eq]
      by_cases h : index < (first :: others).length
      · rw [if_pos h, if_pos h]
        rfl
      · rw [if_neg h, if_neg h]
        rfl

section Built

variable {leaves : List Digest} {index : Nat}

/-- For every leaf of a tree a branch is built that carries the leaf's index, has one hash for
each doubling and comes with the root of the leaves; the leaf verifies with it. -/
theorem exists_branchAndRoot (hcount : leaves.length ≤ 2 ^ 32) (inside : index < leaves.length) :
    ∃ b r, branchAndRoot leaves index = .ok (b, r)
      ∧ b.index.toNat = index
      ∧ b.hashes.length = Nat.clog 2 leaves.length
      ∧ root leaves = .ok r
      ∧ b.verify leaves[index] r = true := by
  have hleaf := List.getElem?_eq_getElem inside
  have hindex : index < 2 ^ 32 := Nat.lt_of_lt_of_le inside hcount
  obtain ⟨r, hroot⟩ : ∃ r, root leaves = .ok r := by
    cases leaves with
    | nil => exact absurd inside (Nat.not_lt_zero index)
    | cons first others => exact ⟨_, rfl⟩
  obtain ⟨neighbours, hbranch, hlen, -, -⟩ := exists_branch hleaf hroot
  refine ⟨_, r, ?_, UInt32.toNat_ofNat_of_lt' hindex, ?_, hroot,
    Branch.verify_of_built hbranch hleaf hroot hindex⟩
  · rw [branchAndRoot_eq, hbranch, hroot]
    rfl
  · rw [hlen, height_eq_clog]

/-- The last of three leaves, which is paired with itself on the lowest level. -/
theorem exists_branchAndRoot_threeLeaves :
    threeLeaves.length ≤ 2 ^ 32 ∧ 2 < threeLeaves.length
      ∧ ∃ b r, branchAndRoot threeLeaves 2 = .ok (b, r)
        ∧ b.index.toNat = 2
        ∧ b.hashes.length = Nat.clog 2 threeLeaves.length
        ∧ root threeLeaves = .ok r
        ∧ b.verify (Digest.ofNumber 3) r = true :=
  ⟨by simp [threeLeaves], by simp [threeLeaves],
    exists_branchAndRoot (by simp [threeLeaves]) (by simp [threeLeaves])⟩

end Built

end MergedMining.Merkle
