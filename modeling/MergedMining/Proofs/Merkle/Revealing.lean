/-
The leaves that a walk reveals, and the branch of each.

A walk goes over its tree from left to right, so it comes upon the leaves of interest in the
order of their positions, all of them inside of the tree. Every node above such a leaf was
gone into and none of them is cut, so on each level there is a neighbour, and a branch can be
read off. Which branch it is for a hash that several leaves have is settled by the order: the
first of these leaves is the one that stands furthest to the left.

Flags and hashes may be anything. That the proof was rebuilt without a fault is all that is
asked of it.
-/
import MergedMining.Proofs.Merkle.Extraction
import MergedMining.Proofs.Merkle.Level

namespace MergedMining.Merkle

-- ================================================================== below a node

namespace Tree

variable {count height position : Nat} {tree : Tree}

/-- The leaves of interest below a node are in order. -/
theorem Fits.pairwise_leaves (fits : tree.Fits count height position) :
    (tree.leaves position).Pairwise fun a b => a.1 < b.1 := by
  induction fits with
  | cut height position hash => exact List.Pairwise.nil
  | leaf position hash => exact List.pairwise_singleton _ _
  | @fork height position left right fitsLeft inside fitsRight different ihLeft ihRight =>
      unfold leaves
      apply List.pairwise_append.2
      refine ⟨ihLeft, ihRight, fun a ha b hb => ?_⟩
      -- what stands below the left child is in front of what stands below the right one
      obtain ⟨hleft, -⟩ := fitsLeft.neighbours ha
      obtain ⟨hright, -⟩ := fitsRight.neighbours hb
      have hparents : a.1 / 2 ^ height < b.1 / 2 ^ height := by omega
      exact Nat.lt_of_div_lt_div hparents
  | single fits last ih => exact ih

/-- The leaves of interest below a node of the tree are inside of the tree. -/
theorem Fits.lt_count (fits : tree.Fits count height position)
    (hnode : position < width count height) : ∀ m ∈ tree.leaves position, m.1 < count := by
  induction fits with
  | cut height position hash => exact fun m hm => nomatch hm
  | leaf position hash =>
      intro m hm
      rw [width_zero] at hnode
      rw [List.mem_singleton.1 hm]
      exact hnode
  | fork fitsLeft inside fitsRight different ihLeft ihRight =>
      intro m hm
      rcases List.mem_append.1 hm with hm | hm
      · exact ihLeft (two_mul_lt_width hnode) m hm
      · exact ihRight inside m hm
  | single fits last ih => exact ih (two_mul_lt_width hnode)

end Tree

-- ================================================================ below the root

/-- What was revealed, and the branches that are read off for it. -/
structure Extracted.Branched (e : Extracted) (count : Nat) : Prop where
  /-- The positions increase. -/
  ordered : e.found.Pairwise fun a b => a.1 < b.1
  inside : ∀ m ∈ e.found, m.1 < count
  /-- A hash that was revealed has a branch. It is that of the first leaf with this hash, it is
  as long as the tree is high, and it verifies. -/
  branch : ∀ index leaf, (index, leaf) ∈ e.found →
    ∃ b, e.branchFor leaf = some b
      ∧ (b.index.toNat, leaf) ∈ e.found
      ∧ (∀ i, (i, leaf) ∈ e.found → b.index.toNat ≤ i)
      ∧ b.hashes.length = height count
      ∧ b.verify leaf e.root = true
  /-- No other hash has one. -/
  noBranch : ∀ leaf, (∀ m ∈ e.found, m.2 ≠ leaf) → e.branchFor leaf = none

namespace PartialProof

variable {p : PartialProof} {e : Extracted} {index : Nat} {leaf : Digest}

private theorem pairwise_found (hextract : p.extract = .ok e) :
    e.found.Pairwise fun a b => a.1 < b.1 :=
  (extract_eq_ok hextract).2.pairwise_leaves

private theorem lt_transactions (hextract : p.extract = .ok e) :
    ∀ m ∈ e.found, m.1 < p.transactions.toNat := by
  obtain ⟨hcount, -⟩ := extract_eq_ok_iff.1 hextract
  exact (extract_eq_ok hextract).2.lt_count (width_pos _ (Nat.pos_of_ne_zero hcount))

/-- The first leaf with a hash is the one with the least position. -/
theorem exists_first_found (hextract : p.extract = .ok e) (hmem : (index, leaf) ∈ e.found) :
    ∃ first, e.found.find? (·.2 = leaf) = some (first, leaf)
      ∧ ∀ i, (i, leaf) ∈ e.found → first ≤ i := by
  cases hfind : e.found.find? (·.2 = leaf) with
  | none =>
      have hother := List.find?_eq_none.1 hfind _ hmem
      simp at hother
  | some m =>
      obtain ⟨first, hash⟩ := m
      obtain ⟨hhash, before, after, hsplit, hbefore⟩ := List.find?_eq_some_iff_append.1 hfind
      obtain rfl : hash = leaf := of_decide_eq_true hhash
      refine ⟨first, rfl, fun i hi => ?_⟩
      have hordered := pairwise_found hextract
      rw [hsplit] at hi hordered
      rcases List.mem_append.1 hi with hi | hi
      · have hother := hbefore _ hi
        simp at hother
      · rcases List.mem_cons.1 hi with hi | hi
        · cases hi
          exact Nat.le_refl _
        · have hbehind := (List.pairwise_append.1 hordered).2.1
          exact Nat.le_of_lt ((List.pairwise_cons.1 hbehind).1 _ hi)

/-- A hash that was revealed has the branch of the first leaf with this hash, and this branch
verifies. -/
theorem branchFor_of_mem_found (hextract : p.extract = .ok e) (hmem : (index, leaf) ∈ e.found) :
    ∃ b, e.branchFor leaf = some b
      ∧ (b.index.toNat, leaf) ∈ e.found
      ∧ (∀ i, (i, leaf) ∈ e.found → b.index.toNat ≤ i)
      ∧ b.hashes.length = Merkle.height p.transactions.toNat
      ∧ b.verify leaf e.root = true := by
  obtain ⟨first, hfind, hleast⟩ := exists_first_found hextract hmem
  have hfirst := List.mem_of_find?_eq_some hfind
  have hinside : first < p.transactions.toNat := lt_transactions hextract _ hfirst
  obtain ⟨hcount, hfits⟩ := extract_eq_ok hextract
  obtain ⟨-, neighbours, hsome, -⟩ := hfits.neighbours hfirst
  have hbranch : e.branchFor leaf = some ⟨neighbours, UInt32.ofNat first⟩ := by
    unfold Extracted.branchFor
    simp [hfind, hcount, hsome]
  obtain ⟨hlen, hroot, -⟩ := branchFor_eq_some hextract hbranch
  -- the index fits into 32 bits and into the branch, since the tree is that wide
  have hback : (UInt32.ofNat first).toNat = first :=
    UInt32.toNat_ofNat_of_lt' (Nat.lt_trans hinside p.transactions.toNat_lt)
  have hlow : first < 2 ^ neighbours.length := by
    rw [hlen]
    exact Nat.lt_of_lt_of_le hinside (le_two_pow_height _)
  refine ⟨⟨neighbours, UInt32.ofNat first⟩, hbranch, ?_, ?_, hlen, ?_⟩
  · rwa [hback]
  · rwa [hback]
  · unfold Branch.verify
    rw [Bool.and_eq_true]
    refine ⟨decide_eq_true ?_, decide_eq_true hroot⟩
    rwa [hback]

/-- A proof that was rebuilt has a branch for all that it reveals. -/
theorem branched (hextract : p.extract = .ok e) : e.Branched p.transactions.toNat where
  ordered := pairwise_found hextract
  inside := lt_transactions hextract
  branch _ _ hmem := branchFor_of_mem_found hextract hmem
  noBranch leaf hother := by
    have hnone : e.found.find? (·.2 = leaf) = none := by
      apply List.find?_eq_none.2
      intro m hm
      simpa using hother m hm
    unfold Extracted.branchFor
    rw [hnone]
    rfl

/-- A branch that is read off leads to the root. -/
theorem verify_of_branchFor {b : Branch} (hextract : p.extract = .ok e)
    (hbranch : e.branchFor leaf = some b) : b.verify leaf e.root = true := by
  by_cases hmem : ∃ index, (index, leaf) ∈ e.found
  · obtain ⟨index, hmem⟩ := hmem
    obtain ⟨c, hread, -, -, -, hverify⟩ := (branched hextract).branch index leaf hmem
    obtain rfl : b = c := Option.some.inj (hbranch.symm.trans hread)
    exact hverify
  · have hnone : e.branchFor leaf = none := by
      apply (branched hextract).noBranch
      rintro ⟨index, other⟩ hother rfl
      exact hmem ⟨index, hother⟩
    simp [hnone] at hbranch

end PartialProof

end MergedMining.Merkle
