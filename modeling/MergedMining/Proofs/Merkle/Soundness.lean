/-
What a partial proof can make one believe.

Flags, hashes and padding of a proof are whatever its sender made them. Only the
count is taken to be the block's, and with it the walk and the block's tree are of
one shape: a node of the walk stands at a height and a position of that tree.
Going down from the root, a node that agrees with the tree's node there has
children that agree with the children there, or two different pairs have one
digest. The second child of a fork is real on both sides because the count is the
same; the last node of an odd level is paired with itself on both sides.

A right child that repeats its left neighbour is refused by the walk. Nothing
here needs that.
-/
import MergedMining.Proofs.Merkle.Extraction
import MergedMining.Proofs.Merkle.Level

namespace MergedMining.Merkle

variable {hashed : List Bytes} {leaves : List Digest}

-- ================================================================= one level

/-- The children of a node that agrees with the tree agree with it too, or there is a
collision. -/
theorem children_of_getElem?_level {height position : Nat} {a b : Digest}
    (htree : levelPairs (level leaves height) ⊆ hashed) (hpair : Digest.pairBytes a b ∈ hashed)
    (hnode : (level leaves (height + 1))[position]? = some (Digest.pair a b)) :
    ((level leaves height)[2 * position]? = some a
        ∧ ((level leaves height)[2 * position + 1]?).getD a = b)
      ∨ Collides hashed := by
  rw [level, nextLevel_eq_map, List.getElem?_map, Option.map_eq_some_iff] at hnode
  obtain ⟨x, hx, hdigest⟩ := hnode
  rcases Collides.eq_or (htree (List.mem_of_getElem? hx)) hpair hdigest with rfl | hc
  · rw [getElem?_levelPairs, Option.map_eq_some_iff] at hx
    obtain ⟨c, hc, hbytes⟩ := hx
    obtain ⟨rfl, hright⟩ := Digest.pairBytes_inj hbytes
    exact Or.inl ⟨hc, hright⟩
  · exact Or.inr hc

-- ================================================================ all levels

/-- Below a node that agrees with the tree, every leaf of interest is a leaf of the tree, or
there is a collision. -/
theorem Tree.Fits.leaves_sound {height position : Nat} {tree : Tree}
    (fits : tree.Fits leaves.length height position)
    (hheight : height ≤ Merkle.height leaves.length) (htree : rootPairs leaves ⊆ hashed)
    (hwalk : tree.pairs ⊆ hashed)
    (hnode : (level leaves height)[position]? = some tree.hash) :
    (∀ index leaf, (index, leaf) ∈ tree.leaves position → leaves[index]? = some leaf)
      ∨ Collides hashed := by
  induction fits with
  | cut height position hash => exact Or.inl fun index leaf hmem => nomatch hmem
  | leaf position hash =>
      refine Or.inl fun index leaf hmem => ?_
      obtain ⟨rfl, rfl⟩ := Prod.mk.inj (List.mem_singleton.1 hmem)
      exact hnode
  | @fork height position left right fitsLeft inside fitsRight different ihLeft ihRight =>
      rw [pairs, List.cons_subset, List.append_subset] at hwalk
      have hlevel := List.Subset.trans (levelPairs_subset_rootPairs hheight) htree
      rcases children_of_getElem?_level hlevel hwalk.1 hnode with ⟨hleft, hright⟩ | hc
      · -- the count says that there is a second child
        have hreal : (level leaves height)[2 * position + 1]? = some right.hash := by
          rw [← length_level] at inside
          rw [← hright, List.getElem?_eq_getElem inside, Option.getD_some]
        rcases ihLeft (Nat.le_of_succ_le hheight) hwalk.2.1 hleft with hallLeft | hc
        · rcases ihRight (Nat.le_of_succ_le hheight) hwalk.2.2 hreal with hallRight | hc
          · refine Or.inl fun index leaf hmem => ?_
            rcases List.mem_append.1 hmem with hmem | hmem
            · exact hallLeft index leaf hmem
            · exact hallRight index leaf hmem
          · exact Or.inr hc
        · exact Or.inr hc
      · exact Or.inr hc
  | @single height position child fits last ih =>
      rw [pairs, List.cons_subset] at hwalk
      have hlevel := List.Subset.trans (levelPairs_subset_rootPairs hheight) htree
      rcases children_of_getElem?_level hlevel hwalk.1 hnode with ⟨hchild, -⟩ | hc
      · exact ih (Nat.le_of_succ_le hheight) hwalk.2 hchild
      · exact Or.inr hc

/-- A proof with the block's count that leads to the block's root reveals leaves of the
block, each where it stands, or two different pairs hashed for the root and in the walk
have one digest. -/
theorem PartialProof.found_sound {p : PartialProof} {e : Extracted}
    (hcount : p.transactions.toNat = leaves.length) (hextract : p.extract = .ok e)
    (hroot : root leaves = .ok e.root) :
    (∀ index leaf, (index, leaf) ∈ e.found →
        ∃ inside : index < leaves.length, leaf = leaves[index])
      ∨ Collides (rootPairs leaves ++ e.tree.pairs) := by
  obtain ⟨-, hfits⟩ := extract_eq_ok hextract
  rw [hcount] at hfits
  rcases hfits.leaves_sound (Nat.le_refl _) (List.subset_append_left ..)
    (List.subset_append_right ..) (root_eq_ok_iff.1 hroot) with hall | hc
  · refine Or.inl fun index leaf hmem => ?_
    obtain ⟨inside, rfl⟩ := List.getElem?_eq_some_iff.1 (hall index leaf hmem)
    exact ⟨inside, rfl⟩
  · exact Or.inr hc

/-- A proof of the last of three leaves, with flags set behind the last one that is read. -/
def padded : PartialProof where
  blockHash := Digest.zero
  height := 7
  transactions := 3
  hashes := [Digest.pair (Digest.ofNumber 1) (Digest.ofNumber 2), Digest.ofNumber 3]
  flags := [0xdd]

/-- The tree that the proof describes. -/
def paddedTree : Tree :=
  let left := Digest.pair (Digest.ofNumber 1) (Digest.ofNumber 2)
  let right := Digest.pair (Digest.ofNumber 3) (Digest.ofNumber 3)
  .fork (Digest.pair left right) (.cut left) (.single right (.leaf (Digest.ofNumber 3)))

/-- The tree of the padded proof, with its right edge paired with itself. -/
theorem extract_padded : padded.extract = .ok ⟨padded.transactions, paddedTree⟩ := by
  have hbits : unpackBits padded.flags
      = [true, false, true, true, true, false, true, true] := by decide
  have hheight : Merkle.height padded.transactions.toNat = 2 := by decide
  refine PartialProof.extract_eq_ok_iff.2
    ⟨by decide, by decide, by decide, paddedTree, [true, false, true, true], ?_, by decide, rfl⟩
  rw [hbits, hheight]
  refine (Walk.node_eq_ok_of_inside (by decide)).2 ⟨_, _, _, Walk.node_cut _,
    (Walk.node_eq_ok_of_last (by decide)).2 ⟨_, Walk.node_leaf _, rfl⟩, pair_ne_threeLeaves, ?_⟩
  simp only [paddedTree, Tree.hash]

/-- The third leaf is found at its place in the padded tree, or two pairs collide. -/
theorem found_sound_padded :
    padded.transactions.toNat = threeLeaves.length
      ∧ ∃ e, padded.extract = .ok e
        ∧ root threeLeaves = .ok e.root
        ∧ e.found = [(2, Digest.ofNumber 3)]
        ∧ ((∀ index leaf, (index, leaf) ∈ e.found →
              ∃ inside : index < threeLeaves.length, leaf = threeLeaves[index])
            ∨ Collides (rootPairs threeLeaves ++ e.tree.pairs)) := by
  have hroot : root threeLeaves = .ok (Extracted.mk padded.transactions paddedTree).root := by
    rw [root_threeLeaves, Extracted.root, paddedTree, Tree.hash]
  have hfound : (Extracted.mk padded.transactions paddedTree).found
      = [(2, Digest.ofNumber 3)] := by
    simp only [Extracted.found, paddedTree, Tree.leaves, List.nil_append, Nat.mul_zero,
      Nat.zero_add, Nat.mul_one]
  exact ⟨rfl, ⟨padded.transactions, paddedTree⟩, extract_padded, hroot, hfound,
    PartialProof.found_sound rfl extract_padded hroot⟩

end MergedMining.Merkle
