/-
The root of a tree over leaves, met from above by a branch.

Every node above the leaves is the digest of a pair of nodes one level down. So
a branch that ends in the root retraces the tree: what is left of it when it has
come down `k` levels is a node of the tree at that level, or a pair of the branch
and a pair of the tree collide. A branch as long as the tree is high starts at a
leaf, a shorter one at a node that is the digest of a pair. Where in its level a
node stands is not needed for this, and neither is how many leaves the branch
was made for.
-/
import MergedMining.Merkle.Partial
import MergedMining.Proofs.Merkle.Fold

namespace MergedMining.Merkle

-- ================================================================= one level

/-- The pairs that are hashed to form the level above. -/
def levelPairs : List Digest → List Bytes
  | a :: b :: rest => Digest.pairBytes a b :: levelPairs rest
  | [a] => [Digest.pairBytes a a]
  | [] => []

/-- The level above is the hashes of the pairs. -/
theorem nextLevel_eq_map (level : List Digest) :
    nextLevel level = (levelPairs level).map Digest.ofBytes := by
  fun_induction nextLevel level with
  | case1 a b rest ih => rw [levelPairs, List.map_cons, ih, Digest.pair_eq]
  | case2 a => rfl
  | case3 => rfl

/-- The children of a node are nodes of the level below. -/
theorem mem_levelPairs {level : List Digest} {x : Bytes} (h : x ∈ levelPairs level) :
    ∃ a ∈ level, ∃ b ∈ level, x = Digest.pairBytes a b := by
  fun_induction levelPairs level with
  | case1 a b rest ih =>
      rcases List.mem_cons.1 h with rfl | h
      · exact ⟨a, by simp, b, by simp, rfl⟩
      · obtain ⟨c, hc, d, hd, rfl⟩ := ih h
        exact ⟨c, by simp [hc], d, by simp [hd], rfl⟩
  | case2 a =>
      obtain rfl := List.mem_singleton.1 h
      exact ⟨a, by simp, a, by simp, rfl⟩
  | case3 => cases h

/-- A node above the leaves is the digest of a pair that was hashed. -/
theorem exists_pair_of_mem_nextLevel {level : List Digest} {y : Digest}
    (h : y ∈ nextLevel level) : ∃ x ∈ levelPairs level, Digest.ofBytes x = y := by
  rw [nextLevel_eq_map] at h
  exact List.mem_map.1 h

/-- What was folded to a node is a child of the node, or its pair collides with the node's. -/
theorem mem_of_side_mem_nextLevel {path tree : List Bytes} {level : List Digest}
    {x n : Digest} {index : Nat} (hside : sideBytes x n index ∈ path)
    (hlevel : levelPairs level ⊆ tree)
    (h : Digest.ofBytes (sideBytes x n index) ∈ nextLevel level) :
    x ∈ level ∨ CollidesWith path tree := by
  obtain ⟨y, hy, hdigest⟩ := exists_pair_of_mem_nextLevel h
  rcases CollidesWith.eq_or hside (hlevel hy) hdigest.symm with rfl | hc
  · obtain ⟨a, ha, b, hb, hpair⟩ := mem_levelPairs hy
    rcases sideBytes_cases x n index with heq | heq
    · obtain ⟨rfl, -⟩ := Digest.pairBytes_inj (heq.symm.trans hpair)
      exact Or.inl ha
    · obtain ⟨-, rfl⟩ := Digest.pairBytes_inj (heq.symm.trans hpair)
      exact Or.inl hb
  · exact Or.inr hc

-- ================================================================ all levels

/-- The pairs that are hashed on all levels above `first` and then `others`. -/
def treePairs (first : Digest) (others : List Digest) : List Bytes :=
  match others with
  | [] => []
  | second :: rest =>
      levelPairs (first :: second :: rest) ++ treePairs (Digest.pair first second) (nextLevel rest)
termination_by others.length
decreasing_by
  rw [length_nextLevel, List.length_cons]
  omega

/-- The pairs that are hashed for the root over these leaves. -/
def rootPairs : List Digest → List Bytes
  | [] => []
  | first :: others => treePairs first others

/-- All that is hashed above the leaves is two digests long. -/
private theorem length_of_mem_treePairs {first : Digest} {others : List Digest} {x : Bytes}
    (h : x ∈ treePairs first others) : x.length = 64 := by
  fun_induction treePairs first others with
  | case1 first => cases h
  | case2 first second rest ih =>
      rcases List.mem_append.1 h with h | h
      · obtain ⟨a, -, b, -, rfl⟩ := mem_levelPairs h
        exact Digest.length_pairBytes a b
      · exact ih h

/-- All that is hashed for a root is two digests long. -/
theorem length_of_mem_rootPairs {leaves : List Digest} {x : Bytes} (h : x ∈ rootPairs leaves) :
    x.length = 64 := by
  cases leaves with
  | nil => cases h
  | cons first others => exact length_of_mem_treePairs h

/-- A tree over more than one leaf is one level higher than the tree above its leaves. -/
theorem height_eq_succ {count : Nat} (h : 2 ≤ count) :
    height count = height ((count + 1) / 2) + 1 := by
  unfold height
  rw [if_neg (by omega)]
  by_cases h2 : count = 2
  · subst h2
    decide
  · rw [if_neg (by omega), Nat.log2_def, if_pos (by omega),
      show (count + 1) / 2 - 1 = (count - 1) / 2 by omega]

/-- Pairing two leaves lowers the tree by one level. -/
theorem height_cons_cons (second : Digest) (rest : List Digest) :
    height ((second :: rest).length + 1) = height ((nextLevel rest).length + 1) + 1 := by
  rw [height_eq_succ (by rw [List.length_cons]; omega), length_nextLevel, List.length_cons,
    show (rest.length + 1 + 1 + 1) / 2 = (rest.length + 1) / 2 + 1 by omega]

-- =================================================================== descent

/-- A branch as long as the tree is high that leads to the root starts at a leaf, or one of
its pairs collides with a pair of the tree. -/
theorem mem_or_collidesWith_of_fold_eq {first x : Digest} {others ns : List Digest}
    {index : Nat} (hlen : ns.length = height (others.length + 1))
    (h : fold x ns index = rootOf first others) :
    x ∈ first :: others ∨ CollidesWith (foldPairs x ns index) (treePairs first others) := by
  fun_induction rootOf first others generalizing x ns index with
  | case1 first =>
      obtain rfl := List.length_eq_zero_iff.1 hlen
      exact Or.inl (List.mem_singleton.2 h)
  | case2 first second rest ih =>
      rw [height_cons_cons] at hlen
      match ns, hlen with
      | n :: ns, hlen =>
          rw [fold_cons] at h
          rw [foldPairs, treePairs]
          rcases ih (Nat.succ.inj hlen) h with hmem | hc
          · exact mem_of_side_mem_nextLevel List.mem_cons_self (List.subset_append_left ..) hmem
          · exact Or.inr (hc.mono (List.subset_cons_self ..) (List.subset_append_right ..))

/-- A branch as long as the tree is high that leads to the root starts at a leaf, or there
is a collision. -/
theorem mem_of_fold_eq_rootOf {hashed : List Bytes} {first x : Digest} {others ns : List Digest}
    {index : Nat} (hlen : ns.length = height (others.length + 1))
    (hbranch : foldPairs x ns index ⊆ hashed) (htree : treePairs first others ⊆ hashed)
    (h : fold x ns index = rootOf first others) : x ∈ first :: others ∨ Collides hashed :=
  (mem_or_collidesWith_of_fold_eq hlen h).imp_right (·.collides hbranch htree)

/-- A shorter branch that leads to the root starts at a node that is the digest of a pair,
or there is a collision. -/
theorem exists_pair_of_fold_eq_rootOf {hashed : List Bytes} {first x : Digest}
    {others ns : List Digest} {index : Nat} (hlen : ns.length < height (others.length + 1))
    (hbranch : foldPairs x ns index ⊆ hashed) (htree : treePairs first others ⊆ hashed)
    (h : fold x ns index = rootOf first others) :
    (∃ y ∈ treePairs first others, Digest.ofBytes y = x) ∨ Collides hashed := by
  fun_induction rootOf first others generalizing x ns index with
  | case1 first => exact absurd hlen (Nat.not_lt_zero _)
  | case2 first second rest ih =>
      rw [height_cons_cons] at hlen
      rw [treePairs] at htree ⊢
      rcases Nat.lt_or_eq_of_le (Nat.le_of_lt_succ hlen) with hlt | heq
      · rcases ih hlt hbranch (List.append_subset.1 htree).2 h with ⟨y, hy, hyx⟩ | hc
        · exact Or.inl ⟨y, List.mem_append_right _ hy, hyx⟩
        · exact Or.inr hc
      · rcases mem_of_fold_eq_rootOf heq hbranch (List.append_subset.1 htree).2 h with hmem | hc
        · have hnext : x ∈ nextLevel (first :: second :: rest) := hmem
          obtain ⟨y, hy, hyx⟩ := exists_pair_of_mem_nextLevel hnext
          exact Or.inl ⟨y, List.mem_append_left _ hy, hyx⟩
        · exact Or.inr hc

-- =============================================================== any length

/-- Where a branch that leads to the root starts, whatever its length: at a leaf if it is as
long as the tree is high, at the digest of a pair if it is shorter. If it is longer it
passes a leaf that is the digest of a pair of its own. -/
theorem start_of_fold_eq_root {hashed : List Bytes} {leaves ns : List Digest} {x r : Digest}
    {index : Nat} (hroot : root leaves = .ok r) (hbranch : foldPairs x ns index ⊆ hashed)
    (htree : rootPairs leaves ⊆ hashed) (h : fold x ns index = r) :
    (ns.length < height leaves.length ∧ ∃ y ∈ rootPairs leaves, Digest.ofBytes y = x)
      ∨ (ns.length = height leaves.length ∧ x ∈ leaves)
      ∨ (∃ levels, ns.length = height leaves.length + levels
        ∧ ∃ y ∈ foldPairs x ns index, PairAbove x levels y ∧ Digest.ofBytes y ∈ leaves)
      ∨ Collides hashed := by
  cases leaves with
  | nil => cases hroot
  | cons first others =>
      cases hroot
      rcases Nat.lt_trichotomy ns.length (height (others.length + 1)) with hlt | heq | hgt
      · rcases exists_pair_of_fold_eq_rootOf hlt hbranch htree h with hpair | hc
        · exact Or.inl ⟨hlt, hpair⟩
        · exact Or.inr (Or.inr (Or.inr hc))
      · rcases mem_of_fold_eq_rootOf heq hbranch htree h with hmem | hc
        · exact Or.inr (Or.inl ⟨heq, hmem⟩)
        · exact Or.inr (Or.inr (Or.inr hc))
      · -- the top of the branch is as long as the tree is high
        let levels := ns.length - height (others.length + 1)
        have hlevels : (ns.take levels).length = levels := by
          rw [List.length_take]
          omega
        have hne : ns.take levels ≠ [] := by
          intro hnil
          rw [hnil, List.length_nil] at hlevels
          omega
        rw [← List.take_append_drop levels ns, foldPairs_append, List.append_subset] at hbranch
        rw [← List.take_append_drop levels ns, fold_append] at h
        have htop : (ns.drop levels).length = height (others.length + 1) := by
          rw [List.length_drop]
          omega
        rcases mem_of_fold_eq_rootOf htop hbranch.2 htree h with hmem | hc
        · obtain ⟨y, hy, habove, hdigest⟩ := exists_pairAbove x index hne
          rw [hlevels] at habove
          rw [← hdigest] at hmem
          refine Or.inr (Or.inr (Or.inl ⟨levels, ?_, y, ?_, habove, hmem⟩))
          · show ns.length = height (others.length + 1) + levels
            omega
          · rw [← List.take_append_drop levels ns, foldPairs_append]
            exact List.mem_append_left _ hy
        · exact Or.inr (Or.inr (Or.inr hc))

end MergedMining.Merkle
