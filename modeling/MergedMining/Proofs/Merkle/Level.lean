/-
The levels of a tree, one above the other.

The root and a branch are computed by halving the leaves until one node is left.
Seen from the side the same computation is a stack of levels, and each node has a
height and a position in its level. The node at position `p` has its children at
`2 * p` and `2 * p + 1` one level down, the second only where the level goes that
far. How far a level goes depends on the number of leaves alone.
-/
import Mathlib.Data.Nat.Bitwise
import MergedMining.Proofs.Merkle.Root
import MergedMining.Proofs.Sha256

namespace MergedMining.Merkle

-- =================================================================== width

/-- A position is inside its level if the first leaf below it is there. -/
theorem lt_width_iff {count height position : Nat} :
    position < width count height ↔ position * 2 ^ height < count := by
  have hpos : 0 < 2 ^ height := Nat.two_pow_pos height
  unfold width
  rw [Nat.lt_iff_add_one_le, Nat.le_div_iff_mul_le hpos, Nat.add_mul]
  omega

/-- Where there are leaves every level has a node. -/
theorem width_pos {count : Nat} (height : Nat) (h : 0 < count) : 0 < width count height := by
  rw [lt_width_iff, Nat.zero_mul]
  exact h

/-- A leaf stands below a node of every level. -/
theorem div_lt_width {count index : Nat} (height : Nat) (h : index < count) :
    index / 2 ^ height < width count height :=
  lt_width_iff.2 (Nat.lt_of_le_of_lt (Nat.div_mul_le_self ..) h)

@[simp] theorem width_zero (count : Nat) : width count 0 = count := by
  rw [width, Nat.pow_zero, Nat.add_sub_cancel, Nat.div_one]

/-- Each level is half as wide as the one below it, rounded up. -/
private theorem width_succ (count height : Nat) :
    width count (height + 1) = (width count height + 1) / 2 := by
  refine eq_of_forall_lt_iff fun position => ?_
  rw [lt_width_iff, Nat.pow_succ, Nat.mul_comm (2 ^ height), ← Nat.mul_assoc, ← lt_width_iff]
  omega

/-- The left child of a node is inside its level. -/
theorem two_mul_lt_width {count height position : Nat} (h : position < width count (height + 1)) :
    2 * position < width count height := by
  rw [width_succ] at h
  omega

/-- The height of a tree is the least at which one node is left. -/
theorem lt_height_iff {count k : Nat} : k < height count ↔ 1 < width count k := by
  rw [lt_width_iff, Nat.one_mul]
  unfold height
  split
  · have hpos : 0 < 2 ^ k := Nat.two_pow_pos k
    omega
  · rw [Nat.lt_succ_iff, Nat.le_log2 (by omega)]
    omega

/-- A tree has room for its leaves. -/
theorem le_two_pow_height (count : Nat) : count ≤ 2 ^ height count := by
  have htop := mt lt_height_iff.2 (Nat.lt_irrefl (height count))
  rwa [lt_width_iff, Nat.one_mul, Nat.not_lt] at htop

/-- Above every leaf stands the root. -/
theorem div_two_pow_height {count index : Nat} (h : index < count) :
    index / 2 ^ height count = 0 :=
  Nat.div_eq_of_lt (Nat.lt_of_lt_of_le h (le_two_pow_height count))

-- ================================================================== levels

/-- The nodes at this height, from left to right. -/
def level (leaves : List Digest) : (height : Nat) → List Digest
  | 0 => leaves
  | height + 1 => nextLevel (level leaves height)

/-- Levels may be counted from the one above the leaves. -/
private theorem level_nextLevel (leaves : List Digest) (height : Nat) :
    level (nextLevel leaves) height = level leaves (height + 1) := by
  induction height with
  | zero => rfl
  | succ height ih => exact congrArg nextLevel ih

/-- A level has as many nodes as its width says. -/
@[simp] theorem length_level (leaves : List Digest) (height : Nat) :
    (level leaves height).length = width leaves.length height := by
  induction height with
  | zero => rw [level, width_zero]
  | succ height ih => rw [level, length_nextLevel, ih, width_succ]

/-- The pair at a position is made of the children that stand below it, or of the first
alone. -/
theorem getElem?_levelPairs (level : List Digest) (position : Nat) :
    (levelPairs level)[position]?
      = level[2 * position]?.map fun a =>
          Digest.pairBytes a (level[2 * position + 1]?.getD a) := by
  fun_induction levelPairs level generalizing position with
  | case1 a b rest ih =>
      cases position with
      | zero => rfl
      | succ position =>
          rw [List.getElem?_cons_succ, ih, show 2 * (position + 1) = 2 * position + 1 + 1 by omega]
          rfl
  | case2 a =>
      cases position with
      | zero => rfl
      | succ position => rfl
  | case3 => rfl

/-- A node is the pair of its children, or its one child twice. -/
theorem getElem?_level_succ (leaves : List Digest) (height position : Nat) :
    (level leaves (height + 1))[position]?
      = (level leaves height)[2 * position]?.map fun a =>
          Digest.pair a ((level leaves height)[2 * position + 1]?.getD a) := by
  rw [level, nextLevel_eq_map, List.getElem?_map, getElem?_levelPairs, Option.map_map]
  rfl

-- ==================================================================== root

/-- The level at the tree's height is the root alone. -/
theorem level_height (first : Digest) (others : List Digest) :
    level (first :: others) (height (others.length + 1)) = [rootOf first others] := by
  fun_induction rootOf first others with
  | case1 first => rfl
  | case2 first second rest ih =>
      rw [height_cons_cons, ← level_nextLevel]
      exact ih

/-- The root is the node at the top. -/
theorem root_eq_ok_iff {leaves : List Digest} {r : Digest} :
    root leaves = .ok r ↔ (level leaves (height leaves.length))[0]? = some r := by
  cases leaves with
  | nil => exact ⟨fun h => (nomatch h), fun h => (nomatch h)⟩
  | cons first others =>
      rw [List.length_cons, level_height]
      exact ⟨fun h => by cases h; rfl, fun h => by cases h; rfl⟩

/-- The pairs of a level below the root are hashed for the root. -/
theorem levelPairs_subset_rootPairs {leaves : List Digest} {k : Nat}
    (h : k < height leaves.length) : levelPairs (level leaves k) ⊆ rootPairs leaves := by
  cases leaves with
  | nil => exact absurd h (Nat.not_lt_zero k)
  | cons first others =>
      rw [rootPairs]
      rw [List.length_cons] at h
      fun_induction treePairs first others generalizing k with
      | case1 first => exact absurd h (Nat.not_lt_zero k)
      | case2 first second rest ih =>
          cases k with
          | zero => exact List.subset_append_left ..
          | succ k =>
              rw [height_cons_cons] at h
              rw [← level_nextLevel]
              exact List.subset_append_of_subset_right _ (ih (Nat.lt_of_succ_lt_succ h))

-- ================================================================ branches

/-- A branch lists the neighbour on each level, of the node above the leaf. -/
theorem neighbours_eq (first : Digest) (others : List Digest) (index : Nat) :
    neighbours first others index
      = (List.range (height (others.length + 1))).map fun k =>
          neighbour (level (first :: others) k) (index / 2 ^ k) := by
  fun_induction neighbours first others index with
  | case1 first index => rfl
  | case2 first index second rest ih =>
      rw [height_cons_cons, List.range_succ_eq_map, List.map_cons, List.map_map, ih,
        Nat.pow_zero, Nat.div_one]
      refine congrArg _ (List.map_congr_left fun k _ => ?_)
      rw [Function.comp_apply, ← level_nextLevel, Nat.succ_eq_add_one, Nat.pow_succ',
        Nat.div_div_eq_div_mul]
      rfl

/-- The branch of a leaf is the neighbours of the nodes on its way up. -/
theorem branch_eq_ok {leaves : List Digest} {index : Nat} (h : index < leaves.length) :
    branch leaves index
      = .ok ⟨(List.range (height leaves.length)).map fun k =>
          neighbour (level leaves k) (index / 2 ^ k), UInt32.ofNat index⟩ := by
  cases leaves with
  | nil => exact absurd h (Nat.not_lt_zero index)
  | cons first others => rw [branch, if_pos h, neighbours_eq, List.length_cons]

/-- The neighbour of a left child is the right child, or the left one where there is no other. -/
theorem neighbour_even {level : List Digest} {position : Nat} {a b : Digest}
    (hleft : level[2 * position]? = some a) (hright : level[2 * position + 1]?.getD a = b) :
    neighbour level (2 * position) = b := by
  rw [neighbour, Nat.xor_one_of_even (even_two_mul position), hleft]
  subst hright
  cases level[2 * position + 1]? <;> rfl

/-- The neighbour of a right child is the left child. -/
theorem neighbour_odd {level : List Digest} {position : Nat} {a : Digest}
    (hleft : level[2 * position]? = some a) : neighbour level (2 * position + 1) = a := by
  rw [neighbour, Nat.xor_one_of_odd (odd_two_mul_add_one position), Nat.add_sub_cancel, hleft]
  rfl

-- ============================================================= three leaves

/-- Three leaves, of which the last is paired with itself. -/
def threeLeaves : List Digest := [Digest.ofNumber 1, Digest.ofNumber 2, Digest.ofNumber 3]

/-- The third of three leaves is paired with itself. -/
theorem root_threeLeaves :
    root threeLeaves
      = .ok (Digest.pair (Digest.pair (Digest.ofNumber 1) (Digest.ofNumber 2))
          (Digest.pair (Digest.ofNumber 3) (Digest.ofNumber 3))) := by
  rw [threeLeaves, root, rootOf, nextLevel, rootOf, nextLevel, rootOf]

/-- The two nodes above the three leaves differ. -/
theorem pair_ne_threeLeaves :
    Digest.pair (Digest.ofNumber 3) (Digest.ofNumber 3)
      ≠ Digest.pair (Digest.ofNumber 1) (Digest.ofNumber 2) := by
  rw [Digest.pair_eq_sliding, Digest.pair_eq_sliding]
  decide +kernel

end MergedMining.Merkle
