/-
Rows of two leaves in which no pair is made of one leaf twice.

A row begins as a single leaf, and the next one has in place of each leaf the leaf and then
the other one. So each pair of a row is made of both leaves. The level above is a row again,
of the two nodes that the two kinds of pairs make, and so it goes on up to the root. The tree
has no more than two nodes on each level, and it has no twins if they differ.

Whether they do is computed, since there are no more than two hashes on each level. That is
how a tree is known whose leaves are too many to be listed.
-/
import Mathlib.Data.Nat.Log
import MergedMining.Proofs.Merkle.Climbing
import MergedMining.Proofs.Sha256

namespace MergedMining.Merkle

-- =================================================================== rows

/-- Which of two leaves stands where, on the lowest level of a tree of this height. -/
def row : Nat → List Bool
  | 0 => [false]
  | height + 1 => (row height).flatMap fun side => [side, !side]

/-- What stands above two leaves: each is paired with the other, and stands in front once. -/
def above (node : Bool → Digest) (side : Bool) : Digest := Digest.pair (node side) (node !side)

/-- A row of this height has 2 ^ height sides. -/
@[simp] theorem length_row (height : Nat) : (row height).length = 2 ^ height := by
  induction height with
  | zero => rfl
  | succ height ih =>
      rw [row, List.length_flatMap, Nat.pow_succ, ← ih]
      simp only [List.length_cons, List.length_nil, List.map_const', List.sum_replicate_nat]

/-- Every row begins with the one leaf. -/
theorem false_mem_row (height : Nat) : false ∈ row height := by
  induction height with
  | zero => exact List.mem_singleton.2 rfl
  | succ height ih => exact List.mem_flatMap.2 ⟨false, ih, List.mem_cons_self⟩

/-- The first of a pair is the leaf that it took the place of. -/
private theorem getElem?_flatMap_even (sides : List Bool) (position : Nat) :
    (sides.flatMap fun side => [side, !side])[2 * position]? = sides[position]? := by
  induction sides generalizing position with
  | nil => rfl
  | cons side sides ih =>
      cases position with
      | zero => rfl
      | succ position => exact ih position

/-- The second of a pair is the other one. -/
private theorem getElem?_flatMap_odd (sides : List Bool) (position : Nat) :
    (sides.flatMap fun side => [side, !side])[2 * position + 1]? = sides[position]?.map (!·) := by
  induction sides generalizing position with
  | nil => rfl
  | cons side sides ih =>
      cases position with
      | zero => rfl
      | succ position => exact ih position

/-- Above pairs of opposite sides the level is again one node for each side. -/
private theorem nextLevel_flatMap (node : Bool → Digest) (sides : List Bool) :
    nextLevel ((sides.flatMap fun side => [side, !side]).map node) = sides.map (above node) := by
  induction sides with
  | nil => rfl
  | cons side sides ih => exact congrArg (above node side :: ·) ih

/-- All levels of the tree over a row are rows. -/
theorem level_row (leaf : Bool → Digest) (height k : Nat) :
    level ((row (height + k)).map leaf) k = (row height).map (above^[k] leaf) := by
  induction k generalizing height with
  | zero => rfl
  | succ k ih =>
      rw [level, show height + (k + 1) = height + 1 + k by omega, ih, row, nextLevel_flatMap,
        Function.iterate_succ_apply']

/-- Doubling so many times from one leaf comes to a tree of that height. -/
theorem height_two_pow (k : Nat) : height (2 ^ k) = k := by
  rw [height_eq_clog, Nat.clog_pow 2 k Nat.one_lt_two]

/-- The root of the tree over a row. -/
theorem root_row (leaf : Bool → Digest) (height : Nat) :
    root ((row height).map leaf) = .ok (above^[height] leaf false) := by
  have htop := level_row leaf 0 height
  rw [Nat.zero_add] at htop
  rw [root_eq_ok_iff, List.length_map, length_row, height_two_pow, htop]
  rfl

/-- The tree over a row has no twins if both nodes differ on each level below the root. -/
theorem not_twins_row {leaf : Bool → Digest} {count : Nat}
    (apart : ∀ k < count, above^[k] leaf false ≠ above^[k] leaf true) (height position : Nat) :
    ¬Twins ((row count).map leaf) height position := by
  intro h
  have hheight : height < count := by
    have hlow := h.lt_height
    rwa [List.length_map, length_row, height_two_pow] at hlow
  obtain ⟨left, rfl⟩ := Nat.exists_eq_add_of_lt hheight
  obtain ⟨child, hleft, hright⟩ := h
  rw [show height + left + 1 = left + 1 + height by omega, level_row, row, List.getElem?_map]
    at hleft hright
  rw [getElem?_flatMap_even] at hleft
  rw [getElem?_flatMap_odd] at hright
  cases hside : (row left)[position]? with
  | none => rw [hside] at hleft; cases hleft
  | some side =>
      rw [hside] at hleft hright
      have hsame : above^[height] leaf side = above^[height] leaf !side :=
        (Option.some.inj hleft).trans (Option.some.inj hright).symm
      cases side with
      | false => exact apart height hheight hsame
      | true => exact apart height hheight hsame.symm

-- ============================================================== evaluation

/-- The leaf on each side. -/
def sides (first second : Digest) (side : Bool) : Digest := if side then second else first

private theorem above_sides (first second : Digest) :
    above (sides first second) = sides (Digest.pair first second) (Digest.pair second first) := by
  funext side
  cases side <;> rfl

/-- Whether two digests differ, and what stands above them, on so many levels. -/
def apart : (levels : Nat) → Digest → Digest → Bool
  | 0, _, _ => true
  | levels + 1, a, b => a ≠ b && apart levels (Digest.slidingPair a b) (Digest.slidingPair b a)

/-- If the check finds the two sides apart on all levels, they are apart on each. -/
theorem ne_of_apart {levels : Nat} {a b : Digest} (h : apart levels a b = true) {k : Nat}
    (hk : k < levels) : above^[k] (sides a b) false ≠ above^[k] (sides a b) true := by
  induction levels generalizing a b k with
  | zero => exact absurd hk (Nat.not_lt_zero k)
  | succ levels ih =>
      rw [apart, Bool.and_eq_true, decide_eq_true_iff] at h
      obtain ⟨hne, habove⟩ := h
      cases k with
      | zero => exact hne
      | succ k =>
          have hnodes := ih habove (Nat.lt_of_succ_lt_succ hk)
          simp only [← Digest.pair_eq_sliding] at hnodes
          rwa [Function.iterate_succ_apply, above_sides]

end MergedMining.Merkle
