/-
At which indexes a branch verifies.

The index tells on which side of its neighbour the running hash stands on each level.
Two folds of the same neighbours that end in one digest hash one pair on every level, or
two of their pairs collide. A pair has a left half and a right half, so it tells the side
as well, unless its halves are the same. They are the same where a node is paired with
itself, as the last node of an odd level is: there the other side does as well.

So the branch verifies at one index only, if no level pairs the running hash with itself,
and otherwise at one index for each choice of sides on the levels that do.
-/
import MergedMining.Proofs.Merkle.Verifying

namespace MergedMining.Merkle

-- ================================================================= one level

/-- A pair says what was folded onto it and on which side, unless its halves are the same. -/
theorem side_of_sideBytes_eq {x y neighbour : Digest} {i j : Nat}
    (h : sideBytes x neighbour i = sideBytes y neighbour j) :
    x = y ∧ (i % 2 = j % 2 ∨ neighbour = x) := by
  unfold sideBytes at h
  by_cases hi : i % 2 = 1
  · by_cases hj : j % 2 = 1
    · rw [if_pos hi, if_pos hj] at h
      exact ⟨(Digest.pairBytes_inj h).2, Or.inl (hi.trans hj.symm)⟩
    · rw [if_pos hi, if_neg hj] at h
      obtain ⟨hleft, hright⟩ := Digest.pairBytes_inj h
      exact ⟨hright.trans hleft, Or.inr hright.symm⟩
  · by_cases hj : j % 2 = 1
    · rw [if_neg hi, if_pos hj] at h
      obtain ⟨hleft, hright⟩ := Digest.pairBytes_inj h
      exact ⟨hleft.trans hright, Or.inr hleft.symm⟩
    · rw [if_neg hi, if_neg hj] at h
      refine ⟨(Digest.pairBytes_inj h).1, Or.inl ?_⟩
      omega

/-- A hash that is paired with itself makes one pair on either side. -/
theorem sideBytes_self (x : Digest) (i j : Nat) : sideBytes x x i = sideBytes x x j := by
  simp [sideBytes]

private theorem sideBytes_congr (x neighbour : Digest) {i j : Nat} (h : i % 2 = j % 2) :
    sideBytes x neighbour i = sideBytes x neighbour j := by
  unfold sideBytes
  rw [h]

-- ================================================================ all levels

/-- On this level the running hash is its own neighbour. -/
def MeetsItself (leaf : Digest) (neighbours : List Digest) (index level : Nat) : Prop :=
  neighbours[level]? = some (fold leaf (neighbours.take level) index)

/-- Two indexes put the running hash on one side of every level on which that matters. -/
def SameSides (leaf : Digest) (neighbours : List Digest) (i j : Nat) : Prop :=
  ∀ level, i.testBit level = j.testBit level ∨ MeetsItself leaf neighbours i level

section Levels

variable {leaf x y n : Digest} {ns : List Digest} {i j : Nat}

private theorem meetsItself_zero : MeetsItself x (n :: ns) i 0 ↔ n = x := by
  simp [MeetsItself, fold]

/-- Further up it is the path from the next node that meets itself. -/
private theorem meetsItself_succ (level : Nat) :
    MeetsItself x (n :: ns) i (level + 1)
      ↔ MeetsItself (Digest.ofBytes (sideBytes x n i)) ns (i / 2) level := by
  unfold MeetsItself
  rw [List.getElem?_cons_succ, List.take_succ_cons, fold_cons]

/-- Indexes that agree on all sides agree on the lowest one and on those above it. -/
theorem sameSides_cons :
    SameSides x (n :: ns) i j
      ↔ (i % 2 = j % 2 ∨ n = x)
        ∧ SameSides (Digest.ofBytes (sideBytes x n i)) ns (i / 2) (j / 2) := by
  have hlow : i.testBit 0 = j.testBit 0 ↔ i % 2 = j % 2 := by
    rw [Nat.testBit_zero, Nat.testBit_zero, decide_eq_decide]
    omega
  constructor
  · intro h
    constructor
    · have hzero := h 0
      rwa [hlow, meetsItself_zero] at hzero
    · intro level
      have hsucc := h (level + 1)
      rwa [Nat.testBit_succ, Nat.testBit_succ, meetsItself_succ] at hsucc
  · rintro ⟨hzero, hsucc⟩ level
    cases level with
    | zero => rwa [hlow, meetsItself_zero]
    | succ level =>
        rw [Nat.testBit_succ, Nat.testBit_succ, meetsItself_succ]
        exact hsucc level

/-- Above the branch there is no level on which a side would not matter. -/
theorem sameSides_nil : SameSides x [] i j ↔ i = j := by
  constructor
  · intro h
    refine Nat.eq_of_testBit_eq fun level => ?_
    exact (h level).resolve_right fun hmeets => nomatch hmeets
  · rintro rfl level
    exact Or.inl rfl

/-- Sides that agree where they matter lead to one digest. -/
theorem fold_eq_of_sameSides (h : SameSides leaf ns i j) : fold leaf ns i = fold leaf ns j := by
  induction ns generalizing leaf i j with
  | nil => rfl
  | cons n ns ih =>
      obtain ⟨hlow, hhigh⟩ := sameSides_cons.1 h
      have hside : sideBytes leaf n i = sideBytes leaf n j := by
        rcases hlow with hlow | rfl
        · exact sideBytes_congr leaf n hlow
        · exact sideBytes_self n i j
      rw [fold_cons, fold_cons, ih hhigh, hside]

/-- Two folds of the same neighbours that end in one digest start at one hash, and their
sides agree where they matter as far as the branch goes, or two of their pairs collide. -/
theorem sameSides_of_fold_eq (hi : i < 2 ^ ns.length) (hj : j < 2 ^ ns.length)
    (h : fold x ns i = fold y ns j) :
    (x = y ∧ SameSides x ns i j) ∨ CollidesWith (foldPairs x ns i) (foldPairs y ns j) := by
  induction ns generalizing x y i j with
  | nil =>
      rw [List.length_nil, Nat.pow_zero] at hi hj
      exact Or.inl ⟨h, sameSides_nil.2 (by omega)⟩
  | cons n ns ih =>
      rw [List.length_cons, Nat.pow_succ] at hi hj
      rw [fold_cons, fold_cons] at h
      rw [foldPairs, foldPairs]
      rcases ih (by omega) (by omega) h with ⟨htop, hhigh⟩ | hc
      · rcases CollidesWith.eq_or List.mem_cons_self List.mem_cons_self htop with hsame | hc
        · obtain ⟨rfl, hlow⟩ := side_of_sideBytes_eq hsame
          exact Or.inl ⟨rfl, sameSides_cons.2 ⟨hlow, hhigh⟩⟩
        · exact Or.inr hc
      · exact Or.inr (hc.mono (List.subset_cons_self ..) (List.subset_cons_self ..))

/-- Indexes that agree where it matters are both within the branch's height or neither is. -/
theorem SameSides.lt_two_pow (h : SameSides leaf ns i j) (hi : i < 2 ^ ns.length) :
    j < 2 ^ ns.length := by
  refine Nat.lt_pow_two_of_testBit j fun level hlevel => ?_
  have hmeets : ¬MeetsItself leaf ns i level := by
    unfold MeetsItself
    rw [List.getElem?_eq_none hlevel]
    exact fun hsome => nomatch hsome
  rw [← (h level).resolve_right hmeets]
  apply Nat.testBit_lt_two_pow
  exact Nat.lt_of_lt_of_le hi (Nat.pow_le_pow_right (by decide) hlevel)

end Levels

-- ================================================================== branches

/-- A branch verifies if its index fits its depth and its fold is the root. -/
private theorem Branch.verify_eq_true_iff {b : Branch} {leaf r : Digest} :
    b.verify leaf r = true
      ↔ b.index.toNat < 2 ^ b.hashes.length ∧ fold leaf b.hashes b.index.toNat = r := by
  rw [verify, Bool.and_eq_true, decide_eq_true_iff, decide_eq_true_iff]
  rfl

/-- A branch that verifies at one index verifies at those that put the running hash on the same
side wherever it is not its own neighbour. So it verifies at no other, if no level pairs the
running hash with itself. Otherwise two different pairs that are hashed along the branch, at
the one index and at the other, have one digest. -/
theorem Branch.verify_iff_sameSides {neighbours : List Digest} {leaf r : Digest} {i : UInt32}
    (hi : (⟨neighbours, i⟩ : Branch).verify leaf r = true) (j : UInt32) :
    (((⟨neighbours, j⟩ : Branch).verify leaf r = true
          ↔ SameSides leaf neighbours i.toNat j.toNat)
        ∧ ((⟨neighbours, j⟩ : Branch).verify leaf r = true →
          i = j ∨ ∃ level < neighbours.length, MeetsItself leaf neighbours i.toNat level))
      ∨ CollidesWith (foldPairs leaf neighbours i.toNat) (foldPairs leaf neighbours j.toNat) := by
  obtain ⟨hlow, hfold⟩ := verify_eq_true_iff.1 hi
  by_cases hc : CollidesWith (foldPairs leaf neighbours i.toNat) (foldPairs leaf neighbours j.toNat)
  · exact Or.inr hc
  · have hsides (hj : (⟨neighbours, j⟩ : Branch).verify leaf r = true) :
        SameSides leaf neighbours i.toNat j.toNat := by
      obtain ⟨hlow', hfold'⟩ := verify_eq_true_iff.1 hj
      rcases sameSides_of_fold_eq hlow hlow' (hfold.trans hfold'.symm) with ⟨-, hsides⟩ | hc'
      · exact hsides
      · exact absurd hc' hc
    refine Or.inl ⟨⟨hsides, fun h => ?_⟩, fun hj => ?_⟩
    · exact verify_eq_true_iff.2 ⟨h.lt_two_pow hlow, (fold_eq_of_sameSides h).symm.trans hfold⟩
    · by_cases hmeets : ∃ level, MeetsItself leaf neighbours i.toNat level
      · obtain ⟨level, hlevel⟩ := hmeets
        exact Or.inr ⟨level, (List.getElem?_eq_some_iff.1 hlevel).1, hlevel⟩
      · refine Or.inl (UInt32.toNat_inj.1 (Nat.eq_of_testBit_eq fun level => ?_))
        exact (hsides hj level).resolve_right fun hlevel => hmeets ⟨level, hlevel⟩

-- ============================================================= three leaves

/-- The root over three leaves. -/
def rootOfThree : Digest :=
  Digest.pair (Digest.pair (Digest.ofNumber 1) (Digest.ofNumber 2))
    (Digest.pair (Digest.ofNumber 3) (Digest.ofNumber 3))

private theorem verify_lastBranch : lastBranch.verify (Digest.ofNumber 3) rootOfThree = true :=
  Branch.verify_eq_true_iff.2 ⟨by decide, by simp [lastBranch, fold, rootOfThree]⟩

private theorem verify_edgeBranch : edgeBranch.verify (Digest.ofNumber 3) rootOfThree = true :=
  Branch.verify_eq_true_iff.2 ⟨by decide, by simp [edgeBranch, lastBranch, fold, rootOfThree]⟩

/-- The branch of the last of three leaves, at the index of the leaf and at the one behind it. -/
theorem Branch.verify_iff_sameSides_threeLeaves :
    lastBranch.verify (Digest.ofNumber 3) rootOfThree = true
      ∧ (((edgeBranch.verify (Digest.ofNumber 3) rootOfThree = true
            ↔ SameSides (Digest.ofNumber 3) lastBranch.hashes 2 3)
          ∧ (edgeBranch.verify (Digest.ofNumber 3) rootOfThree = true →
            (2 : UInt32) = 3 ∨ ∃ level < lastBranch.hashes.length,
              MeetsItself (Digest.ofNumber 3) lastBranch.hashes 2 level))
        ∨ CollidesWith (foldPairs (Digest.ofNumber 3) lastBranch.hashes 2)
          (foldPairs (Digest.ofNumber 3) lastBranch.hashes 3)) :=
  ⟨verify_lastBranch, Branch.verify_iff_sameSides verify_lastBranch 3⟩

/-- The last of three leaves is paired with itself, so its branch verifies behind the last leaf
as well, and no two pairs collide. -/
theorem Branch.index_not_unique :
    ¬∀ (neighbours : List Digest) (leaf r : Digest) (i j : UInt32), neighbours.length ≤ 32 →
      (⟨neighbours, i⟩ : Branch).verify leaf r = true →
      (⟨neighbours, j⟩ : Branch).verify leaf r = true →
      i = j
        ∨ Collides (foldPairs leaf neighbours i.toNat ++ foldPairs leaf neighbours j.toNat) := by
  intro h
  have hpairs (index : Nat) (hindex : index = 2 ∨ index = 3) :
      foldPairs (Digest.ofNumber 3) lastBranch.hashes index
        = [Digest.pairBytes (Digest.ofNumber 3) (Digest.ofNumber 3),
            Digest.pairBytes (Digest.pair (Digest.ofNumber 1) (Digest.ofNumber 2))
              (Digest.pair (Digest.ofNumber 3) (Digest.ofNumber 3))] := by
    rcases hindex with rfl | rfl <;> simp [lastBranch, foldPairs, sideBytes, Digest.pair_eq]
  have htop : Digest.pair (Digest.ofNumber 3) (Digest.ofNumber 3) ≠ rootOfThree := by
    simp only [rootOfThree, Digest.pair_eq_sliding]
    decide +kernel
  rcases h lastBranch.hashes _ _ 2 3 (by decide) verify_lastBranch verify_edgeBranch with heq | hc
  · exact absurd heq (by decide)
  · obtain ⟨x, hx, y, hy, hne, hdigest⟩ := hc
    rw [hpairs (UInt32.toNat 2) (Or.inl rfl), hpairs (UInt32.toNat 3) (Or.inr rfl)] at hx hy
    simp only [List.mem_append, or_self, List.mem_cons, List.not_mem_nil, or_false] at hx hy
    rcases hx with rfl | rfl
    · rcases hy with rfl | rfl
      · exact hne rfl
      · exact htop hdigest
    · rcases hy with rfl | rfl
      · exact htop hdigest.symm
      · exact hne rfl

end MergedMining.Merkle
