/-
Folding a branch onto a hash, and what is hashed on the way.

Each neighbour is one pair: the running hash on the side that the index tells,
the neighbour on the other. With the sides fixed, a pair says what was folded
onto what, so two folds along one index that end in one digest began in one
digest, or two of their pairs collide.
-/
import MergedMining.Merkle.Branch
import MergedMining.Proofs.Collision

namespace MergedMining.Merkle

-- ============================================================== one level

/-- The pair that is hashed when a neighbour is folded onto a hash. -/
def sideBytes (running neighbour : Digest) (index : Nat) : Bytes :=
  if index % 2 = 1 then Digest.pairBytes neighbour running
  else Digest.pairBytes running neighbour

/-- A fold hashes with the first neighbour and goes on with half the index. -/
theorem fold_cons (running neighbour : Digest) (rest : List Digest) (index : Nat) :
    fold running (neighbour :: rest) index
      = fold (Digest.ofBytes (sideBytes running neighbour index)) rest (index / 2) := by
  unfold sideBytes
  rw [fold]
  split <;> rfl

/-- A pair says what was folded onto what, if the side is known. -/
theorem sideBytes_inj {x y n m : Digest} {index : Nat}
    (h : sideBytes x n index = sideBytes y m index) : x = y ∧ n = m := by
  unfold sideBytes at h
  split at h
  · exact (Digest.pairBytes_inj h).symm
  · exact Digest.pairBytes_inj h

/-- At an even index the neighbour stands to the right. -/
theorem sideBytes_of_even (running neighbour : Digest) {index : Nat} (h : index % 2 = 0) :
    sideBytes running neighbour index = Digest.pairBytes running neighbour := by
  rw [sideBytes, if_neg (by omega)]

/-- At an odd index the neighbour stands to the left. -/
theorem sideBytes_of_odd (running neighbour : Digest) {index : Nat} (h : index % 2 = 1) :
    sideBytes running neighbour index = Digest.pairBytes neighbour running := by
  rw [sideBytes, if_pos h]

/-- A running hash is one half of its pair. -/
theorem sideBytes_cases (running neighbour : Digest) (index : Nat) :
    sideBytes running neighbour index = Digest.pairBytes running neighbour
      ∨ sideBytes running neighbour index = Digest.pairBytes neighbour running := by
  unfold sideBytes
  split
  · exact Or.inr rfl
  · exact Or.inl rfl

-- ============================================================== all levels

/-- The pairs that are hashed when neighbours are folded onto a hash. -/
def foldPairs (running : Digest) : List Digest → (index : Nat) → List Bytes
  | [], _ => []
  | neighbour :: rest, index =>
      sideBytes running neighbour index
        :: foldPairs (Digest.ofBytes (sideBytes running neighbour index)) rest (index / 2)

/-- Folding goes on above where it stopped, with the index bits that are left. -/
theorem fold_append (running : Digest) (low high : List Digest) (index : Nat) :
    fold running (low ++ high) index
      = fold (fold running low index) high (index / 2 ^ low.length) := by
  induction low generalizing running index with
  | nil => rw [List.nil_append, List.length_nil, Nat.pow_zero, Nat.div_one, fold]
  | cons n low ih =>
      rw [List.cons_append, fold_cons, fold_cons, ih, Nat.div_div_eq_div_mul, List.length_cons,
        Nat.pow_succ, Nat.mul_comm 2]

/-- The pairs along a path are those along its lower part and, from where this ends, its upper
part. -/
theorem foldPairs_append (running : Digest) (low high : List Digest) (index : Nat) :
    foldPairs running (low ++ high) index
      = foldPairs running low index
        ++ foldPairs (fold running low index) high (index / 2 ^ low.length) := by
  induction low generalizing running index with
  | nil =>
      rw [List.nil_append, List.length_nil, Nat.pow_zero, Nat.div_one, fold, foldPairs,
        List.nil_append]
  | cons n low ih =>
      rw [List.cons_append, foldPairs, foldPairs, fold_cons, ih, Nat.div_div_eq_div_mul,
        List.length_cons, Nat.pow_succ, Nat.mul_comm 2, List.cons_append]

/-- A pair that is hashed so many levels above a leaf, on the way up along a branch. -/
def PairAbove (leaf : Digest) (levels : Nat) (x : Bytes) : Prop :=
  ∃ neighbours index, neighbours.length = levels
    ∧ (foldPairs leaf neighbours index).getLast? = some x

/-- A branch that is not empty leads to the digest of its last pair. -/
theorem exists_pairAbove (leaf : Digest) {neighbours : List Digest} (index : Nat)
    (hne : neighbours ≠ []) :
    ∃ x ∈ foldPairs leaf neighbours index, PairAbove leaf neighbours.length x
      ∧ Digest.ofBytes x = fold leaf neighbours index := by
  have hlast : ∃ x, (foldPairs leaf neighbours index).getLast? = some x
      ∧ Digest.ofBytes x = fold leaf neighbours index := by
    rw [← List.dropLast_concat_getLast hne, foldPairs_append, fold_append, fold_cons]
    exact ⟨_, List.getLast?_concat, rfl⟩
  obtain ⟨x, hx, hdigest⟩ := hlast
  exact ⟨x, List.mem_of_getLast? hx, ⟨neighbours, index, rfl, hx⟩, hdigest⟩

/-- Two folds of one length along one index that end in one digest are one fold, or
a pair of the one collides with a pair of the other. -/
theorem eq_of_fold_eq {ns ms : List Digest} {x y : Digest} {index : Nat}
    (hlen : ns.length = ms.length) (h : fold x ns index = fold y ms index) :
    (x = y ∧ ns = ms) ∨ CollidesWith (foldPairs x ns index) (foldPairs y ms index) := by
  induction ns generalizing x y ms index with
  | nil =>
      obtain rfl := List.length_eq_zero_iff.1 hlen.symm
      exact Or.inl ⟨h, rfl⟩
  | cons n ns ih =>
      match ms, hlen with
      | m :: ms, hlen =>
          rw [fold_cons, fold_cons] at h
          rw [foldPairs, foldPairs]
          rcases ih (Nat.succ.inj hlen) h with ⟨htop, rfl⟩ | hc
          · refine (CollidesWith.eq_or List.mem_cons_self List.mem_cons_self htop).imp_left ?_
            intro heq
            obtain ⟨rfl, rfl⟩ := sideBytes_inj heq
            exact ⟨rfl, rfl⟩
          · exact Or.inr (hc.mono (List.subset_cons_self ..) (List.subset_cons_self ..))

/-- Two folds of one length along one index that end in one digest are one fold, or
two of their pairs collide. -/
theorem fold_inj {hashed : List Bytes} {ns ms : List Digest} {x y : Digest} {index : Nat}
    (hlen : ns.length = ms.length)
    (hx : foldPairs x ns index ⊆ hashed) (hy : foldPairs y ms index ⊆ hashed)
    (h : fold x ns index = fold y ms index) : (x = y ∧ ns = ms) ∨ Collides hashed :=
  (eq_of_fold_eq hlen h).imp_right (·.collides hx hy)

end MergedMining.Merkle
