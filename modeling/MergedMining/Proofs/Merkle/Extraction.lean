/-
What a walk over a partial proof rebuilds, and the branches read off it.

Whatever flags and hashes a proof has, a walk that ends well ends in a tree of
one shape: leaves of interest stand at the bottom, and every node above them
carries the digest of its children's pair. How high the tree is follows from the
count that the proof claims and from nothing else. A branch for a leaf of interest
is the way from the leaf to the top, so it is as long as the tree is high, it leads
to the top, and what is hashed along it was hashed in the walk.
-/
import MergedMining.Merkle.Partial
import MergedMining.Proofs.Merkle.Fold
import MergedMining.Proofs.Outcome

namespace MergedMining.Merkle

-- =================================================================== shape

/-- A tree over no more than `2 ^ k` leaves is at most `k` high. -/
theorem height_le {count k : Nat} (h : count ≤ 2 ^ k) : height count ≤ k := by
  unfold height
  split
  · exact Nat.zero_le k
  · exact (Nat.log2_lt (by omega)).2 (by omega)

namespace Tree

/-- The shape of what is rebuilt at a height and position of the tree over `count` leaves. -/
inductive Fits (count : Nat) : (height position : Nat) → Tree → Prop where
  | cut (height position : Nat) (hash : Digest) : Fits count height position (.cut hash)
  | leaf (position : Nat) (hash : Digest) : Fits count 0 position (.leaf hash)
  | fork {height position : Nat} {left right : Tree}
      (fitsLeft : Fits count height (2 * position) left)
      (inside : 2 * position + 1 < width count height)
      (fitsRight : Fits count height (2 * position + 1) right)
      (different : right.hash ≠ left.hash) :
      Fits count (height + 1) position (.fork (Digest.pair left.hash right.hash) left right)
  | single {height position : Nat} {child : Tree}
      (fits : Fits count height (2 * position) child)
      (last : ¬2 * position + 1 < width count height) :
      Fits count (height + 1) position (.single (Digest.pair child.hash child.hash) child)

/-- The pairs that are hashed for the nodes of a tree. -/
def pairs : Tree → List Bytes
  | .cut _ => []
  | .leaf _ => []
  | .fork _ left right => Digest.pairBytes left.hash right.hash :: (left.pairs ++ right.pairs)
  | .single _ child => Digest.pairBytes child.hash child.hash :: child.pairs

end Tree

-- ==================================================================== walk

namespace Walk

variable {α β : Type} {supply left : Supply}

/-- A walk that goes on ends well if what it goes on with does. -/
theorem bind_eq_ok {first : Walk α} {next : α → Walk β} {b : β} :
    (first >>= next) supply = .ok (b, left)
      ↔ ∃ a between, first supply = .ok (a, between) ∧ next a between = .ok (b, left) := by
  constructor
  · intro h
    obtain ⟨⟨a, between⟩, hfirst, hnext⟩ := Outcome.bind_eq_ok.1 h
    exact ⟨a, between, hfirst, hnext⟩
  · intro h
    obtain ⟨a, between, hfirst, hnext⟩ := h
    exact Outcome.bind_eq_ok.2 ⟨⟨a, between⟩, hfirst, hnext⟩

section Steps

variable {count height position : Nat} {bits : List Bool} {hashes : List Digest} {tree : Tree}

/-- A zero bit and a hash make a subtree that is cut off. -/
theorem node_cut (hash : Digest) :
    node count height position ⟨false :: bits, hash :: hashes⟩
      = .ok (.cut hash, ⟨bits, hashes⟩) := by
  cases height <;> rfl

theorem node_leaf (hash : Digest) :
    node count 0 position ⟨true :: bits, hash :: hashes⟩ = .ok (.leaf hash, ⟨bits, hashes⟩) := rfl

/-- When a walk passes a node whose only child is paired with itself. -/
theorem node_eq_ok_of_last (last : ¬2 * position + 1 < width count height) :
    node count (height + 1) position ⟨true :: bits, hashes⟩ = .ok (tree, left)
      ↔ ∃ child, node count height (2 * position) ⟨bits, hashes⟩ = .ok (child, left)
        ∧ tree = .single (Digest.pair child.hash child.hash) child := by
  constructor
  · intro h
    obtain ⟨on, afterBit, hbit, h⟩ := bind_eq_ok.1 h
    cases hbit
    obtain ⟨child, afterChild, hchild, h⟩ := bind_eq_ok.1 h
    rw [if_neg last] at h
    cases h
    exact ⟨child, hchild, rfl⟩
  · intro h
    obtain ⟨child, hchild, rfl⟩ := h
    refine bind_eq_ok.2 ⟨true, ⟨bits, hashes⟩, rfl, bind_eq_ok.2 ⟨child, left, hchild, ?_⟩⟩
    rw [if_neg last]
    rfl

/-- When a walk passes a node that has two children. -/
theorem node_eq_ok_of_inside (inside : 2 * position + 1 < width count height) :
    node count (height + 1) position ⟨true :: bits, hashes⟩ = .ok (tree, left)
      ↔ ∃ a between b, node count height (2 * position) ⟨bits, hashes⟩ = .ok (a, between)
        ∧ node count height (2 * position + 1) between = .ok (b, left)
        ∧ b.hash ≠ a.hash ∧ tree = .fork (Digest.pair a.hash b.hash) a b := by
  constructor
  · intro h
    obtain ⟨on, afterBit, hbit, h⟩ := bind_eq_ok.1 h
    cases hbit
    obtain ⟨a, between, ha, h⟩ := bind_eq_ok.1 h
    rw [if_pos inside] at h
    obtain ⟨b, afterRight, hb, h⟩ := bind_eq_ok.1 h
    split at h
    · cases h
    · next different =>
        cases h
        exact ⟨a, between, b, ha, hb, different, rfl⟩
  · intro h
    obtain ⟨a, between, b, ha, hb, different, rfl⟩ := h
    refine bind_eq_ok.2 ⟨true, ⟨bits, hashes⟩, rfl, bind_eq_ok.2 ⟨a, between, ha, ?_⟩⟩
    rw [if_pos inside]
    refine bind_eq_ok.2 ⟨b, left, hb, ?_⟩
    rw [if_neg different]
    rfl

end Steps

/-- A walk that ends well ends in a tree of the shape that the count gives. -/
theorem fits_of_node_eq_ok {count height position : Nat} {tree : Tree}
    (h : node count height position supply = .ok (tree, left)) :
    tree.Fits count height position := by
  induction height generalizing position supply tree left with
  | zero =>
      match supply, h with
      | ⟨false :: bits, hash :: hashes⟩, h =>
          cases h
          exact .cut 0 position hash
      | ⟨true :: bits, hash :: hashes⟩, h =>
          cases h
          exact .leaf position hash
  | succ height ih =>
      match supply, h with
      | ⟨false :: bits, hash :: hashes⟩, h =>
          cases h
          exact .cut (height + 1) position hash
      | ⟨true :: bits, hashes⟩, h =>
          by_cases inside : 2 * position + 1 < width count height
          · obtain ⟨a, between, b, ha, hb, different, rfl⟩ := (node_eq_ok_of_inside inside).1 h
            exact .fork (ih ha) inside (ih hb) different
          · obtain ⟨child, hchild, rfl⟩ := (node_eq_ok_of_last inside).1 h
            exact .single (ih hchild) inside

end Walk

/-- When a proof can be extracted, and what it is then. -/
theorem PartialProof.extract_eq_ok_iff {p : PartialProof} {e : Extracted} :
    p.extract = .ok e
      ↔ p.transactions.toNat ≠ 0 ∧ p.hashes.length ≤ p.transactions.toNat
        ∧ p.hashes.length ≤ p.flags.length * 8
        ∧ ∃ tree bits, Walk.node p.transactions.toNat (Merkle.height p.transactions.toNat) 0
            ⟨unpackBits p.flags, p.hashes⟩ = .ok (tree, ⟨bits, []⟩)
          ∧ bits.length < 8 ∧ e = ⟨p.transactions, tree⟩ := by
  simp only [extract, Outcome.mapError_eq_ok, Outcome.throw_eq, Outcome.error_bind,
    Outcome.ite_error_eq_ok, Outcome.bind_eq_ok, Outcome.ite_eq_ok, Outcome.pure_eq_ok,
    List.isEmpty_iff, Nat.not_lt, Nat.not_le]
  constructor
  · intro h
    obtain ⟨hpos, hhashes, hflags, ⟨tree, bits, hashes⟩, hwalk, h⟩ := h
    obtain ⟨rfl, hbits, rfl⟩ := h
    exact ⟨hpos, hhashes, hflags, tree, bits, hwalk, hbits, rfl⟩
  · intro h
    obtain ⟨hpos, hhashes, hflags, tree, bits, hwalk, hbits, rfl⟩ := h
    exact ⟨hpos, hhashes, hflags, (tree, ⟨bits, []⟩), hwalk, rfl, hbits, rfl⟩

/-- What an extracted proof is. -/
theorem PartialProof.extract_eq_ok {p : PartialProof} {e : Extracted} (h : p.extract = .ok e) :
    e.transactions = p.transactions
      ∧ e.tree.Fits p.transactions.toNat (Merkle.height p.transactions.toNat) 0 := by
  obtain ⟨-, -, -, tree, bits, hwalk, -, rfl⟩ := extract_eq_ok_iff.1 h
  exact ⟨rfl, Walk.fits_of_node_eq_ok hwalk⟩

-- ================================================================ branches

namespace Tree

variable {count height position index : Nat} {tree : Tree} {leaf : Digest}

/-- A branch goes on from the node it led to to the node's parent. -/
theorem fold_concat {neighbours : List Digest} {node other : Digest} {top : Bytes}
    {hashed : List Bytes} (hlen : neighbours.length = height)
    (hfold : fold leaf neighbours index = node)
    (hside : sideBytes node other (index / 2 ^ height) = top)
    (hpairs : foldPairs leaf neighbours index ⊆ hashed) :
    (neighbours ++ [other]).length = height + 1
      ∧ fold leaf (neighbours ++ [other]) index = Digest.ofBytes top
      ∧ foldPairs leaf (neighbours ++ [other]) index ⊆ top :: hashed := by
  subst hside
  rw [List.length_append, hlen, fold_append, foldPairs_append, hlen, hfold, fold_cons]
  refine ⟨rfl, rfl, List.append_subset.2 ⟨fun _ hx => List.mem_cons_of_mem _ (hpairs hx), ?_⟩⟩
  exact List.cons_subset.2 ⟨List.mem_cons_self, List.nil_subset _⟩

/-- A leaf of interest has a branch as long as the tree is high. It leads to the top, and
its pairs are pairs of the tree. -/
theorem Fits.neighbours (fits : tree.Fits count height position)
    (hmem : (index, leaf) ∈ tree.leaves position) :
    index / 2 ^ height = position
      ∧ ∃ neighbours, tree.neighbours? height index = some neighbours
        ∧ neighbours.length = height
        ∧ fold leaf neighbours index = tree.hash
        ∧ foldPairs leaf neighbours index ⊆ tree.pairs := by
  induction fits with
  | cut height position hash => cases hmem
  | leaf position hash =>
      obtain ⟨rfl, rfl⟩ := Prod.mk.inj (List.mem_singleton.1 hmem)
      exact ⟨Nat.div_one _, [], rfl, rfl, rfl, List.nil_subset _⟩
  | @fork height position left right fitsLeft inside fitsRight different ihLeft ihRight =>
      rw [Nat.pow_succ, ← Nat.div_div_eq_div_mul, neighbours?,
        Nat.testBit_eq_decide_div_mod_eq, pairs]
      -- the leaf is below the left child or the right one, and its branch gets the other
      rcases List.mem_append.1 hmem with hmem | hmem
      · obtain ⟨hposition, neighbours, hsome, hlen, hfold, hpairs⟩ := ihLeft hmem
        have hside := sideBytes_of_even left.hash right.hash
          (show index / 2 ^ height % 2 = 0 by omega)
        obtain ⟨hlen', htop, hall⟩ := fold_concat hlen hfold hside
          (fun _ hx => List.mem_append_left right.pairs (hpairs hx))
        rw [if_neg (by simp [hposition]), hsome]
        exact ⟨by omega, _, rfl, hlen', htop, hall⟩
      · obtain ⟨hposition, neighbours, hsome, hlen, hfold, hpairs⟩ := ihRight hmem
        have hside := sideBytes_of_odd right.hash left.hash
          (show index / 2 ^ height % 2 = 1 by omega)
        obtain ⟨hlen', htop, hall⟩ := fold_concat hlen hfold hside
          (fun _ hx => List.mem_append_right left.pairs (hpairs hx))
        rw [if_pos (by simp [hposition]), hsome]
        exact ⟨by omega, _, rfl, hlen', htop, hall⟩
  | @single height position child fits last ih =>
      obtain ⟨hposition, neighbours, hsome, hlen, hfold, hpairs⟩ := ih hmem
      have hside := sideBytes_of_even child.hash child.hash
        (show index / 2 ^ height % 2 = 0 by omega)
      obtain ⟨hlen', htop, hall⟩ := fold_concat hlen hfold hside hpairs
      rw [Nat.pow_succ, ← Nat.div_div_eq_div_mul, neighbours?, hsome]
      exact ⟨by omega, _, rfl, hlen', htop, hall⟩

end Tree

/-- A branch from an extracted proof is as long as the claimed count makes the tree high. It
leads from the leaf to the root, and its pairs were hashed in the walk. -/
theorem PartialProof.branchFor_eq_some {p : PartialProof} {e : Extracted} {leaf : Digest}
    {b : Branch} (hextract : p.extract = .ok e) (hbranch : e.branchFor leaf = some b) :
    b.hashes.length = Merkle.height p.transactions.toNat
      ∧ b.rootFrom leaf = e.root
      ∧ foldPairs leaf b.hashes b.index.toNat ⊆ e.tree.pairs := by
  obtain ⟨hcount, hfits⟩ := extract_eq_ok hextract
  unfold Extracted.branchFor at hbranch
  rw [Option.bind_eq_bind, Option.bind_eq_some_iff] at hbranch
  obtain ⟨⟨index, found⟩, hfind, hbranch⟩ := hbranch
  obtain rfl : found = leaf := by simpa using List.find?_some hfind
  obtain ⟨hposition, neighbours, hsome, hlen, hfold, hpairs⟩ :=
    hfits.neighbours (List.mem_of_find?_eq_some hfind)
  simp only [hcount, hsome] at hbranch
  cases hbranch
  -- a count of 32 bits gives a tree low enough for an index of 32 bits
  have hheight : Merkle.height p.transactions.toNat ≤ 32 :=
    height_le (Nat.le_of_lt p.transactions.toNat_lt)
  have hindex : index < 2 ^ 32 :=
    calc index < 2 ^ Merkle.height p.transactions.toNat :=
          (Nat.div_eq_zero_iff_lt (Nat.two_pow_pos _)).1 hposition
      _ ≤ 2 ^ 32 := Nat.pow_le_pow_right (by decide) hheight
  have hback : (UInt32.ofNat index).toNat = index := UInt32.toNat_ofNat_of_lt' hindex
  unfold Branch.rootFrom
  rw [hback]
  exact ⟨hlen, hfold, hpairs⟩

end MergedMining.Merkle
