/-
What a proof that was built from a block's leaves gives back.

The walk takes the flags and the hashes off in the order in which they were listed.
So it retraces the tree that was pruned and gets through unless it meets a node
with one digest for both of its children. Then the block is one whose leaves could
be repeated without changing its root, and the walk refuses it. It only notices
where it looks: below a node that is cut nothing is compared.
-/
import MergedMining.Proofs.Merkle.Building

namespace MergedMining.Merkle

-- ==================================================================== twins

/-- The node has two children and one digest for both. -/
def Twins (leaves : List Digest) (height position : Nat) : Prop :=
  ∃ child, (level leaves height)[2 * position]? = some child
    ∧ (level leaves height)[2 * position + 1]? = some child

/-- On the way from a wanted leaf up to this node there are twins. -/
def TwinsBelow (leaves : List Digest) (wanted : List Bool) (height position : Nat) : Prop :=
  ∃ index, wanted[index]? = some true ∧ index / 2 ^ height = position
    ∧ ∃ k < height, Twins leaves k (index / 2 ^ (k + 1))

section Twins

variable {leaves : List Digest} {wanted : List Bool} {height position : Nat}

/-- A position leads to a node if it leads to one of its children. -/
private theorem div_two_pow_succ_eq_iff {index : Nat} :
    index / 2 ^ (height + 1) = position
      ↔ index / 2 ^ height = 2 * position ∨ index / 2 ^ height = 2 * position + 1 := by
  rw [Nat.pow_succ, ← Nat.div_div_eq_div_mul]
  omega

/-- There are twins below a node if its children are twins and it is walked into, or if there are
twins below a child. -/
private theorem twinsBelow_succ_iff :
    TwinsBelow leaves wanted (height + 1) position
      ↔ (WantedBelow wanted (height + 1) position ∧ Twins leaves height position)
        ∨ TwinsBelow leaves wanted height (2 * position)
        ∨ TwinsBelow leaves wanted height (2 * position + 1) := by
  constructor
  · intro h
    obtain ⟨index, hwanted, hindex, k, hk, htwins⟩ := h
    rcases Nat.lt_succ_iff_lt_or_eq.1 hk with hk | rfl
    · rcases div_two_pow_succ_eq_iff.1 hindex with heven | hodd
      · exact Or.inr (Or.inl ⟨index, hwanted, heven, k, hk, htwins⟩)
      · exact Or.inr (Or.inr ⟨index, hwanted, hodd, k, hk, htwins⟩)
    · exact Or.inl ⟨⟨index, hwanted, hindex⟩, hindex ▸ htwins⟩
  · intro h
    rcases h with ⟨⟨index, hwanted, hindex⟩, htwins⟩ | ⟨index, hwanted, heven, k, hk, htwins⟩
      | ⟨index, hwanted, hodd, k, hk, htwins⟩
    · exact ⟨index, hwanted, hindex, height, Nat.lt_succ_self _, by rwa [hindex]⟩
    · have hindex := div_two_pow_succ_eq_iff.2 (Or.inl heven)
      exact ⟨index, hwanted, hindex, k, Nat.lt_succ_of_lt hk, htwins⟩
    · have hindex := div_two_pow_succ_eq_iff.2 (Or.inr hodd)
      exact ⟨index, hwanted, hindex, k, Nat.lt_succ_of_lt hk, htwins⟩

private theorem TwinsBelow.wantedBelow (h : TwinsBelow leaves wanted height position) :
    WantedBelow wanted height position := by
  obtain ⟨index, hwanted, hindex, -⟩ := h
  exact ⟨index, hwanted, hindex⟩

private theorem not_twinsBelow_zero : ¬TwinsBelow leaves wanted 0 position := by
  intro h
  obtain ⟨index, -, -, k, hk, -⟩ := h
  exact Nat.not_lt_zero k hk

/-- Where the last child is paired with itself there are no twins. -/
theorem twinsBelow_succ_iff_of_last (hlen : wanted.length = leaves.length)
    (last : ¬2 * position + 1 < width leaves.length height) :
    TwinsBelow leaves wanted (height + 1) position
      ↔ TwinsBelow leaves wanted height (2 * position) := by
  have hnone : (level leaves height)[2 * position + 1]? = none :=
    List.getElem?_eq_none (by simpa using last)
  rw [twinsBelow_succ_iff]
  constructor
  · intro h
    rcases h with ⟨-, child, -, hchild⟩ | h | h
    · rw [hnone] at hchild
      cases hchild
    · exact h
    · exact absurd (h.wantedBelow.lt_width hlen) last
  · exact fun h => Or.inr (Or.inl h)

end Twins

-- ================================================================ the walk

namespace Pruned

variable {leaves : List Digest} {wanted : List Bool} {height position : Nat} {tree : Tree}
  {bits : List Bool} {hashes : List Digest}

/-- The way down a pruned tree to a wanted leaf passes the neighbours on all levels. -/
theorem neighbours?_eq (h : Pruned leaves wanted height position tree bits hashes)
    (hlen : wanted.length = leaves.length) {index : Nat} (hwanted : wanted[index]? = some true)
    (hindex : index / 2 ^ height = position) :
    tree.neighbours? height index
      = some ((List.range height).map fun k => neighbour (level leaves k) (index / 2 ^ k)) := by
  induction h with
  | cut node off => exact absurd ⟨index, hwanted, hindex⟩ off
  | leaf node on => rfl
  | @single height position child bits hashes on below last ih =>
      -- the only child of a node is a left one, paired with itself
      rcases div_two_pow_succ_eq_iff.1 hindex with heven | hodd
      · have hnone : (level leaves height)[2 * position + 1]? = none :=
          List.getElem?_eq_none (by simpa using last)
        have hside : neighbour (level leaves height) (index / 2 ^ height) = child.hash := by
          rw [heven]
          exact neighbour_even below.getElem?_level (by rw [hnone]; rfl)
        rw [Tree.neighbours?, ih heven, List.range_succ, List.map_append, List.map_singleton, hside]
        rfl
      · have hbelow : WantedBelow wanted height (2 * position + 1) := ⟨index, hwanted, hodd⟩
        exact absurd (hbelow.lt_width hlen) last
  | @fork height position left right _ _ _ _ on belowLeft inside belowRight ihLeft ihRight =>
      rw [Tree.neighbours?, Nat.testBit_eq_decide_div_mod_eq, List.range_succ, List.map_append,
        List.map_singleton]
      rcases div_two_pow_succ_eq_iff.1 hindex with heven | hodd
      · have hside : neighbour (level leaves height) (index / 2 ^ height) = right.hash := by
          rw [heven]
          exact neighbour_even belowLeft.getElem?_level (by rw [belowRight.getElem?_level]; rfl)
        rw [if_neg (by simp [heven]), ihLeft heven, hside]
        rfl
      · have hside : neighbour (level leaves height) (index / 2 ^ height) = left.hash := by
          rw [hodd]
          exact neighbour_odd belowLeft.getElem?_level
        rw [if_pos (by rw [hodd]; simp), ihRight hodd, hside]
        rfl

/-- The walk over a pruned tree's flags and hashes gets through just where no twins are met,
and rebuilds the tree. -/
theorem node_eq_ok_iff (h : Pruned leaves wanted height position tree bits hashes)
    (hlen : wanted.length = leaves.length) {restBits : List Bool} {restHashes : List Digest}
    {rebuilt : Tree} {left : Supply} :
    Walk.node leaves.length height position ⟨bits ++ restBits, hashes ++ restHashes⟩
        = .ok (rebuilt, left)
      ↔ ¬TwinsBelow leaves wanted height position ∧ rebuilt = tree
        ∧ left = ⟨restBits, restHashes⟩ := by
  -- by induction on how the tree was pruned, whatever the walk goes on with afterwards
  induction h generalizing restBits restHashes rebuilt left with
  | @cut height position hash node off =>
      have hno : ¬TwinsBelow leaves wanted height position := fun h => off h.wantedBelow
      rw [List.singleton_append, List.singleton_append, Walk.node_cut]
      simp [hno, eq_comm]
  | @leaf position hash node on =>
      rw [List.singleton_append, List.singleton_append, Walk.node_leaf]
      simp [not_twinsBelow_zero, eq_comm]
  | @single height position child bits hashes on below last ih =>
      rw [List.cons_append, Walk.node_eq_ok_of_last last, twinsBelow_succ_iff_of_last hlen last]
      constructor
      · intro h
        obtain ⟨child', hchild, rfl⟩ := h
        obtain ⟨hno, rfl, rfl⟩ := ih.1 hchild
        exact ⟨hno, rfl, rfl⟩
      · intro h
        obtain ⟨hno, rfl, rfl⟩ := h
        exact ⟨child, ih.2 ⟨hno, rfl, rfl⟩, rfl⟩
  | @fork height position a b _ _ _ _ on belowLeft inside belowRight ihLeft ihRight =>
      -- what the walk compares are the digests that the level below has there
      have htwins : Twins leaves height position ↔ b.hash = a.hash := by
        simp [Twins, belowLeft.getElem?_level, belowRight.getElem?_level]
      rw [List.cons_append, List.append_assoc, List.append_assoc,
        Walk.node_eq_ok_of_inside inside, twinsBelow_succ_iff]
      constructor
      · intro h
        obtain ⟨a', between, b', ha, hb, different, rfl⟩ := h
        obtain ⟨hleft, rfl, rfl⟩ := ihLeft.1 ha
        obtain ⟨hright, rfl, rfl⟩ := ihRight.1 hb
        refine ⟨?_, rfl, rfl⟩
        intro h
        rcases h with ⟨-, h⟩ | h | h
        · exact different (htwins.1 h)
        · exact hleft h
        · exact hright h
      · intro h
        obtain ⟨hno, rfl, rfl⟩ := h
        refine ⟨a, _, b, ihLeft.2 ⟨fun h => hno (Or.inr (Or.inl h)), rfl, rfl⟩,
          ihRight.2 ⟨fun h => hno (Or.inr (Or.inr h)), rfl, rfl⟩, ?_, rfl⟩
        exact fun h => hno (Or.inl ⟨on, htwins.2 h⟩)

end Pruned

-- ==================================================== proofs that are built

/-- Above some wanted leaf there is a node with two children and one digest for both. -/
def Repeats (leaves : List Digest) (wanted : List Bool) : Prop :=
  ∃ index height, wanted[index]? = some true ∧ Twins leaves height (index / 2 ^ (height + 1))

section Built

variable {leaves : List Digest} {wanted : List Bool}

/-- Twins stand below the root. -/
theorem Twins.lt_height {k position : Nat} (h : Twins leaves k position) :
    k < height leaves.length := by
  obtain ⟨child, -, hright⟩ := h
  have inside := (List.getElem?_eq_some_iff.1 hright).1
  rw [length_level] at inside
  exact lt_height_iff.2 (by omega)

/-- Leaves and marks repeat if the walk from the root meets twins. -/
private theorem twinsBelow_root_iff (hlen : wanted.length = leaves.length) :
    TwinsBelow leaves wanted (height leaves.length) 0 ↔ Repeats leaves wanted := by
  constructor
  · intro h
    obtain ⟨index, hwanted, -, k, -, htwins⟩ := h
    exact ⟨index, k, hwanted, htwins⟩
  · intro h
    obtain ⟨index, k, hwanted, htwins⟩ := h
    have hindex := lt_length_of_wanted hlen hwanted
    exact ⟨index, hwanted, div_two_pow_height hindex, k, htwins.lt_height, htwins⟩

/-- The proof made of a pruned tree's flags and hashes gives the tree back, unless the leaves
repeat. -/
theorem Pruned.extract_eq_ok_iff {tree : Tree} {bits : List Bool} {p : PartialProof}
    {e : Extracted} (h : Pruned leaves wanted (height leaves.length) 0 tree bits p.hashes)
    (hlen : wanted.length = leaves.length) (hcount : p.transactions.toNat = leaves.length)
    (hflags : p.flags = packBits bits) :
    p.extract = .ok e ↔ ¬Repeats leaves wanted ∧ e = ⟨p.transactions, tree⟩ := by
  obtain ⟨k, hk, hbits⟩ := unpackBits_packBits bits
  -- the three checks of sizes hold of any pruned tree
  have hpos : p.transactions.toNat ≠ 0 := by
    have hroot := (List.getElem?_eq_some_iff.1 h.getElem?_level).1
    rw [length_level, lt_width_iff] at hroot
    omega
  have hfew : p.hashes.length ≤ p.transactions.toNat := by
    have hle := h.length_hashes_le_length hlen
    rwa [stretch_root hlen, length_marked hlen, ← hcount] at hle
  have hroom : p.hashes.length ≤ p.flags.length * 8 := by
    have hle := h.length_hashes_le
    rw [hflags, ← length_unpackBits, hbits, List.length_append]
    omega
  have hwalk (rebuilt : Tree) (left : Supply) :
      Walk.node leaves.length (height leaves.length) 0
          ⟨bits ++ List.replicate k false, p.hashes⟩ = .ok (rebuilt, left)
        ↔ ¬Repeats leaves wanted ∧ rebuilt = tree ∧ left = ⟨List.replicate k false, []⟩ := by
    rw [← twinsBelow_root_iff hlen, ← h.node_eq_ok_iff hlen, List.append_nil]
  rw [PartialProof.extract_eq_ok_iff]
  constructor
  · intro hextract
    obtain ⟨-, -, -, rebuilt, rest, hnode, -, rfl⟩ := hextract
    rw [hcount, hflags, hbits] at hnode
    obtain ⟨hno, rfl, -⟩ := (hwalk rebuilt _).1 hnode
    exact ⟨hno, rfl⟩
  · intro hmade
    obtain ⟨hno, rfl⟩ := hmade
    refine ⟨hpos, hfew, hroom, tree, List.replicate k false, ?_, ?_, rfl⟩
    · rw [hcount, hflags, hbits]
      exact (hwalk tree _).2 ⟨hno, rfl, rfl⟩
    · rwa [List.length_replicate]

/-- A whole pruned tree reveals all wanted leaves. -/
theorem Pruned.leaves_root_eq {tree : Tree} {bits : List Bool} {hashes : List Digest}
    (h : Pruned leaves wanted (height leaves.length) 0 tree bits hashes)
    (hlen : wanted.length = leaves.length) :
    tree.leaves 0 = revealed (leaves.zip wanted) 0 := by
  rw [h.leaves_eq hlen, stretch_root hlen, Nat.zero_mul]

/-- The branch of a wanted leaf that no wanted leaf before it equals is the one that the
level-by-level tree has. -/
theorem Pruned.branchFor_eq_some {tree : Tree} {bits : List Bool} {hashes : List Digest}
    {transactions : UInt32} {index : Nat} {leaf : Digest}
    (h : Pruned leaves wanted (height leaves.length) 0 tree bits hashes)
    (hlen : wanted.length = leaves.length) (hcount : transactions.toNat = leaves.length)
    (hwanted : wanted[index]? = some true) (hleaf : leaves[index]? = some leaf)
    (hfirst : ∀ j < index, wanted[j]? = some true → leaves[j]? ≠ some leaf) :
    ∃ b, branch leaves index = .ok b
      ∧ (Extracted.mk transactions tree).branchFor leaf = some b := by
  have hindex : index < leaves.length := (List.getElem?_eq_some_iff.1 hleaf).1
  refine ⟨_, branch_eq_ok hindex, ?_⟩
  rw [Extracted.branchFor, Extracted.found, h.leaves_root_eq hlen,
    find?_revealed hwanted hleaf hfirst, Option.bind_eq_bind, Option.bind_some, hcount]
  simp only [h.neighbours?_eq hlen hwanted (div_two_pow_height hindex)]
  rfl

/-- A count of all leaves covers all of them. -/
theorem covered_of_lt (hne : leaves ≠ []) (hcount : leaves.length < 2 ^ 32) :
    covered (UInt32.ofNat leaves.length) leaves wanted = leaves.zip wanted := by
  have hback : (UInt32.ofNat leaves.length).toNat = leaves.length :=
    UInt32.toNat_ofNat_of_lt' hcount
  have hnonzero : UInt32.ofNat leaves.length ≠ 0 := by
    intro hzero
    rw [hzero] at hback
    exact hne (List.length_eq_zero_iff.1 hback.symm)
  have hall : (leaves.zip wanted).length ≤ leaves.length := by
    rw [List.length_zip]
    exact Nat.min_le_left ..
  rw [covered, if_neg hnonzero, hback, List.take_of_length_le hall]

/-- When a proof can be built, and what it is then. -/
theorem PartialProof.build_eq_ok_iff {blockHash : Digest} {blockHeight : UInt32}
    {p : PartialProof} :
    build blockHash blockHeight leaves wanted = .ok p
      ↔ leaves ≠ [] ∧ wanted.length = leaves.length
        ∧ p =
          let count := UInt32.ofNat leaves.length
          let cut := prune (Merkle.height count.toNat) (covered count leaves wanted)
          ⟨blockHash, blockHeight, count, cut.2, packBits cut.1⟩ := by
  simp only [build, Outcome.ite_error_eq_ok, List.isEmpty_iff, ne_eq, Decidable.not_not,
    Except.ok.injEq, eq_comm (a := p)]

/-- A proof over so many leaves that their number in 32 bits is zero is refused. -/
theorem PartialProof.extract_of_wraps {blockHash : Digest} {blockHeight : UInt32}
    {p : PartialProof} (hbuild : build blockHash blockHeight leaves wanted = .ok p)
    (hwraps : 2 ^ 32 ∣ leaves.length) : p.extract = .error (.malformed .noTransactions) := by
  obtain ⟨-, -, rfl⟩ := build_eq_ok_iff.1 hbuild
  have hcount : (UInt32.ofNat leaves.length).toNat = 0 := by
    rw [UInt32.toNat_ofNat']
    exact Nat.mod_eq_zero_of_dvd hwraps
  simp only [extract, hcount]
  rfl

/-- A proof over leaves that its count covers is cut out of all of them. -/
theorem PartialProof.build_eq_ok (blockHash : Digest) (blockHeight : UInt32) (hne : leaves ≠ [])
    (hlen : wanted.length = leaves.length) (hcount : leaves.length < 2 ^ 32) :
    build blockHash blockHeight leaves wanted
      = .ok ⟨blockHash, blockHeight, UInt32.ofNat leaves.length,
          (prune (Merkle.height leaves.length) (leaves.zip wanted)).2,
          packBits (prune (Merkle.height leaves.length) (leaves.zip wanted)).1⟩ := by
  refine build_eq_ok_iff.2 ⟨hne, hlen, ?_⟩
  simp only [covered_of_lt hne hcount, UInt32.toNat_ofNat_of_lt' hcount]

/-- A proof that is built names its block and is made of a pruned tree's flags and hashes. -/
theorem PartialProof.pruned_of_build {blockHash : Digest} {blockHeight : UInt32}
    {p : PartialProof} (hbuild : build blockHash blockHeight leaves wanted = .ok p)
    (hcount : leaves.length < 2 ^ 32) :
    p.blockHash = blockHash ∧ p.transactions = UInt32.ofNat leaves.length
      ∧ wanted.length = leaves.length
      ∧ ∃ tree bits, Pruned leaves wanted (Merkle.height leaves.length) 0 tree bits p.hashes
        ∧ p.flags = packBits bits := by
  obtain ⟨hne, hlen, -⟩ := build_eq_ok_iff.1 hbuild
  rw [build_eq_ok blockHash blockHeight hne hlen hcount] at hbuild
  obtain rfl := Except.ok.inj hbuild
  have hroot : 0 < width leaves.length (Merkle.height leaves.length) :=
    width_pos _ (List.length_pos_iff.2 hne)
  obtain ⟨tree, hpruned⟩ := exists_pruned hlen hroot
  rw [stretch_root hlen] at hpruned
  exact ⟨rfl, rfl, hlen, tree, _, hpruned, rfl⟩

/-- Of the wanted leaves that have a hash there is a first one. -/
theorem exists_first {index : Nat} {leaf : Digest} (hwanted : wanted[index]? = some true)
    (hleaf : leaves[index]? = some leaf) :
    ∃ first : Nat, wanted[first]? = some true ∧ leaves[first]? = some leaf
      ∧ ∀ j < first, wanted[j]? = some true → leaves[j]? ≠ some leaf := by
  induction index using Nat.strongRecOn with
  | ind index ih =>
      by_cases hbefore : ∃ j < index, wanted[j]? = some true ∧ leaves[j]? = some leaf
      · obtain ⟨j, hj, hwanted, hleaf⟩ := hbefore
        exact ih j hj hwanted hleaf
      · exact ⟨index, hwanted, hleaf, fun j hj hwanted hleaf => hbefore ⟨j, hj, hwanted, hleaf⟩⟩

/-- A proof can be built for any leaves and marks. It is refused exactly if above a wanted leaf
some node has two children and one digest for both. Otherwise it gives the root of the leaves,
reveals the wanted leaves and no others, each where it stands, and has the branch that is
computed from the leaves for each that no earlier one equals. -/
theorem PartialProof.extract_build (blockHash : Digest) (height : UInt32) (hne : leaves ≠ [])
    (hlen : wanted.length = leaves.length) (hcount : leaves.length < 2 ^ 32) :
    ∃ p, build blockHash height leaves wanted = .ok p
      ∧ ((∃ e, p.extract = .ok e) ↔ ¬Repeats leaves wanted)
      ∧ ∀ e, p.extract = .ok e →
        root leaves = .ok e.root
          ∧ e.found = revealed (leaves.zip wanted) 0
          ∧ ∀ index leaf, wanted[index]? = some true → leaves[index]? = some leaf →
            (∀ j < index, wanted[j]? = some true → leaves[j]? ≠ some leaf) →
            ∃ b, branch leaves index = .ok b ∧ e.branchFor leaf = some b := by
  have hroot : 0 < width leaves.length (Merkle.height leaves.length) := by
    rw [lt_width_iff, Nat.zero_mul]
    exact List.length_pos_iff.2 hne
  obtain ⟨tree, hpruned⟩ := exists_pruned hlen hroot
  rw [stretch_root hlen] at hpruned
  let cut := prune (Merkle.height leaves.length) (leaves.zip wanted)
  let p : PartialProof :=
    ⟨blockHash, height, UInt32.ofNat leaves.length, cut.2, packBits cut.1⟩
  have hback : p.transactions.toNat = leaves.length := UInt32.toNat_ofNat_of_lt' hcount
  have hextract (e : Extracted) :
      p.extract = .ok e ↔ ¬Repeats leaves wanted ∧ e = ⟨p.transactions, tree⟩ :=
    hpruned.extract_eq_ok_iff hlen hback rfl
  refine ⟨p, build_eq_ok blockHash height hne hlen hcount, ?_, fun e he => ?_⟩
  · exact ⟨fun ⟨e, he⟩ => ((hextract e).1 he).1, fun hno => ⟨_, (hextract _).2 ⟨hno, rfl⟩⟩⟩
  · obtain ⟨-, rfl⟩ := (hextract e).1 he
    refine ⟨root_eq_ok_iff.2 hpruned.getElem?_level, hpruned.leaves_root_eq hlen, ?_⟩
    intro index leaf hwanted hleaf hfirst
    exact hpruned.branchFor_eq_some hlen hback hwanted hleaf hfirst

/-- Whichever of the three leaves are wanted, all children differ. -/
theorem not_repeats_threeLeaves : ¬Repeats threeLeaves wanted := by
  intro h
  obtain ⟨index, k, -, htwins⟩ := h
  have hk : k < 2 := htwins.lt_height
  obtain ⟨child, hleft, hright⟩ := htwins
  have inside := (List.getElem?_eq_some_iff.1 hright).1
  rw [length_level, lt_width_iff] at inside
  have hposition : index / 2 ^ (k + 1) = 0 := by
    by_contra hne
    have hmany : 3 * 1 ≤ (2 * (index / 2 ^ (k + 1)) + 1) * 2 ^ k :=
      Nat.mul_le_mul (by omega) (Nat.two_pow_pos k)
    exact absurd inside (Nat.not_lt.2 hmany)
  rw [hposition] at hleft hright
  match k, hk with
  | 0, _ => exact absurd (hright.trans hleft.symm) (by decide)
  | 1, _ =>
      rw [level, level, threeLeaves, nextLevel, nextLevel] at hleft hright
      exact pair_ne_threeLeaves (Option.some.inj (hright.trans hleft.symm))

/-- A proof of the last two of three leaves gives the root, the leaves and the branch of the last
one. -/
theorem extract_build_threeLeaves :
    threeLeaves ≠ [] ∧ [false, true, true].length = threeLeaves.length
      ∧ threeLeaves.length < 2 ^ 32
      ∧ ∃ p e, PartialProof.build Digest.zero 7 threeLeaves [false, true, true] = .ok p
        ∧ p.extract = .ok e
        ∧ root threeLeaves = .ok e.root
        ∧ e.found = [(1, Digest.ofNumber 2), (2, Digest.ofNumber 3)]
        ∧ ∃ b, branch threeLeaves 2 = .ok b ∧ e.branchFor (Digest.ofNumber 3) = some b := by
  have hne : threeLeaves ≠ [] := List.cons_ne_nil _ _
  have hlen : [false, true, true].length = threeLeaves.length := rfl
  obtain ⟨p, hbuild, hextract, hall⟩ :=
    PartialProof.extract_build Digest.zero 7 hne hlen (by decide)
  obtain ⟨e, he⟩ := hextract.2 not_repeats_threeLeaves
  obtain ⟨hroot, hfound, hbranches⟩ := hall e he
  refine ⟨hne, rfl, by decide, p, e, hbuild, he, hroot, hfound, hbranches 2 _ rfl rfl ?_⟩
  intro j hj _
  match j, hj with
  | 0, _ => decide
  | 1, _ => decide

end Built

end MergedMining.Merkle
