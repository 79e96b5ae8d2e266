/-
What is built for a block's leaves.

A proof is cut out of the leaves in stretches, halved on the way down. The stretch
of a node is what stands below it, so whether a wanted leaf is below, how many
nodes a level has and which digest the node carries can be read off the stretch or
off the level-by-level tree alike. Between the flags and the hashes stands the tree
that was pruned: at every node it either is cut, because no wanted leaf is below,
or goes on to the children that are there. All that is known of a built proof is
proved of this tree, by induction on how it was pruned.
-/
import Mathlib.Tactic.Ring
import MergedMining.Proofs.Merkle.Extraction
import MergedMining.Proofs.Merkle.Level

namespace MergedMining.Merkle

-- =================================================================== flags

/-- The bits of the value are the bits that it was packed from. -/
private theorem testBit_bitsValue (bits : List Bool) (i : Nat) :
    (bitsValue bits).testBit i = bits[i]?.getD false := by
  induction bits generalizing i with
  | nil => exact Nat.zero_testBit i
  | cons b rest ih =>
      cases i with
      | zero =>
          rw [bitsValue, Nat.testBit_zero]
          cases b <;> simp
      | succ i =>
          have hhalf : (b.toNat + 2 * bitsValue rest) / 2 = bitsValue rest := by
            have := b.toNat_le
            omega
          rw [bitsValue, Nat.testBit_succ, hhalf, ih, List.getElem?_cons_succ]

/-- So many bits have a value below the power of two. -/
private theorem bitsValue_lt (bits : List Bool) : bitsValue bits < 2 ^ bits.length := by
  induction bits with
  | nil => exact Nat.one_pos
  | cons b rest ih =>
      have := b.toNat_le
      rw [bitsValue, List.length_cons, Nat.pow_succ]
      omega

/-- A byte keeps up to eight flags. The bits that are left are off. -/
theorem byteBits_bitsValue (bits : List Bool) (h : bits.length ≤ 8) :
    byteBits (UInt8.ofNat (bitsValue bits)) = bits ++ List.replicate (8 - bits.length) false := by
  have hvalue : (UInt8.ofNat (bitsValue bits)).toNat = bitsValue bits :=
    UInt8.toNat_ofNat_of_lt'
      (Nat.lt_of_lt_of_le (bitsValue_lt bits) (Nat.pow_le_pow_right (by decide) h))
  refine List.ext_getElem ?_ fun i hi hi' => ?_
  · rw [byteBits, List.length_map, List.length_range, List.length_append, List.length_replicate]
    omega
  · simp only [byteBits, List.getElem_map, List.getElem_range, hvalue, testBit_bitsValue]
    rw [List.getElem_append]
    split
    · next hin => rw [List.getElem?_eq_getElem hin, Option.getD_some]
    · next hout => rw [List.getElem?_eq_none (Nat.le_of_not_lt hout), List.getElem_replicate,
        Option.getD_none]

/-- Each byte holds eight bits. -/
theorem length_unpackBits (bytes : Bytes) : (unpackBits bytes).length = bytes.length * 8 := by
  induction bytes with
  | nil => rfl
  | cons byte rest ih =>
      rw [unpackBits, List.flatMap_cons, ← unpackBits, List.length_append, ih, byteBits,
        List.length_map, List.length_range, List.length_cons]
      omega

/-- Packed flags come back with less than a byte behind them. -/
theorem unpackBits_packBits (bits : List Bool) :
    ∃ k < 8, unpackBits (packBits bits) = bits ++ List.replicate k false := by
  fun_induction packBits bits with
  | case1 => exact ⟨0, by decide, rfl⟩
  | case2 b rest ih =>
      obtain ⟨k, hk, hrest⟩ := ih
      have hbyte := byteBits_bitsValue (b :: rest.take 7)
        (by rw [List.length_cons, List.length_take]; omega)
      rw [unpackBits, List.flatMap_cons, ← unpackBits, hbyte, List.length_cons, List.length_take]
      -- only the last byte is padded, and behind it nothing is left to pack
      by_cases hfull : 7 ≤ rest.length
      · refine ⟨k, hk, ?_⟩
        rw [hrest, Nat.min_eq_left hfull, List.replicate_zero, List.append_nil,
          ← List.append_assoc, List.cons_append, List.take_append_drop]
      · refine ⟨8 - (rest.length + 1), by omega, ?_⟩
        rw [List.drop_eq_nil_of_le (by omega), List.take_of_length_le (by omega),
          Nat.min_eq_right (by omega), packBits]
        exact List.append_nil _

-- =============================================================== stretches

/-- The marked leaves below the node at this height and position. -/
def stretch (marked : List Marked) (height position : Nat) : List Marked :=
  (marked.drop (position * 2 ^ height)).take (2 ^ height)

section Stretch

variable {marked : List Marked} {height position : Nat}

/-- The leaves of the left child are the first half of a node's leaves. -/
private theorem take_stretch :
    (stretch marked (height + 1) position).take (2 ^ height)
      = stretch marked height (2 * position) := by
  rw [stretch, stretch, List.take_take, Nat.pow_succ, Nat.min_eq_left (by omega),
    Nat.mul_comm (2 ^ height), ← Nat.mul_assoc, Nat.mul_comm position]

/-- The leaves of the right child are what is left of a node's leaves. -/
private theorem drop_stretch :
    (stretch marked (height + 1) position).drop (2 ^ height)
      = stretch marked height (2 * position + 1) := by
  rw [stretch, stretch, List.drop_take, List.drop_drop, Nat.pow_succ,
    show position * (2 ^ height * 2) + 2 ^ height = (2 * position + 1) * 2 ^ height by ring,
    show 2 ^ height * 2 - 2 ^ height = 2 ^ height by omega]

private theorem stretch_succ :
    stretch marked (height + 1) position
      = stretch marked height (2 * position) ++ stretch marked height (2 * position + 1) := by
  rw [← take_stretch, ← drop_stretch, List.take_append_drop]

/-- A left child with a neighbour has all its leaves. -/
private theorem length_stretch_of_full (h : 2 * position + 1 < width marked.length height) :
    (stretch marked height (2 * position)).length = 2 ^ height := by
  have hfull := lt_width_iff.1 h
  rw [stretch, List.length_take, List.length_drop, Nat.min_eq_left]
  rw [Nat.add_mul] at hfull
  omega

/-- A node has leaves below it if it is inside its level. -/
private theorem stretch_eq_nil_iff :
    stretch marked height position = [] ↔ ¬position < width marked.length height := by
  have hpos : 0 < 2 ^ height := Nat.two_pow_pos height
  rw [stretch, List.take_eq_nil_iff, List.drop_eq_nil_iff, lt_width_iff]
  omega

/-- The leaves below a node are those whose positions lead to it. -/
private theorem mem_stretch_iff {m : Marked} :
    m ∈ stretch marked height position
      ↔ ∃ index, marked[index]? = some m ∧ index / 2 ^ height = position := by
  have hpos : 0 < 2 ^ height := Nat.two_pow_pos height
  rw [stretch, List.mem_iff_getElem?]
  constructor
  · intro h
    obtain ⟨i, hi⟩ := h
    rw [List.getElem?_take, List.getElem?_drop] at hi
    split at hi
    · next hlt =>
        refine ⟨position * 2 ^ height + i, hi, ?_⟩
        rw [Nat.mul_comm, Nat.mul_add_div hpos, Nat.div_eq_of_lt hlt, Nat.add_zero]
    · cases hi
  · intro h
    obtain ⟨index, hindex, rfl⟩ := h
    refine ⟨index % 2 ^ height, ?_⟩
    rw [List.getElem?_take_of_lt (Nat.mod_lt _ hpos), List.getElem?_drop, Nat.div_add_mod']
    exact hindex

/-- The hash of a stretch is the node above it. -/
theorem getElem?_level_stretch (h : position < width marked.length height) :
    (level (marked.map Prod.fst) height)[position]?
      = some (subtreeHash height (stretch marked height position)) := by
  induction height generalizing position with
  | zero =>
      rw [width_zero] at h
      rw [level, subtreeHash, stretch, Nat.pow_zero, Nat.mul_one, List.head?_take,
        if_neg (by decide), List.head?_drop, List.getElem?_map, List.getElem?_eq_getElem h]
      rfl
  | succ height ih =>
      rw [getElem?_level_succ, ih (two_mul_lt_width h), subtreeHash, take_stretch, drop_stretch]
      by_cases inside : 2 * position + 1 < width marked.length height
      · rw [ih inside]
        split
        · next hnil => exact absurd inside (stretch_eq_nil_iff.1 hnil)
        · rfl
      · rw [List.getElem?_eq_none (by simpa using inside), stretch_eq_nil_iff.2 inside]
        rfl

end Stretch

-- ============================================================ the pruned tree

/-- A wanted leaf stands below this node. -/
def WantedBelow (wanted : List Bool) (height position : Nat) : Prop :=
  ∃ index, wanted[index]? = some true ∧ index / 2 ^ height = position

/-- What is left of the node at a height and position, with its flags and hashes, when all
that does not lead to a wanted leaf is pruned. -/
inductive Pruned (leaves : List Digest) (wanted : List Bool) :
    (height position : Nat) → Tree → List Bool → List Digest → Prop where
  | cut {height position : Nat} {hash : Digest}
      (node : (level leaves height)[position]? = some hash)
      (off : ¬WantedBelow wanted height position) :
      Pruned leaves wanted height position (.cut hash) [false] [hash]
  | leaf {position : Nat} {hash : Digest}
      (node : leaves[position]? = some hash) (on : wanted[position]? = some true) :
      Pruned leaves wanted 0 position (.leaf hash) [true] [hash]
  | single {height position : Nat} {child : Tree} {bits : List Bool} {hashes : List Digest}
      (on : WantedBelow wanted (height + 1) position)
      (below : Pruned leaves wanted height (2 * position) child bits hashes)
      (last : ¬2 * position + 1 < width leaves.length height) :
      Pruned leaves wanted (height + 1) position
        (.single (Digest.pair child.hash child.hash) child) (true :: bits) hashes
  | fork {height position : Nat} {left right : Tree} {leftBits rightBits : List Bool}
      {leftHashes rightHashes : List Digest}
      (on : WantedBelow wanted (height + 1) position)
      (belowLeft : Pruned leaves wanted height (2 * position) left leftBits leftHashes)
      (inside : 2 * position + 1 < width leaves.length height)
      (belowRight : Pruned leaves wanted height (2 * position + 1) right rightBits rightHashes) :
      Pruned leaves wanted (height + 1) position
        (.fork (Digest.pair left.hash right.hash) left right)
        (true :: (leftBits ++ rightBits)) (leftHashes ++ rightHashes)

section Building

variable {leaves : List Digest} {wanted : List Bool} {height position : Nat}

/-- What is marked is the position of a leaf. -/
theorem lt_length_of_wanted (hlen : wanted.length = leaves.length) {index : Nat}
    (h : wanted[index]? = some true) : index < leaves.length := by
  rw [← hlen]
  exact (List.getElem?_eq_some_iff.1 h).1

/-- A wanted leaf stands below a node that is there. -/
theorem WantedBelow.lt_width (h : WantedBelow wanted height position)
    (hlen : wanted.length = leaves.length) : position < width leaves.length height := by
  obtain ⟨index, hwanted, rfl⟩ := h
  exact div_lt_width height (lt_length_of_wanted hlen hwanted)

/-- There are as many marked leaves as leaves. -/
theorem length_marked (hlen : wanted.length = leaves.length) :
    (leaves.zip wanted).length = leaves.length := by
  rw [List.length_zip, hlen, Nat.min_self]

private theorem stretch_marked_eq_nil_iff (hlen : wanted.length = leaves.length) :
    stretch (leaves.zip wanted) height position = []
      ↔ ¬position < width leaves.length height := by
  rw [stretch_eq_nil_iff, length_marked hlen]

/-- Some leaf below a node is marked if a marked position leads to the node. -/
private theorem any_stretch_iff (hlen : wanted.length = leaves.length) :
    (stretch (leaves.zip wanted) height position).any Prod.snd = true
      ↔ WantedBelow wanted height position := by
  simp only [List.any_eq_true, mem_stretch_iff, List.getElem?_zip_eq_some]
  constructor
  · intro h
    obtain ⟨⟨leaf, on⟩, ⟨index, ⟨-, hwanted⟩, hposition⟩, rfl⟩ := h
    exact ⟨index, hwanted, hposition⟩
  · intro h
    obtain ⟨index, hwanted, hposition⟩ := h
    have hleaf := List.getElem?_eq_getElem (lt_length_of_wanted hlen hwanted)
    exact ⟨(_, true), ⟨index, ⟨hleaf, hwanted⟩, hposition⟩, rfl⟩

/-- The nodes of a level are the hashes of the stretches below them. -/
private theorem getElem?_level_marked (hlen : wanted.length = leaves.length)
    (h : position < width leaves.length height) :
    (level leaves height)[position]?
      = some (subtreeHash height (stretch (leaves.zip wanted) height position)) := by
  have hnode := @getElem?_level_stretch (leaves.zip wanted) height position
    (by rwa [length_marked hlen])
  rwa [List.map_fst_zip (Nat.le_of_eq hlen.symm)] at hnode

/-- What is built for a node is a pruned tree's flags and hashes. -/
theorem exists_pruned (hlen : wanted.length = leaves.length)
    (h : position < width leaves.length height) :
    ∃ tree, Pruned leaves wanted height position tree
      (prune height (stretch (leaves.zip wanted) height position)).1
      (prune height (stretch (leaves.zip wanted) height position)).2 := by
  induction height generalizing position with
  | zero =>
      have hnode := getElem?_level_marked hlen h
      by_cases on : WantedBelow wanted 0 position
      · obtain ⟨index, hwanted, hindex⟩ := on
        rw [prune, (any_stretch_iff hlen).2 ⟨index, hwanted, hindex⟩]
        rw [Nat.pow_zero, Nat.div_one] at hindex
        exact ⟨_, .leaf hnode (hindex ▸ hwanted)⟩
      · rw [prune, Bool.eq_false_iff.2 fun hany => on ((any_stretch_iff hlen).1 hany)]
        exact ⟨_, .cut hnode on⟩
  | succ height ih =>
      by_cases on : WantedBelow wanted (height + 1) position
      · obtain ⟨left, belowLeft⟩ := ih (two_mul_lt_width h)
        rw [prune, if_pos ((any_stretch_iff hlen).2 on), take_stretch, drop_stretch]
        -- the stretch has a second half just where the level below has a second child
        by_cases inside : 2 * position + 1 < width leaves.length height
        · obtain ⟨right, belowRight⟩ := ih inside
          split
          · next hnil => exact absurd inside ((stretch_marked_eq_nil_iff hlen).1 hnil)
          · exact ⟨_, .fork on belowLeft inside belowRight⟩
        · simp only [(stretch_marked_eq_nil_iff hlen).2 inside, List.append_nil]
          exact ⟨_, .single on belowLeft inside⟩
      · rw [prune, if_neg fun hany => on ((any_stretch_iff hlen).1 hany)]
        exact ⟨_, .cut (getElem?_level_marked hlen h) on⟩

/-- Below the root stand all the leaves. -/
theorem stretch_root (hlen : wanted.length = leaves.length) :
    stretch (leaves.zip wanted) (Merkle.height leaves.length) 0 = leaves.zip wanted := by
  rw [stretch, Nat.zero_mul, List.drop_zero, List.take_of_length_le]
  rw [length_marked hlen]
  exact le_two_pow_height _

end Building

-- ========================================================== what is revealed

/-- The wanted leaves from left to right, each with its position, the first position given. -/
def revealed (marked : List Marked) (start : Nat) : List (Nat × Digest) :=
  (marked.zipIdx start).filterMap fun m => if m.1.2 then some (m.2, m.1.1) else none

/-- The leaves that a list reveals are those that its parts do, the second from where the first
ends. -/
private theorem revealed_append (xs ys : List Marked) (start : Nat) :
    revealed (xs ++ ys) start = revealed xs start ++ revealed ys (start + xs.length) := by
  rw [revealed, List.zipIdx_append, List.filterMap_append]
  rfl

/-- Where nothing is marked nothing is revealed. -/
private theorem revealed_eq_nil {marked : List Marked} {start : Nat}
    (h : ∀ m ∈ marked, m.2 = false) : revealed marked start = [] := by
  refine List.filterMap_eq_nil_iff.2 fun m hm => ?_
  rw [h m.1 (List.fst_mem_of_mem_zipIdx hm)]
  rfl

/-- The revealed leaves are the marked ones, each at its position. -/
theorem mem_revealed_iff {leaves : List Digest} {wanted : List Bool} {index : Nat} {leaf : Digest} :
    (index, leaf) ∈ revealed (leaves.zip wanted) 0
      ↔ leaves[index]? = some leaf ∧ wanted[index]? = some true := by
  rw [revealed, List.mem_filterMap]
  constructor
  · intro h
    obtain ⟨⟨⟨leaf', on⟩, index'⟩, hmem, h⟩ := h
    cases on
    · cases h
    · cases h
      exact List.getElem?_zip_eq_some.1 (List.mem_zipIdx_iff_getElem?.1 hmem)
  · intro h
    exact ⟨((leaf, true), index),
      List.mem_zipIdx_iff_getElem?.2 (List.getElem?_zip_eq_some.2 h), rfl⟩

/-- What is revealed is in order. -/
theorem pairwise_revealed (marked : List Marked) (start : Nat) :
    (revealed marked start).Pairwise fun a b => a.1 < b.1 := by
  have hindices : (marked.zipIdx start).Pairwise fun a b => a.2 < b.2 := by
    refine List.pairwise_map.1 ?_
    rw [List.zipIdx_map_snd]
    exact List.pairwise_lt_range'
  refine hindices.filterMap _ fun a b hlt => ?_
  intro a' ha b' hb
  split at ha
  · split at hb
    · cases ha
      cases hb
      exact hlt
    · cases hb
  · cases ha

/-- The first leaf with its hash that is revealed is the one that no wanted leaf before it
equals. -/
theorem find?_revealed {leaves : List Digest} {wanted : List Bool} {index : Nat} {leaf : Digest}
    (hwanted : wanted[index]? = some true) (hleaf : leaves[index]? = some leaf)
    (hfirst : ∀ j < index, wanted[j]? = some true → leaves[j]? ≠ some leaf) :
    (revealed (leaves.zip wanted) 0).find? (·.2 = leaf) = some (index, leaf) := by
  obtain ⟨before, after, hsplit⟩ := List.append_of_mem (mem_revealed_iff.2 ⟨hleaf, hwanted⟩)
  have hsorted := pairwise_revealed (leaves.zip wanted) 0
  rw [hsplit, List.pairwise_append] at hsorted
  refine List.find?_eq_some_iff_append.2 ⟨decide_eq_true rfl, before, after, hsplit, ?_⟩
  intro m hm
  have hmem : m ∈ revealed (leaves.zip wanted) 0 := by
    rw [hsplit]
    exact List.mem_append_left _ hm
  obtain ⟨hleaf', hwanted'⟩ := mem_revealed_iff.1 hmem
  have hlt : m.1 < index := hsorted.2.2 m hm _ List.mem_cons_self
  simp only [Bool.not_eq_true', decide_eq_false_iff_not]
  intro heq
  exact hfirst m.1 hlt hwanted' (heq ▸ hleaf')

-- ============================================================ what is kept

namespace Pruned

variable {leaves : List Digest} {wanted : List Bool} {height position : Nat} {tree : Tree}
  {bits : List Bool} {hashes : List Digest}

/-- A pruned tree stands where the level-by-level tree has this node. -/
theorem getElem?_level (h : Pruned leaves wanted height position tree bits hashes) :
    (level leaves height)[position]? = some tree.hash := by
  induction h with
  | cut node off => exact node
  | leaf node on => exact node
  | single on below last ih =>
      rw [getElem?_level_succ, ih, List.getElem?_eq_none (by simpa using last)]
      rfl
  | fork on belowLeft inside belowRight ihLeft ihRight =>
      rw [getElem?_level_succ, ihLeft, ihRight]
      rfl

/-- A pruned tree has no more hashes than bits. -/
theorem length_hashes_le (h : Pruned leaves wanted height position tree bits hashes) :
    hashes.length ≤ bits.length := by
  induction h with
  | cut node off => exact Nat.le_refl 1
  | leaf node on => exact Nat.le_refl 1
  | single on below last ih => exact Nat.le_succ_of_le ih
  | fork on belowLeft inside belowRight ihLeft ihRight =>
      rw [List.length_cons, List.length_append, List.length_append]
      omega

/-- A pruned tree has no more hashes than there are leaves below. -/
theorem length_hashes_le_length (h : Pruned leaves wanted height position tree bits hashes)
    (hlen : wanted.length = leaves.length) :
    hashes.length ≤ (stretch (leaves.zip wanted) height position).length := by
  have hone {height position : Nat} {hash : Digest}
      (node : (level leaves height)[position]? = some hash) :
      1 ≤ (stretch (leaves.zip wanted) height position).length := by
    have inside := (List.getElem?_eq_some_iff.1 node).1
    rw [length_level] at inside
    exact List.length_pos_iff.2 fun hnil => (stretch_marked_eq_nil_iff hlen).1 hnil inside
  induction h with
  | cut node off => exact hone node
  | leaf node on => exact @hone 0 _ _ node
  | single on below last ih =>
      rw [stretch_succ, List.length_append]
      omega
  | fork on belowLeft inside belowRight ihLeft ihRight =>
      rw [stretch_succ, List.length_append, List.length_append]
      omega

/-- A pruned tree reveals the wanted leaves below it. -/
theorem leaves_eq (h : Pruned leaves wanted height position tree bits hashes)
    (hlen : wanted.length = leaves.length) :
    tree.leaves position
      = revealed (stretch (leaves.zip wanted) height position) (position * 2 ^ height) := by
  induction h with
  | cut node off =>
      rw [Tree.leaves, revealed_eq_nil]
      intro m hm
      by_contra hon
      exact off ((any_stretch_iff hlen).1 (List.any_eq_true.2 ⟨m, hm, by simpa using hon⟩))
  | @leaf position hash node on =>
      have hmarked : (leaves.zip wanted)[position]? = some (hash, true) :=
        List.getElem?_zip_eq_some.2 ⟨node, on⟩
      obtain ⟨hposition, heq⟩ := List.getElem?_eq_some_iff.1 hmarked
      rw [Tree.leaves, stretch, Nat.pow_zero, Nat.mul_one, List.drop_eq_getElem_cons hposition,
        heq]
      rfl
  | @single height position child bits hashes on below last ih =>
      rw [Tree.leaves, ih, stretch_succ, (stretch_marked_eq_nil_iff hlen).2 last, List.append_nil,
        show position * 2 ^ (height + 1) = 2 * position * 2 ^ height by ring]
  | @fork height position left right _ _ _ _ on belowLeft inside belowRight ihLeft ihRight =>
      have hfull : (stretch (leaves.zip wanted) height (2 * position)).length = 2 ^ height :=
        length_stretch_of_full (by rwa [length_marked hlen])
      rw [Tree.leaves, ihLeft, ihRight, stretch_succ, revealed_append, hfull,
        show position * 2 ^ (height + 1) = 2 * position * 2 ^ height by ring,
        show 2 * position * 2 ^ height + 2 ^ height = (2 * position + 1) * 2 ^ height by ring]

end Pruned

end MergedMining.Merkle
