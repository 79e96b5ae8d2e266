/-
Branches on a machine.

A branch is put together from the table of nodes that a walk left, level by level from the
leaf up. Below each node the walk notes only nodes below it, and it notes the node itself last,
so what stands in the table beside the way up from a leaf of interest is what the tree has
there. None of these nodes is missing, and the level is below 32 at every shift of the index.
-/
import MergedMining.Proofs.Machine.Walking

namespace MergedMining.Machine

open Merkle (Tree PartialProof Extracted)

-- ======================================================================= nodes

namespace Walked

section Nodes

variable {count height position : Nat} {tree : Tree} {walked : Walked}

/-- Other positions keep their nodes when one is noted. -/
private theorem getElem?_note_of_ne {hash : Digest} {k q : Nat} (h : ¬(k = height ∧ q = position)) :
    (walked.note height position hash).nodes[(k, q)]? = walked.nodes[(k, q)]? := by
  have hne : ¬((height, position) == (k, q)) = true := by
    simp only [beq_iff_eq, Prod.mk.injEq]
    omega
  rw [note, Std.HashMap.getElem?_insert, if_neg hne]

private theorem getElem?_note_self {hash : Digest} :
    (walked.note height position hash).nodes[(height, position)]? = some hash :=
  Std.HashMap.getElem?_insert_self

/-- The top of a tree is noted last. -/
theorem getElem?_past_self :
    (past tree height position walked).nodes[(height, position)]? = some tree.hash := by
  cases tree <;> exact getElem?_note_self

/-- A node is below itself. -/
theorem ne_of_outside {k q : Nat} (h : ¬(k ≤ height ∧ q / 2 ^ (height - k) = position)) :
    ¬(k = height ∧ q = position) := by
  intro hkey
  obtain ⟨rfl, rfl⟩ := hkey
  rw [Nat.sub_self, Nat.pow_zero, Nat.div_one] at h
  exact h ⟨Nat.le_refl _, rfl⟩

/-- What is below a child is below its parent. -/
theorem outside_child {k q child : Nat}
    (h : ¬(k ≤ height + 1 ∧ q / 2 ^ (height + 1 - k) = position)) (hchild : child / 2 = position) :
    ¬(k ≤ height ∧ q / 2 ^ (height - k) = child) := by
  intro hbelow
  obtain ⟨hk, rfl⟩ := hbelow
  refine h ⟨Nat.le_succ_of_le hk, ?_⟩
  rw [Nat.succ_sub hk, Nat.pow_succ, ← Nat.div_div_eq_div_mul, hchild]

/-- A walk below a node notes nothing elsewhere. -/
theorem getElem?_past_of_outside (fits : tree.Fits count height position) {k q : Nat}
    (h : ¬(k ≤ height ∧ q / 2 ^ (height - k) = position)) :
    (past tree height position walked).nodes[(k, q)]? = walked.nodes[(k, q)]? := by
  induction fits generalizing walked with
  | cut height position hash => exact getElem?_note_of_ne (ne_of_outside h)
  | leaf position hash => exact getElem?_note_of_ne (ne_of_outside h)
  | fork fitsLeft inside fitsRight different ihLeft ihRight =>
      refine (getElem?_note_of_ne (ne_of_outside h)).trans ?_
      exact (ihRight (outside_child h (by omega))).trans (ihLeft (outside_child h (by omega)))
  | single fits last ih =>
      exact (getElem?_note_of_ne (ne_of_outside h)).trans (ih (outside_child h (by omega)))

end Nodes

end Walked

-- ================================================================= neighbours

/-- The position of the neighbour on a level of the way up from a leaf. -/
def beside (count index level : Nat) : Nat :=
  if Merkle.width count level ≤ index / 2 ^ level ^^^ 1 then index / 2 ^ level
  else index / 2 ^ level ^^^ 1

/-- A neighbour has the same nodes above it. -/
theorem beside_div {count index level height : Nat} (h : level < height) :
    beside count index level / 2 ^ (height - level) = index / 2 ^ height := by
  have hpair : beside count index level / 2 = index / 2 ^ level / 2 := by
    rw [beside]
    split
    · rfl
    · rw [Nat.xor_div_two, show 1 / 2 = 0 from rfl, Nat.xor_zero]
  obtain ⟨above, rfl⟩ : ∃ above, height = level + 1 + above := ⟨_, (Nat.add_sub_cancel' h).symm⟩
  rw [show level + 1 + above - level = above + 1 by omega, Nat.pow_succ', ← Nat.div_div_eq_div_mul,
    hpair, Nat.div_div_eq_div_mul, Nat.div_div_eq_div_mul, ← Nat.pow_succ', ← Nat.pow_add,
    Nat.add_assoc, Nat.add_comm 1]

section Beside

variable {count index level position : Nat}

private theorem beside_of_inside (hposition : index / 2 ^ level = 2 * position)
    (inside : 2 * position + 1 < Merkle.width count level) :
    beside count index level = 2 * position + 1 := by
  rw [beside, hposition, Nat.xor_one_of_even (even_two_mul position), if_neg (Nat.not_le.2 inside)]

private theorem beside_of_last (hposition : index / 2 ^ level = 2 * position)
    (last : ¬2 * position + 1 < Merkle.width count level) :
    beside count index level = 2 * position := by
  rw [beside, hposition, Nat.xor_one_of_even (even_two_mul position), if_pos (Nat.not_lt.1 last)]

/-- Beside a right child stands the left child. -/
private theorem beside_of_odd (hposition : index / 2 ^ level = 2 * position + 1)
    (inside : 2 * position + 1 < Merkle.width count level) :
    beside count index level = 2 * position := by
  rw [beside, hposition, Nat.xor_one_of_odd (odd_two_mul_add_one position), Nat.add_sub_cancel,
    if_neg (by omega)]

end Beside

private theorem getElem?_concat_of_length {hashes : List Digest} {hash : Digest} {height : Nat}
    (h : hashes.length = height) : (hashes ++ [hash])[height]? = some hash := by
  rw [← h, List.getElem?_concat_length]

/-- What the walk noted beside the way up from a leaf are the leaf's neighbours. -/
theorem getElem?_nodes_beside {count height position index : Nat} {tree : Tree} {leaf : Digest}
    {neighbours : List Digest} {walked : Walked} (fits : tree.Fits count height position)
    (hmem : (index, leaf) ∈ tree.leaves position)
    (hsome : tree.neighbours? height index = some neighbours) {k : Nat} (hk : k < height) :
    (Walked.past tree height position walked).nodes[(k, beside count index k)]?
      = neighbours[k]? := by
  induction fits generalizing walked neighbours k with
  | cut height position hash => cases hmem
  | leaf position hash => exact absurd hk (Nat.not_lt_zero k)
  | @fork height position left right fitsLeft inside fitsRight different ihLeft ihRight =>
      -- the node itself is noted above all neighbours
      have htop {q : Nat} : ¬(k = height + 1 ∧ q = position) := fun h => Nat.ne_of_lt hk h.1
      rw [Tree.neighbours?, Nat.testBit_eq_decide_div_mod_eq] at hsome
      refine (Walked.getElem?_note_of_ne htop).trans ?_
      rcases List.mem_append.1 hmem with hmem | hmem
      · obtain ⟨hposition, ns, hns, hlen, -⟩ := fitsLeft.neighbours hmem
        rw [if_neg (by simp [hposition]), hns] at hsome
        cases hsome
        rcases Nat.lt_succ_iff_lt_or_eq.1 hk with hk | rfl
        · rw [List.getElem?_append_left (by omega), ← ihLeft hmem hns hk]
          -- what is noted in the right half is not beside a way through the left half
          refine Walked.getElem?_past_of_outside fitsRight ?_
          rw [beside_div hk, hposition]
          omega
        · rw [beside_of_inside hposition inside]
          rw [getElem?_concat_of_length hlen]
          exact Walked.getElem?_past_self
      · obtain ⟨hposition, ns, hns, hlen, -⟩ := fitsRight.neighbours hmem
        rw [if_pos (by simp [hposition]), hns] at hsome
        cases hsome
        rcases Nat.lt_succ_iff_lt_or_eq.1 hk with hk | rfl
        · rw [List.getElem?_append_left (by omega)]
          exact ihRight hmem hns hk
        · rw [beside_of_odd hposition inside]
          rw [getElem?_concat_of_length hlen]
          refine (Walked.getElem?_past_of_outside fitsRight ?_).trans Walked.getElem?_past_self
          rw [Nat.sub_self, Nat.pow_zero, Nat.div_one]
          omega
  | @single height position child fits last ih =>
      have htop {q : Nat} : ¬(k = height + 1 ∧ q = position) := fun h => Nat.ne_of_lt hk h.1
      refine (Walked.getElem?_note_of_ne htop).trans ?_
      obtain ⟨hposition, ns, hns, hlen, -⟩ := fits.neighbours hmem
      rw [Tree.neighbours?, hns] at hsome
      cases hsome
      rcases Nat.lt_succ_iff_lt_or_eq.1 hk with hk | rfl
      · rw [List.getElem?_append_left (by omega)]
        exact ih hmem hns hk
      · rw [beside_of_last hposition last]
        rw [getElem?_concat_of_length hlen]
        exact Walked.getElem?_past_self

-- ==================================================================== branches

namespace Rebuilt

/-- The neighbours from this level on, so many of them. -/
def neighbours? (r : Rebuilt) (index : Nat) : (levels level : Nat) → Run (Option (List Digest))
  | 0, _ => return some []
  | levels + 1, level => do
      let position ← shiftRight 32 index level
      let nodes ← treeWidth r.transactions level
      let beside := if nodes ≤ position ^^^ 1 then position else position ^^^ 1
      match r.nodes[(level, beside)]? with
      | none => return none
      | some hash =>
          let others ← neighbours? r index levels (level + 1)
          return others.map (hash :: ·)

/-- The branch of a leaf of interest, by the nodes that were noted. -/
def branchFor (r : Rebuilt) (leaf : Digest) : Run (Option Merkle.Branch) := do
  match r.found.find? (·.2 = leaf) with
  | none => return none
  | some (index, _) =>
      let height ← treeHeight r.transactions
      reserve height
      let hashes ← r.neighbours? index height 0
      return hashes.map fun hashes => ⟨hashes, UInt32.ofNat index⟩

/-- If the table has each node beside the path, those are the neighbours that are looked up, and no
arithmetic of the lookup traps. -/
private theorem neighbours?_eq {r : Rebuilt} (hcount : r.transactions < 2 ^ 32) {index level : Nat}
    {hashes : List Digest} (hlevel : level + hashes.length ≤ 32)
    (hnodes : ∀ k < hashes.length,
      r.nodes[(level + k, beside r.transactions index (level + k))]? = hashes[k]?) :
    r.neighbours? index hashes.length level = .ok (some hashes) := by
  induction hashes generalizing level with
  | nil => rfl
  | cons hash hashes ih =>
      have hfirst := hnodes 0 (Nat.zero_lt_succ _)
      rw [List.length_cons] at hlevel
      have hothers : r.neighbours? index hashes.length (level + 1) = .ok (some hashes) := by
        refine ih (by omega) fun k hk => ?_
        rw [Nat.add_right_comm, Nat.add_assoc]
        exact hnodes (k + 1) (Nat.succ_lt_succ hk)
      rw [List.length_cons, neighbours?, shiftRight_eq (by omega), ok_bind,
        treeWidth_eq hcount (show level < 64 by omega), ok_bind]
      show (match r.nodes[(level, beside r.transactions index level)]? with
        | none => _
        | some hash => _) = _
      rw [show r.nodes[(level, beside r.transactions index level)]? = some hash from hfirst]
      show (r.neighbours? index hashes.length (level + 1) >>= fun others => pure _) = _
      rw [hothers]
      rfl

/-- The branch that is looked up in the table of nodes is the one that is read off the tree. -/
theorem branchFor_of {p : PartialProof} {e : Extracted} (h : p.extract = .ok e) (leaf : Digest) :
    (of e).branchFor leaf = .ok (e.branchFor leaf) := by
  obtain ⟨htransactions, hfits⟩ := Merkle.PartialProof.extract_eq_ok h
  rw [← htransactions] at hfits
  have hcount := e.transactions.toNat_lt
  have hlow := height_le_32 hcount
  rw [branchFor, found_of, Extracted.branchFor]
  cases hfind : e.found.find? (·.2 = leaf) with
  | none => rfl
  | some out =>
      obtain ⟨index, hash⟩ := out
      have hmem := List.mem_of_find?_eq_some hfind
      obtain ⟨-, neighbours, hsome, hlen, -⟩ := hfits.neighbours hmem
      have hmachine : (of e).neighbours? index neighbours.length 0 = .ok (some neighbours) := by
        refine neighbours?_eq hcount (by omega) fun k hk => ?_
        rw [Nat.zero_add]
        exact getElem?_nodes_beside hfits hmem hsome (hlen ▸ hk)
      rw [hlen] at hmachine
      show (treeHeight e.transactions.toNat >>= fun height => _) = _
      rw [treeHeight_eq hcount, ok_bind, reserve_eq (by omega), ok_bind, hmachine, ok_bind]
      simp only [Option.bind_eq_bind, Option.bind_some, hsome]
      rfl

end Rebuilt

end MergedMining.Machine
