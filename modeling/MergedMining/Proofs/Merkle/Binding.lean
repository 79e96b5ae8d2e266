/-
One root, one list of leaves.

A tree that pads its odd levels has the root of the longer tree whose last leaves are repeated
in place of the padding. Where all leaves are revealed the walk looks at every node. At a node
where one of two trees has two children and the other pads, the children of the first have one
digest, and such children the walk refuses. So two trees of one height that get through and
have one root are the same tree from the top down, or two of their pairs collide. How many
leaves there are is not asked: it comes out the same.
-/
import MergedMining.Proofs.Merkle.Rebuilding

namespace MergedMining.Merkle

-- ================================================================= one node

/-- Nodes with one digest have the same children, or their pairs collide. -/
theorem children_eq_or {a b c d : Digest} {these those : List Bytes}
    (h : Digest.pair a b = Digest.pair c d) :
    (a = c ∧ b = d)
      ∨ CollidesWith (Digest.pairBytes a b :: these) (Digest.pairBytes c d :: those) := by
  rcases CollidesWith.eq_or List.mem_cons_self List.mem_cons_self h with hbytes | hc
  · exact Or.inl (Digest.pairBytes_inj hbytes)
  · exact Or.inr hc

-- ============================================================== whole trees

namespace Tree

/-- No node of the tree is cut. -/
def Whole : Tree → Prop
  | .cut _ => False
  | .leaf _ => True
  | .fork _ left right => left.Whole ∧ right.Whole
  | .single _ child => child.Whole

variable {m n height p q : Nat} {s t : Tree}

/-- Whole trees of one height with one root are the same tree, or two of their pairs collide. -/
theorem Fits.eq_of_hash_eq (hs : s.Fits m height p) (ht : t.Fits n height q) (hsw : s.Whole)
    (htw : t.Whole) (hroot : s.hash = t.hash) : s = t ∨ CollidesWith s.pairs t.pairs := by
  induction hs generalizing q t with
  | cut height position hash => exact hsw.elim
  | leaf position hash =>
      cases ht with
      | cut => exact htw.elim
      | leaf position' hash' =>
          obtain rfl : hash = hash' := hroot
          exact Or.inl rfl
  | @fork height position left right fitsLeft inside fitsRight different ihLeft ihRight =>
      cases ht with
      | cut => exact htw.elim
      | @fork _ _ left' right' fitsLeft' inside' fitsRight' different' =>
          rcases children_eq_or hroot with ⟨hleft, hright⟩ | hc
          · rcases ihLeft fitsLeft' hsw.1 htw.1 hleft with rfl | hc
            · rcases ihRight fitsRight' hsw.2 htw.2 hright with rfl | hc
              · exact Or.inl rfl
              · refine Or.inr (hc.mono ?_ ?_)
                · exact List.subset_cons_of_subset _ (List.subset_append_right ..)
                · exact List.subset_cons_of_subset _ (List.subset_append_right ..)
            · refine Or.inr (hc.mono ?_ ?_)
              · exact List.subset_cons_of_subset _ (List.subset_append_left ..)
              · exact List.subset_cons_of_subset _ (List.subset_append_left ..)
          · exact Or.inr hc
      | @single _ _ child fits last =>
          -- the other tree pads where this one has two children, which would have to be alike
          rcases children_eq_or hroot with ⟨hleft, hright⟩ | hc
          · exact absurd (hright.trans hleft.symm) different
          · exact Or.inr hc
  | @single height position child fits last ih =>
      cases ht with
      | cut => exact htw.elim
      | @fork _ _ left right fitsLeft inside fitsRight different =>
          rcases children_eq_or hroot with ⟨hleft, hright⟩ | hc
          · exact absurd (hright.symm.trans hleft) different
          · exact Or.inr hc
      | @single _ _ child' fits' last' =>
          rcases children_eq_or hroot with ⟨hchild, -⟩ | hc
          · rcases ih fits' hsw htw hchild with rfl | hc
            · exact Or.inl rfl
            · exact Or.inr (hc.mono (List.subset_cons_self ..) (List.subset_cons_self ..))
          · exact Or.inr hc

end Tree

-- ========================================================= all leaves wanted

/-- Every leaf is wanted. -/
def allWanted (leaves : List Digest) : List Bool := List.replicate leaves.length true

section AllWanted

variable {leaves : List Digest} {height position : Nat} {tree : Tree} {bits : List Bool}
  {hashes : List Digest}

@[simp] theorem length_allWanted : (allWanted leaves).length = leaves.length :=
  List.length_replicate

private theorem getElem?_allWanted {index : Nat} (h : index < leaves.length) :
    (allWanted leaves)[index]? = some true := by
  simp [allWanted, h]

/-- Some wanted leaf is below every node. -/
theorem wantedBelow_allWanted (h : position < width leaves.length height) :
    WantedBelow (allWanted leaves) height position := by
  have hindex : position * 2 ^ height < leaves.length := lt_width_iff.1 h
  exact ⟨_, getElem?_allWanted hindex, Nat.mul_div_cancel _ (Nat.two_pow_pos height)⟩

/-- Nothing is pruned from a tree of which all leaves are wanted. -/
theorem Pruned.whole (h : Pruned leaves (allWanted leaves) height position tree bits hashes) :
    tree.Whole := by
  induction h with
  | cut node off =>
      have hthere := (List.getElem?_eq_some_iff.1 node).1
      rw [length_level] at hthere
      exact off (wantedBelow_allWanted hthere)
  | leaf node on => exact True.intro
  | single on below last ih => exact ih
  | fork on belowLeft inside belowRight ihLeft ihRight => exact ⟨ihLeft, ihRight⟩

/-- If all leaves are marked, all are revealed at their positions. -/
private theorem mem_revealed_allWanted_iff {index : Nat} {leaf : Digest} :
    (index, leaf) ∈ revealed (leaves.zip (allWanted leaves)) 0 ↔ leaves[index]? = some leaf := by
  rw [mem_revealed_iff, and_iff_left_iff_imp]
  intro hleaf
  exact getElem?_allWanted (List.getElem?_eq_some_iff.1 hleaf).1

namespace PartialProof

variable {blockHash : Digest} {blockHeight : UInt32} {p : PartialProof} {e : Extracted}

/-- The proof of all leaves gives back the whole tree, and with it all leaves. -/
theorem whole_of_build (hbuild : build blockHash blockHeight leaves (allWanted leaves) = .ok p)
    (hcount : leaves.length < 2 ^ 32) (hextract : p.extract = .ok e) :
    e.transactions = UInt32.ofNat leaves.length
      ∧ e.tree.Whole
      ∧ e.tree.Fits leaves.length (Merkle.height leaves.length) 0
      ∧ ∀ index leaf, (index, leaf) ∈ e.found ↔ leaves[index]? = some leaf := by
  obtain ⟨-, htransactions, hlen, tree, bits, hpruned, hflags⟩ := pruned_of_build hbuild hcount
  have hback : p.transactions.toNat = leaves.length := by
    rw [htransactions]
    exact UInt32.toNat_ofNat_of_lt' hcount
  obtain ⟨-, hfits⟩ := extract_eq_ok hextract
  obtain ⟨-, rfl⟩ := (hpruned.extract_eq_ok_iff hlen hback hflags).1 hextract
  rw [hback] at hfits
  refine ⟨htransactions, hpruned.whole, hfits, fun index leaf => ?_⟩
  rw [Extracted.found, hpruned.leaves_root_eq hlen]
  exact mem_revealed_allWanted_iff

/-- The proofs of all leaves of two lists whose trees are of one height can be built. If both
get through and have one root, the lists are the same, or two different pairs hashed in the two
walks have one digest. -/
theorem leaves_eq_of_root_eq {xs ys : List Digest} (blockHash₁ blockHash₂ : Digest)
    (blockHeight₁ blockHeight₂ : UInt32) (hxs : xs ≠ []) (hys : ys ≠ [])
    (hcountx : xs.length < 2 ^ 32) (hcounty : ys.length < 2 ^ 32)
    (hheight : Merkle.height xs.length = Merkle.height ys.length) :
    ∃ p q, build blockHash₁ blockHeight₁ xs (allWanted xs) = .ok p
      ∧ build blockHash₂ blockHeight₂ ys (allWanted ys) = .ok q
      ∧ ∀ e f, p.extract = .ok e → q.extract = .ok f → e.root = f.root →
        (xs = ys ∧ e = f) ∨ CollidesWith e.tree.pairs f.tree.pairs := by
  obtain ⟨p, hp⟩ : ∃ p, build blockHash₁ blockHeight₁ xs (allWanted xs) = .ok p :=
    ⟨_, build_eq_ok_iff.2 ⟨hxs, length_allWanted, rfl⟩⟩
  obtain ⟨q, hq⟩ : ∃ q, build blockHash₂ blockHeight₂ ys (allWanted ys) = .ok q :=
    ⟨_, build_eq_ok_iff.2 ⟨hys, length_allWanted, rfl⟩⟩
  refine ⟨p, q, hp, hq, fun e f he hf hroot => ?_⟩
  obtain ⟨htransactionsx, hwholex, hfitsx, hfoundx⟩ := whole_of_build hp hcountx he
  obtain ⟨htransactionsy, hwholey, hfitsy, hfoundy⟩ := whole_of_build hq hcounty hf
  rw [← hheight] at hfitsy
  rcases hfitsx.eq_of_hash_eq hfitsy hwholex hwholey hroot with htree | hc
  · -- the same tree reveals the same leaves, and these are all that the lists have
    have hfound : e.found = f.found := by
      unfold Extracted.found
      rw [htree]
    have hlists : xs = ys := by
      apply List.ext_getElem?
      intro index
      apply Option.ext
      intro leaf
      rw [← hfoundx, ← hfoundy, hfound]
    subst hlists
    have htransactions : e.transactions = f.transactions :=
      htransactionsx.trans htransactionsy.symm
    obtain ⟨transactions, tree⟩ := e
    obtain ⟨transactions', tree'⟩ := f
    subst htree htransactions
    exact Or.inl ⟨rfl, rfl⟩
  · exact Or.inr hc

/-- Two proofs over the same three leaves have one root, and the same tree or a collision. -/
theorem leaves_eq_of_root_eq_threeLeaves :
    threeLeaves ≠ [] ∧ threeLeaves.length < 2 ^ 32
      ∧ ∃ p q e f, build Digest.zero 7 threeLeaves (allWanted threeLeaves) = .ok p
        ∧ build (Digest.ofNumber 5) 8 threeLeaves (allWanted threeLeaves) = .ok q
        ∧ p.extract = .ok e ∧ q.extract = .ok f ∧ e.root = f.root
        ∧ (e = f ∨ CollidesWith e.tree.pairs f.tree.pairs) := by
  have hne : threeLeaves ≠ [] := List.cons_ne_nil _ _
  have hcount : threeLeaves.length < 2 ^ 32 := by decide
  have hback : (UInt32.ofNat threeLeaves.length).toNat = threeLeaves.length :=
    UInt32.toNat_ofNat_of_lt' hcount
  obtain ⟨p, q, hp, hq, hall⟩ :=
    leaves_eq_of_root_eq Digest.zero (Digest.ofNumber 5) 7 8 hne hne hcount hcount rfl
  obtain ⟨-, hpcount, hlen, s, sbits, hs, hsflags⟩ := pruned_of_build hp hcount
  obtain ⟨-, hqcount, -, t, tbits, ht, htflags⟩ := pruned_of_build hq hcount
  have he := (hs.extract_eq_ok_iff hlen (by rw [hpcount, hback]) hsflags).2
    ⟨not_repeats_threeLeaves, rfl⟩
  have hf := (ht.extract_eq_ok_iff hlen (by rw [hqcount, hback]) htflags).2
    ⟨not_repeats_threeLeaves, rfl⟩
  -- both trees have the root of the leaves on top
  have hroot : s.hash = t.hash :=
    Option.some.inj (hs.getElem?_level.symm.trans ht.getElem?_level)
  exact ⟨hne, hcount, p, q, _, _, hp, hq, he, hf, hroot,
    (hall _ _ he hf hroot).imp_left And.right⟩

end PartialProof

end AllWanted

end MergedMining.Merkle
