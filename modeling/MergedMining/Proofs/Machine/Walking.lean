/-
Walking a partial proof on a machine.

How far a level of a tree goes is computed with shifts, and the height of a tree by looking
for the level that is one node wide, so a count of 32 bits has a tree of at most 32 levels and
no shift comes near the width of a word. The walk keeps two cursors, one over the flags and one
over the hashes, and a table of the nodes it met. It stays on its levels: a node that is met
has a position its level has, and then so have its children, which is why a doubled position
fits into 32 bits even for the highest count. What the walk leaves behind is told by the tree
that is rebuilt.
-/
import MergedMining.Proofs.Machine.Word
import MergedMining.Proofs.Merkle.Building
import Std.Data.HashMap.Lemmas

namespace MergedMining.Machine

open Merkle (Fault Tree Supply PartialProof Extracted)

-- ===================================================================== levels

/-- How many nodes a tree has at this height. -/
def treeWidth (count height : Nat) : Run Nat := do
  let below ← shiftLeft wordBits 1 height
  let sum ← plus wordBits count below
  let last ← minus sum 1
  let nodes ← shiftRight wordBits last height
  return nodes % 2 ^ 32

/-- No level is wider than the leaves are many. -/
private theorem width_le (count height : Nat) : Merkle.width count height ≤ count := by
  refine Nat.le_of_not_lt fun h => ?_
  have hmul : count * 1 ≤ count * 2 ^ height := Nat.mul_le_mul_left _ (Nat.two_pow_pos height)
  have := Merkle.lt_width_iff.1 h
  omega

/-- The width of a level is computed without a trap if its height is less than the bits of a
word. -/
theorem treeWidth_eq {count height : Nat} (hcount : count < 2 ^ 32) (hheight : height < wordBits) :
    treeWidth count height = .ok (Merkle.width count height) := by
  have hpos : 0 < 2 ^ height := Nat.two_pow_pos height
  have hpow : 2 ^ height ≤ 2 ^ 63 := Nat.pow_le_pow_right (by decide) (Nat.le_of_lt_succ hheight)
  have hbits : 2 ^ wordBits = 2 ^ 64 := rfl
  have hwidth : (count + 2 ^ height - 1) / 2 ^ height = Merkle.width count height := rfl
  have hfits : Merkle.width count height < 2 ^ 32 := Nat.lt_of_le_of_lt (width_le ..) hcount
  rw [treeWidth, shiftLeft_eq hheight (by omega), Nat.one_mul, ok_bind,
    plus_eq (by omega), ok_bind, minus_eq (by omega), ok_bind,
    shiftRight_eq hheight, ok_bind, hwidth, Nat.mod_eq_of_lt hfits]
  rfl

/-- A width was computed at a height that a word can be shifted by. -/
private theorem lt_wordBits_of_treeWidth {count height nodes : Nat}
    (h : treeWidth count height = .ok nodes) : height < wordBits := by
  by_contra hheight
  rw [treeWidth, shiftLeft, if_neg hheight] at h
  cases h

/-- Looks for the first level from this one on that has one node. -/
def climb (count height : Nat) : Run Nat :=
  match _h : treeWidth count height with
  | .error trap => .error trap
  | .ok nodes =>
      if 1 < nodes then do
        let _ ← plus 32 height 1
        climb count (height + 1)
      else .ok height
termination_by wordBits - height
decreasing_by
  have := lt_wordBits_of_treeWidth _h
  omega

/-- The climb goes on as long as the level has more than one node. -/
private theorem climb_of_width {count height nodes : Nat} (h : treeWidth count height = .ok nodes) :
    climb count height
      = if 1 < nodes then do
          let _ ← plus 32 height 1
          climb count (height + 1)
        else .ok height := by
  rw [climb]
  split
  · next trap htrap => rw [h] at htrap; cases htrap
  · next hnodes => rw [h] at hnodes; cases hnodes; rfl

/-- The height of a tree with so many leaves. -/
def treeHeight (count : Nat) : Run Nat := climb count 0

/-- A tree over a count of 32 bits has no more levels than that. -/
theorem height_le_32 {count : Nat} (hcount : count < 2 ^ 32) : Merkle.height count ≤ 32 :=
  Merkle.height_le (Nat.le_of_lt hcount)

/-- From a level that is not above the root the climb ends at the root. -/
private theorem climb_eq {count height : Nat} (hcount : count < 2 ^ 32)
    (hheight : height ≤ Merkle.height count) : climb count height = .ok (Merkle.height count) := by
  have hlow := height_le_32 hcount
  have hbits : wordBits = 64 := rfl
  have hwidth := treeWidth_eq hcount (show height < wordBits by omega)
  induction hsteps : Merkle.height count - height generalizing height with
  | zero =>
      have htop : ¬1 < Merkle.width count height :=
        fun h => absurd (Merkle.lt_height_iff.2 h) (by omega)
      rw [climb_of_width hwidth, if_neg htop]
      exact congrArg _ (by omega)
  | succ steps ih =>
      have hbelow : 1 < Merkle.width count height := Merkle.lt_height_iff.1 (by omega)
      rw [climb_of_width hwidth, if_pos hbelow, plus_eq (by omega), ok_bind]
      exact ih (by omega) (treeWidth_eq hcount (by omega)) (by omega)

/-- The height of a tree of fewer than 2 ^ 32 leaves is computed without a trap. -/
theorem treeHeight_eq {count : Nat} (hcount : count < 2 ^ 32) :
    treeHeight count = .ok (Merkle.height count) := climb_eq hcount (Nat.zero_le _)

-- ======================================================================= flags

/-- A flag stands in the byte and at the bit that its place tells. -/
theorem getElem?_unpackBits (flags : Bytes) (place : Nat) :
    (Merkle.unpackBits flags)[place]?
      = flags[place / 8]?.map fun byte => byte.toNat.testBit (place % 8) := by
  induction flags generalizing place with
  | nil => rfl
  | cons byte rest ih =>
      have hbyte : (Merkle.byteBits byte).length = 8 := by
        rw [Merkle.byteBits, List.length_map, List.length_range]
      rw [Merkle.unpackBits, List.flatMap_cons, ← Merkle.unpackBits]
      by_cases hplace : place < 8
      · rw [List.getElem?_append_left (by omega), Merkle.byteBits, List.getElem?_map,
          List.getElem?_range hplace, Nat.div_eq_of_lt hplace, Nat.mod_eq_of_lt hplace]
        rfl
      · rw [List.getElem?_append_right (by omega), hbyte, ih,
          show place / 8 = (place - 8) / 8 + 1 by omega, List.getElem?_cons_succ,
          show (place - 8) % 8 = place % 8 by omega]

-- ======================================================================== walk

/-- Of the nodes met, by height and position. -/
abbrev Nodes := Std.HashMap (Nat × Nat) Digest

/-- How far a walk has come. -/
structure Walked where
  bitsUsed : Nat
  hashesUsed : Nat
  /-- The leaves of interest, each with its position. -/
  found : List (Nat × Digest)
  nodes : Nodes

namespace Walked

def start : Walked := ⟨0, 0, [], ∅⟩

def passBit (walked : Walked) : Walked := { walked with bitsUsed := walked.bitsUsed + 1 }

def passHash (walked : Walked) : Walked := { walked with hashesUsed := walked.hashesUsed + 1 }

/-- A leaf of interest was found. -/
def find (walked : Walked) (position : Nat) (hash : Digest) : Walked :=
  { walked with found := walked.found ++ [(position, hash)] }

/-- The hash of a node was noted. -/
def note (walked : Walked) (height position : Nat) (hash : Digest) : Walked :=
  { walked with nodes := walked.nodes.insert (height, position) hash }

/-- What the cursors have not passed yet. -/
def supply (walked : Walked) (p : PartialProof) : Supply :=
  ⟨(Merkle.unpackBits p.flags).drop walked.bitsUsed, p.hashes.drop walked.hashesUsed⟩

end Walked

/-- Walks on, finds a fault, or traps. -/
abbrev Walker := StateT Walked (ExceptT Fault Run)

section Walk

variable (p : PartialProof)

/-- Takes the next flag bit, which is a bit of a byte. -/
def nextBit : Walker Bool := do
  let walked ← get
  match p.flags[walked.bitsUsed / 8]? with
  | none => throw .bitsExhausted
  | some byte =>
      let bit ← shiftRight 8 byte.toNat (walked.bitsUsed % 8)
      let bitsUsed ← plus wordBits walked.bitsUsed 1
      set { walked with bitsUsed }
      return bit % 2 = 1

/-- Takes the next hash. -/
def nextHash : Walker Digest := do
  let walked ← get
  match p.hashes[walked.hashesUsed]? with
  | none => throw .hashesExhausted
  | some hash =>
      let hashesUsed ← plus wordBits walked.hashesUsed 1
      set { walked with hashesUsed }
      return hash

/-- Traps unless the level goes that far. -/
def enter (count height position : Nat) : Run Unit := do
  let nodes ← treeWidth count height
  if position < nodes then pure () else .error .offLevel

/-- Rebuilds the node at this height and position, which has to be one of its level. -/
def traverse : (height position : Nat) → Walker Digest
  | 0, position => do
      enter p.transactions.toNat 0 position
      let on ← nextBit p
      let hash ← nextHash p
      if on then modify (·.find position hash)
      modify (·.note 0 position hash)
      return hash
  | height + 1, position => do
      enter p.transactions.toNat (height + 1) position
      if ← nextBit p then
        let double ← times 32 position 2
        let left ← traverse height double
        let double ← times 32 position 2
        let next ← plus 32 double 1
        let nodes ← treeWidth p.transactions.toNat height
        if next < nodes then
          let right ← traverse height next
          if right = left then throw .duplicateChild
          modify (·.note (height + 1) position (Digest.pair left right))
          return Digest.pair left right
        else
          modify (·.note (height + 1) position (Digest.pair left left))
          return Digest.pair left left
      else
        let hash ← nextHash p
        modify (·.note (height + 1) position hash)
        return hash

end Walk

/-- What is left of a walk that ended well. -/
structure Rebuilt where
  root : Digest
  found : List (Nat × Digest)
  transactions : Nat
  nodes : Nodes

/-- Walks over a whole tree. -/
def extract (p : PartialProof) : ExceptT Fault Run Rebuilt := do
  let count := p.transactions.toNat
  if count = 0 then throw .noTransactions
  if count < p.hashes.length then throw .tooManyHashes
  let bits ← times wordBits p.flags.length 8
  if bits < p.hashes.length then throw .tooFewBits
  let height ← treeHeight count
  let (root, walked) ← (traverse p height 0).run .start
  unless walked.hashesUsed = p.hashes.length do throw .unusedHashes
  let bytes ← divideUp wordBits walked.bitsUsed 8
  if bytes ≠ p.flags.length then throw .unusedFlags
  return ⟨root, walked.found, count, walked.nodes⟩

namespace Rebuilt

/-- Whether a leaf is among those that were found. -/
def contains (r : Rebuilt) (leaf : Digest) : Bool := r.found.any (·.2 = leaf)

end Rebuilt

-- =================================================================== agreement

namespace Walked

/-- The cursors are not beyond the ends. -/
structure Within (walked : Walked) (p : PartialProof) : Prop where
  bits : walked.bitsUsed ≤ p.flags.length * 8
  hashes : walked.hashesUsed ≤ p.hashes.length

section Within

variable {walked : Walked} {p : PartialProof}

/-- All hashes were used if none is left in the supply. -/
private theorem Within.hashesUsed_eq_iff (h : walked.Within p) :
    walked.hashesUsed = p.hashes.length ↔ (walked.supply p).hashes.isEmpty = true := by
  have := h.hashes
  rw [supply, List.isEmpty_iff, List.drop_eq_nil_iff]
  omega

/-- Bytes are left over where eight flags are. -/
theorem Within.bytesUsed_ne_iff (h : walked.Within p) :
    (walked.bitsUsed + 8 - 1) / 8 ≠ p.flags.length ↔ 8 ≤ (walked.supply p).bits.length := by
  have := h.bits
  rw [supply, List.length_drop, Merkle.length_unpackBits]
  omega

end Within

/-- How far a walk has come after a tree was rebuilt at this height and position. -/
def past : Tree → (height position : Nat) → Walked → Walked
  | .cut hash, height, position, walked => walked.passBit.passHash.note height position hash
  | .leaf hash, height, position, walked =>
      (walked.passBit.passHash.find position hash).note height position hash
  | .fork hash left right, height, position, walked =>
      let afterLeft := past left (height - 1) (2 * position) walked.passBit
      (past right (height - 1) (2 * position + 1) afterLeft).note height position hash
  | .single hash child, height, position, walked =>
      (past child (height - 1) (2 * position) walked.passBit).note height position hash

end Walked

section Mirrors

variable {p : PartialProof} {α β γ δ : Type}

/-- From here the machine's walk does what the other does on what is left, and where that ends
well the view of what it gives is what the machine has then. -/
structure Mirrors (p : PartialProof) (walked : Walked) (m : Walker α) (r : Merkle.Walk β)
    (view : β → α × Walked) : Prop where
  yields : Yields (m.run walked) ((fun out => view out.1) <$> r (walked.supply p))
  left : ∀ ⦃b left⦄, r (walked.supply p) = .ok (b, left) →
    left = (view b).2.supply p ∧ (view b).2.Within p

namespace Mirrors

variable {walked : Walked} {m : Walker α} {r : Merkle.Walk β} {view : β → α × Walked}
  {f : α → Walker γ} {g : β → Merkle.Walk δ} {view' : δ → γ × Walked}

/-- A walk that mirrors a read may be followed by anything that yields what follows the read. -/
theorem yields_bind {after : α × Walked → ExceptT Fault Run γ}
    {after' : β × Supply → Except Fault γ} (h : Mirrors p walked m r view)
    (hnext : ∀ b, (view b).2.Within p → Yields (after (view b)) (after' (b, (view b).2.supply p))) :
    Yields (m.run walked >>= after) (r (walked.supply p) >>= after') := by
  have hyields := h.yields
  cases hr : r (walked.supply p) with
  | error fault =>
      rw [hr] at hyields
      exact hyields.bind (g := fun _ => .error fault) fun _ hout => (nomatch hout)
  | ok out =>
      obtain ⟨b, left⟩ := out
      obtain ⟨rfl, hwithin⟩ := h.left hr
      rw [hr] at hyields
      refine hyields.bind (g := fun _ => after' (b, (view b).2.supply p)) fun out hout => ?_
      cases hout
      exact hnext b hwithin

/-- Two walks in turn mirror two reads in turn. -/
protected theorem bind (h : Mirrors p walked m r view)
    (hnext : ∀ b, (view b).2.Within p → Mirrors p (view b).2 (f (view b).1) (g b) view') :
    Mirrors p walked (m >>= f) (r >>= g) view' where
  yields := by
    have hbind : (r >>= g) (walked.supply p)
        = r (walked.supply p) >>= fun out => g out.1 out.2 := rfl
    rw [hbind, map_bind, StateT.run_bind]
    exact h.yields_bind fun b hwithin => (hnext b hwithin).yields
  left := by
    intro d left hd
    obtain ⟨b, between, hr, hd⟩ := Merkle.Walk.bind_eq_ok.1 hd
    obtain ⟨rfl, hwithin⟩ := h.left hr
    exact (hnext b hwithin).left hd

/-- What does not trap is passed. -/
theorem lift {a : α} {op : Run α} (hop : op = .ok a) {r : Merkle.Walk δ}
    (h : Mirrors p walked (f a) r view') :
    Mirrors p walked ((liftM op : Walker α) >>= f) r view' := by
  subst hop
  exact h

/-- A walk that faults as the read does mirrors it. -/
theorem fails (fault : Fault) (hm : m.run walked = throw fault)
    (hr : r (walked.supply p) = .error fault) : Mirrors p walked m r view where
  yields := by
    rw [hm, hr]
    rfl
  left := by
    intro b left hb
    rw [hr] at hb
    cases hb

/-- A walk that gives what the read gives, and stays within the proof, mirrors it. -/
theorem gives (b : β) (hm : m.run walked = pure (view b))
    (hr : r (walked.supply p) = .ok (b, (view b).2.supply p)) (hwithin : (view b).2.Within p) :
    Mirrors p walked m r view where
  yields := by
    rw [hm, hr]
    rfl
  left := by
    intro b' left hb
    rw [hr] at hb
    cases hb
    exact ⟨rfl, hwithin⟩

/-- The machine only notes what it has. -/
theorem done {b : β} (hm : m.run walked = pure (view b))
    (hbits : (view b).2.bitsUsed = walked.bitsUsed)
    (hhashes : (view b).2.hashesUsed = walked.hashesUsed) (hwithin : walked.Within p) :
    Mirrors p walked m (pure b) view := by
  refine .gives b hm ?_ ⟨?_, ?_⟩
  · rw [Walked.supply, Walked.supply, hbits, hhashes]
    rfl
  · rw [hbits]
    exact hwithin.bits
  · rw [hhashes]
    exact hwithin.hashes

protected theorem throw (fault : Fault) :
    Mirrors p walked (throw fault : Walker α) (throw fault) view := .fails fault rfl rfl

end Mirrors

section Walk

variable {walked : Walked}

/-- The next bit is taken out of its byte by a shift of fewer than eight places. -/
private theorem mirrors_nextBit (hflags : Addressable p.flags) (hwithin : walked.Within p) :
    Mirrors p walked (nextBit p) Merkle.Walk.bit fun b => (b, walked.passBit) := by
  have hplace := getElem?_unpackBits p.flags walked.bitsUsed
  cases hbit : (Merkle.unpackBits p.flags)[walked.bitsUsed]? with
  | none =>
      have hbyte := Option.map_eq_none_iff.1 (hplace.symm.trans hbit)
      have hleft := List.drop_eq_nil_of_le (List.getElem?_eq_none_iff.1 hbit)
      refine .fails .bitsExhausted ?_ ?_
      · simp only [nextBit, StateT.run_bind, StateT.run_get, pure_bind, hbyte]
        rfl
      · rw [Walked.supply, hleft]
        rfl
  | some b =>
      obtain ⟨byte, hbyte, hb⟩ := Option.map_eq_some_iff.1 (hplace.symm.trans hbit)
      obtain ⟨hlt, hget⟩ := List.getElem?_eq_some_iff.1 hbit
      have hleft := List.drop_eq_getElem_cons hlt
      rw [hget] at hleft
      rw [Merkle.length_unpackBits] at hlt
      -- a byte string that can be addressed has fewer bits than a word counts
      have hfits : walked.bitsUsed + 1 < 2 ^ wordBits := by
        have : p.flags.length < 2 ^ 56 := hflags
        have : 2 ^ wordBits = 2 ^ 64 := rfl
        omega
      refine .gives b ?_ ?_ ⟨hlt, hwithin.hashes⟩
      · simp only [nextBit, StateT.run_bind, StateT.run_get, pure_bind, hbyte,
          shiftRight_eq (Nat.mod_lt walked.bitsUsed (show 0 < 8 by decide)), plus_eq hfits]
        rw [← hb, Nat.testBit_eq_decide_div_mod_eq]
        rfl
      · rw [Walked.supply, hleft]
        rfl

/-- The next hash is the one at the number of hashes that were used. -/
private theorem mirrors_nextHash (hhashes : p.hashes.length < 2 ^ wordBits)
    (hwithin : walked.Within p) :
    Mirrors p walked (nextHash p) Merkle.Walk.hash fun hash => (hash, walked.passHash) := by
  cases hhash : p.hashes[walked.hashesUsed]? with
  | none =>
      have hleft := List.drop_eq_nil_of_le (List.getElem?_eq_none_iff.1 hhash)
      refine .fails .hashesExhausted ?_ ?_
      · simp only [nextHash, StateT.run_bind, StateT.run_get, pure_bind, hhash]
        rfl
      · rw [Walked.supply, hleft]
        rfl
  | some hash =>
      obtain ⟨hlt, hget⟩ := List.getElem?_eq_some_iff.1 hhash
      have hleft := List.drop_eq_getElem_cons hlt
      rw [hget] at hleft
      have hfits : walked.hashesUsed + 1 < 2 ^ wordBits := by omega
      refine .gives hash ?_ ?_ ⟨hwithin.bits, hlt⟩
      · simp only [nextHash, StateT.run_bind, StateT.run_get, pure_bind, hhash, plus_eq hfits]
        rfl
      · rw [Walked.supply, hleft]
        rfl

/-- A node inside its level is entered. -/
private theorem enter_eq {count height position : Nat} (hcount : count < 2 ^ 32)
    (hheight : height < wordBits) (hposition : position < Merkle.width count height) :
    enter count height position = .ok () := by
  rw [enter, treeWidth_eq hcount hheight, ok_bind, if_pos hposition]
  rfl

/-- Where a walk comes to a node of its level, it does not leave the levels below. -/
theorem mirrors_traverse (hflags : Addressable p.flags) (hhashes : p.hashes.length < 2 ^ wordBits)
    {height position : Nat} (hheight : height < wordBits)
    (hposition : position < Merkle.width p.transactions.toNat height) (hwithin : walked.Within p) :
    Mirrors p walked (traverse p height position)
      (Merkle.Walk.node p.transactions.toNat height position)
      fun tree => (tree.hash, Walked.past tree height position walked) := by
  have hcount := p.transactions.toNat_lt
  induction height generalizing position walked with
  | zero =>
      rw [traverse, Merkle.Walk.node]
      refine .lift (enter_eq hcount hheight hposition) ?_
      refine (mirrors_nextBit hflags hwithin).bind fun on hwithin => ?_
      cases on
      · exact (mirrors_nextHash hhashes hwithin).bind fun hash hwithin => .done rfl rfl rfl hwithin
      · exact (mirrors_nextHash hhashes hwithin).bind fun hash hwithin => .done rfl rfl rfl hwithin
  | succ height ih =>
      have hbelow := Merkle.two_mul_lt_width hposition
      have hle := width_le p.transactions.toNat height
      -- the children of a node inside its level have positions that fit
      have hdouble : times 32 position 2 = .ok (2 * position) := by
        rw [times_eq (by omega), Nat.mul_comm]
      rw [traverse, Merkle.Walk.node]
      refine .lift (enter_eq hcount hheight hposition) ?_
      refine (mirrors_nextBit hflags hwithin).bind fun on hwithin => ?_
      cases on
      · exact (mirrors_nextHash hhashes hwithin).bind fun hash hwithin => .done rfl rfl rfl hwithin
      · refine .lift hdouble ?_
        refine (ih (by omega) hbelow hwithin).bind fun left hwithin => ?_
        refine .lift hdouble (.lift (plus_eq (by omega)) ?_)
        refine .lift (treeWidth_eq hcount (by omega)) ?_
        by_cases inside : 2 * position + 1 < Merkle.width p.transactions.toNat height
        · rw [if_pos inside, if_pos inside]
          refine (ih (by omega) inside hwithin).bind fun right hwithin => ?_
          by_cases same : right.hash = left.hash
          · rw [if_pos same, if_pos same]
            exact .throw _
          · rw [if_neg same, if_neg same]
            exact .done rfl rfl rfl hwithin
        · rw [if_neg inside, if_neg inside]
          exact .done rfl rfl rfl hwithin

/-- Beyond the end of its level a walk traps. -/
theorem traverse_offLevel {height position : Nat} (hheight : height < wordBits)
    (h : ¬position < Merkle.width p.transactions.toNat height) :
    ((traverse p height position).run walked).run = .error .offLevel := by
  have henter : enter p.transactions.toNat height position = .error .offLevel := by
    rw [enter, treeWidth_eq p.transactions.toNat_lt hheight, ok_bind, if_neg h]
  cases height with
  | zero =>
      rw [traverse, henter]
      rfl
  | succ height =>
      rw [traverse, henter]
      rfl

end Walk

end Mirrors

-- ================================================================== extraction

namespace Rebuilt

/-- What a machine keeps of an extracted proof. -/
def of (e : Extracted) : Rebuilt :=
  let walked := Walked.past e.tree (Merkle.height e.transactions.toNat) 0 .start
  ⟨e.root, walked.found, e.transactions.toNat, walked.nodes⟩

end Rebuilt

/-- Extraction with arithmetic that can trap yields what extraction without it says. -/
theorem extract_yields {p : PartialProof} (hflags : Addressable p.flags) :
    Yields (ExceptT.adapt Merkle.Error.malformed (extract p)) (Rebuilt.of <$> p.extract) := by
  have hcount := p.transactions.toNat_lt
  have hbits : 2 ^ wordBits = 2 ^ 64 := rfl
  have hlen : p.flags.length < 2 ^ 56 := hflags
  have hmap (checked : Except Fault Extracted) :
      Rebuilt.of <$> checked.mapError Merkle.Error.malformed
        = (Rebuilt.of <$> checked).mapError .malformed := by cases checked <;> rfl
  rw [PartialProof.extract, hmap, extract]
  refine Yields.adapt ?_ _
  simp only [map_bind, apply_ite (Functor.map Rebuilt.of)]
  refine .ite (fun _ => throw_yields _) fun hzero => ?_
  refine .ite (fun _ => throw_yields _) fun hmany => ?_
  refine .lift (times_eq (by omega)) ?_
  refine .ite (fun _ => throw_yields _) fun hfew => ?_
  refine .lift (treeHeight_eq hcount) ?_
  have hroot : 0 < Merkle.width p.transactions.toNat (Merkle.height p.transactions.toNat) := by
    rw [Merkle.lt_width_iff]
    omega
  have hlow := height_le_32 hcount
  have hwalk := mirrors_traverse hflags (by omega) (show _ < 64 by omega) hroot
    (show Walked.start.Within p from ⟨Nat.zero_le _, Nat.zero_le _⟩)
  refine hwalk.yields_bind fun tree hwithin => ?_
  refine .ite_of_iff hwithin.hashesUsed_eq_iff (fun _ => ?_) fun _ => throw_yields _
  have hused := hwithin.bits
  refine .lift (divideUp_eq (by decide) (by omega)) ?_
  exact .ite_of_iff hwithin.bytesUsed_ne_iff (fun _ => throw_yields _) fun _ => rfl

namespace Walked

/-- The walk reveals the tree's leaves, behind those it had found. -/
theorem found_past (tree : Tree) (height position : Nat) (walked : Walked) :
    (past tree height position walked).found = walked.found ++ tree.leaves position := by
  induction tree generalizing height position walked with
  | cut hash => exact (List.append_nil _).symm
  | leaf hash => rfl
  | fork hash left right ihLeft ihRight =>
      show (past right _ _ (past left _ _ _)).found = _
      rw [ihRight, ihLeft, List.append_assoc]
      rfl
  | single hash child ih =>
      show (past child _ _ _).found = _
      rw [ih]
      rfl

end Walked

namespace Rebuilt

theorem found_of (e : Extracted) : (of e).found = e.found :=
  (Walked.found_past ..).trans (List.nil_append _)

theorem contains_of (e : Extracted) (leaf : Digest) : (of e).contains leaf = e.contains leaf := by
  rw [contains, found_of, Extracted.contains]

end Rebuilt

end MergedMining.Machine
