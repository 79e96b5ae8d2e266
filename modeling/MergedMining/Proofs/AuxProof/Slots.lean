/-
Which chains share a slot of an auxiliary tree.

A slot is drawn with numbers that wrap at 2³², and what is drawn is cut to the size of
the tree. The size divides 2³², so nothing of the wrapping is seen in a slot. The
multiplier of the generator is odd, so a step of the generator takes numbers that differ
modulo the size to numbers that differ modulo it. The chain's number is added between two
steps. So two chains, or two nonces, meet in a slot exactly if they meet modulo the size:
a tree keeps as many chains apart as it has slots.

The check of a proof says no more than that about the chain: it is made on behalf of all
chains that meet in the slot, and refused for the others because of their slots.
-/
import Mathlib.Data.Nat.ModEq
import MergedMining.Proofs.AuxProof.Commitment

namespace MergedMining.AuxProof

-- =============================================================== the generator

/-- Wrapping at 2³² is not seen modulo a smaller power of two. -/
theorem wrap_modEq {k : Nat} (h : k ≤ 32) (n : Nat) : n % 2 ^ 32 ≡ n [MOD 2 ^ k] :=
  (Nat.mod_modEq n _).of_dvd (Nat.pow_dvd_pow 2 h)

private theorem toNat_add_modEq {k : Nat} (h : k ≤ 32) (a b : UInt32) :
    (a + b).toNat ≡ a.toNat + b.toNat [MOD 2 ^ k] := by
  rw [UInt32.toNat_add]
  exact wrap_modEq h _

/-- A draw multiplies and adds modulo every power of two that a word has room for. -/
private theorem toNat_draw_modEq {k : Nat} (h : k ≤ 32) (seed : UInt32) :
    (draw seed).toNat ≡ seed.toNat * 1103515245 + 12345 [MOD 2 ^ k] := by
  unfold draw
  rw [UInt32.toNat_add, UInt32.toNat_mul]
  exact (wrap_modEq h _).trans ((wrap_modEq h _).add_right _)

/-- A step of the generator keeps apart what differs modulo a power of two, and nothing
else. -/
theorem draw_modEq_draw_iff {k : Nat} (h : k ≤ 32) {seed seed' : UInt32} :
    (draw seed).toNat ≡ (draw seed').toNat [MOD 2 ^ k]
      ↔ seed.toNat ≡ seed'.toNat [MOD 2 ^ k] := by
  have hstep := toNat_draw_modEq h seed
  have hstep' := toNat_draw_modEq h seed'
  constructor
  · intro hdraw
    have hsum : seed.toNat * 1103515245 + 12345 ≡ seed'.toNat * 1103515245 + 12345 [MOD 2 ^ k] :=
      hstep.symm.trans (hdraw.trans hstep')
    -- the multiplier is odd
    have hodd : Nat.gcd (2 ^ k) 1103515245 = 1 := Nat.Coprime.pow_left k (by decide)
    exact Nat.ModEq.cancel_right_of_coprime hodd (Nat.ModEq.add_right_cancel' 12345 hsum)
  · intro hseed
    exact hstep.trans (((hseed.mul_right _).add_right _).trans hstep'.symm)

-- ======================================================================= slots

section Slots

variable {nonce nonce' chain chain' : UInt32} {depth : Nat}

/-- No tree has more slots than there are numbers to draw from. -/
theorem slot_eq (h : depth ≤ 32) :
    slot nonce chain depth
      = ((nonce.toNat * 1103515245 + 12345 + chain.toNat) * 1103515245 + 12345) % 2 ^ depth := by
  have hchain : (draw nonce + chain).toNat
      ≡ nonce.toNat * 1103515245 + 12345 + chain.toNat [MOD 2 ^ depth] :=
    (toNat_add_modEq h _ _).trans ((toNat_draw_modEq h nonce).add_right _)
  unfold slot
  rw [Nat.min_eq_left h]
  exact (toNat_draw_modEq h _).trans ((hchain.mul_right _).add_right _)

/-- A slot is one of those that the tree has. -/
private theorem slot_lt : slot nonce chain depth < 2 ^ min depth 32 :=
  Nat.mod_lt _ (Nat.two_pow_pos _)

/-- The last step of the generator does not bring two slots together. -/
theorem slot_eq_slot_iff :
    slot nonce chain depth = slot nonce' chain' depth
      ↔ (draw nonce).toNat + chain.toNat
          ≡ (draw nonce').toNat + chain'.toNat [MOD 2 ^ min depth 32] := by
  have hk : min depth 32 ≤ 32 := Nat.min_le_right ..
  have hadd := toNat_add_modEq hk (draw nonce) chain
  have hadd' := toNat_add_modEq hk (draw nonce') chain'
  calc slot nonce chain depth = slot nonce' chain' depth
      ↔ (draw nonce + chain).toNat ≡ (draw nonce' + chain').toNat [MOD 2 ^ min depth 32] :=
        draw_modEq_draw_iff hk
    _ ↔ _ := by
        constructor
        · intro h
          exact hadd.symm.trans (h.trans hadd')
        · intro h
          exact hadd.trans (h.trans hadd'.symm)

/-- For one nonce, two chains have one slot if their numbers agree modulo the slots there are. -/
private theorem slot_eq_iff_chain_modEq :
    slot nonce chain depth = slot nonce chain' depth
      ↔ chain.toNat ≡ chain'.toNat [MOD 2 ^ min depth 32] :=
  slot_eq_slot_iff.trans (Nat.ModEq.add_iff_left Nat.ModEq.rfl)

/-- For one chain, two nonces give one slot if they agree modulo the slots there are. -/
private theorem slot_eq_iff_nonce_modEq :
    slot nonce chain depth = slot nonce' chain depth
      ↔ nonce.toNat ≡ nonce'.toNat [MOD 2 ^ min depth 32] := by
  have hk : min depth 32 ≤ 32 := Nat.min_le_right ..
  exact slot_eq_slot_iff.trans
    ((Nat.ModEq.add_iff_right Nat.ModEq.rfl).trans (draw_modEq_draw_iff hk))

end Slots

/-- A slot is one of its tree. Two chains have the same slot exactly if their numbers agree
modulo the tree's size, and so it is with two nonces. -/
theorem slots_apart (nonce nonce' chain chain' : UInt32) (depth : Nat) :
    slot nonce chain depth < 2 ^ min depth 32
      ∧ (slot nonce chain depth = slot nonce chain' depth
          ↔ chain.toNat ≡ chain'.toNat [MOD 2 ^ min depth 32])
      ∧ (slot nonce chain depth = slot nonce' chain depth
          ↔ nonce.toNat ≡ nonce'.toNat [MOD 2 ^ min depth 32]) :=
  ⟨slot_lt, slot_eq_iff_chain_modEq, slot_eq_iff_nonce_modEq⟩

-- Two chains whose numbers differ in the highest bit part in a tree of depth 32.
example : slot 7 5 31 = slot 7 0x80000005 31 ∧ slot 7 5 32 ≠ slot 7 0x80000005 32 := by decide

-- ============================================================== other chains

/-- A proof that is accepted on behalf of one chain is accepted on behalf of every chain whose
number agrees with that one's modulo the tree's size. For any other chain its block is in the
wrong slot. -/
theorem check_other_chain {p : AuxProof} {block : Digest} {chain : UInt32}
    (h : p.check block chain = .ok ()) (other : UInt32) :
    (chain.toNat ≡ other.toNat [MOD 2 ^ p.auxBranch.hashes.length] →
        p.check block other = .ok ())
      ∧ (¬chain.toNat ≡ other.toNat [MOD 2 ^ p.auxBranch.hashes.length] →
        ∃ expected, p.auxBranch.index.toNat ≠ expected
          ∧ p.check block other = .error (.wrongSlot p.auxBranch.index.toNat expected)) := by
  obtain ⟨tail, h⟩ := check_eq_ok_iff.1 h
  have hdepth : p.auxBranch.hashes.length ≤ 32 := Nat.le_trans h.depth_le (by decide)
  constructor
  · intro hmeet
    rw [← Nat.min_eq_left hdepth] at hmeet
    have hslot := h.index_eq_slot
    rw [slot_eq_iff_chain_modEq.2 hmeet] at hslot
    exact check_eq_ok_iff.2 ⟨tail, { h with index_eq_slot := hslot }⟩
  · intro hmeet
    rw [← Nat.min_eq_left hdepth] at hmeet
    have hne : p.auxBranch.index.toNat
        ≠ slot (UInt32.ofNat (littleEndian ((tail.drop 4).take 4))) other
            p.auxBranch.hashes.length := by
      rw [h.index_eq_slot]
      exact mt slot_eq_iff_chain_modEq.1 hmeet
    obtain ⟨script, hscript, htail⟩ := h.committed
    refine ⟨_, hne, ?_⟩
    unfold check
    simp only [h.index_eq_zero, h.rootFrom_eq, Nat.not_lt.2 h.depth_le, hscript, htail,
      Outcome.ok_bind, Nat.not_lt.2 h.length_tail, h.size_eq, hne, if_true, if_false]
    rfl

end MergedMining.AuxProof
