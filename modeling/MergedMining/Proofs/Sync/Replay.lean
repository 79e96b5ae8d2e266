/-
What the effects of a block do to the rows of outputs, and that a block that was cut
off anywhere can be handled again.

A block has two effects at the most, and each of them is committed on its own. So a
block can be cut off before its first effect, between the two, or behind its last.
Handling it from the beginning then ends in the rows in which handling it at once
would have ended: recording twice is recording once, and so is handling twice.
-/
import MergedMining.Proofs.Store.Rows
import MergedMining.Sync

namespace MergedMining

open Store

namespace UtxoRow

private theorem clash_refl (r : UtxoRow) : r.clash r = true := decide_eq_true rfl

/-- Rows that clash are under the same outpoint. -/
private theorem isOutpoint_congr {address : String} {outpoint : String × UInt16} {r q : UtxoRow}
    (h : r.clash q = true) :
    SideStore.isOutpoint address outpoint r = SideStore.isOutpoint address outpoint q := by
  unfold SideStore.isOutpoint
  rw [of_decide_eq_true h]

end UtxoRow

namespace Sync

/-- The rows of outputs after an effect. -/
def Effect.onRows (address : String) (rows : List UtxoRow) : Effect → List UtxoRow
  | .record utxos => (Table.insertAll UtxoRow.clash rows (utxos.map .ofUtxo)).2
  | .drop outpoints => (Table.deleteAll (SideStore.isOutpoint address) rows outpoints).2

namespace Tracker

variable (t : Tracker) {block : Node.Block} {rows : List UtxoRow}

/-- The rows of outputs after several effects. -/
def settle (effects : List Effect) (rows : List UtxoRow) : List UtxoRow :=
  effects.foldl (Effect.onRows t.address) rows

/-- The rows of outputs after a block. -/
def handle (block : Node.Block) (rows : List UtxoRow) : List UtxoRow :=
  t.settle (t.effects block) rows

-- ================================================================= one block

/-- A block records and then drops; an effect that is left out would change nothing. -/
theorem handle_eq :
    t.handle block rows
      = (Table.deleteAll (SideStore.isOutpoint t.address)
          (Table.insertAll UtxoRow.clash rows ((t.received block).map .ofUtxo)).2
          (spent block)).2 := by
  unfold handle effects
  cases t.received block with
  | nil =>
      cases spent block with
      | nil => rfl
      | cons o os => rfl
  | cons u us =>
      cases spent block with
      | nil => rfl
      | cons o os => rfl

/-- A block that is handled twice leaves what it leaves when it is handled once. -/
private theorem handle_handle : t.handle block (t.handle block rows) = t.handle block rows := by
  rw [handle_eq, handle_eq]
  exact Table.deleteAll_insertAll_again UtxoRow.clash_refl
    fun _ _ _ h => UtxoRow.isOutpoint_congr h

private theorem onRows_record_again (utxos : List Utxo) :
    Effect.onRows t.address (Effect.onRows t.address rows (.record utxos)) (.record utxos)
      = Effect.onRows t.address rows (.record utxos) :=
  Table.insertAll_insertAll UtxoRow.clash_refl

/-- A block has one effect at the most, or it records and then drops. -/
theorem effects_cases (block : Node.Block) :
    (t.effects block).length ≤ 1
      ∨ t.effects block = [.record (t.received block), .drop (spent block)] := by
  dsimp only [effects]
  cases (t.received block).isEmpty with
  | true =>
      cases (spent block).isEmpty with
      | true => exact Or.inl (Nat.zero_le 1)
      | false => exact Or.inl (Nat.le_refl 1)
  | false =>
      cases (spent block).isEmpty with
      | true => exact Or.inl (Nat.le_refl 1)
      | false => exact Or.inr rfl

/-- An effect with another behind it is the first of its block, and records. -/
theorem eq_record_of_effects {effect next : Effect} {done todo : List Effect}
    (h : t.effects block = done ++ effect :: next :: todo) :
    done = [] ∧ effect = .record (t.received block) := by
  rcases t.effects_cases block with hone | htwo
  · rw [h, List.length_append, List.length_cons, List.length_cons] at hone
    omega
  · rw [htwo] at h
    cases done with
    | nil =>
        injection h with heffect
        exact ⟨rfl, heffect.symm⟩
    | cons first done =>
        have hlen := congrArg List.length h
        simp only [List.length_append, List.length_cons, List.length_nil] at hlen
        omega

/-- One more effect of a block does not change where handling the block again ends. -/
theorem handle_onRows {effect : Effect} {done todo : List Effect}
    (heffects : t.effects block = done ++ effect :: todo)
    (hrows : t.settle (effect :: todo) rows = t.handle block rows) :
    t.handle block (effect.onRows t.address rows) = t.handle block rows := by
  cases todo with
  | nil =>
      -- it was the last, so the block was handled
      have hlast : effect.onRows t.address rows = t.handle block rows := hrows
      rw [hlast]
      exact t.handle_handle
  | cons next todo =>
      -- it was the first, and records what the block records again
      obtain ⟨rfl, rfl⟩ := t.eq_record_of_effects heffects
      unfold handle settle
      rw [heffects, List.nil_append, List.foldl_cons, List.foldl_cons, List.foldl_cons,
        List.foldl_cons, t.onRows_record_again]

end Tracker

end Sync

end MergedMining
