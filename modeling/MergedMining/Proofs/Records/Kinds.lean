/-
The kinds of operations that stores are made of.

A store has a table of records, and beside it cursors and perhaps another table. What can be
done with it comes down to a few kinds: to look, to add records and to drop them, to empty all
tables, and to change what is beside the records. Of an operation of such a kind it is known
which edits of the records it makes and how it changes what is beside them. So what an operation
may do to its handle, and what it leaves, is said here once for all stores, and a store only
has to say of each of its calls of which kind it is.
-/
import MergedMining.Proofs.Records.Tables

namespace MergedMining.Store

-- ==================================================================== cursors

namespace Cursors

/-- What a call of a store does to its cursors. -/
inductive Mark where
  /-- It names a height to the cursor of a chain. -/
  | naming (chain : String) (height : UInt32)
  /-- It drops them all. -/
  | clear
  /-- It leaves them alone. -/
  | other
  deriving DecidableEq, Repr

/-- The cursors after a call. -/
def Mark.onCursors (cursors : Cursors) : Mark → Cursors
  | .naming chain height =>
      match cursors.advance chain height with
      | .ok (_, some moved) => moved
      | _ => cursors
  | .clear => []
  | .other => cursors

/-- The cursors after a height was named that could be. -/
theorem onCursors_of_advance {cursors : Cursors} {chain : String} {current height : UInt32}
    {moved : Option Cursors} (h : cursors.advance chain height = .ok (current, moved)) :
    (Mark.naming chain height).onCursors cursors = moved.getD cursors := by
  rw [Mark.onCursors, h]
  cases moved <;> rfl

/-- Naming a height to a cursor changes cursors only, whatever it answers. -/
theorem leaves_move {τ : Type} [Tables τ] {part : Part τ Cursors} (hpart : part.Lawful) (t : τ)
    (chain : String) (height : UInt32) :
    ∃ answer, Leaves (move part chain height) t answer fun after =>
      after = part.set t ((Mark.naming chain height).onCursors (part.get t)) := by
  have hsame : t = part.set t (part.get t) := (hpart.set_get t).symm
  cases hadvance : (part.get t).advance chain height with
  | ok answer =>
      obtain ⟨current, moved⟩ := answer
      rw [onCursors_of_advance hadvance]
      cases moved with
      | none => exact ⟨.ok current, t, run_of_abandon rfl (by simp only [hadvance]), hsame⟩
      | some moved =>
          exact ⟨.ok current, part.set t moved, run_of_commit rfl (by simp only [hadvance]), rfl⟩
  | error cause =>
      rw [Mark.onCursors, hadvance]
      exact ⟨.error cause, t, run_of_abandon rfl (by simp only [hadvance]), hsame⟩

end Cursors

-- ====================================================================== kinds

variable {τ ρ κ ν ω : Type} [Tables τ]

/-- What an operation is of a store that has a table of records and something beside it, with
the edits of the records that it makes and the change that it makes of the rest. -/
inductive Kind (table : NumberedTable τ ν) (row : ρ → ν) (named : κ → ν → Bool)
    (beside : τ → ω) : {α : Type} → Op τ α → List (Edit ρ κ) → (ω → ω) → Prop where
  | query {α : Type} (look : τ → Except Error α) :
      Kind table row named beside (Op.query look) [] id
  | add (key : ρ → String) (record : ρ) :
      Kind table row named beside (table.add (row record) (key record)) [.add record] id
  | addAll (new : List ρ) :
      Kind table row named beside (table.addAll (new.map row)) (new.map .add) id
  | removeAll (keys : List κ) :
      Kind table row named beside (table.removeAll named keys) (keys.map .drop) id
  | reset : Kind table row named beside Op.reset [.clear] fun _ => beside Tables.empty
  /-- It is about what is beside the records. -/
  | aside {α : Type} {op : Op τ α} {change : ω → ω} (hguarded : Guarded op)
      (hleaves : ∀ t, ∃ answer, Leaves op t answer fun after =>
        table.get after = table.get t ∧ beside after = change (beside t)) :
      Kind table row named beside op [] change
  | map {α β : Type} {op : Op τ α} {edits : List (Edit ρ κ)} {change : ω → ω} (f : α → β)
      (h : Kind table row named beside op edits change) :
      Kind table row named beside (f <$> op) edits change

namespace Kind

variable {table : NumberedTable τ ν} {row : ρ → ν} {named : κ → ν → Bool} {beside : τ → ω}
  {α : Type} {op : Op τ α} {edits : List (Edit ρ κ)} {change : ω → ω}

/-- A height is named to a cursor. -/
theorem move {part : Part τ Cursors} (hpart : part.Lawful)
    (htable : ∀ t cursors, table.get (part.set t cursors) = table.get t) {chain : String}
    {height : UInt32}
    (hbeside : ∀ t, beside (part.set t ((Cursors.Mark.naming chain height).onCursors (part.get t)))
      = change (beside t)) :
    Kind table row named beside (Cursors.move part chain height) ([] : List (Edit ρ κ)) change := by
  refine aside (Guarded.transaction _) fun t => ?_
  obtain ⟨answer, hleaves⟩ := Cursors.leaves_move hpart t chain height
  refine ⟨answer, hleaves.mono ?_⟩
  rintro _ rfl
  exact ⟨htable t _, hbeside t⟩

/-- A transaction always commits, and leaves the records alone. -/
theorem commit {act : τ → Ending τ α} {value : τ → α} {after : τ → τ}
    (hact : ∀ t, act t = .commit (value t) (after t))
    (htable : ∀ t, table.get (after t) = table.get t)
    (hbeside : ∀ t, beside (after t) = change (beside t)) :
    Kind table row named beside (Op.transaction act) ([] : List (Edit ρ κ)) change :=
  aside (Guarded.transaction _) fun t => ⟨_, Leaves.commit (hact t) ⟨htable t, hbeside t⟩⟩

/-- A change that leaves the table alone makes no edit. -/
theorem update {after : τ → τ} (htable : ∀ t, table.get (after t) = table.get t)
    (hbeside : ∀ t, beside (after t) = change (beside t)) :
    Kind table row named beside (Op.update after) ([] : List (Edit ρ κ)) change :=
  commit (fun _ => rfl) htable hbeside

/-- An operation of any kind does to its handle what it may. -/
theorem guarded (h : Kind table row named beside op edits change) : Guarded op := by
  induction h with
  | query look => exact Guarded.statement _
  | add key record => exact table.guarded_add _ _
  | addAll new => exact table.guarded_addAll _
  | removeAll keys => exact table.guarded_removeAll _ _
  | reset => exact Guarded.update _
  | aside hguarded => exact hguarded
  | map f _ ih => exact ih.map f

/-- An operation leaves the records after its edits, and its change of the rest. -/
theorem leaves (h : Kind table row named beside op edits change) {k : Keying ρ κ}
    (hof : table.Of k row named) (hbeside : ∀ t rows, beside (table.set t rows) = beside t)
    (hempty : table.get Tables.empty = .empty) {t : τ} {standing : List ρ}
    (ht : table.get t = .endless (standing.map row)) :
    ∃ answer, Leaves op t answer fun after =>
      table.get after = .endless ((k.editAll standing edits).map row)
        ∧ beside after = change (beside t) := by
  induction h with
  | query look => exact ⟨_, Leaves.query ⟨ht, rfl⟩⟩
  | add key record =>
      have hrun := hof.run_add (t := t) key standing record
      rw [← hof.eq_holding ht] at hrun
      exact ⟨_, _, hrun, hof.get_holding _ _, hbeside _ _⟩
  | addAll new =>
      have hrun := hof.run_addAll (t := t) standing new
      rw [← hof.eq_holding ht] at hrun
      exact ⟨_, _, hrun, hof.get_holding _ _, hbeside _ _⟩
  | removeAll keys =>
      have hrun := hof.run_removeAll (t := t) standing keys
      rw [← hof.eq_holding ht] at hrun
      exact ⟨_, _, hrun, hof.get_holding _ _, hbeside _ _⟩
  | reset => exact ⟨_, Leaves.update ⟨hempty, rfl⟩⟩
  | aside _ hleaves =>
      obtain ⟨answer, hleaves⟩ := hleaves t
      exact ⟨answer, hleaves.mono fun after hafter => ⟨hafter.1.trans ht, hafter.2⟩⟩
  | map f _ ih =>
      obtain ⟨answer, hleaves⟩ := ih
      exact ⟨_, hleaves.map f⟩

-- ================================================================== histories

open Callable

/-- If each call is of such a kind, the records are those that stand after the edits of the
calls, and what holds of the rest is what its changes keep. -/
theorem keeps [Callable τ] {k : Keying ρ κ} {edits : Call τ → List (Edit ρ κ)}
    {change : Call τ → ω → ω} (holds : List (Call τ) → ω → Prop)
    (hkind : ∀ c : Call τ, Kind table row named beside (Callable.op c) (edits c) (change c))
    (hof : table.Of k row named) (hbeside : ∀ t rows, beside (table.set t rows) = beside t)
    (hempty : table.get Tables.empty = .empty) (hnil : holds [] (beside Tables.empty))
    (hstep : ∀ {calls x}, holds calls x → ∀ c, holds (calls ++ [c]) (change c x)) :
    Keeps fun calls t => table.Tracks k row edits calls t ∧ holds calls (beside t) where
  empty := ⟨hempty, hnil⟩
  steady {calls t} h c := by
    obtain ⟨answer, hleaves⟩ := (hkind c).leaves hof hbeside hempty h.1
    refine ⟨answer, hleaves.mono fun after hafter => ⟨NumberedTable.tracks_concat hafter.1, ?_⟩⟩
    rw [hafter.2]
    exact hstep h.2 c
  closed t c := congrArg Prod.snd ((hkind c).guarded.closed t)

/-- The same, if nothing is said of the rest. -/
theorem keeps_table [Callable τ] {k : Keying ρ κ} {edits : Call τ → List (Edit ρ κ)}
    {change : Call τ → ω → ω}
    (hkind : ∀ c : Call τ, Kind table row named beside (Callable.op c) (edits c) (change c))
    (hof : table.Of k row named) (hbeside : ∀ t rows, beside (table.set t rows) = beside t)
    (hempty : table.get Tables.empty = .empty) : Keeps (table.Tracks k row edits) := by
  have h := keeps (fun _ _ => True) hkind hof hbeside hempty trivial fun _ _ => trivial
  simpa only [and_true] using h

end Kind

end MergedMining.Store
