/-
Numbered tables of which no end is in sight.

A table that only the program has touched has no number that was put on a row from
outside, so its numbers do not run out, and adding to it and dropping from it is what it
is for a table without numbers. The table of a new store is such a table.
-/
import MergedMining.Proofs.Store.Calls
import MergedMining.Proofs.Store.Rows
import MergedMining.Proofs.Store.Sessions
import MergedMining.Store.Numbered

namespace MergedMining.Store

namespace Numbered

variable {ρ κ : Type} (clash : ρ → ρ → Bool) (kind : κ → ρ → Bool) (rows new : List ρ)

/-- A table with these rows, and numbers left for any others. -/
def endless (rows : List ρ) : Numbered ρ := ⟨rows, none, none⟩

/-- A table with numbers to spare inserts a row as a plain list does. -/
private theorem insert_endless (row : ρ) :
    (endless rows).insert clash row
      = some ((Table.insert clash rows row).1, endless (Table.insert clash rows row).2) := by
  have hfree : ¬(endless rows).free = some 0 := fun h => nomatch h
  rw [insert, if_neg hfree]
  by_cases h : rows.any (clash row) = true
  · have hinsert : Table.insert clash rows row = (false, rows) := if_pos h
    rw [show (endless rows).rows = rows from rfl, hinsert]
  · have hinsert : Table.insert clash rows row = (true, rows ++ [row]) := if_neg h
    rw [show (endless rows).rows = rows from rfl, hinsert]
    rfl

/-- It inserts rows as a plain list does. -/
theorem insertAll_endless :
    (endless rows).insertAll clash new
      = .ok ((Table.insertAll clash rows new).1, endless (Table.insertAll clash rows new).2) := by
  induction new generalizing rows with
  | nil => rfl
  | cons row new ih =>
      rw [insertAll, insert_endless]
      show ((endless (Table.insert clash rows row).2).insertAll clash new >>= _) = _
      rw [ih]
      rfl

/-- It deletes rows as a plain list does. -/
theorem deleteAll_endless (keys : List κ) :
    (endless rows).deleteAll kind keys = endless (Table.deleteAll kind rows keys).2 := by
  show (⟨_, none, if _ then none else none⟩ : Numbered ρ) = endless _
  rw [ite_self]
  rfl

end Numbered

-- ================================================================== operations

namespace NumberedTable

variable {τ ρ κ : Type} [Tables τ] {s : Store τ} (table : NumberedTable τ ρ) {rows : List ρ}

theorem guarded_add (row : ρ) (key : String) : Guarded (table.add row key) := Guarded.statement _

theorem guarded_addAll (new : List ρ) : Guarded (table.addAll new) := Guarded.transaction _

theorem guarded_removeAll (kind : κ → ρ → Bool) (keys : List κ) :
    Guarded (table.removeAll kind keys) :=
  Guarded.update _

/-- A row that clashes with none is added. -/
theorem run_add_of_free (hlink : s.link = .steady) (hget : table.get s.tables = .endless rows)
    {row : ρ} (hfree : ¬rows.any (table.clash row) = true) (key : String) :
    s.run (table.add row key)
      = (.ok (), ⟨table.set s.tables (.endless (rows ++ [row])), .steady⟩) := by
  have hinsert : Table.insert table.clash rows row = (true, rows ++ [row]) := if_neg hfree
  refine run_statement_of_commit hlink ?_
  rw [hget, Numbered.insert_endless, hinsert]

/-- A row that clashes with one is refused. -/
theorem run_add_of_taken (hlink : s.link = .steady) (hget : table.get s.tables = .endless rows)
    {row : ρ} (htaken : rows.any (table.clash row) = true) (key : String) :
    s.run (table.add row key) = (.error (.duplicate key), s) := by
  have hinsert : Table.insert table.clash rows row = (false, rows) := if_pos htaken
  refine run_statement_of_abandon hlink ?_
  rw [hget, Numbered.insert_endless, hinsert]

/-- Rows are added in one transaction. -/
theorem run_addAll (hlink : s.link = .steady) (hget : table.get s.tables = .endless rows)
    (new : List ρ) :
    s.run (table.addAll new)
      = (.ok (Table.insertAll table.clash rows new).1,
          ⟨table.set s.tables (.endless (Table.insertAll table.clash rows new).2), .steady⟩) := by
  refine run_of_commit hlink ?_
  rw [hget, Numbered.insertAll_endless]

/-- Rows are removed in one transaction. -/
theorem run_removeAll (hlink : s.link = .steady) (hget : table.get s.tables = .endless rows)
    (kind : κ → ρ → Bool) (keys : List κ) :
    s.run (table.removeAll kind keys)
      = (.ok (), ⟨table.set s.tables (.endless (Table.deleteAll kind rows keys).2), .steady⟩) := by
  rw [removeAll, run_update hlink, Part.modify, hget, Numbered.deleteAll_endless]

end NumberedTable

end MergedMining.Store
