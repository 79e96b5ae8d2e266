/-
Numbered tables: keyed tables whose rows are numbered as they are added.

A new row takes the number behind all numbers that were given out and behind all
that rows bear, so rows lie in the order of their numbers. No number is past
2⁶³ - 1. A table that got there takes no further row, not even one that clashes,
since a number is looked for first.

What is kept is how many numbers are left, and only where an end is in sight:
adding rows does not bring it in sight, but a row whose number was changed from
outside can. A number that was given out is used up for good. One that was put on
a row from outside counts while the row is there.
-/
import MergedMining.Store.Handle
import MergedMining.Store.Table

namespace MergedMining.Store

/-- The last number that a row can bear. -/
def lastNumber : Int := 2 ^ 63 - 1

/-- The rows of a table, and how many numbers are left for others. -/
structure Numbered (ρ : Type) where
  rows : List ρ
  /-- How many are left behind those that were given out, if an end is in sight. -/
  room : Option Nat
  /-- How many are left behind the number that was put on the only row from outside. -/
  above : Option Nat
  deriving DecidableEq, Repr

namespace Numbered

variable {ρ : Type} (clash : ρ → ρ → Bool)

/-- A table without rows. -/
def empty : Numbered ρ := ⟨[], none, none⟩

/-- How many rows can be added, if an end is in sight. -/
def free (t : Numbered ρ) : Option Nat := Option.merge min t.room t.above

/-- Adds a row behind the others, unless it clashes with one of them. Says whether it was
added; there is no answer if no number is left. -/
def insert (t : Numbered ρ) (row : ρ) : Option (Bool × Numbered ρ) :=
  if t.free = some 0 then none
  else
    match Table.insert clash t.rows row with
    | (true, rows) => some (true, ⟨rows, t.free.map (· - 1), none⟩)
    | (false, _) => some (false, t)

/-- Adds rows in turn, and says of each whether it was added, or which row no number is
left for. -/
def insertAll (t : Numbered ρ) : List ρ → Except ρ (List Bool × Numbered ρ)
  | [] => .ok ([], t)
  | row :: others =>
      match t.insert clash row with
      | none => .error row
      | some (added, t) => do
          let (rest, t) ← insertAll t others
          return (added :: rest, t)

/-- Adds a row if it can be added. -/
def offer (row : ρ) (t : Numbered ρ) : Numbered ρ :=
  match t.insert clash row with
  | some (_, t) => t
  | none => t

/-- Drops the rows of each kind in turn. -/
def deleteAll {κ : Type} (kind : κ → ρ → Bool) (keys : List κ) (t : Numbered ρ) : Numbered ρ :=
  let rows := (Table.deleteAll kind t.rows keys).2
  { t with rows, above := if rows.isEmpty then none else t.above }

/-- Changes every row and leaves the numbers. -/
def map (change : ρ → ρ) (t : Numbered ρ) : Numbered ρ := { t with rows := t.rows.map change }

/-- Puts a number on the only row. No two rows can bear one number, so nothing is done to
several. -/
def renumber (number : Int) (t : Numbered ρ) : Numbered ρ :=
  match t.rows with
  | [_] => { t with above := some (lastNumber - number).toNat }
  | _ => t

end Numbered

-- ============================================================== operations

/-- A numbered table of a store, and which of its rows clash. -/
structure NumberedTable (τ ρ : Type) extends Part τ (Numbered ρ) where
  clash : ρ → ρ → Bool

namespace NumberedTable

variable {τ ρ : Type} [Tables τ] (table : NumberedTable τ ρ)

/-- Adds a row that is not there yet; `key` is what a failure calls it. -/
def add (row : ρ) (key : String) : Op τ Unit :=
  .statement fun t =>
    match (table.get t).insert table.clash row with
    | some (true, rows) => .commit () (table.set t rows)
    | some (false, _) => .abandon (.error (.duplicate key))
    | none => .giveUp (table.modify (Numbered.offer table.clash row))

/-- Adds rows, and says of each whether it was new. -/
def addAll (rows : List ρ) : Op τ (List Bool) :=
  .transaction fun t =>
    match (table.get t).insertAll table.clash rows with
    | .ok (added, rows) => .commit added (table.set t rows)
    | .error row => .giveUp (table.modify (Numbered.offer table.clash row))

/-- Drops the rows of each kind in turn. -/
def removeAll {κ : Type} (kind : κ → ρ → Bool) (keys : List κ) : Op τ Unit :=
  .update (table.modify (Numbered.deleteAll kind keys))

end NumberedTable

end MergedMining.Store
