/-
Keyed tables: rows in the order they were added, no two of which clash.

The first row of a key stays. Adding a row that clashes with one already there
changes nothing and says so; adding several at once is adding them in turn.
-/
namespace MergedMining.Store.Table

variable {ρ : Type}

/-- Adds a row behind the others, unless it clashes with one of them. Says whether
it was added. -/
def insert (clash : ρ → ρ → Bool) (rows : List ρ) (row : ρ) : Bool × List ρ :=
  if rows.any (clash row) then (false, rows) else (true, rows ++ [row])

/-- Adds rows in turn, and says of each whether it was added. -/
def insertAll (clash : ρ → ρ → Bool) (rows : List ρ) : List ρ → List Bool × List ρ
  | [] => ([], rows)
  | row :: others =>
      let (added, rows) := insert clash rows row
      let (rest, rows) := insertAll clash rows others
      (added :: rest, rows)

/-- Drops the rows of a kind, and says whether there was one. -/
def delete (kind : ρ → Bool) (rows : List ρ) : Bool × List ρ :=
  (rows.any kind, rows.filter (!kind ·))

/-- Drops the rows of each kind in turn, and says of each whether there was one. -/
def deleteAll {κ : Type} (kind : κ → ρ → Bool) (rows : List ρ) : List κ → List Bool × List ρ
  | [] => ([], rows)
  | key :: others =>
      let (found, rows) := delete (kind key) rows
      let (rest, rows) := deleteAll kind rows others
      (found :: rest, rows)

/-- The rows in ascending order of a key. Rows of one key keep their order. -/
def sorted (before : ρ → ρ → Bool) (rows : List ρ) : List ρ := rows.mergeSort before

end MergedMining.Store.Table
