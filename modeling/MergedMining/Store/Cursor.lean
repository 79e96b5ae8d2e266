/-
Height cursors: for each chain, the height below which every block was handled.

A cursor is moved by naming a height. It only moves up; naming a height at or
below it reads it, and naming zero always reads it. One height is set aside to
send it back to zero.
-/
import MergedMining.Store.Handle

namespace MergedMining.Store

/-- The cursors that were ever moved, by chain. -/
abbrev Cursors := List (String × Int)

/-- The height that sends a cursor back to zero. -/
def resetHeight : UInt32 := 0xffffffff

namespace Cursors

/-- The cursor of a chain, zero if it was never moved. -/
def stored (cursors : Cursors) (chain : String) : Except Error UInt32 :=
  match cursors.lookup chain with
  | some value => as32 "height" value
  | none => .ok 0

/-- The cursors after that of a chain was put at a height. -/
def set (cursors : Cursors) (chain : String) (height : UInt32) : Cursors :=
  match cursors with
  | [] => [(chain, height.toNat)]
  | (name, value) :: rest =>
      if name = chain then (name, (height.toNat : Int)) :: rest
      else (name, value) :: set rest chain height

/-- Moves the cursor of a chain up to a height, or back to zero. The value is where it
stands afterwards, and the cursors if it was moved. -/
def advance (chain : String) (height : UInt32) (cursors : Cursors) :
    Except Error (UInt32 × Option Cursors) := do
  let current ← cursors.stored chain
  if height = resetHeight then return (0, some (cursors.set chain 0))
  else if current < height then return (height, some (cursors.set chain height))
  else return (current, none)

/-- Moves the cursor of a chain in a store up; the value is where it stands. The
transaction is abandoned if there is nothing to move. -/
def move {τ : Type} [Tables τ] (part : Part τ Cursors) (chain : String) (height : UInt32) :
    Op τ UInt32 :=
  .transaction fun t =>
    match (part.get t).advance chain height with
    | .ok (current, some cursors) => .commit current (part.set t cursors)
    | .ok (current, none) => .abandon (.ok current)
    | .error e => .abandon (.error e)

end Cursors

end MergedMining.Store
