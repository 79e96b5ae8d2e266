/-
Merkle trees over a list of leaves, and the branch that ties one leaf to the
root.

A level is halved by pairing neighbours; a last node without a neighbour is
paired with itself. A branch lists, from the leaf up, the neighbour met on each
level, and its index tells on which side the running hash stands: bit `i` is set
when it is the right one at level `i`. Index bits above the branch's height are
refused, as they tell no side.
-/
import MergedMining.Wire.Format

namespace MergedMining.Merkle

-- =============================================================== failures

/-- What is wrong with a partial proof. -/
inductive Fault where
  /-- There is not one flag for each leaf. -/
  | matchLength
  | noTransactions
  | tooManyHashes
  | tooFewBits
  | bitsExhausted
  | hashesExhausted
  /-- A right child equals its left neighbour. -/
  | duplicateChild
  /-- The walk left hashes over. -/
  | unusedHashes
  /-- The walk left whole flag bytes over. -/
  | unusedFlags
  deriving DecidableEq, Repr

/-- What is said of a proof that is malformed. -/
def Fault.message : Fault → String
  | .matchLength => "match vector length"
  | .noTransactions => "no transactions"
  | .tooManyHashes => "more hashes than transactions"
  | .tooFewBits => "fewer flag bits than hashes"
  | .bitsExhausted => "ran out of flag bits"
  | .hashesExhausted => "ran out of hashes"
  | .duplicateChild => "duplicate right child"
  | .unusedHashes => "unused hashes"
  | .unusedFlags => "unused flag bytes"

/-- Why a tree or a branch is not built. -/
inductive Error where
  | noLeaves
  | indexOutOfRange (index count : Nat)
  | malformed (fault : Fault)
  deriving DecidableEq, Repr

/-- What is said of a tree or a branch that is not built. -/
def Error.message : Error → String
  | .noLeaves => "empty leaf set"
  | .indexOutOfRange index count => s!"leaf index {index} out of range for {count} leaves"
  | .malformed fault => "malformed partial merkle proof: " ++ fault.message

-- ================================================================= levels

/-- The level above: neighbours paired, a last odd node with itself. -/
def nextLevel : List Digest → List Digest
  | a :: b :: rest => Digest.pair a b :: nextLevel rest
  | [a] => [Digest.pair a a]
  | [] => []

theorem length_nextLevel (level : List Digest) :
    (nextLevel level).length = (level.length + 1) / 2 := by
  fun_induction nextLevel level with
  | case1 a b rest ih => simp only [List.length_cons, ih]; omega
  | case2 a => simp
  | case3 => rfl

/-- The root of the tree whose leaves are `first` and then `others`. -/
def rootOf (first : Digest) (others : List Digest) : Digest :=
  match others with
  | [] => first
  | second :: rest => rootOf (Digest.pair first second) (nextLevel rest)
termination_by others.length
decreasing_by
  rw [length_nextLevel, List.length_cons]
  omega

/-- The root of the tree over these leaves. -/
def root : List Digest → Except Error Digest
  | [] => .error .noLeaves
  | first :: others => .ok (rootOf first others)

-- =============================================================== branches

/-- The neighbours from a leaf to the root, and the leaf's position. -/
structure Branch where
  /-- One hash for each level, the leaf's first. -/
  hashes : List Digest
  index : UInt32
  deriving DecidableEq, Inhabited, Repr

/-- The neighbour of a position: the other node of its pair, or the node itself
when it is the last of an odd level. -/
def neighbour (level : List Digest) (position : Nat) : Digest :=
  (level[position ^^^ 1]? <|> level[position]?).getD Digest.zero

/-- The neighbours of `position` on all levels of the tree over `first` and then
`others`. -/
def neighbours (first : Digest) (others : List Digest) (position : Nat) : List Digest :=
  match others with
  | [] => []
  | second :: rest =>
      neighbour (first :: second :: rest) position
        :: neighbours (Digest.pair first second) (nextLevel rest) (position / 2)
termination_by others.length
decreasing_by
  rw [length_nextLevel, List.length_cons]
  omega

/-- The branch of the leaf at this index. -/
def branch (leaves : List Digest) (index : Nat) : Except Error Branch :=
  match leaves with
  | [] => .error .noLeaves
  | first :: others =>
      if index < leaves.length then
        .ok ⟨neighbours first others index, UInt32.ofNat index⟩
      else .error (.indexOutOfRange index leaves.length)

/-- The neighbours of `position` on all levels of the tree over `first` and then
`others`, and the root above them, in one walk up the levels. -/
def climb (first : Digest) (others : List Digest) (position : Nat) : List Digest × Digest :=
  match others with
  | [] => ([], first)
  | second :: rest =>
      let (above, top) := climb (Digest.pair first second) (nextLevel rest) (position / 2)
      (neighbour (first :: second :: rest) position :: above, top)
termination_by others.length
decreasing_by
  rw [length_nextLevel, List.length_cons]
  omega

/-- The branch of the leaf at `index`, together with the root it leads to. -/
def branchAndRoot (leaves : List Digest) (index : Nat) : Except Error (Branch × Digest) :=
  match leaves with
  | [] => .error .noLeaves
  | first :: others =>
      if index < leaves.length then
        let (hashes, top) := climb first others index
        .ok (⟨hashes, UInt32.ofNat index⟩, top)
      else .error (.indexOutOfRange index leaves.length)

/-- Folds neighbours onto a hash, the index telling its side on each level. -/
def fold (running : Digest) : List Digest → (index : Nat) → Digest
  | [], _ => running
  | neighbour :: rest, index =>
      fold
        (if index % 2 = 1 then Digest.pair neighbour running else Digest.pair running neighbour)
        rest (index / 2)

namespace Branch

/-- The branch of a tree that has one leaf. -/
def empty : Branch := ⟨[], 0⟩

/-- The root that this branch leads to from a leaf. -/
def rootFrom (b : Branch) (leaf : Digest) : Digest := fold leaf b.hashes b.index.toNat

/-- The index has no bit above the branch's height, and the branch leads from the
leaf to the root. -/
def verify (b : Branch) (leaf root : Digest) : Bool :=
  b.index.toNat < 2 ^ b.hashes.length && b.rootFrom leaf = root

end Branch

/-- A branch travels as its hashes behind their count and then its index. -/
instance : Wire Branch where
  write b := Wire.writeSeq b.hashes ++ Wire.writeU32 b.index
  read := do
    let hashes ← Wire.readSeq
    let index ← Wire.Reader.u32
    return ⟨hashes, index⟩
  leastSize := 5

end MergedMining.Merkle
