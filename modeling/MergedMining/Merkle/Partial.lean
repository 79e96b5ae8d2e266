/-
Partial proofs: a block's tree with everything pruned that does not lead to a
leaf of interest.

The proof lists, depth first, one flag for each node met. A flag that is off, or
any flag at a leaf, takes the node's hash from the proof; a flag that is on above
the leaves descends into the node's children. Rebuilding the tree yields the
root, the leaves that were flagged, and a branch for each of them.

Two real children of one node must differ. Otherwise a tree with its last leaves
repeated would have the root of the tree without the repetition.
-/
import MergedMining.Merkle.Branch

namespace MergedMining.Merkle

-- ================================================================== shape

/-- How many nodes a tree over `count` leaves has at this height. -/
def width (count height : Nat) : Nat := (count + 2 ^ height - 1) / 2 ^ height

/-- The height of a tree over `count` leaves: the least at which it has one node. -/
def height (count : Nat) : Nat := if count ≤ 1 then 0 else (count - 1).log2 + 1

-- ================================================================== flags

/-- The number whose binary digits these are, the least first. -/
def bitsValue : List Bool → Nat
  | [] => 0
  | b :: rest => b.toNat + 2 * bitsValue rest

/-- Packs flags eight to a byte, the first in the lowest bit. -/
def packBits (bits : List Bool) : Bytes :=
  match bits with
  | [] => []
  | b :: rest => UInt8.ofNat (bitsValue (b :: rest.take 7)) :: packBits (rest.drop 7)
termination_by bits.length
decreasing_by
  rw [List.length_drop, List.length_cons]
  omega

/-- The eight flags of a byte, the lowest bit first. -/
def byteBits (byte : UInt8) : List Bool := (List.range 8).map byte.toNat.testBit

/-- The flags packed into a byte string. -/
def unpackBits (bytes : Bytes) : List Bool := bytes.flatMap byteBits

-- ================================================================= proofs

/-- A block's tree, pruned down to the leaves of interest. -/
structure PartialProof where
  blockHash : Digest
  height : UInt32
  transactions : UInt32
  /-- The hashes of the nodes at which the tree is cut, depth first. -/
  hashes : List Digest
  /-- The flags of the nodes met, depth first, packed. -/
  flags : Bytes
  deriving DecidableEq, Inhabited, Repr

/-- The proof's fields in order, hashes and flags behind their counts. -/
instance : Wire PartialProof where
  write p :=
    p.blockHash.bytes ++ Wire.writeU32 p.height ++ Wire.writeU32 p.transactions
      ++ Wire.writeSeq p.hashes ++ Wire.writeVarBytes p.flags
  read := do
    let blockHash ← Wire.read
    let height ← Wire.Reader.u32
    let transactions ← Wire.Reader.u32
    let hashes ← Wire.readSeq
    let flags ← Wire.Reader.varBytes
    return { blockHash, height, transactions, hashes, flags }

-- =============================================================== building

/-- A leaf and whether it is of interest. -/
abbrev Marked := Digest × Bool

/-- The hash of the subtree of this height over a stretch of leaves. A stretch
without a right half is paired with itself. -/
def subtreeHash : (height : Nat) → List Marked → Digest
  | 0, stretch => (stretch.head?.map Prod.fst).getD Digest.zero
  | height + 1, stretch =>
      let left := subtreeHash height (stretch.take (2 ^ height))
      let right :=
        match stretch.drop (2 ^ height) with
        | [] => left
        | rest => subtreeHash height rest
      Digest.pair left right

/-- The flags and the hashes, depth first, of the subtree of this height over a
stretch of leaves. -/
def prune : (height : Nat) → List Marked → List Bool × List Digest
  | 0, stretch => ([stretch.any Prod.snd], [subtreeHash 0 stretch])
  | height + 1, stretch =>
      if stretch.any Prod.snd then
        let left := prune height (stretch.take (2 ^ height))
        let right :=
          match stretch.drop (2 ^ height) with
          | [] => ([], [])
          | rest => prune height rest
        (true :: (left.1 ++ right.1), left.2 ++ right.2)
      else ([false], [subtreeHash (height + 1) stretch])

/-- The leaves that a proof with this count tells of. A count has 32 bits: one that wrapped
around tells of that many leaves from the first one on, and one that wrapped around to zero of
the first leaf, which is not of interest then. -/
def covered (count : UInt32) (leaves : List Digest) (wanted : List Bool) : List Marked :=
  if count = 0 then (leaves.take 1).map (·, false) else (leaves.zip wanted).take count.toNat

/-- The proof that reveals exactly the marked leaves, if their number fits its count. -/
def PartialProof.build (blockHash : Digest) (height : UInt32) (leaves : List Digest)
    (wanted : List Bool) : Except Error PartialProof :=
  if leaves.isEmpty then .error .noLeaves
  else if wanted.length ≠ leaves.length then .error (.malformed .matchLength)
  else
    let transactions := UInt32.ofNat leaves.length
    let cut := prune (Merkle.height transactions.toNat) (covered transactions leaves wanted)
    .ok {
      blockHash, height, transactions
      hashes := cut.2
      flags := packBits cut.1 }

-- ============================================================= rebuilding

/-- A rebuilt tree. Every node carries its hash. -/
inductive Tree where
  /-- Nothing below this node is known. -/
  | cut (hash : Digest)
  /-- A leaf of interest. -/
  | leaf (hash : Digest)
  | fork (hash : Digest) (left right : Tree)
  /-- A node whose only child is paired with itself. -/
  | single (hash : Digest) (child : Tree)
  deriving Repr

namespace Tree

/-- The hash at the top of a pruned tree. -/
def hash : Tree → Digest
  | .cut h => h
  | .leaf h => h
  | .fork h _ _ => h
  | .single h _ => h

/-- The leaves of interest from left to right, each with its position, in a tree
whose top node has this height and position. -/
def leaves : (tree : Tree) → (position : Nat) → List (Nat × Digest)
  | .cut _, _ => []
  | .leaf h, position => [(position, h)]
  | .fork _ left right, position => left.leaves (2 * position) ++ right.leaves (2 * position + 1)
  | .single _ child, position => child.leaves (2 * position)

/-- The neighbours, the lowest first, on the way down a tree of this height to the
leaf whose index within the tree is given. -/
def neighbours? : (tree : Tree) → (height index : Nat) → Option (List Digest)
  | _, 0, _ => some []
  | .cut _, _ + 1, _ => none
  | .leaf _, _ + 1, _ => none
  | .fork _ left right, height + 1, index =>
      if index.testBit height then (right.neighbours? height index).map (· ++ [left.hash])
      else (left.neighbours? height index).map (· ++ [right.hash])
  | .single _ child, height + 1, index =>
      (child.neighbours? height index).map (· ++ [child.hash])

end Tree

/-- What the walk has not used yet. -/
structure Supply where
  bits : List Bool
  hashes : List Digest

/-- A walk takes flags and hashes off its supply, or finds a fault. -/
abbrev Walk (α : Type) := StateT Supply (Except Fault) α

/-- Takes the next flag bit. -/
def Walk.bit : Walk Bool := fun supply =>
  match supply.bits with
  | [] => .error .bitsExhausted
  | b :: rest => .ok (b, { supply with bits := rest })

/-- Takes the next hash. -/
def Walk.hash : Walk Digest := fun supply =>
  match supply.hashes with
  | [] => .error .hashesExhausted
  | h :: rest => .ok (h, { supply with hashes := rest })

/-- Rebuilds the node at this height and position of the tree over `count`
leaves, and all that the proof reveals below it. -/
def Walk.node (count : Nat) : (height position : Nat) → Walk Tree
  | 0, _ => do
      if ← bit then return .leaf (← hash) else return .cut (← hash)
  | height + 1, position => do
      if ← bit then
        let left ← node count height (2 * position)
        if 2 * position + 1 < width count height then
          let right ← node count height (2 * position + 1)
          if right.hash = left.hash then throw .duplicateChild
          return .fork (Digest.pair left.hash right.hash) left right
        else return .single (Digest.pair left.hash left.hash) left
      else return .cut (← hash)

/-- A partial proof that was rebuilt without a fault. -/
structure Extracted where
  transactions : UInt32
  tree : Tree
  deriving Repr

namespace Extracted

/-- The root of an extracted tree. -/
def root (e : Extracted) : Digest := e.tree.hash

/-- The leaves of interest in tree order, each with its position. -/
def found (e : Extracted) : List (Nat × Digest) := e.tree.leaves 0

/-- Whether a hash is that of a leaf of interest. -/
def contains (e : Extracted) (leaf : Digest) : Bool := e.found.any (·.2 = leaf)

/-- The branch of the first leaf of interest that has this hash. -/
def branchFor (e : Extracted) (leaf : Digest) : Option Branch := do
  let (index, _) ← e.found.find? (·.2 = leaf)
  let hashes ← e.tree.neighbours? (Merkle.height e.transactions.toNat) index
  return ⟨hashes, UInt32.ofNat index⟩

end Extracted

/-- Rebuilds the tree that a proof describes. The proof must use up its hashes and
all but the last few bits of its last flag byte. -/
def PartialProof.extract (p : PartialProof) : Except Error Extracted :=
  let count := p.transactions.toNat
  let checked : Except Fault Extracted := do
    if count = 0 then throw .noTransactions
    if count < p.hashes.length then throw .tooManyHashes
    if p.flags.length * 8 < p.hashes.length then throw .tooFewBits
    let (tree, left) ← Walk.node count (Merkle.height count) 0 ⟨unpackBits p.flags, p.hashes⟩
    unless left.hashes.isEmpty do throw .unusedHashes
    if 8 ≤ left.bits.length then throw .unusedFlags
    return ⟨p.transactions, tree⟩
  checked.mapError .malformed

end MergedMining.Merkle
