/-
Auxiliary proofs: a block shares in the work of a parent-chain block that
commits to it.

The commitment stands in the script of the parent block's coinbase. After a
marker come the root of an auxiliary tree, the tree's size and a nonce. Every
chain owns one slot of the tree, drawn from the nonce and the chain's number, so
a parent block cannot commit to two blocks of one chain. The coinbase is tied to
the parent header by a branch at index 0, and the header has to show its work.
-/
import MergedMining.Merkle.Branch
import MergedMining.Parent.Header
import MergedMining.Parent.Transaction

namespace MergedMining

/-- A block's claim to the work of a parent block. -/
structure AuxProof where
  /-- The parent block's coinbase, which holds the commitment. -/
  coinbase : Parent.Transaction
  parentHash : Digest
  /-- From the coinbase to the parent block's merkle root. -/
  coinbaseBranch : Merkle.Branch
  /-- From the block to the root of the auxiliary tree. -/
  auxBranch : Merkle.Branch
  parentHeader : Parent.Header
  deriving DecidableEq, Repr

instance : Wire AuxProof where
  write p :=
    Wire.write p.coinbase ++ p.parentHash.bytes ++ Wire.write p.coinbaseBranch
      ++ Wire.write p.auxBranch ++ Wire.write p.parentHeader
  read := do
    let coinbase ← Wire.read
    let parentHash ← Wire.read
    let coinbaseBranch ← Wire.read
    let auxBranch ← Wire.read
    let parentHeader ← Wire.read
    return { coinbase, parentHash, coinbaseBranch, auxBranch, parentHeader }

namespace AuxProof

/-- A proof of nothing. -/
def empty : AuxProof :=
  ⟨.emptyCoinbase, Digest.zero, .empty, .empty, .empty⟩

instance : Inhabited AuxProof := ⟨empty⟩

-- ============================================================== the script

/-- The bytes in front of the committed root. -/
def marker : Bytes := [0xfa, 0xbe, 0x6d, 0x6d]

/-- The deepest auxiliary tree whose size can be committed to. -/
def maxDepth : Nat := 30

/-- The first position at which a byte string stands in another. -/
def position? (wanted : Bytes) : Bytes → Option Nat
  | [] => if wanted.isEmpty then some 0 else none
  | byte :: rest =>
      if wanted.isPrefixOf (byte :: rest) then some 0 else (position? wanted rest).map (· + 1)

/-- One step of the generator that draws slots. -/
def draw (seed : UInt32) : UInt32 := seed * 1103515245 + 12345

/-- The slot of a chain in an auxiliary tree of this depth. Slots are 32-bit
numbers, so a deeper tree has no more of them. -/
def slot (nonce chain : UInt32) (depth : Nat) : Nat :=
  (draw (draw nonce + chain)).toNat % 2 ^ min depth 32

-- =============================================================== checking

/-- Why a proof does not hold. -/
inductive Error where
  /-- The branch to the parent's root is not that of its first transaction. -/
  | notCoinbase
  /-- The coinbase is not in the parent block. -/
  | coinbaseMismatch
  | tooDeep (depth : Nat)
  | noInputs
  | noMarker
  /-- The script has a second marker. -/
  | secondMarker
  /-- The script does not hold the root. -/
  | noRoot
  /-- The root does not follow the marker. -/
  | misplacedRoot
  /-- The script ends before the size and the nonce do. -/
  | truncated
  /-- The committed size is not that of the tree. -/
  | sizeMismatch (found expected : Nat)
  /-- The block is not in the slot of its chain. -/
  | wrongSlot (found expected : Nat)
  /-- The parent header is not the parent block's. -/
  | parentMismatch
  /-- The parent header does not show its work. -/
  | insufficientWork
  deriving DecidableEq, Repr

/-- What is said of a proof that is refused. -/
def Error.message : Error → String
  | .notCoinbase => "parent coinbase branch index must be 0"
  | .coinbaseMismatch => "coinbase branch does not resolve to the parent merkle root"
  | .tooDeep depth => s!"aux branch too long: {depth}"
  | .noInputs => "parent coinbase has no inputs"
  | .noMarker => "merged mining header missing from coinbase script"
  | .secondMarker => "multiple merged mining headers in coinbase script"
  | .noRoot => "aux merkle root missing from coinbase script"
  | .misplacedRoot => "aux merkle root must directly follow the merged mining header"
  | .truncated => "coinbase script too short for aux tree size and nonce"
  | .sizeMismatch found expected => s!"aux tree size {found}, expected {expected}"
  | .wrongSlot found expected => s!"aux index {found}, expected {expected}"
  | .parentMismatch => "parent hash does not match parent header"
  | .insufficientWork => "parent header does not meet its proof-of-work target"

/-- The root of the auxiliary tree that the proof claims for a block. -/
def auxRoot (p : AuxProof) (block : Digest) : Digest := p.auxBranch.rootFrom block

/-- The script that holds the commitment. -/
def script (p : AuxProof) : Except Error Bytes :=
  match p.coinbase.inputs with
  | [] => .error .noInputs
  | input :: _ => .ok input.script

/-- What follows the committed root in the script. The root is committed to in the
order of its text, right behind the only marker. -/
def commitment (script : Bytes) (root : Digest) : Except Error Bytes := do
  let some markerAt := position? marker script | throw .noMarker
  if (position? marker (script.drop (markerAt + 1))).isSome then throw .secondMarker
  let some rootAt := position? root.bytes.reverse script | throw .noRoot
  unless markerAt + marker.length = rootAt do throw .misplacedRoot
  return script.drop (rootAt + 32)

/-- Checks that the parent block commits to `block` on behalf of a chain and shows
its work. -/
def check (p : AuxProof) (block : Digest) (chain : UInt32) : Except Error Unit := do
  unless p.coinbaseBranch.index = 0 do throw .notCoinbase
  unless p.coinbaseBranch.rootFrom p.coinbase.id = p.parentHeader.merkleRoot do
    throw .coinbaseMismatch
  let depth := p.auxBranch.hashes.length
  if maxDepth < depth then throw (.tooDeep depth)
  let tail ← commitment (← p.script) (p.auxRoot block)
  if tail.length < 8 then throw .truncated
  let size := littleEndian (tail.take 4)
  let nonce := UInt32.ofNat (littleEndian ((tail.drop 4).take 4))
  unless size = 2 ^ depth do throw (.sizeMismatch size (2 ^ depth))
  let expected := slot nonce chain depth
  unless p.auxBranch.index.toNat = expected do
    throw (.wrongSlot p.auxBranch.index.toNat expected)
  unless p.parentHeader.hash = p.parentHash do throw .parentMismatch
  unless p.parentHeader.meetsTarget do throw .insufficientWork

end AuxProof

end MergedMining
