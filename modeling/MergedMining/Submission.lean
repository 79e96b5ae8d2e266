/-
Submitting side blocks: an announcement is checked against the header of its
block, turned into the proof that a side chain accepts, and handed to the node
of the side chain that it names.

The header comes from a source that is not trusted: it has to hash to the block
that the proof names, the proof has to have the root of that header, and the
transaction has to be among those that it reveals. Where headers come from and
how nodes are called is left open.
-/
import MergedMining.SideProof
import MergedMining.Spv
import MergedMining.Watch

namespace MergedMining

namespace Submission

-- =============================================================== failures

/-- Why an announcement is not submitted. -/
inductive Error where
  /-- The header could not be had. -/
  | header (cause : Node.Error)
  /-- The header or the payload cannot be decoded. -/
  | codec (cause : Wire.Error)
  | merkle (cause : Merkle.Error)
  | headerMismatch (expected found : Digest)
  | rootMismatch (expected found : Digest)
  | notInProof (transaction : Digest)
  | branchMismatch
  | notSideMining (transaction : Digest)
  | unknownSideChain (genesis : Digest)
  /-- The side chain's node did not take it. -/
  | submit (cause : Node.Error)
  deriving DecidableEq, Repr

namespace Error

/-- What is said of a notification that was given up. -/
def message : Error → String
  | .header cause => "header lookup failed: " ++ cause.message
  | .codec cause => "codec: " ++ cause.message
  | .merkle cause => "malformed proof: " ++ cause.message
  | .headerMismatch expected found =>
      s!"header hash {found.text} does not match proof block {expected.text}"
  | .rootMismatch expected found =>
      s!"proof root {found.text} does not match header root {expected.text}"
  | .notInProof tx => s!"transaction {tx.text} is not matched by the proof"
  | .branchMismatch => "rebuilt branch does not resolve to the header root"
  | .notSideMining tx => s!"transaction {tx.text} is not a side-mining transaction"
  | .unknownSideChain genesis => "no side chain configured for genesis " ++ genesis.text
  | .submit cause => "submitauxblock: " ++ cause.message

/-- Whether the announcement itself is false, so that trying again is no use. -/
def isVerification : Error → Bool
  | .merkle _ | .headerMismatch .. | .rootMismatch .. | .notInProof _ | .branchMismatch => true
  | _ => false

end Error

-- ================================================================ building

/-- What is submitted, and to which chain. -/
structure Submitted where
  /-- The side chain, named by its first block. -/
  sideGenesis : Digest
  sideBlock : Digest
  proof : SideProof
  deriving DecidableEq, Repr

/-- Checks an announcement against the header that its source gave. -/
def build (n : Notification) (source : SpvHeader) : Except Error Submitted := do
  let header ← source.toHeader.mapError .codec
  if header.hash ≠ n.proof.blockHash then
    throw (.headerMismatch n.proof.blockHash header.hash)
  let tree ← n.proof.extract.mapError .merkle
  if tree.root ≠ header.transactionsRoot then
    throw (.rootMismatch header.transactionsRoot tree.root)
  let some branch := tree.branchFor n.transaction.id | throw (.notInProof n.transaction.id)
  let proof : SideProof := ⟨n.transaction, branch, header⟩
  unless proof.verify do throw .branchMismatch
  let payload ← n.transaction.sideMining.mapError .codec
  return ⟨payload.sideGenesis, payload.sideBlock, proof⟩

-- ============================================================== submitting

/-- Takes a side block and its proof to a node, both as text. -/
abbrev Submit (m : Type → Type) := String → String → ExceptT Node.Error m Unit

/-- What a pipeline is made of: how headers are looked up, and the nodes that are served. -/
structure Pipeline (m : Type → Type) where
  header : Digest → ExceptT Node.Error m SpvHeader
  /-- The node of the side chain with this first block, if it is served. -/
  node? : Digest → Option (Submit m)

namespace Pipeline

variable {m : Type → Type} [Monad m] (p : Pipeline m)

/-- Takes one kind of failure for another. -/
def wrapping {α : Type} (why : Node.Error → Error) (act : ExceptT Node.Error m α) :
    ExceptT Error m α :=
  ExceptT.adapt why act

/-- Builds what is to be submitted for an announcement. -/
def build (n : Notification) : ExceptT Error m Submitted := do
  unless n.transaction.isSideMining do throw (.notSideMining n.transaction.id)
  let source ← wrapping .header (p.header n.proof.blockHash)
  ExceptT.mk (pure (Submission.build n source))

/-- Hands a notification to the node of its chain, if that is served. -/
def process (n : Notification) : ExceptT Error m Submitted := do
  let built ← p.build n
  let some submit := p.node? built.sideGenesis | throw (.unknownSideChain built.sideGenesis)
  wrapping .submit (submit built.sideBlock.text built.proof.text)
  return built

/-- Submits announcements in turn. Those that fail are dropped. -/
def processAll : List Notification → m (List (Except Error Submitted))
  | [] => return []
  | n :: rest => do
      let outcome ← (p.process n).run
      return outcome :: (← processAll rest)

end Pipeline

end Submission

end MergedMining
