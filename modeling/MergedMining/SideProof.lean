/-
Side proofs: what a side chain accepts as the work for one of its blocks.

The proof is a side-mining transaction of the main chain, which names the side
block, and a branch from it to the transactions root of a main-chain header.
-/
import MergedMining.MainChain.Header

namespace MergedMining

/-- A side-mining transaction and its place in a main-chain block. -/
structure SideProof where
  transaction : MainChain.Transaction
  /-- From the transaction to the header's transactions root. -/
  branch : Merkle.Branch
  header : MainChain.Header
  deriving DecidableEq, Repr

namespace SideProof

/-- Whether the branch leads from the transaction to the header's root. -/
def verify (p : SideProof) : Bool :=
  p.branch.verify p.transaction.id p.header.transactionsRoot

end SideProof

instance : Wire SideProof where
  write p := Wire.write p.transaction ++ Wire.write p.branch ++ Wire.write p.header
  read := do
    let transaction ← Wire.read
    let branch ← Wire.read
    let header ← Wire.read
    return { transaction, branch, header }

/-- A side proof as text, the form in which a side chain's node takes it. -/
def SideProof.text (p : SideProof) : String := Hex.encode (Wire.write p)

end MergedMining
