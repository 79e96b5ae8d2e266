/-
Headers and blocks of the main chain.

A header carries the auxiliary proof of its own work and a terminator behind it.
The block is named by the header without that proof, so a proof can name the
block it is embedded in.
-/
import MergedMining.AuxProof
import MergedMining.MainChain.Transaction

namespace MergedMining.MainChain

open Wire

/-- A header of the main chain. -/
structure Header where
  version : UInt32
  previous : Digest
  transactionsRoot : Digest
  timestamp : UInt32
  bits : UInt32
  nonce : UInt32
  height : UInt32
  /-- The proof that the block shares in a parent block's work. -/
  auxProof : AuxProof
  deriving DecidableEq, Repr

/-- The byte behind the auxiliary proof. -/
def terminator : UInt8 := 1

namespace Header

/-- The encoding up to the auxiliary proof. -/
def bareBytes (h : Header) : Bytes :=
  writeU32 h.version ++ h.previous.bytes ++ h.transactionsRoot.bytes ++ writeU32 h.timestamp
    ++ writeU32 h.bits ++ writeU32 h.nonce ++ writeU32 h.height

/-- The hash of a header, which is that of its bytes without the proof. -/
def hash (h : Header) : Digest := Digest.ofBytes h.bareBytes

/-- Checks the header's claim to a parent block's work, on behalf of a chain. -/
def checkAuxProof (h : Header) (chain : UInt32) : Except AuxProof.Error Unit :=
  h.auxProof.check h.hash chain

/-- A header of zeros. -/
def empty : Header := ⟨0, Digest.zero, Digest.zero, 0, 0, 0, 0, .empty⟩

instance : Inhabited Header := ⟨empty⟩

end Header

instance : Wire Header where
  write h := h.bareBytes ++ write h.auxProof ++ [terminator]
  read := do
    let version ← Reader.u32
    let previous ← read
    let transactionsRoot ← read
    let timestamp ← Reader.u32
    let bits ← Reader.u32
    let nonce ← Reader.u32
    let height ← Reader.u32
    let auxProof ← read
    let last ← Reader.u8
    unless last = terminator do throw (.badTerminator last)
    return { version, previous, transactionsRoot, timestamp, bits, nonce, height, auxProof }

/-- A block of the main chain. -/
structure Block where
  header : Header
  transactions : List Transaction
  deriving DecidableEq, Repr

instance : Wire Block where
  write b := write b.header ++ writeSeq b.transactions
  read := do
    let header ← read
    let transactions ← readSeq
    return { header, transactions }

end MergedMining.MainChain
