/-
The formats of the chains on a machine.

Each format is read field by field, as the chains' own formats say, with a machine's readers
in the place of theirs. So a format does not trap since its fields do not.
-/
import MergedMining.Merkle.Partial
import MergedMining.Proofs.Machine.Reading
import MergedMining.Proofs.Parent.Exact
import MergedMining.SideProof

namespace MergedMining.Machine

open Format (read reads)
open Reader
open Wire (Error)

-- ===================================================================== digests

instance : Format Digest where
  read := Reader.octets 32
  reads := reads_octets 32

instance : Format Merkle.Branch where
  read := do
    let hashes ← readSeq
    let index ← u32
    return ⟨hashes, index⟩
  reads := reads_readSeq.bind fun _ => reads_u32.bind fun _ => .pure _

instance : Format Merkle.PartialProof where
  read := do
    let blockHash ← read
    let height ← u32
    let transactions ← u32
    let hashes ← readSeq
    let flags ← varBytes
    return { blockHash, height, transactions, hashes, flags }
  reads := reads.bind fun _ => reads_u32.bind fun _ => reads_u32.bind fun _ =>
    reads_readSeq.bind fun _ => reads_varBytes.bind fun _ => .pure _

-- ==================================================================== payloads

section Payloads

open MainChain (Field Piece)

/-- Reads over a field of a payload. -/
def walkField : Field → Reader Unit
  | .fixed size => discard (octets size)
  | .varBytes => discard varBytes
  | .varUint => discard varUint

/-- A field of a payload is walked over without a trap. -/
theorem reads_walkField (field : Field) : Reads (walkField field) field.walk := by
  cases field with
  | fixed size => exact (reads_octets size).map _
  | varBytes => exact reads_varBytes.map _
  | varUint => exact reads_varUint.map _

/-- Reads over a part of a payload. -/
def walkPiece : Piece → Reader Unit
  | .one field => walkField field
  | .many leastSize item =>
      counted leastSize fun n => discard (Reader.times n (item.forM walkField))

/-- So is a piece, also one that repeats as often as a count says. -/
theorem reads_walkPiece (piece : Piece) : Reads (walkPiece piece) piece.walk := by
  cases piece with
  | one field => exact reads_walkField field
  | many leastSize item =>
      exact .counted leastSize fun n => ((Reads.forM reads_walkField item).times n).map _

/-- Reads a payload by its layout and keeps its bytes. -/
def readPayload (kind version : UInt8) : Reader Bytes :=
  captured <|
    match MainChain.layout kind version with
    | some pieces => pieces.forM walkPiece
    | none => throw (.unknownPayload kind)

/-- A payload is captured by its layout without a trap. -/
theorem reads_readPayload (kind version : UInt8) :
    Reads (readPayload kind version) (MainChain.readPayload kind version) := by
  refine reads_captured ?_
  cases MainChain.layout kind version with
  | some pieces => exact Reads.forM reads_walkPiece pieces
  | none => exact .throw _

end Payloads

-- ================================================================ transactions

instance : Format MainChain.OutPoint where
  read := do
    let transaction ← read
    let index ← u16
    return { transaction, index }
  reads := reads.bind fun _ => reads_u16.bind fun _ => .pure _

instance : Format MainChain.Input where
  read := do
    let previous ← read
    let sequence ← u32
    return { previous, sequence }
  reads := reads.bind fun _ => reads_u32.bind fun _ => .pure _

instance : Format MainChain.Output where
  read := do
    let asset ← read
    let value ← i64
    let lock ← u32
    let programHash ← octets 21
    return { asset, value, lock, programHash }
  reads := reads.bind fun _ => reads_i64.bind fun _ => reads_u32.bind fun _ =>
    (reads_octets 21).bind fun _ => .pure _

instance : Format MainChain.Attribute where
  read := do
    let usage ← u8
    let data ← varBytes
    return { usage, data }
  reads := reads_u8.bind fun _ => reads_varBytes.bind fun _ => .pure _

instance : Format MainChain.Program where
  read := do
    let parameter ← varBytes
    let code ← varBytes
    return { code, parameter }
  reads := reads_varBytes.bind fun _ => reads_varBytes.bind fun _ => .pure _

instance : Format MainChain.Transaction where
  read := do
    let kind ← u8
    let payloadVersion ← u8
    let payload ← readPayload kind payloadVersion
    let attributes ← readSeq
    let inputs ← readSeq
    let outputs ← readSeq
    let lockTime ← u32
    let programs ← readSeq
    return { kind, payloadVersion, payload, attributes, inputs, outputs, lockTime, programs }
  reads := reads_u8.bind fun _ => reads_u8.bind fun _ => (reads_readPayload _ _).bind fun _ =>
    reads_readSeq.bind fun _ => reads_readSeq.bind fun _ => reads_readSeq.bind fun _ =>
    reads_u32.bind fun _ => reads_readSeq.bind fun _ => .pure _

-- ====================================================================== proofs

instance : Format Parent.Transaction where
  read := foreign .badParentCoinbase Parent.readTransaction
  reads := reads_foreign (.of_spells Parent.Transaction.spells_read)

instance : Format Parent.Header where
  read := foreign .badParentHeader Parent.readHeader
  reads := reads_foreign (.of_spells Parent.Header.spells_read)

instance : Format AuxProof where
  read := do
    let coinbase ← read
    let parentHash ← read
    let coinbaseBranch ← read
    let auxBranch ← read
    let parentHeader ← read
    return { coinbase, parentHash, coinbaseBranch, auxBranch, parentHeader }
  reads := reads.bind fun _ => reads.bind fun _ => reads.bind fun _ => reads.bind fun _ =>
    reads.bind fun _ => .pure _

instance : Format MainChain.Header where
  read := do
    let version ← u32
    let previous ← read
    let transactionsRoot ← read
    let timestamp ← u32
    let bits ← u32
    let nonce ← u32
    let height ← u32
    let auxProof ← read
    let last ← u8
    unless last = MainChain.terminator do throw (Error.badTerminator last)
    return { version, previous, transactionsRoot, timestamp, bits, nonce, height, auxProof }
  reads := reads_u32.bind fun _ => reads.bind fun _ => reads.bind fun _ => reads_u32.bind fun _ =>
    reads_u32.bind fun _ => reads_u32.bind fun _ => reads_u32.bind fun _ => reads.bind fun _ =>
    reads_u8.bind fun last =>
      .ite (.pure _) ((Reads.throw (.badTerminator last)).bind fun _ => .pure _)

instance : Format SideProof where
  read := do
    let transaction ← read
    let branch ← read
    let header ← read
    return { transaction, branch, header }
  reads := reads.bind fun _ => reads.bind fun _ => reads.bind fun _ => .pure _

end MergedMining.Machine
