/-
Headers from a source that checks little: plain fields and the encoding of the
auxiliary proof, which is decoded only where the header is used.

A node is such a source, since a block's encoding begins with its header. It is
asked for a header by its hash and believed only if the hash fits.
-/
import MergedMining.Json.Wire
import MergedMining.Node.Client

namespace MergedMining

/-- A header whose auxiliary proof is not decoded. -/
structure SpvHeader where
  version : UInt32
  previous : Digest
  merkleRoot : Digest
  timestamp : UInt32
  bits : UInt32
  nonce : UInt32
  height : UInt32
  /-- The auxiliary proof as it is encoded. -/
  auxProof : Bytes
  deriving DecidableEq, Repr

namespace SpvHeader

/-- The header itself, if its auxiliary proof can be decoded. -/
def toHeader (h : SpvHeader) : Except Wire.Error MainChain.Header := do
  return {
    version := h.version, previous := h.previous, transactionsRoot := h.merkleRoot
    timestamp := h.timestamp, bits := h.bits, nonce := h.nonce, height := h.height
    auxProof := ← Wire.decode h.auxProof }

/-- The header with its auxiliary proof encoded. -/
def ofHeader (h : MainChain.Header) : SpvHeader where
  version := h.version
  previous := h.previous
  merkleRoot := h.transactionsRoot
  timestamp := h.timestamp
  bits := h.bits
  nonce := h.nonce
  height := h.height
  auxProof := Wire.write h.auxProof

/-- The header of this hash at the front of a block's encoding. -/
def ofBlock (hash : Digest) (raw : Bytes) : Except Node.Error SpvHeader :=
  match (Wire.read : Wire.Reader MainChain.Header) raw with
  | .error e _ => .error (.malformed e.message)
  | .ok header _ =>
      if header.hash = hash then .ok (ofHeader header)
      else .error (.malformed s!"node returned block {header.hash.text} for {hash.text}")

end SpvHeader

open JsonForm in
instance : JsonForm SpvHeader where
  write d h := .record [field d "version" h.version, field d "previous" h.previous,
    field d "merkle_root" h.merkleRoot, field d "timestamp" h.timestamp, field d "bits" h.bits,
    field d "nonce" h.nonce, field d "height" h.height, field d "aux_pow" h.auxProof]
  read d v := do
    let r ← fields ["version", "previous", "merkle_root", "timestamp", "bits", "nonce", "height",
      "aux_pow"] v
    return {
      version := ← get d r "version", previous := ← get d r "previous"
      merkleRoot := ← get d r "merkle_root", timestamp := ← get d r "timestamp"
      bits := ← get d r "bits", nonce := ← get d r "nonce", height := ← get d r "height"
      auxProof := ← get d r "aux_pow" }

/-- The header of a block, from a node. -/
def Node.header {m : Type → Type} [Monad m] (t : Node.Transport m) (hash : Digest) :
    ExceptT Node.Error m SpvHeader := do
  SpvHeader.ofBlock hash (← Node.rawBlock t hash.text)

end MergedMining
