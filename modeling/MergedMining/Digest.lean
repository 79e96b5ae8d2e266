/-
Digests: the 32-byte names of blocks, transactions and merkle nodes.

A digest's wire order is the order its bytes were hashed to; its text shows them
the other way round, most significant first. Only the text is reversed, so two
digests compare, pair and travel by their wire bytes.
-/
import MergedMining.Digits
import MergedMining.Sha256

namespace MergedMining

/-- A 32-byte hash in wire order. -/
abbrev Digest := Octets 32

namespace Digest

/-- The digest of zeros, which names nothing. -/
def zero : Digest := Octets.zero 32

/-- The text of a digest: its bytes reversed, as hexadecimal digits. -/
def text (d : Digest) : String := Hex.encode d.bytes.reverse

/-- Why a text is not a digest. -/
inductive TextError where
  /-- It is not hexadecimal. -/
  | notHex (cause : Hex.Error)
  | badLength (count : Nat)
  deriving DecidableEq, Repr

/-- What is said of a text that is no digest. -/
def TextError.message (e : TextError) : String :=
  "invalid data in hash256: " ++
    match e with
    | .notHex cause => cause.message
    | .badLength count => toString count ++ " bytes"

/-- The digest that a text spells, which has the bytes in reverse. -/
def ofText (text : String) : Except TextError Digest :=
  match Hex.decode text with
  | .error cause => .error (.notHex cause)
  | .ok raw =>
      if h : raw.length = 32 then
        .ok ⟨raw.reverse, by rw [List.length_reverse, h]⟩
      else .error (.badLength raw.length)

/-- Digests are ordered by their wire bytes. -/
def compare (a b : Digest) : Ordering := compareOfLessAndEq a.bytes b.bytes

/-- The name of a byte string: its hash, hashed again. -/
def ofBytes (message : Bytes) : Digest := Sha256.hash (Sha256.hash message).bytes

/-- The name of a tree node: both children's bytes, hashed twice. -/
def pair (left right : Digest) : Digest := ofBytes (left.bytes ++ right.bytes)

end Digest

end MergedMining
