/-
The hash function with 256-bit results that everything here is identified by.

A message is padded to whole blocks of sixteen big-endian words, each block is
stretched to sixty-four words, and sixty-four rounds mix them into a state of
eight. Sizes are in the types, so no index needs a check.
-/
import MergedMining.Octets

namespace MergedMining.Sha256

/-- The eight words that a message is absorbed into. -/
structure State where
  a : UInt32
  b : UInt32
  c : UInt32
  d : UInt32
  e : UInt32
  f : UInt32
  g : UInt32
  h : UInt32

/-- The chaining words before the first block. -/
def start : State :=
  ⟨0x6a09e667, 0xbb67ae85, 0x3c6ef372, 0xa54ff53a,
    0x510e527f, 0x9b05688c, 0x1f83d9ab, 0x5be0cd19⟩

/-- The words that the rounds add, one each. -/
def roundConstants : Vector UInt32 64 :=
  #v[0x428a2f98, 0x71374491, 0xb5c0fbcf, 0xe9b5dba5, 0x3956c25b, 0x59f111f1, 0x923f82a4, 0xab1c5ed5,
    0xd807aa98, 0x12835b01, 0x243185be, 0x550c7dc3, 0x72be5d74, 0x80deb1fe, 0x9bdc06a7, 0xc19bf174,
    0xe49b69c1, 0xefbe4786, 0x0fc19dc6, 0x240ca1cc, 0x2de92c6f, 0x4a7484aa, 0x5cb0a9dc, 0x76f988da,
    0x983e5152, 0xa831c66d, 0xb00327c8, 0xbf597fc7, 0xc6e00bf3, 0xd5a79147, 0x06ca6351, 0x14292967,
    0x27b70a85, 0x2e1b2138, 0x4d2c6dfc, 0x53380d13, 0x650a7354, 0x766a0abb, 0x81c2c92e, 0x92722c85,
    0xa2bfe8a1, 0xa81a664b, 0xc24b8b70, 0xc76c51a3, 0xd192e819, 0xd6990624, 0xf40e3585, 0x106aa070,
    0x19a4c116, 0x1e376c08, 0x2748774c, 0x34b0bcb5, 0x391c0cb3, 0x4ed8aa4a, 0x5b9cca4f, 0x682e6ff3,
    0x748f82ee, 0x78a5636f, 0x84c87814, 0x8cc70208, 0x90befffa, 0xa4506ceb, 0xbef9a3f7, 0xc67178f2]

/-- A word turned right by `k` places, for `k` from 1 to 31. -/
@[inline] def turn (x : UInt32) (k : UInt32) : UInt32 :=
  (x >>> k) ||| (x <<< (32 - k))

-- =============================================================== padding

/-- Enough zeros after the marker that eight more bytes end a block. -/
def zeroCount (length : Nat) : Nat := (119 - length % 64) % 64

/-- The message, a marker bit, zeros, and the length in bits. -/
def padded (message : Bytes) : Bytes :=
  message ++ 0x80 :: (List.replicate (zeroCount message.length) 0
    ++ (toLittleEndian 8 (8 * message.length)).reverse)

/-- The big-endian words of a byte string. -/
def words : Bytes → List UInt32
  | b₀ :: b₁ :: b₂ :: b₃ :: rest =>
      (b₀.toUInt32 <<< 24 ||| b₁.toUInt32 <<< 16 ||| b₂.toUInt32 <<< 8 ||| b₃.toUInt32)
        :: words rest
  | _ => []

-- ========================================================== compression

/-- The block followed by forty-eight words mixed from the ones before them. -/
def schedule (block : Vector UInt32 16) : Vector UInt32 64 :=
  Fin.foldl 48 (fun w i =>
    let x := w[i.val + 1]
    let y := w[i.val + 14]
    let s₀ := turn x 7 ^^^ turn x 18 ^^^ (x >>> 3)
    let s₁ := turn y 17 ^^^ turn y 19 ^^^ (y >>> 10)
    w.set (i.val + 16) (w[i.val] + s₀ + w[i.val + 9] + s₁))
    (block ++ Vector.replicate 48 (0 : UInt32))

/-- One round, with its constant and schedule word already added up. -/
@[inline] def State.round (s : State) (kw : UInt32) : State :=
  let s₁ := turn s.e 6 ^^^ turn s.e 11 ^^^ turn s.e 25
  let choice := (s.e &&& s.f) ^^^ (~~~ s.e &&& s.g)
  let t₁ := s.h + s₁ + choice + kw
  let s₀ := turn s.a 2 ^^^ turn s.a 13 ^^^ turn s.a 22
  let majority := (s.a &&& s.b) ^^^ (s.a &&& s.c) ^^^ (s.b &&& s.c)
  ⟨t₁ + (s₀ + majority), s.a, s.b, s.c, s.d + t₁, s.e, s.f, s.g⟩

/-- The state after one more block. -/
def State.absorb (s : State) (block : Vector UInt32 16) : State :=
  let w := schedule block
  let t := Fin.foldl 64 (fun t i => t.round (roundConstants[i] + w[i])) s
  ⟨s.a + t.a, s.b + t.b, s.c + t.c, s.d + t.d, s.e + t.e, s.f + t.f, s.g + t.g, s.h + t.h⟩

/-- The state after all whole blocks. -/
def State.absorbAll (s : State) : List UInt32 → State
  | w₀ :: w₁ :: w₂ :: w₃ :: w₄ :: w₅ :: w₆ :: w₇ :: w₈ :: w₉ :: w₁₀ :: w₁₁ :: w₁₂ :: w₁₃
      :: w₁₄ :: w₁₅ :: rest =>
      (s.absorb #v[w₀, w₁, w₂, w₃, w₄, w₅, w₆, w₇, w₈, w₉, w₁₀, w₁₁, w₁₂, w₁₃, w₁₄, w₁₅]).absorbAll
        rest
  | _ => s

/-- The four big-endian bytes of a word. -/
def wordBytes (w : UInt32) : Bytes :=
  [(w >>> 24).toUInt8, (w >>> 16).toUInt8, (w >>> 8).toUInt8, w.toUInt8]

/-- The bytes of a state, word by word. -/
def State.bytes (s : State) : Bytes :=
  wordBytes s.a ++ wordBytes s.b ++ wordBytes s.c ++ wordBytes s.d
    ++ wordBytes s.e ++ wordBytes s.f ++ wordBytes s.g ++ wordBytes s.h

/-- The hash of a message. -/
def hash (message : Bytes) : Octets 32 :=
  ⟨(start.absorbAll (words (padded message))).bytes, rfl⟩

end MergedMining.Sha256
