/-
Byte strings of a fixed length: the digests, program hashes and other fields
that the wire formats write without a length in front.

Numbers are little-endian throughout. A number's bytes are its base-256 digits,
the least first, so writing and reading are inverse on the numbers that fit.
-/
namespace MergedMining

-- Powers of natural numbers are those of the core library. A library of algebra brings powers
-- of its own, which come to the same numbers but are other terms, and a definition should be
-- the same term whether or not such a library is in sight.
attribute [instance (1100)] instPowNat
attribute [default_instance 20000] instPowNat

/-- A byte string of any length. -/
abbrev Bytes := List UInt8

/-- A byte string of length `n`. -/
structure Octets (n : Nat) where
  /-- The bytes in wire order. -/
  bytes : Bytes
  length_bytes : bytes.length = n
  deriving DecidableEq

namespace Octets

variable {n : Nat}

theorem ext {a b : Octets n} (h : a.bytes = b.bytes) : a = b := by
  cases a; cases b; cases h; rfl

instance : Repr (Octets n) := ⟨fun o p => reprPrec o.bytes p⟩

/-- The byte string of zeros. -/
def zero (n : Nat) : Octets n := ⟨List.replicate n 0, List.length_replicate⟩

instance : Inhabited (Octets n) := ⟨zero n⟩

/-- The byte string itself, if it has the length. -/
def ofBytes? (n : Nat) (bytes : Bytes) : Option (Octets n) :=
  if h : bytes.length = n then some ⟨bytes, h⟩ else none

/-- The bytes in the opposite order. -/
def reverse (o : Octets n) : Octets n :=
  ⟨o.bytes.reverse, by rw [List.length_reverse, o.length_bytes]⟩

end Octets

-- ================================================= little-endian numbers

/-- The number whose base-256 digits these are, the least first. -/
def littleEndian : Bytes → Nat
  | [] => 0
  | b :: rest => b.toNat + 256 * littleEndian rest

/-- The lowest `width` base-256 digits of a number, the least first. -/
def toLittleEndian : (width : Nat) → Nat → Bytes
  | 0, _ => []
  | width + 1, v => UInt8.ofNat v :: toLittleEndian width (v / 256)

theorem length_toLittleEndian (width v : Nat) : (toLittleEndian width v).length = width := by
  induction width generalizing v with
  | zero => rfl
  | succ width ih => simp [toLittleEndian, ih]

/-- Digits that were written are read again, as far as they were written. -/
theorem littleEndian_toLittleEndian (width v : Nat) :
    littleEndian (toLittleEndian width v) = v % 256 ^ width := by
  induction width generalizing v with
  | zero => simp [toLittleEndian, littleEndian, Nat.mod_one]
  | succ width ih =>
      have hpow : 256 ^ (width + 1) = 256 * 256 ^ width := by rw [Nat.pow_succ, Nat.mul_comm]
      simp only [toLittleEndian, littleEndian, ih, UInt8.toNat_ofNat']
      rw [hpow, Nat.mod_mul]

/-- The digits of a number that was read are those that it was read from. -/
theorem toLittleEndian_littleEndian (bytes : Bytes) :
    toLittleEndian bytes.length (littleEndian bytes) = bytes := by
  induction bytes with
  | nil => rfl
  | cons b rest ih =>
      have hb : b.toNat < 256 := b.toNat_lt
      have hdiv : (b.toNat + 256 * littleEndian rest) / 256 = littleEndian rest := by omega
      have hlow : UInt8.ofNat (b.toNat + 256 * littleEndian rest) = b := by
        apply UInt8.toNat_inj.1
        rw [UInt8.toNat_ofNat']
        omega
      simp only [List.length_cons, toLittleEndian, littleEndian, hdiv, hlow, ih]

end MergedMining
