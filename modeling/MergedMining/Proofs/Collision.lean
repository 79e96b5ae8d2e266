/-
Collisions: two different byte strings with one digest.

That there are none is never assumed. A statement that rests on it names the
byte strings that were hashed on the way, and a collision among these is its
other way out. So what a statement costs is on its face: whoever makes it fail
holds two byte strings that were hashed and hash alike.
-/
import MergedMining.Digest

namespace MergedMining

/-- Two different byte strings among these have the same digest. -/
def Collides (hashed : List Bytes) : Prop :=
  ∃ x ∈ hashed, ∃ y ∈ hashed, x ≠ y ∧ Digest.ofBytes x = Digest.ofBytes y

namespace Collides

variable {hashed : List Bytes}

/-- Byte strings with one digest are one byte string, or they collide. -/
theorem eq_or {x y : Bytes} (hx : x ∈ hashed) (hy : y ∈ hashed)
    (h : Digest.ofBytes x = Digest.ofBytes y) : x = y ∨ Collides hashed := by
  by_cases hxy : x = y
  · exact Or.inl hxy
  · exact Or.inr ⟨x, hx, y, hy, hxy, h⟩

end Collides

/-- One of these byte strings and a different one of those have the same digest. -/
def CollidesWith (these those : List Bytes) : Prop :=
  ∃ x ∈ these, ∃ y ∈ those, x ≠ y ∧ Digest.ofBytes x = Digest.ofBytes y

namespace CollidesWith

variable {these those these' those' hashed : List Bytes}

/-- Two byte strings of one name are the same, or they collide. -/
theorem eq_or {x y : Bytes} (hx : x ∈ these) (hy : y ∈ those)
    (h : Digest.ofBytes x = Digest.ofBytes y) : x = y ∨ CollidesWith these those := by
  by_cases hxy : x = y
  · exact Or.inl hxy
  · exact Or.inr ⟨x, hx, y, hy, hxy, h⟩

theorem mono (h : CollidesWith these those) (hthese : these ⊆ these') (hthose : those ⊆ those') :
    CollidesWith these' those' := by
  obtain ⟨x, hx, y, hy, hxy⟩ := h
  exact ⟨x, hthese hx, y, hthose hy, hxy⟩

/-- What collides collides among all that was hashed. -/
theorem collides (h : CollidesWith these those) (hthese : these ⊆ hashed)
    (hthose : those ⊆ hashed) : Collides hashed := by
  obtain ⟨x, hx, y, hy, hxy⟩ := h
  exact ⟨x, hthese hx, y, hthose hy, hxy⟩

end CollidesWith

namespace Octets

variable {n : Nat}

/-- Octets are told from what they are followed by. -/
theorem append_inj {a b : Octets n} {r s : Bytes} (h : a.bytes ++ r = b.bytes ++ s) :
    a = b ∧ r = s := by
  obtain ⟨hbytes, hrest⟩ := List.append_inj h (by rw [a.length_bytes, b.length_bytes])
  exact ⟨ext hbytes, hrest⟩

end Octets

namespace Digest

/-- The bytes of which the name of a tree node is the digest. -/
def pairBytes (left right : Digest) : Bytes := left.bytes ++ right.bytes

theorem pair_eq (left right : Digest) : pair left right = ofBytes (pairBytes left right) := rfl

@[simp] theorem length_pairBytes (left right : Digest) : (pairBytes left right).length = 64 := by
  rw [pairBytes, List.length_append, left.length_bytes, right.length_bytes]

/-- The bytes of a node say what its children are. -/
theorem pairBytes_inj {a b c d : Digest} (h : pairBytes a b = pairBytes c d) : a = c ∧ b = d := by
  obtain ⟨hleft, hright⟩ := Octets.append_inj h
  exact ⟨hleft, Octets.ext hright⟩

/-- The digest whose text spells this number. -/
def ofNumber (n : Nat) : Digest := ⟨toLittleEndian 32 n, length_toLittleEndian 32 n⟩

end Digest

end MergedMining
