/-
Numbers and counts, read back from what was written.

Reading takes exactly the bytes that writing made and leaves what follows them,
so the written form of a number is never the beginning of another's. What comes
behind a count can therefore be compared: equal bytes have equal counts in front
and equal rests behind.
-/
import MergedMining.Proofs.Collision
import MergedMining.Wire.Format

namespace MergedMining.Wire

variable {α β : Type}

-- =============================================================== sequencing

namespace Reader

/-- A reader that goes on with another, where the first one succeeds. -/
theorem bind_ok {first : Reader α} {next : α → Reader β} {input rest : Bytes} {value : α}
    (h : first input = .ok value rest) : (first >>= next) input = next value rest := by
  simp only [bind, EStateM.bind, h]

theorem map_ok {first : Reader α} {f : α → β} {input rest : Bytes} {value : α}
    (h : first input = .ok value rest) : (f <$> first) input = .ok (f value) rest := by
  simp only [Functor.map, EStateM.map, h]

-- ============================================================== fixed width

/-- Octets are read back in front of anything. -/
theorem octets_append {n : Nat} (o : Octets n) (rest : Bytes) :
    octets n (o.bytes ++ rest) = .ok o rest := by
  have hlen : n ≤ (o.bytes ++ rest).length := by
    rw [List.length_append, o.length_bytes]
    exact Nat.le_add_right ..
  unfold octets
  rw [dif_pos hlen]
  congr 1
  · exact Octets.ext (List.take_left' o.length_bytes)
  · exact List.drop_left' o.length_bytes

/-- A number that fits its width is read back. -/
theorem number_append {width v : Nat} (h : v < 256 ^ width) (rest : Bytes) :
    number width (toLittleEndian width v ++ rest) = .ok v rest := by
  have hread := octets_append ⟨toLittleEndian width v, length_toLittleEndian width v⟩ rest
  rw [number, map_ok hread, littleEndian_toLittleEndian, Nat.mod_eq_of_lt h]

theorem u8_cons (b : UInt8) (rest : Bytes) : u8 (b :: rest) = .ok b rest := by
  have hwrite : b :: rest = toLittleEndian 1 b.toNat ++ rest := by simp [toLittleEndian]
  rw [u8, hwrite, map_ok (number_append b.toNat_lt rest), UInt8.ofNat_toNat]

theorem u16_append (v : UInt16) (rest : Bytes) :
    u16 (toLittleEndian 2 v.toNat ++ rest) = .ok v rest := by
  rw [u16, map_ok (number_append v.toNat_lt rest), UInt16.ofNat_toNat]

theorem u32_append (v : UInt32) (rest : Bytes) :
    u32 (toLittleEndian 4 v.toNat ++ rest) = .ok v rest := by
  rw [u32, map_ok (number_append v.toNat_lt rest), UInt32.ofNat_toNat]

theorem u64_append (v : UInt64) (rest : Bytes) :
    u64 (toLittleEndian 8 v.toNat ++ rest) = .ok v rest := by
  rw [u64, map_ok (number_append v.toNat_lt rest), UInt64.ofNat_toNat]

-- =================================================================== counts

private theorem atLeast_ok {least v : UInt64} (h : least ≤ v) (rest : Bytes) :
    atLeast least v rest = .ok v rest := by
  rw [atLeast, if_neg (UInt64.not_lt.2 h)]
  rfl

/-- A count is read back, whichever of its four forms it is written in. -/
theorem varUint_append (v : UInt64) (rest : Bytes) :
    varUint (writeVarUint v ++ rest) = .ok v rest := by
  unfold writeVarUint varUint
  split
  case isTrue h1 =>
    -- one byte, which is none of the three tags
    have hv : v.toNat < 253 := h1
    have htag : ∀ tag : UInt8, 253 ≤ tag.toNat → v.toUInt8 ≠ tag := by
      rintro tag htag rfl
      rw [UInt64.toNat_toUInt8] at htag
      omega
    rw [List.cons_append, List.nil_append, bind_ok (u8_cons ..),
      if_neg (htag _ (by decide)), if_neg (htag _ (by decide)), if_neg (htag _ (by decide))]
    have hback : v.toUInt8.toUInt64 = v := by
      apply UInt64.toNat_inj.1
      rw [UInt8.toNat_toUInt64, UInt64.toNat_toUInt8]
      omega
    rw [hback]
    rfl
  case isFalse h1 =>
    have hlow : 253 ≤ v.toNat := Nat.not_lt.1 h1
    split
    case isTrue h2 =>
      have hv : v.toNat ≤ 65535 := h2
      have hread : u16 (toLittleEndian 2 v.toNat ++ rest) = .ok v.toUInt16 rest := by
        rw [← u16_append v.toUInt16 rest, UInt64.toNat_toUInt16, Nat.mod_eq_of_lt (by omega)]
      have hback : v.toUInt16.toUInt64 = v := by
        apply UInt64.toNat_inj.1
        rw [UInt16.toNat_toUInt64, UInt64.toNat_toUInt16]
        omega
      rw [List.cons_append, bind_ok (u8_cons ..), if_pos rfl, bind_ok hread, hback]
      exact atLeast_ok hlow rest
    case isFalse h2 =>
      have hmid : 65536 ≤ v.toNat := Nat.not_le.1 h2
      split
      case isTrue h3 =>
        have hv : v.toNat ≤ 4294967295 := h3
        have hread : u32 (toLittleEndian 4 v.toNat ++ rest) = .ok v.toUInt32 rest := by
          rw [← u32_append v.toUInt32 rest, UInt64.toNat_toUInt32, Nat.mod_eq_of_lt (by omega)]
        have hback : v.toUInt32.toUInt64 = v := by
          apply UInt64.toNat_inj.1
          rw [UInt32.toNat_toUInt64, UInt64.toNat_toUInt32]
          omega
        rw [List.cons_append, bind_ok (u8_cons ..), if_neg (by decide), if_pos rfl, bind_ok hread,
          hback]
        exact atLeast_ok hmid rest
      case isFalse h3 =>
        have hhigh : 4294967296 ≤ v.toNat := Nat.not_le.1 h3
        rw [List.cons_append, bind_ok (u8_cons ..), if_neg (by decide), if_neg (by decide),
          if_pos rfl, bind_ok (u64_append v rest)]
        exact atLeast_ok hhigh rest

end Reader

-- ============================================================ what is behind

/-- A count is told from what it is followed by. -/
theorem writeVarUint_append_inj {v w : UInt64} {r s : Bytes}
    (h : writeVarUint v ++ r = writeVarUint w ++ s) : v = w ∧ r = s := by
  have hread := Reader.varUint_append v r
  rw [h, Reader.varUint_append w s] at hread
  injection hread with hvalue hrest
  exact ⟨hvalue.symm, hrest.symm⟩

/-- Two counts in front of anything are the same where the bytes are. -/
theorem writeCount_append_inj {xs : List α} {ys : List β} {r s : Bytes}
    (h : writeCount xs ++ r = writeCount ys ++ s) :
    UInt64.ofNat xs.length = UInt64.ofNat ys.length ∧ r = s :=
  writeVarUint_append_inj h

/-- Numbers of one width are told from what they are followed by. -/
theorem toLittleEndian_append_inj {width v w : Nat} {r s : Bytes}
    (h : toLittleEndian width v ++ r = toLittleEndian width w ++ s) :
    toLittleEndian width v = toLittleEndian width w ∧ r = s :=
  List.append_inj h (by rw [length_toLittleEndian, length_toLittleEndian])

end MergedMining.Wire
