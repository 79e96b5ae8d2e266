/-
What is written as hexadecimal text is read back from it.

A text is read by its bytes, and of the digits every one is one byte. So the text of a
byte string is, as bytes, the codes of its halves, and each pair of codes is read as the
byte that it was written for.
-/
import MergedMining.Digits

namespace MergedMining.Hex

-- ============================================================== bytes of a text

/-- A loop over the bytes of an array appends those that are left. -/
private theorem toList_loop (bytes : ByteArray) (place : Nat) (before : List UInt8) :
    ByteArray.toList.loop bytes place before = before.reverse ++ bytes.data.toList.drop place := by
  fun_induction ByteArray.toList.loop bytes place before with
  | case1 place before h ih =>
      have hplace : place < bytes.data.toList.length := h
      have hget : bytes.get! place = bytes.data.toList[place] := by
        rw [Array.getElem_toList]
        exact getElem!_pos bytes.data place h
      rw [ih, List.drop_eq_getElem_cons hplace, hget]
      simp
  | case2 place before h =>
      have hend : bytes.data.toList.length ≤ place := Nat.not_lt.1 h
      rw [List.drop_eq_nil_of_le hend, List.append_nil]

/-- The bytes of a text are those of its characters. -/
theorem toList_toUTF8_ofList (chars : List Char) :
    (String.ofList chars).toUTF8.toList = chars.flatMap String.utf8EncodeChar := by
  have hbytes : (String.ofList chars).toUTF8
      = (chars.flatMap String.utf8EncodeChar).toByteArray := String.toByteArray_ofList
  rw [hbytes, ByteArray.toList, toList_loop, List.toList_data_toByteArray]
  rfl

-- ==================================================================== one byte

/-- The code of a digit. -/
def code (half : UInt8) : UInt8 := if half < 10 then 48 + half else 87 + half

/-- The codes of the two digits of a byte. -/
def codes (byte : UInt8) : List UInt8 := [code (byte >>> 4), code (byte &&& 15)]

/-- What holds of all 256 bytes can be looked at one by one. -/
theorem forall_byte {P : UInt8 → Prop} (h : ∀ n : Fin 256, P (.ofNat n)) (byte : UInt8) :
    P byte := by
  have hbyte := h ⟨byte.toNat, byte.toNat_lt⟩
  rwa [UInt8.ofNat_toNat] at hbyte

/-- The text of a byte is the codes of its two digits. -/
private theorem flatMap_digits (byte : UInt8) :
    (digits byte).flatMap String.utf8EncodeChar = codes byte := by
  revert byte
  refine forall_byte ?_
  decide +kernel

/-- Both halves of a byte are read from their codes, and make up the byte. -/
theorem value?_code (byte : UInt8) :
    value? (code (byte >>> 4)) = some (byte >>> 4)
      ∧ value? (code (byte &&& 15)) = some (byte &&& 15)
      ∧ (byte >>> 4) <<< 4 ||| (byte &&& 15) = byte := by
  revert byte
  refine forall_byte ?_
  decide +kernel

-- =================================================================== all bytes

/-- The codes of bytes are read back as these bytes. -/
private theorem decodePairs_codes (bytes : List UInt8) (position : Nat) :
    decodePairs position (bytes.flatMap codes) = .ok bytes := by
  induction bytes generalizing position with
  | nil => rfl
  | cons byte bytes ih =>
      obtain ⟨hhigh, hlow, hbyte⟩ := value?_code byte
      rw [List.flatMap_cons, codes, List.cons_append, List.singleton_append, decodePairs, hhigh]
      simp only [hlow, ih, hbyte]
      rfl

/-- There are two codes for each byte. -/
private theorem length_flatMap_codes (bytes : List UInt8) :
    (bytes.flatMap codes).length = 2 * bytes.length := by
  induction bytes with
  | nil => rfl
  | cons byte bytes ih =>
      rw [List.flatMap_cons, List.length_append, ih, List.length_cons]
      show 2 + 2 * bytes.length = 2 * (bytes.length + 1)
      omega

/-- What was written is read back. -/
theorem decode_encode (bytes : List UInt8) : decode (encode bytes) = .ok bytes := by
  have htext : (encode bytes).toUTF8.toList = bytes.flatMap codes := by
    rw [encode, toList_toUTF8_ofList, List.flatMap_assoc]
    simp only [flatMap_digits]
  have heven := length_flatMap_codes bytes
  rw [decode, htext, decodeBytes, if_neg (by omega)]
  exact decodePairs_codes bytes 0

end MergedMining.Hex
