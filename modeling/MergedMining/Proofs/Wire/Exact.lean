/-
Exact formats: what is read is what was written, byte for byte.

A reader is exact if it succeeds on the written form of a value, whatever stands behind
it, and on nothing else. So no value has a second spelling and none is lost on the way. The
law is one equivalence for each reader. It goes from the numbers to the counts, from
there to sequences, and from its fields to a record. A value that is not admitted has no
written form: mostly one with a list of so many items that no count can tell.

The count in front of a sequence is checked against the rest of the input before the
items are read. That this never refuses what was written rests on the least sizes being
true lower bounds, which is why each format has to show its own.
-/
import MergedMining.Proofs.Wire.Count

namespace MergedMining.Wire

variable {α β : Type} {input rest : Bytes}

-- ================================================================= sequencing

namespace Reader

theorem pure_eq_ok {a b : α} : (pure a : Reader α) input = .ok b rest ↔ a = b ∧ input = rest := by
  constructor
  · intro h
    cases h
    exact ⟨rfl, rfl⟩
  · intro h
    obtain ⟨rfl, rfl⟩ := h
    rfl

theorem throw_eq_ok {cause : Error} {b : α} :
    (throw cause : Reader α) input = .ok b rest ↔ False :=
  ⟨fun h => (nomatch h), False.elim⟩

/-- A reader that goes on with another succeeds if both do. -/
theorem bind_eq_ok {first : Reader α} {next : α → Reader β} {b : β} :
    (first >>= next) input = .ok b rest
      ↔ ∃ a between, first input = .ok a between ∧ next a between = .ok b rest := by
  constructor
  · intro h
    simp only [bind, EStateM.bind] at h
    split at h
    · next a between hfirst => exact ⟨a, between, hfirst, h⟩
    · cases h
  · intro h
    obtain ⟨a, between, hfirst, hnext⟩ := h
    rw [bind_ok hfirst, hnext]

theorem map_eq_ok {first : Reader α} {f : α → β} {b : β} :
    (f <$> first) input = .ok b rest ↔ ∃ a, first input = .ok a rest ∧ f a = b := by
  constructor
  · intro h
    simp only [Functor.map, EStateM.map] at h
    split at h
    · next a between hfirst =>
        cases h
        exact ⟨a, hfirst, rfl⟩
    · cases h
  · intro h
    obtain ⟨a, hfirst, rfl⟩ := h
    exact map_ok hfirst

/-- A value that is dropped was read. -/
theorem discard_eq_ok {first : Reader α} :
    discard first input = .ok () rest ↔ ∃ a, first input = .ok a rest := by
  refine map_eq_ok.trans ?_
  simp

theorem throw_bind (cause : Error) (next : α → Reader β) :
    ((throw cause : Reader α) >>= next) = throw cause := rfl

/-- A check that lets pass what holds. -/
theorem ite_else_throw_eq_ok {c : Prop} [Decidable c] {cause : Error} {next : Reader α} {b : α} :
    (if c then next else throw cause) input = .ok b rest ↔ c ∧ next input = .ok b rest := by
  split
  · next hc => exact ⟨fun h => ⟨hc, h⟩, fun h => h.2⟩
  · next hc => exact ⟨fun h => (nomatch h), fun h => absurd h.1 hc⟩

/-- A check that stops what holds. -/
theorem ite_throw_eq_ok {c : Prop} [Decidable c] {cause : Error} {next : Reader α} {b : α} :
    (if c then throw cause else next) input = .ok b rest ↔ ¬c ∧ next input = .ok b rest := by
  split
  · next hc => exact ⟨fun h => (nomatch h), fun h => absurd hc h.1⟩
  · next hc => exact ⟨fun h => ⟨hc, h⟩, fun h => h.2⟩

-- ================================================================ fixed width

theorem octets_eq_ok {n : Nat} {o : Octets n} :
    octets n input = .ok o rest ↔ input = o.bytes ++ rest := by
  constructor
  · intro h
    unfold octets at h
    split at h
    · cases h
      exact (List.take_append_drop n input).symm
    · cases h
  · intro h
    obtain rfl := h
    exact octets_append o rest

theorem bytes_eq_ok {n : Nat} {b : Bytes} :
    bytes n input = .ok b rest ↔ b.length = n ∧ input = b ++ rest := by
  simp only [bytes, map_eq_ok, octets_eq_ok]
  constructor
  · intro h
    obtain ⟨o, rfl, rfl⟩ := h
    exact ⟨o.length_bytes, rfl⟩
  · intro h
    obtain ⟨hlen, rfl⟩ := h
    exact ⟨⟨b, hlen⟩, rfl, rfl⟩

/-- Reading a number undoes writing it at that width. -/
theorem number_eq_ok {width v : Nat} :
    number width input = .ok v rest ↔ v < 256 ^ width ∧ input = toLittleEndian width v ++ rest := by
  constructor
  · intro h
    obtain ⟨o, hread, rfl⟩ := map_eq_ok.1 h
    have hwrite : toLittleEndian width (littleEndian o.bytes) = o.bytes := by
      have hback := toLittleEndian_littleEndian o.bytes
      rwa [o.length_bytes] at hback
    constructor
    · have hmod := littleEndian_toLittleEndian width (littleEndian o.bytes)
      rw [hwrite] at hmod
      rw [hmod]
      exact Nat.mod_lt _ (Nat.pow_pos (by decide))
    · rw [hwrite]
      exact octets_eq_ok.1 hread
  · intro h
    obtain ⟨hv, rfl⟩ := h
    exact number_append hv rest

theorem u8_eq_ok {b : UInt8} : u8 input = .ok b rest ↔ input = b :: rest := by
  constructor
  · intro h
    obtain ⟨v, hread, rfl⟩ := map_eq_ok.1 h
    obtain ⟨-, rfl⟩ := number_eq_ok.1 hread
    rfl
  · intro h
    obtain rfl := h
    exact u8_cons b rest

theorem u16_eq_ok {v : UInt16} : u16 input = .ok v rest ↔ input = writeU16 v ++ rest := by
  constructor
  · intro h
    obtain ⟨n, hread, rfl⟩ := map_eq_ok.1 h
    obtain ⟨hn, rfl⟩ := number_eq_ok.1 hread
    rw [writeU16, UInt16.toNat_ofNat_of_lt' hn]
  · intro h
    obtain rfl := h
    exact u16_append v rest

theorem u32_eq_ok {v : UInt32} : u32 input = .ok v rest ↔ input = writeU32 v ++ rest := by
  constructor
  · intro h
    obtain ⟨n, hread, rfl⟩ := map_eq_ok.1 h
    obtain ⟨hn, rfl⟩ := number_eq_ok.1 hread
    rw [writeU32, UInt32.toNat_ofNat_of_lt' hn]
  · intro h
    obtain rfl := h
    exact u32_append v rest

theorem u64_eq_ok {v : UInt64} : u64 input = .ok v rest ↔ input = writeU64 v ++ rest := by
  constructor
  · intro h
    obtain ⟨n, hread, rfl⟩ := map_eq_ok.1 h
    obtain ⟨hn, rfl⟩ := number_eq_ok.1 hread
    rw [writeU64, UInt64.toNat_ofNat_of_lt' hn]
  · intro h
    obtain rfl := h
    exact u64_append v rest

theorem i32_eq_ok {v : Int32} : i32 input = .ok v rest ↔ input = writeI32 v ++ rest := by
  simp only [i32, map_eq_ok, u32_eq_ok]
  constructor
  · intro h
    obtain ⟨w, rfl, rfl⟩ := h
    rfl
  · intro h
    obtain rfl := h
    exact ⟨v.toUInt32, rfl, rfl⟩

theorem i64_eq_ok {v : Int64} : i64 input = .ok v rest ↔ input = writeI64 v ++ rest := by
  simp only [i64, map_eq_ok, u64_eq_ok]
  constructor
  · intro h
    obtain ⟨w, rfl, rfl⟩ := h
    rfl
  · intro h
    obtain rfl := h
    exact ⟨v.toUInt64, rfl, rfl⟩

-- ===================================================================== counts

/-- A number is accepted if it is large enough for its width. -/
private theorem atLeast_eq_ok {least v w : UInt64} :
    atLeast least v input = .ok w rest ↔ least ≤ v ∧ v = w ∧ input = rest := by
  unfold atLeast
  split
  · next h =>
      exact ⟨fun hread => (nomatch hread), fun hall => absurd hall.1 (UInt64.not_le.2 h)⟩
  · next h =>
      rw [pure_eq_ok]
      exact ⟨fun hread => ⟨UInt64.not_lt.1 h, hread⟩, fun hall => hall.2⟩

end Reader

/-- A number below 253 is written as one byte. -/
private theorem writeVarUint_u8 {b : UInt8} (h : b.toNat < 253) :
    writeVarUint b.toUInt64 = [b] := by
  have hlt : b.toUInt64 < 0xfd := by
    rw [UInt64.lt_iff_toNat_lt, UInt8.toNat_toUInt64]
    exact h
  rw [writeVarUint, if_pos hlt, UInt8.toUInt8_toUInt64]

/-- A number that needs two bytes is written with a marker in front of them. -/
private theorem writeVarUint_u16 {w : UInt16} (h : 0xfd ≤ w.toUInt64) :
    writeVarUint w.toUInt64 = 0xfd :: writeU16 w := by
  have hle : w.toUInt64 ≤ 0xffff := by
    rw [UInt64.le_iff_toNat_le, UInt16.toNat_toUInt64]
    exact Nat.le_of_lt_succ w.toNat_lt
  rw [writeVarUint, if_neg (UInt64.not_lt.2 h), if_pos hle, UInt16.toNat_toUInt64, writeU16]

/-- A number that needs four bytes is written with a marker in front of them. -/
private theorem writeVarUint_u32 {w : UInt32} (h : 0x10000 ≤ w.toUInt64) :
    writeVarUint w.toUInt64 = 0xfe :: writeU32 w := by
  have hle : w.toUInt64 ≤ 0xffffffff := by
    rw [UInt64.le_iff_toNat_le, UInt32.toNat_toUInt64]
    exact Nat.le_of_lt_succ w.toNat_lt
  have hlow : 65536 ≤ w.toUInt64.toNat := h
  have h1 : ¬w.toUInt64 < 0xfd := fun hlt => by
    have : w.toUInt64.toNat < 253 := hlt
    omega
  have h2 : ¬w.toUInt64 ≤ 0xffff := fun hle => by
    have : w.toUInt64.toNat ≤ 65535 := hle
    omega
  rw [writeVarUint, if_neg h1, if_neg h2, if_pos hle, UInt32.toNat_toUInt64, writeU32]

/-- A number that needs eight bytes is written with a marker in front of them. -/
private theorem writeVarUint_u64 {w : UInt64} (h : 0x100000000 ≤ w) :
    writeVarUint w = 0xff :: writeU64 w := by
  have hlow : 4294967296 ≤ w.toNat := h
  have h1 : ¬w < 0xfd := fun hlt => by
    have : w.toNat < 253 := hlt
    omega
  have h2 : ¬w ≤ 0xffff := fun hle => by
    have : w.toNat ≤ 65535 := hle
    omega
  have h3 : ¬w ≤ 0xffffffff := fun hle => by
    have : w.toNat ≤ 4294967295 := hle
    omega
  rw [writeVarUint, if_neg h1, if_neg h2, if_neg h3, writeU64]

@[simp] theorem length_writeU16 (v : UInt16) : (writeU16 v).length = 2 := length_toLittleEndian ..

@[simp] theorem length_writeU32 (v : UInt32) : (writeU32 v).length = 4 := length_toLittleEndian ..

@[simp] theorem length_writeU64 (v : UInt64) : (writeU64 v).length = 8 := length_toLittleEndian ..

@[simp] theorem length_writeI32 (v : Int32) : (writeI32 v).length = 4 := length_toLittleEndian ..

@[simp] theorem length_writeI64 (v : Int64) : (writeI64 v).length = 8 := length_toLittleEndian ..

/-- A number of variable width takes a byte at least. -/
private theorem one_le_length_writeVarUint (v : UInt64) : 1 ≤ (writeVarUint v).length := by
  unfold writeVarUint
  split
  · exact Nat.le_refl 1
  · split
    · exact Nat.le_add_left ..
    · split <;> exact Nat.le_add_left ..

theorem one_le_length_writeCount (items : List α) : 1 ≤ (writeCount items).length :=
  one_le_length_writeVarUint _

/-- So do counted bytes, even none. -/
theorem one_le_length_writeVarBytes (b : Bytes) : 1 ≤ (writeVarBytes b).length := by
  rw [writeVarBytes, List.length_append]
  exact Nat.le_add_right_of_le (one_le_length_writeVarUint _)

namespace Reader

/-- A count has one spelling: of its four forms the shortest that holds it. -/
theorem varUint_eq_ok {v : UInt64} :
    varUint input = .ok v rest ↔ input = writeVarUint v ++ rest := by
  constructor
  · intro h
    unfold varUint at h
    obtain ⟨tag, between, htag, h⟩ := bind_eq_ok.1 h
    rw [u8_eq_ok.1 htag]
    split at h
    · next h253 =>
        obtain ⟨w, between', hw, h⟩ := bind_eq_ok.1 h
        obtain ⟨hleast, rfl, rfl⟩ := atLeast_eq_ok.1 h
        rw [h253, u16_eq_ok.1 hw, writeVarUint_u16 hleast, List.cons_append]
    · next h253 =>
        split at h
        · next h254 =>
            obtain ⟨w, between', hw, h⟩ := bind_eq_ok.1 h
            obtain ⟨hleast, rfl, rfl⟩ := atLeast_eq_ok.1 h
            rw [h254, u32_eq_ok.1 hw, writeVarUint_u32 hleast, List.cons_append]
        · next h254 =>
            split at h
            · next h255 =>
                obtain ⟨w, between', hw, h⟩ := bind_eq_ok.1 h
                obtain ⟨hleast, rfl, rfl⟩ := atLeast_eq_ok.1 h
                rw [h255, u64_eq_ok.1 hw, writeVarUint_u64 hleast, List.cons_append]
            · next h255 =>
                obtain ⟨rfl, rfl⟩ := pure_eq_ok.1 h
                -- what is none of the three tags is below all of them
                have hsmall : tag.toNat < 253 := by
                  have h1 : tag.toNat ≠ 253 := fun heq => h253 (UInt8.toNat_inj.1 heq)
                  have h2 : tag.toNat ≠ 254 := fun heq => h254 (UInt8.toNat_inj.1 heq)
                  have h3 : tag.toNat ≠ 255 := fun heq => h255 (UInt8.toNat_inj.1 heq)
                  have := tag.toNat_lt
                  omega
                rw [writeVarUint_u8 hsmall, List.singleton_append]
  · intro h
    obtain rfl := h
    exact varUint_append v rest

/-- What remains is counted and left there. -/
private theorem remaining_eq_ok {n : Nat} :
    remaining input = .ok n rest ↔ input.length = n ∧ input = rest := by
  constructor
  · intro h
    cases h
    exact ⟨rfl, rfl⟩
  · intro h
    obtain ⟨rfl, rfl⟩ := h
    rfl

/-- A count is refused if what is behind it has no room for so many items. -/
theorem count_eq_ok {leastSize n : Nat} :
    count leastSize input = .ok n rest
      ↔ n < 2 ^ 64 ∧ n * max leastSize 1 ≤ rest.length
        ∧ input = writeVarUint (UInt64.ofNat n) ++ rest := by
  simp only [count, bind_eq_ok, varUint_eq_ok, remaining_eq_ok, ite_else_throw_eq_ok,
    pure_eq_ok]
  constructor
  · intro h
    obtain ⟨v, _, rfl, _, _, ⟨rfl, rfl⟩, hroom, rfl, rfl⟩ := h
    exact ⟨v.toNat_lt, hroom, by rw [UInt64.ofNat_toNat]⟩
  · intro h
    obtain ⟨hn, hroom, rfl⟩ := h
    have hback : (UInt64.ofNat n).toNat = n := UInt64.toNat_ofNat_of_lt' hn
    exact ⟨_, rest, rfl, _, rest, ⟨rfl, rfl⟩, by rwa [hback], hback, rfl⟩

/-- A byte string whose length a count can tell is read back, and no other. -/
theorem varBytes_eq_ok {b : Bytes} :
    varBytes input = .ok b rest ↔ b.length < 2 ^ 64 ∧ input = writeVarBytes b ++ rest := by
  simp only [varBytes, bind_eq_ok, count_eq_ok, bytes_eq_ok, writeVarBytes, writeCount,
    List.append_assoc]
  constructor
  · intro h
    obtain ⟨_, _, ⟨hn, -, rfl⟩, rfl, rfl⟩ := h
    exact ⟨hn, rfl⟩
  · intro h
    obtain ⟨hn, rfl⟩ := h
    refine ⟨b.length, b ++ rest, ⟨hn, ?_, rfl⟩, rfl, rfl⟩
    rw [Nat.max_self, Nat.mul_one, List.length_append]
    exact Nat.le_add_right ..

-- ================================================================== spellings

/-- The reader accepts the spelling of each value that it admits, and nothing else. -/
def Spells (reader : Reader α) (admits : α → Prop) (spelling : α → Bytes) : Prop :=
  ∀ ⦃input value rest⦄,
    reader input = .ok value rest ↔ admits value ∧ input = spelling value ++ rest

/-- Repeating a reader accepts the spellings of so many values in a row. -/
theorem Spells.times {item : Reader α} {admits : α → Prop} {spelling : α → Bytes}
    (h : item.Spells admits spelling) (n : Nat) :
    (times n item).Spells (fun values => values.length = n ∧ ∀ v ∈ values, admits v)
      (·.flatMap spelling) := by
  induction n with
  | zero =>
      intro input values rest
      simp only [Reader.times, pure_eq_ok]
      constructor
      · intro h
        obtain ⟨rfl, rfl⟩ := h
        exact ⟨⟨rfl, fun v hv => (nomatch hv)⟩, rfl⟩
      · intro h
        obtain ⟨⟨hlen, -⟩, rfl⟩ := h
        obtain rfl := List.length_eq_zero_iff.1 hlen
        exact ⟨rfl, rfl⟩
  | succ n ih =>
      intro input values rest
      simp only [Reader.times, bind_eq_ok, pure_eq_ok, @h _ _ _, @ih _ _ _]
      constructor
      · intro h
        obtain ⟨first, _, ⟨hfirst, rfl⟩, others, _, ⟨⟨rfl, hothers⟩, rfl⟩, rfl, rfl⟩ := h
        refine ⟨⟨rfl, List.forall_mem_cons.2 ⟨hfirst, hothers⟩⟩, ?_⟩
        rw [List.flatMap_cons, List.append_assoc]
      · intro h
        obtain ⟨⟨hlen, hall⟩, rfl⟩ := h
        match values, hlen with
        | first :: others, hlen =>
            obtain ⟨hfirst, hothers⟩ := List.forall_mem_cons.1 hall
            refine ⟨first, others.flatMap spelling ++ rest, ⟨hfirst, ?_⟩, others, rest,
              ⟨⟨Nat.succ.inj hlen, hothers⟩, rfl⟩, rfl, rfl⟩
            rw [List.flatMap_cons, List.append_assoc]

end Reader

/-- So many items take at least so many times the least one takes. -/
theorem mul_le_length_flatMap {least : Nat} {spelling : α → Bytes} {items : List α}
    (h : ∀ x ∈ items, least ≤ (spelling x).length) :
    items.length * least ≤ (items.flatMap spelling).length := by
  induction items with
  | nil => simp
  | cons x items ih =>
      obtain ⟨hx, hitems⟩ := List.forall_mem_cons.1 h
      have := ih hitems
      rw [List.flatMap_cons, List.length_append, List.length_cons, Nat.succ_mul]
      omega

/-- No item takes more than all of them. -/
theorem length_le_length_flatMap {spelling : α → Bytes} {items : List α} {x : α}
    (h : x ∈ items) : (spelling x).length ≤ (items.flatMap spelling).length := by
  rw [List.flatMap_def]
  exact (List.sublist_flatten_of_mem (List.mem_map_of_mem h)).length_le

-- ============================================================ complete values

/-- The end is reached where nothing remains. -/
private theorem Reader.finish_eq_ok {u : Unit} :
    finish input = .ok u rest ↔ input = [] ∧ rest = [] := by
  cases input with
  | nil => exact ⟨fun h => by cases h; exact ⟨rfl, rfl⟩, fun h => by rw [h.2]; rfl⟩
  | cons b input => exact ⟨fun h => (nomatch h), fun h => (nomatch h.1)⟩

/-- A complete value is read and nothing is left over. -/
theorem decode_eq_ok_iff_read [Wire α] {value : α} :
    decode input = .ok value ↔ (read : Reader α) input = .ok value [] := by
  have hread : ∀ rest, (do let value ← read; Reader.finish; pure value : Reader α) input
      = .ok value rest ↔ (read : Reader α) input = .ok value [] ∧ rest = [] := by
    intro rest
    simp only [Reader.bind_eq_ok, Reader.finish_eq_ok, Reader.pure_eq_ok]
    constructor
    · intro h
      obtain ⟨_, _, hread, _, _, ⟨rfl, rfl⟩, rfl, rfl⟩ := h
      exact ⟨hread, rfl⟩
    · intro h
      obtain ⟨hread, rfl⟩ := h
      exact ⟨value, [], hread, (), [], ⟨rfl, rfl⟩, rfl, rfl⟩
  unfold decode
  split
  · next v rest h =>
      rw [h] at hread
      constructor
      · intro h
        cases h
        exact ((hread rest).1 rfl).1
      · intro hv
        cases (hread []).2 ⟨hv, rfl⟩
        rfl
  · next cause rest h =>
      rw [h] at hread
      exact ⟨fun hv => (nomatch hv), fun hv => nomatch (hread []).2 ⟨hv, rfl⟩⟩

-- ==================================================================== formats

/-- A format whose reader accepts what is written, and nothing else. -/
class Exact (α : Type) [Wire α] where
  /-- The values that have a written form. -/
  Admits : α → Prop
  spells : Reader.Spells (read : Reader α) Admits write
  leastSize_le : ∀ value : α, max (leastSize α) 1 ≤ (write value).length

namespace Exact

variable [Wire α] [Exact α] {value : α}

/-- A value that is admitted is read from exactly the bytes that it is written as. -/
theorem read_eq_ok :
    (read : Reader α) input = .ok value rest ↔ Admits value ∧ input = write value ++ rest :=
  @spells α _ _ input value rest

/-- A complete value is read from its written form, and from nothing else. -/
theorem decode_eq_ok : decode input = .ok value ↔ Admits value ∧ write value = input := by
  rw [decode_eq_ok_iff_read, read_eq_ok, List.append_nil, eq_comm (a := input)]

theorem write_eq_of_decode (h : decode input = .ok value) : write value = input :=
  (decode_eq_ok.1 h).2

theorem decode_write_eq_ok : decode (write value) = .ok value ↔ Admits value := by
  rw [decode_eq_ok, and_iff_left rfl]

/-- Of two values with one written form one is read, so they are the same. -/
theorem write_inj {other : α} (hvalue : Admits value) (hother : Admits other)
    (h : write value = write other) : value = other := by
  have hread : decode (write value) = .ok value := decode_write_eq_ok.2 hvalue
  rw [h, decode_write_eq_ok.2 hother] at hread
  exact (Except.ok.inj hread).symm

/-- The sequences of which each item is admitted and a count can tell the number. -/
def AdmitsAll (items : List α) : Prop := items.length < 2 ^ 64 ∧ ∀ x ∈ items, Admits x

/-- A sequence is read from exactly the bytes that it is written as, if all its items are
admitted. -/
theorem readSeq_eq_ok {items : List α} :
    readSeq input = .ok items rest ↔ AdmitsAll items ∧ input = writeSeq items ++ rest := by
  have hitems : ∀ n, Reader.Spells (Reader.times n (read : Reader α)) _ _ := spells.times
  simp only [readSeq, Reader.bind_eq_ok, Reader.count_eq_ok, @hitems _ _ _ _, writeSeq, writeCount,
    List.append_assoc]
  constructor
  · intro h
    obtain ⟨_, _, ⟨hn, -, rfl⟩, ⟨rfl, hall⟩, rfl⟩ := h
    exact ⟨⟨hn, hall⟩, rfl⟩
  · intro h
    obtain ⟨⟨hn, hall⟩, rfl⟩ := h
    refine ⟨items.length, _, ⟨hn, ?_, rfl⟩, ⟨rfl, hall⟩, rfl⟩
    have hroom : items.length * max (leastSize α) 1 ≤ (items.flatMap write).length :=
      mul_le_length_flatMap fun x _ => leastSize_le x
    rw [List.length_append]
    omega

/-- A sequence is admitted if what is written is of a length that a count can tell, and its
items are admitted for that. -/
theorem admitsAll_of_length {items : List α} (h : (writeSeq items).length < 2 ^ 64)
    (hitem : ∀ x : α, (write x).length < 2 ^ 64 → Admits x) : AdmitsAll items := by
  rw [writeSeq, List.length_append] at h
  have hone : items.length * 1 ≤ (items.flatMap write).length :=
    mul_le_length_flatMap fun x _ => Nat.le_trans (Nat.le_max_right ..) (leastSize_le x)
  refine ⟨by omega, fun x hx => hitem x ?_⟩
  have hlen : (write x).length ≤ (items.flatMap write).length := length_le_length_flatMap hx
  omega

end Exact

-- ==================================================================== digests

/-- A digest is its 32 bytes. -/
theorem readDigest_eq_ok {d : Digest} :
    (read : Reader Digest) input = .ok d rest ↔ input = d.bytes ++ rest :=
  Reader.octets_eq_ok

/-- A digest is read from exactly the bytes that it is written as. -/
theorem spells_readDigest : Reader.Spells (read : Reader Digest) (fun _ => True) write := by
  intro input d rest
  rw [readDigest_eq_ok, true_and]
  rfl

theorem leastSize_le_digest (d : Digest) : max (leastSize Digest) 1 ≤ (write d).length :=
  Nat.le_of_eq d.length_bytes.symm

instance : Exact Digest where
  Admits _ := True
  spells := spells_readDigest
  leastSize_le := leastSize_le_digest

end MergedMining.Wire
