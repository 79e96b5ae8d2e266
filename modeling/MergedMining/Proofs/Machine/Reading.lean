/-
Reading the wire on a machine.

A machine's reader cuts values off the front of its input, and a cut beyond the end traps. So
each read looks first whether the bytes are there. A count is multiplied to see whether its
items have room, a walk is measured by what it left, and a decoder of another chain reports
how much it used. Here the readers are told with all of these operations in place. None of
them traps, whatever the input is, and what is read is what the formats say: the two agree on
each operation, a reader that goes on with another agrees if both do, and so every format
agrees since its fields do.
-/
import MergedMining.Proofs.Machine.Word
import MergedMining.Proofs.Wire.RoundTrip

namespace MergedMining.Machine

open Wire (Error)

variable {α β : Type}

-- ===================================================================== readers

/-- Takes a value off the front of the input, fails, or traps. -/
abbrev Reader := StateT Bytes (ExceptT Error Run)

namespace Reader

/-- Fails if there are not so many bytes left. -/
def need (n : Nat) : Reader Unit := do
  let input ← get
  if input.length < n then throw (.endOfInput n input.length)

/-- Cuts so many bytes off. -/
def advance (n : Nat) : Reader (Octets n) := fun input =>
  if h : n ≤ input.length then
    pure (⟨input.take n, List.length_take_of_le h⟩, input.drop n)
  else (throw Trap.outOfRange : Run _)

/-- Takes so many bytes, having seen that they are there. -/
def octets (n : Nat) : Reader (Octets n) := do
  need n
  advance n

def bytes (n : Nat) : Reader Bytes := Octets.bytes <$> octets n

/-- Reads a number of so many bytes. -/
def number (width : Nat) : Reader Nat := (littleEndian ·.bytes) <$> octets width

def u8 : Reader UInt8 := UInt8.ofNat <$> number 1

def u16 : Reader UInt16 := UInt16.ofNat <$> number 2

def u32 : Reader UInt32 := UInt32.ofNat <$> number 4

def u64 : Reader UInt64 := UInt64.ofNat <$> number 8

def i64 : Reader Int64 := UInt64.toInt64 <$> u64

/-- Refuses a number that fewer bytes could have written. -/
def atLeast (least : UInt64) (value : UInt64) : Reader UInt64 :=
  if value < least then throw .longCount else pure value

/-- Reads a number of variable length. -/
def varUint : Reader UInt64 := do
  let tag ← u8
  if tag = 0xfd then atLeast 0xfd (← u16).toUInt64
  else if tag = 0xfe then atLeast 0x10000 (← u32).toUInt64
  else if tag = 0xff then atLeast 0x100000000 (← u64)
  else pure tag.toUInt64

/-- A count, refused if its items do not fit into the rest or their product into a word. -/
def count (leastSize : Nat) : Reader Nat := do
  let n ← varUint
  let input ← get
  match times? wordBits n.toNat (max leastSize 1) with
  | some total =>
      if total ≤ input.length then pure n.toNat
      else throw (.countTooLarge n.toNat input.length)
  | none => throw (.countTooLarge n.toNat input.length)

def varBytes : Reader Bytes := do bytes (← count 1)

def times (n : Nat) (item : Reader α) : Reader (List α) :=
  match n with
  | 0 => pure []
  | n + 1 => do
      let first ← item
      let others ← times n item
      pure (first :: others)

/-- The bytes that a walk takes, which are measured by what it leaves. -/
def captured (walk : Reader Unit) : Reader Bytes := do
  let before ← get
  walk
  let after ← get
  let used ← minus before.length after.length
  sliceTo before used

/-- Reads with another chain's decoder, which reports how many bytes it used. -/
def foreign (cause : Error) (format : Wire.Reader α) : Reader α := do
  let input ← get
  match format input with
  | .error _ _ => throw cause
  | .ok value rest =>
      let _ ← octets (input.length - rest.length)
      pure value

/-- Refuses bytes that are left over. -/
def finish : Reader Unit := do
  let input ← get
  if input.length ≠ 0 then throw (.trailing input.length)

end Reader

-- =================================================================== agreement

/-- What a reader comes to, without what it leaves when it fails. -/
def outcome : EStateM.Result Error Bytes α → Except Error (α × Bytes)
  | .ok value rest => .ok (value, rest)
  | .error cause _ => .error cause

/-- What a reader that gives a value leaves. -/
theorem of_outcome_eq_ok {r : EStateM.Result Error Bytes α} {a : α} {rest : Bytes}
    (h : outcome r = .ok (a, rest)) : r = .ok a rest := by
  cases r with
  | ok a rest =>
      cases h
      rfl
  | error cause rest => cases h

/-- The machine's reader never traps, and reads as the other does. -/
structure Reads (m : Reader α) (r : Wire.Reader α) : Prop where
  takes : r.Takes 0
  yields : ∀ input, Addressable input → Yields (m.run input) (outcome (r input))

namespace Reads

variable {m : Reader α} {r : Wire.Reader α} {f : α → Reader β} {g : α → Wire.Reader β}

protected theorem pure (a : α) : Reads (pure a) (pure a) where
  takes := .pure a
  yields _ _ := rfl

protected theorem throw (cause : Error) : Reads (throw cause : Reader α) (throw cause) where
  takes := .throw 0 cause
  yields _ _ := rfl

/-- A reader that goes on with another does not trap on an input if neither part does. -/
theorem yields_bind (h : Reads m r) {input : Bytes} (hinput : Addressable input)
    (hnext : ∀ a rest, r input = .ok a rest → Yields ((f a).run rest) (outcome (g a rest))) :
    Yields ((m >>= f).run input) (outcome ((r >>= g) input)) := by
  have houtcome : outcome ((r >>= g) input)
      = outcome (r input) >>= fun out => outcome (g out.1 out.2) := by
    show outcome (EStateM.bind r g input) = _
    unfold EStateM.bind
    cases r input <;> rfl
  rw [StateT.run_bind, houtcome]
  exact (h.yields input hinput).bind fun out hout => hnext out.1 out.2 (of_outcome_eq_ok hout)

/-- What is left to be read is no longer, so it can be addressed as well. -/
protected theorem bind (h : Reads m r) (hnext : ∀ a, Reads (f a) (g a)) :
    Reads (m >>= f) (r >>= g) where
  takes := h.takes.bind fun a => (hnext a).takes
  yields _ hinput := h.yields_bind hinput fun a rest hread =>
    (hnext a).yields rest (Nat.lt_of_le_of_lt (h.takes hread) hinput)

protected theorem map (h : Reads m r) (f : α → β) : Reads (f <$> m) (f <$> r) := by
  have hbind := h.bind fun a => Reads.pure (f a)
  rw [bind_pure_comp, bind_pure_comp] at hbind
  exact hbind

protected theorem ite {c : Prop} [Decidable c] {m' : Reader α} {r' : Wire.Reader α}
    (h : Reads m r) (h' : Reads m' r') : Reads (if c then m else m') (if c then r else r') := by
  split
  · exact h
  · exact h'

protected theorem times (h : Reads m r) (n : Nat) :
    Reads (Reader.times n m) (Wire.Reader.times n r) := by
  induction n with
  | zero => exact .pure []
  | succ n ih => exact h.bind fun first => ih.bind fun others => .pure (first :: others)

protected theorem forM {walk : β → Reader Unit} {walk' : β → Wire.Reader Unit}
    (h : ∀ b, Reads (walk b) (walk' b)) (steps : List β) :
    Reads (steps.forM walk) (steps.forM walk') := by
  induction steps with
  | nil => exact .pure ()
  | cons step steps ih => exact (h step).bind fun _ => ih

end Reads

-- ================================================================== operations

namespace Reader

/-- The bytes were looked for, so they can be cut off. -/
theorem reads_octets (n : Nat) : Reads (octets n) (Wire.Reader.octets n) where
  takes := (Wire.Reader.takes_octets n).mono (Nat.zero_le n)
  yields input _ := by
    rw [octets, need, Wire.Reader.octets]
    by_cases h : n ≤ input.length
    · have hcut : (advance n).run input
          = pure (⟨input.take n, List.length_take_of_le h⟩, input.drop n) :=
        dif_pos h
      rw [dif_pos h]
      show Yields ((if input.length < n then throw _ else pure () : Reader Unit).run input
        >>= fun out => (advance n).run out.2) _
      rw [if_neg (Nat.not_lt.2 h)]
      show Yields ((advance n).run input) _
      rw [hcut]
      rfl
    · rw [dif_neg h]
      show Yields ((if input.length < n then throw _ else pure () : Reader Unit).run input
        >>= fun out => (advance n).run out.2) _
      rw [if_pos (Nat.not_le.1 h)]
      rfl

theorem reads_bytes (n : Nat) : Reads (bytes n) (Wire.Reader.bytes n) := (reads_octets n).map _

theorem reads_u8 : Reads u8 Wire.Reader.u8 := ((reads_octets 1).map _).map _

theorem reads_u16 : Reads u16 Wire.Reader.u16 := ((reads_octets 2).map _).map _

theorem reads_u32 : Reads u32 Wire.Reader.u32 := ((reads_octets 4).map _).map _

theorem reads_u64 : Reads u64 Wire.Reader.u64 := ((reads_octets 8).map _).map _

theorem reads_i64 : Reads i64 Wire.Reader.i64 := reads_u64.map _

/-- A minimal encoding is one that needs its width. -/
theorem reads_atLeast (least value : UInt64) :
    Reads (atLeast least value) (Wire.Reader.atLeast least value) :=
  (Reads.throw .longCount).ite (.pure value)

/-- A number of variable width is read without a trap. -/
theorem reads_varUint : Reads varUint Wire.Reader.varUint := by
  refine reads_u8.bind fun tag => .ite ?_ (.ite ?_ (.ite ?_ (.pure _)))
  · exact reads_u16.bind fun v => reads_atLeast _ _
  · exact reads_u32.bind fun v => reads_atLeast _ _
  · exact reads_u64.bind fun v => reads_atLeast _ _

/-- A product that does not fit into a word is more than is left. -/
theorem reads_room (leastSize n : Nat) :
    Reads
      (do
        let input ← get
        match times? wordBits n (max leastSize 1) with
        | some total =>
            if total ≤ input.length then pure n else throw (.countTooLarge n input.length)
        | none => throw (.countTooLarge n input.length))
      (do
        let left ← Wire.Reader.remaining
        if n * max leastSize 1 ≤ left then pure n else throw (.countTooLarge n left)) where
  takes := Wire.Reader.takes_remaining.bind fun _ => (Wire.Reader.Takes.pure _).ite (.throw 0 _)
  yields input hinput := by
    show Yields (StateT.run (match times? wordBits n (max leastSize 1) with
        | some total =>
            if total ≤ input.length then pure n else throw (Error.countTooLarge n input.length)
        | none => throw (Error.countTooLarge n input.length) : Reader Nat) input)
      (outcome ((if n * max leastSize 1 ≤ input.length then pure n
        else throw (Error.countTooLarge n input.length) : Wire.Reader Nat) input))
    by_cases hfits : n * max leastSize 1 < 2 ^ wordBits
    · rw [times?, if_pos hfits]
      dsimp only
      split <;> rfl
    · have hroom : ¬n * max leastSize 1 ≤ input.length := by
        have : input.length < 2 ^ 56 := hinput
        rw [wordBits] at hfits
        omega
      rw [times?, if_neg hfits, if_neg hroom]
      rfl

theorem reads_count (leastSize : Nat) : Reads (count leastSize) (Wire.Reader.count leastSize) :=
  reads_varUint.bind fun n => reads_room leastSize n.toNat

theorem reads_varBytes : Reads varBytes Wire.Reader.varBytes := (reads_count 1).bind reads_bytes

/-- The number of bytes left over is a difference that does not wrap. -/
theorem reads_finish : Reads finish Wire.Reader.finish where
  takes := Wire.Reader.takes_finish
  yields input _ := by
    cases input <;> rfl

/-- What a walk leaves is no longer than what it began with. -/
theorem reads_captured {walk : Reader Unit} {walk' : Wire.Reader Unit} (h : Reads walk walk') :
    Reads (captured walk) (Wire.Reader.captured walk') where
  takes := by
    intro input taken rest hread
    exact h.takes (Wire.Reader.walk_of_captured hread)
  yields input hinput := by
    have houtcome : outcome (Wire.Reader.captured walk' input)
        = outcome (walk' input) >>= fun out =>
          .ok (input.take (input.length - out.2.length), out.2) := by
      unfold Wire.Reader.captured
      cases walk' input <;> rfl
    rw [houtcome]
    refine (h.yields input hinput).bind fun ⟨_, rest⟩ hout => ?_
    have hle : rest.length ≤ input.length := h.takes (of_outcome_eq_ok hout)
    show Yields (StateT.run (do
      let used ← minus input.length rest.length
      sliceTo input used : Reader Bytes) rest) _
    rw [minus_eq hle]
    show Yields (StateT.run (liftM (sliceTo input (input.length - rest.length)) : Reader Bytes)
      rest) _
    rw [sliceTo_eq (Nat.sub_le ..)]
    rfl

/-- What is left is the end of the input, so a decoder of another chain used what is in front
of it. -/
theorem reads_foreign {cause : Error} {format : Wire.Reader α}
    (h : (Wire.Reader.foreign cause format).Local) :
    Reads (foreign cause format) (Wire.Reader.foreign cause format) where
  takes := by
    intro input value rest hread
    obtain ⟨taken, rfl, -⟩ := h hread
    rw [List.length_append]
    omega
  yields input hinput := by
    show Yields (StateT.run (match format input with
      | .error _ _ => throw cause
      | .ok value rest => do
          let _ ← octets (input.length - rest.length)
          pure value : Reader α) input) _
    cases hformat : format input with
    | error e rest =>
        rw [Wire.Reader.foreign, hformat]
        rfl
    | ok value rest =>
        have hread : Wire.Reader.foreign cause format input = .ok value rest := by
          rw [Wire.Reader.foreign, hformat]
        obtain ⟨taken, rfl, -⟩ := h hread
        -- what the decoder used is what stood in front of what is left
        have hused : (taken ++ rest).length - rest.length = taken.length := by
          rw [List.length_append, Nat.add_sub_cancel]
        have hcut := (reads_octets taken.length).yields _ hinput
        rw [Wire.Reader.octets_append ⟨taken, rfl⟩ rest] at hcut
        rw [hread]
        dsimp only
        rw [hused]
        exact hcut.bind (g := fun out => .ok (value, out.2)) fun out _ => rfl

end Reader

-- ==================================================================== sequences

/-- Goes on with as many items as a count says. Room is made for them before they are read. -/
def Reader.counted (leastSize : Nat) (next : Nat → Reader α) : Reader α := do
  let n ← Reader.count leastSize
  reserve n
  next n

/-- There is a byte at least for each item that room is made for. -/
theorem Reads.counted (leastSize : Nat) {next : Nat → Reader α} {next' : Nat → Wire.Reader α}
    (h : ∀ n, Reads (next n) (next' n)) :
    Reads (Reader.counted leastSize next) (Wire.Reader.count leastSize >>= next') where
  takes := (Reader.reads_count leastSize).takes.bind fun n => (h n).takes
  yields input hinput := by
    refine (Reader.reads_count leastSize).yields_bind hinput fun n rest hcount => ?_
    obtain ⟨-, hroom, rfl⟩ := Wire.Reader.count_eq_ok.1 hcount
    have hrest : rest.length < 2 ^ 56 := by
      rw [Addressable, List.length_append] at hinput
      omega
    have hn : n < 2 ^ 56 := by
      have hle : n * 1 ≤ n * max leastSize 1 := Nat.mul_le_mul_left n (Nat.le_max_right ..)
      omega
    rw [reserve_eq hn]
    exact (h n).yields rest hrest

-- ===================================================================== formats

/-- A format that a machine reads. -/
class Format (α : Type) [Wire α] where
  read : Reader α
  reads : Reads read (Wire.read : Wire.Reader α)

section Values

variable [Wire α] [Format α]

/-- A list of values behind their count. -/
def readSeq : Reader (List α) :=
  Reader.counted (Wire.leastSize α) fun n => Reader.times n Format.read

theorem reads_readSeq : Reads (readSeq : Reader (List α)) Wire.readSeq :=
  .counted _ fun n => Format.reads.times n

/-- A byte string that holds one value and nothing else. -/
def decode (input : Bytes) : ExceptT Error Run α :=
  Prod.fst <$> (do let value ← Format.read; Reader.finish; pure value : Reader α).run input

/-- Reading never traps, and gives what the format says. -/
theorem decode_yields {input : Bytes} (hinput : Addressable input) :
    Yields (decode input : ExceptT Error Run α) (Wire.decode input) := by
  have hread : Reads (do let value ← Format.read; Reader.finish; pure value : Reader α)
      (do let value ← Wire.read; Wire.Reader.finish; pure value) :=
    Format.reads.bind fun value => Reader.reads_finish.bind fun _ => .pure value
  have houtcome : (Wire.decode input : Except Error α)
      = outcome ((do let value ← Wire.read; Wire.Reader.finish; pure value : Wire.Reader α) input)
        >>= fun out => pure out.1 := by
    unfold Wire.decode
    cases (do let value ← Wire.read; Wire.Reader.finish; pure value : Wire.Reader α) input <;> rfl
  rw [houtcome, decode, map_eq_pure_bind]
  exact (hread.yields input hinput).bind fun out _ => pure_yields out.1

end Values

end MergedMining.Machine
