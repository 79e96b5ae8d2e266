/-
Transactions and headers of the parent chain are read as they are written.

A transaction has two forms, and which one it is written in follows from it: the form
with witnesses if there is a witness to be written or no input at all. The reader tells
the forms apart by the byte in front of the inputs and then refuses what should have been
written in the other form, so the spelling is one. Witnesses are bounded by what a reader
is ready to take.
-/
import MergedMining.Parent.Header
import MergedMining.Parent.Transaction
import MergedMining.Proofs.Wire.Exact

namespace MergedMining.Parent

open Wire

variable {input rest : Bytes}

-- ===================================================================== foreign

/-- A foreign format succeeds as it would by itself; only its failures are named anew. -/
private theorem foreign_eq_ok {α : Type} {cause : Error} {format : Reader α} {value : α} :
    Reader.foreign cause format input = .ok value rest ↔ format input = .ok value rest := by
  unfold Reader.foreign
  cases format input with
  | ok v r => exact Iff.rfl
  | error c r => exact ⟨fun h => (nomatch h), fun h => (nomatch h)⟩

-- ===================================================================== headers

/-- A parent header is read from exactly the bytes that it is written as. -/
theorem Header.spells_read : Reader.Spells (read : Reader Header) (fun _ => True) write := by
  intro input h rest
  have hwrite : write h ++ rest = writeI32 h.version ++ (h.previous.bytes ++ (h.merkleRoot.bytes
      ++ (writeU32 h.time ++ (writeU32 h.bits ++ (writeU32 h.nonce ++ rest))))) := by
    simp only [write, Header.bytes, List.append_assoc]
  rw [hwrite]
  refine foreign_eq_ok.trans ?_
  simp only [readHeader, Reader.bind_eq_ok, readDigest_eq_ok, Reader.u32_eq_ok,
    Reader.i32_eq_ok, Reader.pure_eq_ok]
  constructor
  · intro h
    obtain ⟨_, _, rfl, _, _, rfl, _, _, rfl, _, _, rfl, _, _, rfl, _, _, rfl, rfl, rfl⟩ := h
    exact ⟨trivial, rfl⟩
  · intro h
    obtain ⟨-, rfl⟩ := h
    exact ⟨_, _, rfl, _, _, rfl, _, _, rfl, _, _, rfl, _, _, rfl, _, _, rfl, rfl, rfl⟩

theorem Header.leastSize_le (h : Header) : max (leastSize Header) 1 ≤ (write h).length := by
  simp [leastSize, write, Header.bytes, Octets.length_bytes]

instance : Exact Header where
  Admits _ := True
  spells := Header.spells_read
  leastSize_le := Header.leastSize_le

-- ============================================================ inputs and outputs

/-- A byte string whose length a count can tell is read back. -/
theorem readScript_eq_ok {script : Bytes} :
    readScript input = .ok script rest
      ↔ script.length < 2 ^ 64 ∧ input = writeVarBytes script ++ rest := by
  simp only [readScript, Reader.bind_eq_ok, Reader.varUint_eq_ok, Reader.bytes_eq_ok, writeVarBytes,
    writeCount, List.append_assoc]
  constructor
  · intro h
    obtain ⟨n, _, rfl, hlen, rfl⟩ := h
    rw [hlen, UInt64.ofNat_toNat]
    exact ⟨n.toNat_lt, rfl⟩
  · intro h
    obtain ⟨hlen, rfl⟩ := h
    exact ⟨_, _, rfl, (UInt64.toNat_ofNat_of_lt' hlen).symm, rfl⟩

/-- An input without its witness is read from exactly the bytes that it is written as. -/
theorem spells_readInput :
    readInput.Spells (fun i => i.witness = [] ∧ i.script.length < 2 ^ 64) Input.bytes := by
  intro input i rest
  have hwrite : i.bytes ++ rest = i.transaction.bytes ++ (writeU32 i.index
      ++ (writeVarBytes i.script ++ (writeU32 i.sequence ++ rest))) := by
    simp only [Input.bytes, List.append_assoc]
  rw [hwrite]
  simp only [readInput, Reader.bind_eq_ok, readDigest_eq_ok, Reader.u32_eq_ok, readScript_eq_ok,
    Reader.pure_eq_ok]
  constructor
  · intro h
    obtain ⟨_, _, rfl, _, _, rfl, _, _, ⟨hscript, rfl⟩, _, _, rfl, rfl, rfl⟩ := h
    exact ⟨⟨rfl, hscript⟩, rfl⟩
  · obtain ⟨transaction, index, script, sequence, witness⟩ := i
    intro h
    obtain ⟨⟨rfl, hscript⟩, rfl⟩ := h
    exact ⟨_, _, rfl, _, _, rfl, _, _, ⟨hscript, rfl⟩, _, _, rfl, rfl, rfl⟩

/-- An output is read from exactly the bytes that it is written as. -/
theorem spells_readOutput : readOutput.Spells (·.script.length < 2 ^ 64) Output.bytes := by
  intro input o rest
  have hwrite : o.bytes ++ rest = writeU64 o.value ++ (writeVarBytes o.script ++ rest) := by
    simp only [Output.bytes, List.append_assoc]
  rw [hwrite]
  simp only [readOutput, Reader.bind_eq_ok, Reader.u64_eq_ok, readScript_eq_ok, Reader.pure_eq_ok]
  constructor
  · intro h
    obtain ⟨_, _, rfl, _, _, ⟨hscript, rfl⟩, rfl, rfl⟩ := h
    exact ⟨hscript, rfl⟩
  · intro h
    obtain ⟨hscript, rfl⟩ := h
    exact ⟨_, _, rfl, _, _, ⟨hscript, rfl⟩, rfl, rfl⟩

/-- A list behind its count, which nothing bounds. -/
theorem readAll_eq_ok {α : Type} {item : Reader α} {admits : α → Prop} {spelling : α → Bytes}
    (h : item.Spells admits spelling) {values : List α} :
    readAll item input = .ok values rest
      ↔ (values.length < 2 ^ 64 ∧ ∀ v ∈ values, admits v)
        ∧ input = writeCount values ++ values.flatMap spelling ++ rest := by
  have hitems : ∀ n, (Reader.times n item).Spells _ _ := h.times
  simp only [readAll, Reader.bind_eq_ok, Reader.varUint_eq_ok, @hitems _ _ _ _, writeCount,
    List.append_assoc]
  constructor
  · intro h
    obtain ⟨n, _, rfl, ⟨hlen, hall⟩, rfl⟩ := h
    rw [hlen, UInt64.ofNat_toNat]
    exact ⟨⟨n.toNat_lt, hall⟩, rfl⟩
  · intro h
    obtain ⟨⟨hlen, hall⟩, rfl⟩ := h
    exact ⟨_, _, rfl, ⟨(UInt64.toNat_ofNat_of_lt' hlen).symm, hall⟩, rfl⟩

-- =================================================================== witnesses

/-- A witness is within the limit: its items, their lengths included, are no more than a
reader takes. -/
def WitnessFits (items : List Bytes) : Prop :=
  (items.flatMap writeVarBytes).length ≤ witnessLimit

instance (items : List Bytes) : Decidable (WitnessFits items) :=
  inferInstanceAs (Decidable (_ ≤ _))

/-- Every item counts for a byte at least, so their number is within the limit, too. -/
theorem WitnessFits.length_le {items : List Bytes} (h : WitnessFits items) :
    items.length ≤ witnessLimit := by
  have hlen : items.length * 1 ≤ (items.flatMap writeVarBytes).length :=
    mul_le_length_flatMap fun item _ => one_le_length_writeVarBytes item
  rw [Nat.mul_one] at hlen
  exact Nat.le_trans hlen h

/-- Witness items are read if with those before them they stay within the limit. -/
private theorem readWitnessItems_eq_ok {count used : Nat} {items : List Bytes}
    (hused : used ≤ witnessLimit) :
    readWitnessItems count used input = .ok items rest
      ↔ items.length = count ∧ used + (items.flatMap writeVarBytes).length ≤ witnessLimit
        ∧ input = items.flatMap writeVarBytes ++ rest := by
  -- by induction on the items, with the bytes of those before them in what is used
  induction count generalizing used input items with
  | zero =>
      rw [readWitnessItems, Reader.pure_eq_ok]
      constructor
      · intro h
        obtain ⟨rfl, rfl⟩ := h
        exact ⟨rfl, hused, rfl⟩
      · intro h
        obtain ⟨hlen, -, rfl⟩ := h
        obtain rfl := List.length_eq_zero_iff.1 hlen
        exact ⟨rfl, rfl⟩
  | succ count ih =>
      simp only [readWitnessItems, Reader.bind_eq_ok, Reader.varUint_eq_ok, Reader.throw_bind,
        Reader.ite_throw_eq_ok, Reader.bytes_eq_ok, Reader.pure_eq_ok, Nat.not_lt]
      constructor
      · intro h
        obtain ⟨size, _, rfl, htotal, item, _, ⟨hsize, rfl⟩, others, _, hothers, rfl, rfl⟩ := h
        obtain ⟨rfl, hlimit, rfl⟩ := (ih htotal).1 hothers
        have hwrite : writeVarBytes item = writeVarUint size ++ item := by
          rw [writeVarBytes, writeCount, hsize, UInt64.ofNat_toNat]
        rw [List.flatMap_cons, hwrite]
        refine ⟨rfl, ?_, by simp only [List.append_assoc]⟩
        simp only [List.length_append]
        omega
      · intro h
        obtain ⟨hlen, hlimit, rfl⟩ := h
        cases items with
        | nil => cases hlen
        | cons item others =>
            rw [List.flatMap_cons, writeVarBytes, writeCount] at hlimit
            simp only [List.length_append] at hlimit
            -- the limit is far below what a size can say
            have hsize : (UInt64.ofNat item.length).toNat = item.length := by
              refine UInt64.toNat_ofNat_of_lt' ?_
              have : witnessLimit < 2 ^ 64 := by decide
              show item.length < 2 ^ 64
              omega
            refine ⟨_, item ++ (others.flatMap writeVarBytes ++ rest), ?_, ?_, item, _,
              ⟨hsize.symm, rfl⟩, others, rest, (ih ?_).2 ⟨Nat.succ.inj hlen, ?_, rfl⟩, rfl, rfl⟩
            · simp only [List.flatMap_cons, writeVarBytes, writeCount, List.append_assoc]
            · omega
            · omega
            · omega

/-- The witness of an input is read if all its items stay within the limit. -/
private theorem readWitness_eq_ok {items : List Bytes} :
    readWitness input = .ok items rest
      ↔ WitnessFits items ∧ input = writeCount items ++ items.flatMap writeVarBytes ++ rest := by
  simp only [readWitness, Reader.bind_eq_ok, Reader.varUint_eq_ok, Reader.throw_bind,
    Reader.ite_throw_eq_ok, readWitnessItems_eq_ok (Nat.zero_le witnessLimit), Nat.not_lt,
    Nat.zero_add, writeCount, List.append_assoc]
  constructor
  · intro h
    obtain ⟨n, _, rfl, -, hlen, hfits, rfl⟩ := h
    rw [hlen, UInt64.ofNat_toNat]
    exact ⟨hfits, rfl⟩
  · intro h
    obtain ⟨hfits, rfl⟩ := h
    have hlimit := hfits.length_le
    have hn : (UInt64.ofNat items.length).toNat = items.length := by
      refine UInt64.toNat_ofNat_of_lt' ?_
      exact Nat.lt_of_le_of_lt hlimit (by decide)
    exact ⟨_, _, rfl, by rwa [hn], hn.symm, hfits, rfl⟩

/-- The input without its witness. -/
def Input.bare (i : Input) : Input := { i with witness := [] }

/-- Each input is given the witness that stands in its place. -/
theorem readWitnesses_eq_ok {bare inputs : List Input} :
    readWitnesses bare input = .ok inputs rest
      ↔ inputs.map Input.bare = bare.map Input.bare ∧ (∀ i ∈ inputs, WitnessFits i.witness)
        ∧ input = inputs.flatMap Input.witnessBytes ++ rest := by
  induction bare generalizing input inputs rest with
  | nil =>
      rw [readWitnesses, Reader.pure_eq_ok]
      constructor
      · intro h
        obtain ⟨rfl, rfl⟩ := h
        exact ⟨rfl, fun i hi => (nomatch hi), rfl⟩
      · intro h
        obtain ⟨hmap, -, rfl⟩ := h
        obtain rfl := List.map_eq_nil_iff.1 hmap
        exact ⟨rfl, rfl⟩
  | cons first bare ih =>
      simp only [readWitnesses, Reader.bind_eq_ok, readWitness_eq_ok, Reader.pure_eq_ok, @ih]
      constructor
      · intro h
        obtain ⟨witness, _, ⟨hfits, rfl⟩, others, _, ⟨hmap, hall, rfl⟩, rfl, rfl⟩ := h
        refine ⟨?_, List.forall_mem_cons.2 ⟨hfits, hall⟩, ?_⟩
        · rw [List.map_cons, List.map_cons, hmap]
          rfl
        · simp only [List.flatMap_cons, Input.witnessBytes, List.append_assoc]
      · intro h
        obtain ⟨hmap, hall, rfl⟩ := h
        match inputs, hmap with
        | i :: others, hmap =>
            obtain ⟨hfirst, hothers⟩ := List.cons.inj hmap
            obtain ⟨hfits, hall⟩ := List.forall_mem_cons.1 hall
            refine ⟨i.witness, _, ⟨hfits, ?_⟩, others, rest, ⟨hothers, hall, rfl⟩, ?_, rfl⟩
            · simp only [List.flatMap_cons, Input.witnessBytes, List.append_assoc]
            · have hback : { first.bare with witness := i.witness } = i := by rw [← hfirst]; rfl
              rw [← hback]
              rfl

-- ================================================================ transactions

namespace Transaction

/-- Every list of the transaction, scripts included, is one whose length a count can tell. -/
def Counted (t : Transaction) : Prop :=
  (t.inputs.length < 2 ^ 64 ∧ ∀ i ∈ t.inputs, i.script.length < 2 ^ 64)
    ∧ (t.outputs.length < 2 ^ 64 ∧ ∀ o ∈ t.outputs, o.script.length < 2 ^ 64)

/-- The witnesses are within what a reader takes. -/
def WitnessesFit (t : Transaction) : Prop := ∀ i ∈ t.inputs, WitnessFits i.witness

instance (t : Transaction) : Decidable t.WitnessesFit :=
  inferInstanceAs (Decidable (∀ i ∈ t.inputs, WitnessFits i.witness))

/-- The form with witnesses is needed unless there are inputs and none has a witness. -/
private theorem needsWitnessForm_eq_true {t : Transaction} :
    t.needsWitnessForm = true
      ↔ ¬(!t.inputs.isEmpty && t.inputs.all (·.witness.isEmpty)) = true := by
  unfold needsWitnessForm
  rw [List.any_eq_not_all_not]
  simp only [Bool.not_not]
  cases t.inputs.isEmpty <;> cases t.inputs.all (·.witness.isEmpty) <;> decide

/-- The form without witnesses is for inputs of which there are some, all without witness. -/
theorem needsWitnessForm_eq_false {t : Transaction} :
    t.needsWitnessForm = false ↔ t.inputs ≠ [] ∧ ∀ i ∈ t.inputs, i.witness = [] := by
  simp [needsWitnessForm]

/-- In the form with witnesses a marker stands behind the version, and the witnesses behind the
body. -/
private theorem bytes_of_witnesses {t : Transaction} (h : t.needsWitnessForm = true)
    (rest : Bytes) :
    t.bytes ++ rest = writeI32 t.version ++ (0 :: 1 :: (t.bodyBytes
      ++ (t.inputs.flatMap Input.witnessBytes ++ (writeU32 t.lockTime ++ rest)))) := by
  rw [bytes, if_pos h]
  simp only [List.append_assoc, List.cons_append]

/-- In the form without witnesses there is only the body. -/
private theorem bytes_of_no_witness {t : Transaction} (h : t.needsWitnessForm = false)
    (rest : Bytes) :
    t.bytes ++ rest
      = writeI32 t.version ++ (t.bodyBytes ++ (writeU32 t.lockTime ++ rest)) := by
  rw [bytes, if_neg (by rw [h]; decide), legacyBytes]
  simp only [List.append_assoc]

end Transaction

/-- Inputs that differ in nothing but their witnesses are written alike. -/
theorem flatMap_bytes_of_bare {inputs bare : List Input}
    (h : inputs.map Input.bare = bare.map Input.bare) :
    inputs.flatMap Input.bytes = bare.flatMap Input.bytes := by
  have hbare (is : List Input) :
      is.flatMap Input.bytes = (is.map Input.bare).flatMap Input.bytes := by
    rw [List.flatMap_map]
    rfl
  rw [hbare inputs, h, ← hbare bare]

/-- What stands behind the flag in the form with witnesses. -/
def readWithWitnesses (version : Int32) : Reader Transaction := do
  let bare ← readAll readInput
  let outputs ← readAll readOutput
  let inputs ← readWitnesses bare
  if !inputs.isEmpty && inputs.all (·.witness.isEmpty) then throw .badParentCoinbase
  let lockTime ← Reader.u32
  return { version, inputs, outputs, lockTime }

/-- Behind the marker stand a transaction that needs the form with witnesses, and its witnesses. -/
private theorem readWithWitnesses_eq_ok {version : Int32} {t : Transaction} :
    readWithWitnesses version input = .ok t rest
      ↔ (t.version = version ∧ t.needsWitnessForm = true) ∧ (t.Counted ∧ t.WitnessesFit)
        ∧ input = t.bodyBytes
          ++ (t.inputs.flatMap Input.witnessBytes ++ (writeU32 t.lockTime ++ rest)) := by
  simp only [readWithWitnesses, Reader.bind_eq_ok, Reader.throw_bind, Reader.ite_throw_eq_ok,
    readAll_eq_ok spells_readInput, readAll_eq_ok spells_readOutput, readWitnesses_eq_ok,
    Reader.u32_eq_ok, Reader.pure_eq_ok]
  constructor
  · intro h
    obtain ⟨bare, _, ⟨⟨hcount, hbare⟩, rfl⟩, outputs, _, ⟨houtputs, rfl⟩, inputs, _,
      ⟨hmap, hfits, rfl⟩, hform, lockTime, _, rfl, rfl, rfl⟩ := h
    have hlen : inputs.length = bare.length := by
      rw [← List.length_map Input.bare, hmap, List.length_map]
    refine ⟨⟨rfl, Transaction.needsWitnessForm_eq_true.2 hform⟩, ⟨⟨⟨?_, ?_⟩, houtputs⟩, hfits⟩, ?_⟩
    · rwa [hlen]
    · intro i hi
      obtain ⟨b, hb, heq⟩ := List.mem_map.1 (hmap ▸ List.mem_map_of_mem (f := Input.bare) hi)
      show i.bare.script.length < 2 ^ 64
      rw [← heq]
      exact (hbare b hb).2
    · simp only [Transaction.bodyBytes, writeCount, hlen, flatMap_bytes_of_bare hmap,
        List.append_assoc]
  · intro h
    obtain ⟨⟨rfl, hform⟩, ⟨⟨⟨hcount, hscripts⟩, houtputs⟩, hfits⟩, rfl⟩ := h
    have hself : t.inputs.map Input.bare = (t.inputs.map Input.bare).map Input.bare := by
      rw [List.map_map]
      rfl
    refine ⟨t.inputs.map Input.bare, _, ⟨⟨by rwa [List.length_map], ?_⟩, ?_⟩, t.outputs, _,
      ⟨houtputs, rfl⟩, t.inputs, _, ⟨hself, hfits, rfl⟩,
      Transaction.needsWitnessForm_eq_true.1 hform, t.lockTime, _, rfl, rfl, rfl⟩
    · intro b hb
      obtain ⟨i, hi, rfl⟩ := List.mem_map.1 hb
      exact ⟨rfl, hscripts i hi⟩
    · simp only [Transaction.bodyBytes, writeCount, List.length_map, flatMap_bytes_of_bare hself,
        List.append_assoc]

/-- What stands behind the inputs in the form without witnesses. -/
def readWithoutWitnesses (version : Int32) (inputs : List Input) : Reader Transaction := do
  let outputs ← readAll readOutput
  let lockTime ← Reader.u32
  return { version, inputs, outputs, lockTime }

/-- Behind the inputs stand the outputs and the lock time, if there is no marker. -/
private theorem readWithoutWitnesses_eq_ok {version : Int32} {inputs : List Input}
    {t : Transaction} :
    readWithoutWitnesses version inputs input = .ok t rest
      ↔ (t.version = version ∧ t.inputs = inputs)
        ∧ (t.outputs.length < 2 ^ 64 ∧ ∀ o ∈ t.outputs, o.script.length < 2 ^ 64)
        ∧ input = writeCount t.outputs ++ t.outputs.flatMap Output.bytes
          ++ (writeU32 t.lockTime ++ rest) := by
  simp only [readWithoutWitnesses, Reader.bind_eq_ok, readAll_eq_ok spells_readOutput,
    Reader.u32_eq_ok, Reader.pure_eq_ok]
  constructor
  · intro h
    obtain ⟨outputs, _, ⟨houtputs, rfl⟩, lockTime, _, rfl, rfl, rfl⟩ := h
    exact ⟨⟨rfl, rfl⟩, houtputs, rfl⟩
  · intro h
    obtain ⟨⟨rfl, rfl⟩, houtputs, rfl⟩ := h
    exact ⟨t.outputs, _, ⟨houtputs, rfl⟩, t.lockTime, _, rfl, rfl, rfl⟩

/-- The byte in front of the inputs tells the forms apart. -/
theorem readTransaction_eq :
    readTransaction = (do
      let version ← Reader.i32
      let inputs ← readAll readInput
      if inputs.isEmpty then
        let flag ← Reader.u8
        if flag = 1 then readWithWitnesses version else throw .badParentCoinbase
      else readWithoutWitnesses version inputs) := by
  simp only [readTransaction, Reader.throw_bind]
  rfl

/-- A transaction is read from exactly the bytes of the form that it needs. -/
private theorem readTransaction_eq_ok {t : Transaction} :
    readTransaction input = .ok t rest
      ↔ (t.Counted ∧ t.WitnessesFit) ∧ input = t.bytes ++ rest := by
  simp only [readTransaction_eq, Reader.bind_eq_ok, Reader.i32_eq_ok,
    readAll_eq_ok spells_readInput]
  constructor
  · intro h
    obtain ⟨version, _, rfl, inputs, _, ⟨⟨hcount, hall⟩, rfl⟩, h⟩ := h
    split at h
    · next hnone =>
        obtain rfl := List.isEmpty_iff.1 hnone
        simp only [Reader.bind_eq_ok, Reader.u8_eq_ok, Reader.ite_else_throw_eq_ok,
          readWithWitnesses_eq_ok] at h
        obtain ⟨_, _, rfl, rfl, ⟨rfl, hform⟩, hadmits, rfl⟩ := h
        refine ⟨hadmits, ?_⟩
        rw [Transaction.bytes_of_witnesses hform]
        rfl
    · next hsome =>
        obtain ⟨⟨rfl, rfl⟩, houtputs, rfl⟩ := readWithoutWitnesses_eq_ok.1 h
        have hform : t.needsWitnessForm = false := Transaction.needsWitnessForm_eq_false.2
          ⟨fun hnil => hsome (List.isEmpty_iff.2 hnil), fun i hi => (hall i hi).1⟩
        refine ⟨⟨⟨⟨hcount, fun i hi => (hall i hi).2⟩, houtputs⟩, fun i hi => ?_⟩, ?_⟩
        · rw [(hall i hi).1]
          exact Nat.zero_le _
        · rw [Transaction.bytes_of_no_witness hform, Transaction.bodyBytes]
          simp only [List.append_assoc]
  · intro h
    obtain ⟨⟨hcounted, hfit⟩, rfl⟩ := h
    cases hform : t.needsWitnessForm with
    | true =>
        rw [Transaction.bytes_of_witnesses hform]
        refine ⟨t.version, _, rfl, [], _, ⟨⟨by decide, fun i hi => (nomatch hi)⟩, rfl⟩, ?_⟩
        rw [if_pos List.isEmpty_nil]
        simp only [Reader.bind_eq_ok, Reader.u8_eq_ok, Reader.ite_else_throw_eq_ok,
          readWithWitnesses_eq_ok]
        exact ⟨1, _, rfl, rfl, ⟨trivial, hform⟩, ⟨hcounted, hfit⟩, rfl⟩
    | false =>
        obtain ⟨hsome, hnone⟩ := Transaction.needsWitnessForm_eq_false.1 hform
        obtain ⟨⟨hcount, hscripts⟩, houtputs⟩ := hcounted
        rw [Transaction.bytes_of_no_witness hform, Transaction.bodyBytes]
        refine ⟨t.version, _, rfl, t.inputs, writeCount t.outputs ++ t.outputs.flatMap Output.bytes
          ++ (writeU32 t.lockTime ++ rest),
          ⟨⟨hcount, fun i hi => ⟨hnone i hi, hscripts i hi⟩⟩, ?_⟩, ?_⟩
        · simp only [List.append_assoc]
        · rw [if_neg fun hnil => hsome (List.isEmpty_iff.1 hnil)]
          exact readWithoutWitnesses_eq_ok.2 ⟨⟨rfl, rfl⟩, houtputs, rfl⟩

/-- A parent transaction is read from exactly the bytes that it is written as, if its parts can be
counted and its witnesses stay within the limit. -/
theorem Transaction.spells_read :
    Reader.Spells (read : Reader Transaction) (fun t => t.Counted ∧ t.WitnessesFit) write :=
  fun _ _ _ => foreign_eq_ok.trans readTransaction_eq_ok

/-- A parent transaction is no shorter than the least size of its format. -/
theorem Transaction.leastSize_le (t : Transaction) :
    max (leastSize Transaction) 1 ≤ (write t).length := by
  show 10 ≤ t.bytes.length
  have hinputs := one_le_length_writeCount t.inputs
  have houtputs := one_le_length_writeCount t.outputs
  cases hform : t.needsWitnessForm with
  | true =>
      have hlen := congrArg List.length (Transaction.bytes_of_witnesses hform [])
      simp [Transaction.bodyBytes] at hlen
      omega
  | false =>
      have hlen := congrArg List.length (Transaction.bytes_of_no_witness hform [])
      simp [Transaction.bodyBytes] at hlen
      omega

instance : Exact Transaction where
  Admits t := t.Counted ∧ t.WitnessesFit
  spells := Transaction.spells_read
  leastSize_le := Transaction.leastSize_le

/-- What is written in no more bytes than a count can tell has no list that is longer. -/
theorem Transaction.counted_of_length {t : Transaction} (h : (write t).length < 2 ^ 64) :
    t.Counted := by
  have hbody : t.bodyBytes.length ≤ t.bytes.length := by
    unfold bytes legacyBytes
    split <;> simp only [List.length_append, List.length_cons] <;> omega
  have hsize : t.bytes.length < 2 ^ 64 := h
  simp only [bodyBytes, List.length_append] at hbody
  have hinputs : t.inputs.length * 1 ≤ (t.inputs.flatMap Input.bytes).length :=
    mul_le_length_flatMap fun i _ => by
      simp only [Input.bytes, List.length_append, length_writeU32]
      omega
  have houtputs : t.outputs.length * 1 ≤ (t.outputs.flatMap Output.bytes).length :=
    mul_le_length_flatMap fun o _ => by
      simp only [Output.bytes, List.length_append, length_writeU64]
      omega
  refine ⟨⟨by omega, fun i hi => ?_⟩, ⟨by omega, fun o ho => ?_⟩⟩
  · have hlen : i.bytes.length ≤ (t.inputs.flatMap Input.bytes).length :=
      length_le_length_flatMap hi
    simp only [Input.bytes, writeVarBytes, List.length_append] at hlen
    omega
  · have hlen : o.bytes.length ≤ (t.outputs.flatMap Output.bytes).length :=
      length_le_length_flatMap ho
    simp only [Output.bytes, writeVarBytes, List.length_append] at hlen
    omega

end MergedMining.Parent
