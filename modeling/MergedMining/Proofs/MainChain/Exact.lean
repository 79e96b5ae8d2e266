/-
Transactions of the main chain, and what they are made of, are read as they are written.

Of a transaction only the payload asks for more than lists that a count can tell: it has
to be one that its kind and version have a layout for. Nothing else in a transaction can
keep it from being read back.
-/
import MergedMining.MainChain.Transaction
import MergedMining.Proofs.MainChain.Payload

namespace MergedMining.MainChain

open Wire

-- ======================================================================= parts

/-- An outpoint is read from exactly the bytes that it is written as. -/
theorem OutPoint.spells_read : Reader.Spells (read : Reader OutPoint) (fun _ => True) write := by
  intro input p rest
  refine Reader.bind_eq_ok.trans ?_
  simp only [readDigest_eq_ok, Reader.bind_eq_ok, Reader.u16_eq_ok, Reader.pure_eq_ok, write,
    List.append_assoc]
  constructor
  · intro h
    obtain ⟨_, _, rfl, _, _, rfl, rfl, rfl⟩ := h
    exact ⟨trivial, rfl⟩
  · intro h
    obtain ⟨-, rfl⟩ := h
    exact ⟨_, _, rfl, _, _, rfl, rfl, rfl⟩

theorem OutPoint.leastSize_le (p : OutPoint) : max (leastSize OutPoint) 1 ≤ (write p).length := by
  simp [leastSize, write, Octets.length_bytes]

instance : Exact OutPoint where
  Admits _ := True
  spells := OutPoint.spells_read
  leastSize_le := OutPoint.leastSize_le

/-- An input is read from exactly the bytes that it is written as. -/
theorem Input.spells_read : Reader.Spells (read : Reader Input) (fun _ => True) write := by
  intro input i rest
  refine Reader.bind_eq_ok.trans ?_
  have hwrite : write i ++ rest = write i.previous ++ (writeU32 i.sequence ++ rest) :=
    List.append_assoc ..
  rw [hwrite]
  simp only [Exact.read_eq_ok, Reader.bind_eq_ok, Reader.u32_eq_ok, Reader.pure_eq_ok]
  constructor
  · intro h
    obtain ⟨_, _, ⟨-, rfl⟩, _, _, rfl, rfl, rfl⟩ := h
    exact ⟨trivial, rfl⟩
  · intro h
    obtain ⟨-, rfl⟩ := h
    exact ⟨_, _, ⟨trivial, rfl⟩, _, _, rfl, rfl, rfl⟩

theorem Input.leastSize_le (i : Input) : max (leastSize Input) 1 ≤ (write i).length := by
  simp [leastSize, write, Octets.length_bytes]

instance : Exact Input where
  Admits _ := True
  spells := Input.spells_read
  leastSize_le := Input.leastSize_le

/-- An output is read from exactly the bytes that it is written as. -/
theorem Output.spells_read : Reader.Spells (read : Reader Output) (fun _ => True) write := by
  intro input o rest
  refine Reader.bind_eq_ok.trans ?_
  simp only [readDigest_eq_ok, Reader.bind_eq_ok, Reader.i64_eq_ok, Reader.u32_eq_ok,
    Reader.octets_eq_ok, Reader.pure_eq_ok, write, List.append_assoc]
  constructor
  · intro h
    obtain ⟨_, _, rfl, _, _, rfl, _, _, rfl, _, _, rfl, rfl, rfl⟩ := h
    exact ⟨trivial, rfl⟩
  · intro h
    obtain ⟨-, rfl⟩ := h
    exact ⟨_, _, rfl, _, _, rfl, _, _, rfl, _, _, rfl, rfl, rfl⟩

theorem Output.leastSize_le (o : Output) : max (leastSize Output) 1 ≤ (write o).length := by
  simp [leastSize, write, Octets.length_bytes]

instance : Exact Output where
  Admits _ := True
  spells := Output.spells_read
  leastSize_le := Output.leastSize_le

/-- An attribute is read from exactly the bytes that it is written as, if its data can be
counted. -/
theorem Attribute.spells_read :
    Reader.Spells (read : Reader Attribute) (fun a => a.data.length < 2 ^ 64) write := by
  intro input a rest
  refine Reader.bind_eq_ok.trans ?_
  simp only [Reader.u8_eq_ok, Reader.bind_eq_ok, Reader.varBytes_eq_ok, Reader.pure_eq_ok, write,
    List.cons_append]
  constructor
  · intro h
    obtain ⟨_, _, rfl, _, _, ⟨hdata, rfl⟩, rfl, rfl⟩ := h
    exact ⟨hdata, rfl⟩
  · intro h
    obtain ⟨hdata, rfl⟩ := h
    exact ⟨_, _, rfl, _, _, ⟨hdata, rfl⟩, rfl, rfl⟩

theorem Attribute.leastSize_le (a : Attribute) :
    max (leastSize Attribute) 1 ≤ (write a).length := by
  have hdata := one_le_length_writeVarBytes a.data
  simp only [leastSize, write, List.length_cons]
  omega

instance : Exact Attribute where
  Admits a := a.data.length < 2 ^ 64
  spells := Attribute.spells_read
  leastSize_le := Attribute.leastSize_le

/-- A program is read from exactly the bytes that it is written as, if its parts can be counted. -/
theorem Program.spells_read :
    Reader.Spells (read : Reader Program)
      (fun p => p.parameter.length < 2 ^ 64 ∧ p.code.length < 2 ^ 64) write := by
  intro input p rest
  refine Reader.bind_eq_ok.trans ?_
  simp only [Reader.bind_eq_ok, Reader.varBytes_eq_ok, Reader.pure_eq_ok, write,
    List.append_assoc]
  constructor
  · intro h
    obtain ⟨_, _, ⟨hparameter, rfl⟩, _, _, ⟨hcode, rfl⟩, rfl, rfl⟩ := h
    exact ⟨⟨hparameter, hcode⟩, rfl⟩
  · intro h
    obtain ⟨⟨hparameter, hcode⟩, rfl⟩ := h
    exact ⟨_, _, ⟨hparameter, rfl⟩, _, _, ⟨hcode, rfl⟩, rfl, rfl⟩

theorem Program.leastSize_le (p : Program) : max (leastSize Program) 1 ≤ (write p).length := by
  have hparameter := one_le_length_writeVarBytes p.parameter
  have hcode := one_le_length_writeVarBytes p.code
  simp only [leastSize, write, List.length_append]
  omega

instance : Exact Program where
  Admits p := p.parameter.length < 2 ^ 64 ∧ p.code.length < 2 ^ 64
  spells := Program.spells_read
  leastSize_le := Program.leastSize_le

/-- The payload of a side mining transaction is read from exactly the bytes that it is written
as. -/
theorem SideMining.spells_read :
    Reader.Spells (read : Reader SideMining) (fun p => p.signedData.length < 2 ^ 64) write := by
  intro input p rest
  refine Reader.bind_eq_ok.trans ?_
  simp only [readDigest_eq_ok, Reader.bind_eq_ok, Reader.u32_eq_ok, Reader.varBytes_eq_ok,
    Reader.pure_eq_ok, write, List.append_assoc]
  constructor
  · intro h
    obtain ⟨_, _, rfl, _, _, rfl, _, _, rfl, _, _, ⟨hdata, rfl⟩, rfl, rfl⟩ := h
    exact ⟨hdata, rfl⟩
  · intro h
    obtain ⟨hdata, rfl⟩ := h
    exact ⟨_, _, rfl, _, _, rfl, _, _, rfl, _, _, ⟨hdata, rfl⟩, rfl, rfl⟩

theorem SideMining.leastSize_le (p : SideMining) :
    max (leastSize SideMining) 1 ≤ (write p).length := by
  simp only [leastSize, write, List.length_append, Octets.length_bytes]
  omega

instance : Exact SideMining where
  Admits p := p.signedData.length < 2 ^ 64
  spells := SideMining.spells_read
  leastSize_le := SideMining.leastSize_le

-- ================================================================ transactions

namespace Transaction

/-- Every list of the transaction, and of its parts, is one whose length a count can tell. -/
def Counted (t : Transaction) : Prop :=
  Exact.AdmitsAll t.attributes ∧ Exact.AdmitsAll t.inputs ∧ Exact.AdmitsAll t.outputs
    ∧ Exact.AdmitsAll t.programs

end Transaction

/-- A transaction is read from exactly the bytes that it is written as, if its payload has the
layout of its kind. -/
theorem Transaction.spells_read :
    Reader.Spells (read : Reader Transaction)
      (fun t => HasLayout t.kind t.payloadVersion t.payload ∧ t.Counted) write := by
  intro input t rest
  refine Reader.bind_eq_ok.trans ?_
  have hwrite : write t ++ rest = t.kind :: t.payloadVersion :: (t.payload
      ++ (writeSeq t.attributes ++ (writeSeq t.inputs ++ (writeSeq t.outputs
        ++ (writeU32 t.lockTime ++ (writeSeq t.programs ++ rest)))))) := by
    simp only [write, Transaction.unsigned, List.append_assoc, List.cons_append]
  rw [hwrite]
  simp only [Reader.u8_eq_ok, Reader.bind_eq_ok, readPayload_eq_ok, Exact.readSeq_eq_ok,
    Reader.u32_eq_ok, Reader.pure_eq_ok]
  constructor
  · intro h
    obtain ⟨_, _, rfl, _, _, rfl, _, _, ⟨hpayload, rfl⟩, _, _, ⟨hattributes, rfl⟩, _, _,
      ⟨hinputs, rfl⟩, _, _, ⟨houtputs, rfl⟩, _, _, rfl, _, _, ⟨hprograms, rfl⟩, rfl, rfl⟩ := h
    exact ⟨⟨hpayload, hattributes, hinputs, houtputs, hprograms⟩, rfl⟩
  · intro h
    obtain ⟨⟨hpayload, hattributes, hinputs, houtputs, hprograms⟩, rfl⟩ := h
    exact ⟨_, _, rfl, _, _, rfl, _, _, ⟨hpayload, rfl⟩, _, _, ⟨hattributes, rfl⟩, _, _,
      ⟨hinputs, rfl⟩, _, _, ⟨houtputs, rfl⟩, _, _, rfl, _, _, ⟨hprograms, rfl⟩, rfl, rfl⟩

theorem Transaction.leastSize_le (t : Transaction) :
    max (leastSize Transaction) 1 ≤ (write t).length := by
  have hattributes := one_le_length_writeCount t.attributes
  have hinputs := one_le_length_writeCount t.inputs
  have houtputs := one_le_length_writeCount t.outputs
  have hprograms := one_le_length_writeCount t.programs
  simp only [leastSize, write, Transaction.unsigned, writeSeq, List.length_append,
    List.length_cons, length_writeU32]
  omega

instance : Exact Transaction where
  Admits t := HasLayout t.kind t.payloadVersion t.payload ∧ t.Counted
  spells := Transaction.spells_read
  leastSize_le := Transaction.leastSize_le

/-- What is written in no more bytes than a count can tell has no list that is longer. Here the
programs are left to be counted by themselves. -/
theorem Transaction.counted_of_unsigned {t : Transaction} (h : t.unsigned.length < 2 ^ 64)
    (hprograms : Exact.AdmitsAll t.programs) : t.Counted := by
  simp only [Transaction.unsigned, List.length_append, List.length_cons] at h
  refine ⟨Exact.admitsAll_of_length (by omega) fun a ha => ?_,
    Exact.admitsAll_of_length (by omega) fun _ _ => trivial,
    Exact.admitsAll_of_length (by omega) fun _ _ => trivial, hprograms⟩
  simp only [write, writeVarBytes, List.length_append, List.length_cons] at ha
  show a.data.length < 2 ^ 64
  omega

/-- In a transaction that is short enough everything can be counted. -/
theorem Transaction.counted_of_length {t : Transaction} (h : (write t).length < 2 ^ 64) :
    t.Counted := by
  simp only [write, List.length_append] at h
  refine counted_of_unsigned (by omega) (Exact.admitsAll_of_length (by omega) fun p hp => ?_)
  simp only [write, writeVarBytes, List.length_append] at hp
  show p.parameter.length < 2 ^ 64 ∧ p.code.length < 2 ^ 64
  omega

end MergedMining.MainChain
