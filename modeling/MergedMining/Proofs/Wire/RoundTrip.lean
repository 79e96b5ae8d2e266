/-
What is decoded is what was encoded, for every format.

The formats of the proofs are put together from those of the two chains. That each of
them is exact has two sides. Decoding is canonical: a byte string that decodes is the
written form of the value, so a value has one spelling. And encoding loses nothing: what
is written decodes to the value again, if it is not longer than a count can tell, the
witnesses of the parent coinbase are within the limit and, where there is a main-chain
transaction, its payload is one that its kind and version have a layout for. This last
condition is needed, since without a length in front a payload with no layout has no end.
-/
import MergedMining.Merkle.Partial
import MergedMining.Proofs.MainChain.Exact
import MergedMining.Proofs.Outcome
import MergedMining.Proofs.Parent.Exact
import MergedMining.SideProof

namespace MergedMining

open Wire

-- ================================================================== merkle proofs

namespace Merkle

/-- A branch is read from exactly the bytes that it is written as. -/
theorem Branch.spells_read :
    Reader.Spells (read : Reader Branch) (fun b => Exact.AdmitsAll b.hashes) write := by
  intro input b rest
  refine Reader.bind_eq_ok.trans ?_
  simp only [Exact.readSeq_eq_ok, Reader.bind_eq_ok, Reader.u32_eq_ok, Reader.pure_eq_ok, write,
    List.append_assoc]
  constructor
  · intro h
    obtain ⟨_, _, ⟨hhashes, rfl⟩, _, _, rfl, rfl, rfl⟩ := h
    exact ⟨hhashes, rfl⟩
  · intro h
    obtain ⟨hhashes, rfl⟩ := h
    exact ⟨_, _, ⟨hhashes, rfl⟩, _, _, rfl, rfl, rfl⟩

theorem Branch.leastSize_le (b : Branch) : max (leastSize Branch) 1 ≤ (write b).length := by
  have hhashes := one_le_length_writeCount b.hashes
  simp only [leastSize, write, writeSeq, List.length_append, length_writeU32]
  omega

instance : Exact Branch where
  Admits b := Exact.AdmitsAll b.hashes
  spells := Branch.spells_read
  leastSize_le := Branch.leastSize_le

/-- A branch that is short enough is admitted. -/
theorem Branch.admits_of_length {b : Branch} (h : (write b).length < 2 ^ 64) :
    Exact.Admits b := by
  simp only [write, List.length_append] at h
  exact Exact.admitsAll_of_length (by omega) fun _ _ => trivial

/-- A partial proof is read from exactly the bytes that it is written as, if its flags can be
counted. -/
theorem PartialProof.spells_read :
    Reader.Spells (read : Reader PartialProof)
      (fun p => Exact.AdmitsAll p.hashes ∧ p.flags.length < 2 ^ 64) write := by
  intro input p rest
  refine Reader.bind_eq_ok.trans ?_
  simp only [readDigest_eq_ok, Reader.bind_eq_ok, Reader.u32_eq_ok, Exact.readSeq_eq_ok,
    Reader.varBytes_eq_ok, Reader.pure_eq_ok, write, List.append_assoc]
  constructor
  · intro h
    obtain ⟨_, _, rfl, _, _, rfl, _, _, rfl, _, _, ⟨hhashes, rfl⟩, _, _, ⟨hflags, rfl⟩, rfl,
      rfl⟩ := h
    exact ⟨⟨hhashes, hflags⟩, rfl⟩
  · intro h
    obtain ⟨⟨hhashes, hflags⟩, rfl⟩ := h
    exact ⟨_, _, rfl, _, _, rfl, _, _, rfl, _, _, ⟨hhashes, rfl⟩, _, _, ⟨hflags, rfl⟩, rfl, rfl⟩

theorem PartialProof.leastSize_le (p : PartialProof) :
    max (leastSize PartialProof) 1 ≤ (write p).length := by
  simp only [leastSize, write, List.length_append, Octets.length_bytes]
  omega

instance : Exact PartialProof where
  Admits p := Exact.AdmitsAll p.hashes ∧ p.flags.length < 2 ^ 64
  spells := PartialProof.spells_read
  leastSize_le := PartialProof.leastSize_le

/-- A partial proof that is short enough is admitted. -/
theorem PartialProof.admits_of_length {p : PartialProof} (h : (write p).length < 2 ^ 64) :
    Exact.Admits p := by
  simp only [write, writeVarBytes, List.length_append] at h
  refine ⟨Exact.admitsAll_of_length (by omega) fun _ _ => trivial, ?_⟩
  omega

end Merkle

-- ============================================================== auxiliary proofs

/-- An auxiliary proof is read from exactly the bytes that it is written as, if its parts are
admitted. -/
theorem AuxProof.spells_read :
    Reader.Spells (read : Reader AuxProof)
      (fun p => Exact.Admits p.coinbase ∧ Exact.Admits p.coinbaseBranch
        ∧ Exact.Admits p.auxBranch) write := by
  intro input p rest
  refine Reader.bind_eq_ok.trans ?_
  have hwrite : write p ++ rest = write p.coinbase ++ (p.parentHash.bytes
      ++ (write p.coinbaseBranch ++ (write p.auxBranch ++ (write p.parentHeader ++ rest)))) := by
    simp only [write, List.append_assoc]
  rw [hwrite]
  simp only [Exact.read_eq_ok, Reader.bind_eq_ok, Reader.pure_eq_ok]
  constructor
  · intro h
    obtain ⟨_, _, ⟨hcoinbase, rfl⟩, _, _, ⟨-, rfl⟩, _, _, ⟨hbranch, rfl⟩, _, _, ⟨haux, rfl⟩, _, _,
      ⟨-, rfl⟩, rfl, rfl⟩ := h
    exact ⟨⟨hcoinbase, hbranch, haux⟩, rfl⟩
  · intro h
    obtain ⟨⟨hcoinbase, hbranch, haux⟩, rfl⟩ := h
    exact ⟨_, _, ⟨hcoinbase, rfl⟩, _, _, ⟨trivial, rfl⟩, _, _, ⟨hbranch, rfl⟩, _, _,
      ⟨haux, rfl⟩, _, _, ⟨trivial, rfl⟩, rfl, rfl⟩

theorem AuxProof.leastSize_le (p : AuxProof) : max (leastSize AuxProof) 1 ≤ (write p).length := by
  simp only [leastSize, write, List.length_append, Octets.length_bytes]
  omega

instance : Exact AuxProof where
  Admits p := Exact.Admits p.coinbase ∧ Exact.Admits p.coinbaseBranch ∧ Exact.Admits p.auxBranch
  spells := AuxProof.spells_read
  leastSize_le := AuxProof.leastSize_le

/-- An auxiliary proof that is short enough is admitted if its witnesses stay within the limit. -/
theorem AuxProof.admits_of_length {p : AuxProof} (h : (write p).length < 2 ^ 64)
    (hfit : p.coinbase.WitnessesFit) : Exact.Admits p := by
  simp only [write, List.length_append] at h
  have hcoinbase : (write p.coinbase).length < 2 ^ 64 := by
    show p.coinbase.bytes.length < 2 ^ 64
    omega
  exact ⟨⟨Parent.Transaction.counted_of_length hcoinbase, hfit⟩,
    Merkle.Branch.admits_of_length (by simp only [write, List.length_append]; omega),
    Merkle.Branch.admits_of_length (by simp only [write, List.length_append]; omega)⟩

/-- The proof that says nothing can be written and read. -/
theorem AuxProof.admits_empty : Exact.Admits AuxProof.empty :=
  AuxProof.admits_of_length (by decide +kernel) (by decide)

-- ================================================================ main-chain blocks

namespace MainChain

/-- A header is read from exactly the bytes that it is written as, if its proof is admitted. -/
theorem Header.spells_read :
    Reader.Spells (read : Reader Header) (fun h => Exact.Admits h.auxProof) write := by
  intro input h rest
  refine Reader.bind_eq_ok.trans ?_
  have hwrite : write h ++ rest = writeU32 h.version ++ (h.previous.bytes
      ++ (h.transactionsRoot.bytes ++ (writeU32 h.timestamp ++ (writeU32 h.bits
        ++ (writeU32 h.nonce ++ (writeU32 h.height ++ (write h.auxProof
          ++ (terminator :: rest)))))))) := by
    simp only [write, Header.bareBytes, List.append_assoc, List.cons_append, List.nil_append]
  rw [hwrite]
  simp only [Reader.bind_eq_ok, Exact.read_eq_ok, Reader.u32_eq_ok, Reader.u8_eq_ok,
    Reader.throw_bind, Reader.ite_else_throw_eq_ok, Reader.pure_eq_ok]
  constructor
  · intro h
    obtain ⟨_, _, rfl, _, _, ⟨-, rfl⟩, _, _, ⟨-, rfl⟩, _, _, rfl, _, _, rfl, _, _, rfl, _, _, rfl,
      _, _, ⟨hproof, rfl⟩, _, _, rfl, rfl, rfl, rfl⟩ := h
    exact ⟨hproof, rfl⟩
  · intro h
    obtain ⟨hproof, rfl⟩ := h
    exact ⟨_, _, rfl, _, _, ⟨trivial, rfl⟩, _, _, ⟨trivial, rfl⟩, _, _, rfl, _, _, rfl, _, _, rfl,
      _, _, rfl, _, _, ⟨hproof, rfl⟩, _, _, rfl, rfl, rfl, rfl⟩

theorem Header.leastSize_le (h : Header) : max (leastSize Header) 1 ≤ (write h).length := by
  simp only [leastSize, write, List.length_append, List.length_cons]
  omega

instance : Exact Header where
  Admits h := Exact.Admits h.auxProof
  spells := Header.spells_read
  leastSize_le := Header.leastSize_le

/-- A header that is short enough is admitted if the witnesses in it stay within the limit. -/
theorem Header.admits_of_length {h : Header} (hlen : (write h).length < 2 ^ 64)
    (hfit : h.auxProof.coinbase.WitnessesFit) : Exact.Admits h := by
  refine AuxProof.admits_of_length (p := h.auxProof) ?_ hfit
  simp only [write, List.length_append] at hlen ⊢
  omega

/-- A block is read from exactly the bytes that it is written as, if its parts are admitted. -/
theorem Block.spells_read :
    Reader.Spells (read : Reader Block)
      (fun b => Exact.Admits b.header ∧ Exact.AdmitsAll b.transactions) write := by
  intro input b rest
  refine Reader.bind_eq_ok.trans ?_
  have hwrite : write b ++ rest = write b.header ++ (writeSeq b.transactions ++ rest) :=
    List.append_assoc ..
  rw [hwrite]
  simp only [Exact.read_eq_ok, Reader.bind_eq_ok, Exact.readSeq_eq_ok, Reader.pure_eq_ok]
  constructor
  · intro h
    obtain ⟨_, _, ⟨hheader, rfl⟩, _, _, ⟨htransactions, rfl⟩, rfl, rfl⟩ := h
    exact ⟨⟨hheader, htransactions⟩, rfl⟩
  · intro h
    obtain ⟨⟨hheader, htransactions⟩, rfl⟩ := h
    exact ⟨_, _, ⟨hheader, rfl⟩, _, _, ⟨htransactions, rfl⟩, rfl, rfl⟩

theorem Block.leastSize_le (b : Block) : max (leastSize Block) 1 ≤ (write b).length := by
  have htransactions := one_le_length_writeCount b.transactions
  simp only [leastSize, write, writeSeq, List.length_append]
  omega

instance : Exact Block where
  Admits b := Exact.Admits b.header ∧ Exact.AdmitsAll b.transactions
  spells := Block.spells_read
  leastSize_le := Block.leastSize_le

end MainChain

-- =================================================================== side proofs

/-- A side chain proof is read from exactly the bytes that it is written as, if its parts are
admitted. -/
theorem SideProof.spells_read :
    Reader.Spells (read : Reader SideProof)
      (fun p => Exact.Admits p.transaction ∧ Exact.Admits p.branch
        ∧ Exact.Admits p.header) write := by
  intro input p rest
  refine Reader.bind_eq_ok.trans ?_
  have hwrite : write p ++ rest
      = write p.transaction ++ (write p.branch ++ (write p.header ++ rest)) := by
    simp only [write, List.append_assoc]
  rw [hwrite]
  simp only [Exact.read_eq_ok, Reader.bind_eq_ok, Reader.pure_eq_ok]
  constructor
  · intro h
    obtain ⟨_, _, ⟨htransaction, rfl⟩, _, _, ⟨hbranch, rfl⟩, _, _, ⟨hheader, rfl⟩, rfl, rfl⟩ := h
    exact ⟨⟨htransaction, hbranch, hheader⟩, rfl⟩
  · intro h
    obtain ⟨⟨htransaction, hbranch, hheader⟩, rfl⟩ := h
    exact ⟨_, _, ⟨htransaction, rfl⟩, _, _, ⟨hbranch, rfl⟩, _, _, ⟨hheader, rfl⟩, rfl, rfl⟩

theorem SideProof.leastSize_le (p : SideProof) :
    max (leastSize SideProof) 1 ≤ (write p).length := by
  have htransaction := Exact.leastSize_le p.transaction
  show max 1 1 ≤ (write p.transaction ++ write p.branch ++ write p.header).length
  rw [List.length_append, List.length_append]
  omega

instance : Exact SideProof where
  Admits p := Exact.Admits p.transaction ∧ Exact.Admits p.branch ∧ Exact.Admits p.header
  spells := SideProof.spells_read
  leastSize_le := SideProof.leastSize_le

namespace Wire

-- ====================================================================== canonical

/-- Decoding is canonical: in each format a byte string that decodes is the written form of
the value that it decodes to. -/
theorem write_of_decode :
    (∀ input (v : Digest), decode input = .ok v → write v = input)
      ∧ (∀ input (v : Merkle.Branch), decode input = .ok v → write v = input)
      ∧ (∀ input (v : MainChain.OutPoint), decode input = .ok v → write v = input)
      ∧ (∀ input (v : MainChain.Input), decode input = .ok v → write v = input)
      ∧ (∀ input (v : MainChain.Output), decode input = .ok v → write v = input)
      ∧ (∀ input (v : MainChain.Attribute), decode input = .ok v → write v = input)
      ∧ (∀ input (v : MainChain.Program), decode input = .ok v → write v = input)
      ∧ (∀ input (v : MainChain.Transaction), decode input = .ok v → write v = input)
      ∧ (∀ input (v : MainChain.SideMining), decode input = .ok v → write v = input)
      ∧ (∀ input (v : Merkle.PartialProof), decode input = .ok v → write v = input)
      ∧ (∀ input (v : Parent.Transaction), decode input = .ok v → write v = input)
      ∧ (∀ input (v : Parent.Header), decode input = .ok v → write v = input)
      ∧ (∀ input (v : AuxProof), decode input = .ok v → write v = input)
      ∧ (∀ input (v : MainChain.Header), decode input = .ok v → write v = input)
      ∧ (∀ input (v : SideProof), decode input = .ok v → write v = input)
      ∧ (∀ input (b : MainChain.Block), decode input = .ok b →
          write b.header ++ writeSeq b.transactions = input) :=
  ⟨fun _ _ => Exact.write_eq_of_decode, fun _ _ => Exact.write_eq_of_decode,
    fun _ _ => Exact.write_eq_of_decode, fun _ _ => Exact.write_eq_of_decode,
    fun _ _ => Exact.write_eq_of_decode, fun _ _ => Exact.write_eq_of_decode,
    fun _ _ => Exact.write_eq_of_decode, fun _ _ => Exact.write_eq_of_decode,
    fun _ _ => Exact.write_eq_of_decode, fun _ _ => Exact.write_eq_of_decode,
    fun _ _ => Exact.write_eq_of_decode, fun _ _ => Exact.write_eq_of_decode,
    fun _ _ => Exact.write_eq_of_decode, fun _ _ => Exact.write_eq_of_decode,
    fun _ _ => Exact.write_eq_of_decode, fun _ _ => Exact.write_eq_of_decode⟩

namespace Sample

def outPoint : Bytes := List.replicate 32 7 ++ [3, 0]

def input : Bytes := outPoint ++ [0xfe, 0xff, 0xff, 0xff]

def output : Bytes :=
  List.replicate 32 9 ++ [0x40, 0x42, 0x0f, 0, 0, 0, 0, 0] ++ [0, 0, 0, 0] ++ List.replicate 21 5

def memo : Bytes := [0x81, 2, 1, 2]

def program : Bytes := [1, 0xab, 2, 0xac, 0xad]

/-- A withdraw, of which the payload ends in a list of side transactions. -/
def transaction : Bytes :=
  [7, 0] ++ ([1, 0, 0, 0] ++ [2, 0x45, 0x46] ++ 2 :: List.replicate 64 8) ++ 1 :: memo
    ++ 1 :: input ++ 1 :: output ++ [0xdc, 5, 0, 0] ++ 1 :: program

def sideMining : Bytes :=
  List.replicate 32 1 ++ List.replicate 32 2 ++ [7, 0, 0, 0] ++ [3, 0xa, 0xb, 0xc]

def branch : Bytes := 2 :: List.replicate 64 4 ++ [3, 0, 0, 0]

def partialProof : Bytes :=
  List.replicate 32 6 ++ [9, 0, 0, 0] ++ [2, 0, 0, 0] ++ 2 :: List.replicate 64 4 ++ [1, 3]

/-- A coinbase with a witness. -/
def coinbase : Bytes :=
  [2, 0, 0, 0, 0, 1, 1] ++ List.replicate 32 0 ++ List.replicate 4 0xff ++ [3, 1, 2, 3]
    ++ List.replicate 4 0xff ++ [1, 0, 0xf2, 5, 0x2a, 1, 0, 0, 0, 1, 0x51] ++ [1, 2, 9, 9]
    ++ [0, 0, 0, 0]

def parentHeader : Bytes := [1, 0, 0, 0] ++ List.replicate 64 3 ++ List.replicate 12 0

def auxProof : Bytes := coinbase ++ List.replicate 32 6 ++ branch ++ branch ++ parentHeader

def header : Bytes :=
  [1, 0, 0, 0] ++ List.replicate 64 5 ++ List.replicate 16 0 ++ auxProof ++ [1]

def sideProof : Bytes := transaction ++ branch ++ header

def block : Bytes := header ++ 1 :: transaction

end Sample

/-- A sample of each format is decoded and written as it was. -/
theorem write_of_decode_samples :
    (∃ v : Digest, decode (List.replicate 32 7) = .ok v ∧ write v = List.replicate 32 7)
      ∧ (∃ v : Merkle.Branch, decode Sample.branch = .ok v ∧ write v = Sample.branch)
      ∧ (∃ v : MainChain.OutPoint, decode Sample.outPoint = .ok v ∧ write v = Sample.outPoint)
      ∧ (∃ v : MainChain.Input, decode Sample.input = .ok v ∧ write v = Sample.input)
      ∧ (∃ v : MainChain.Output, decode Sample.output = .ok v ∧ write v = Sample.output)
      ∧ (∃ v : MainChain.Attribute, decode Sample.memo = .ok v ∧ write v = Sample.memo)
      ∧ (∃ v : MainChain.Program, decode Sample.program = .ok v ∧ write v = Sample.program)
      ∧ (∃ v : MainChain.Transaction,
          decode Sample.transaction = .ok v ∧ write v = Sample.transaction)
      ∧ (∃ v : MainChain.SideMining,
          decode Sample.sideMining = .ok v ∧ write v = Sample.sideMining)
      ∧ (∃ v : Merkle.PartialProof,
          decode Sample.partialProof = .ok v ∧ write v = Sample.partialProof)
      ∧ (∃ v : Parent.Transaction, decode Sample.coinbase = .ok v ∧ write v = Sample.coinbase)
      ∧ (∃ v : Parent.Header, decode Sample.parentHeader = .ok v ∧ write v = Sample.parentHeader)
      ∧ (∃ v : AuxProof, decode Sample.auxProof = .ok v ∧ write v = Sample.auxProof)
      ∧ (∃ v : MainChain.Header, decode Sample.header = .ok v ∧ write v = Sample.header)
      ∧ (∃ v : SideProof, decode Sample.sideProof = .ok v ∧ write v = Sample.sideProof)
      ∧ (∃ b : MainChain.Block, decode Sample.block = .ok b
          ∧ write b.header ++ writeSeq b.transactions = Sample.block) := by
  obtain ⟨digest, branch, outPoint, input, output, memo, program, transaction, sideMining,
    partialProof, coinbase, parentHeader, auxProof, header, sideProof, block⟩ := write_of_decode
  refine ⟨(Outcome.exists_ok_of_isOk ?_).imp fun v hv => ⟨hv, digest _ v hv⟩,
    (Outcome.exists_ok_of_isOk ?_).imp fun v hv => ⟨hv, branch _ v hv⟩,
    (Outcome.exists_ok_of_isOk ?_).imp fun v hv => ⟨hv, outPoint _ v hv⟩,
    (Outcome.exists_ok_of_isOk ?_).imp fun v hv => ⟨hv, input _ v hv⟩,
    (Outcome.exists_ok_of_isOk ?_).imp fun v hv => ⟨hv, output _ v hv⟩,
    (Outcome.exists_ok_of_isOk ?_).imp fun v hv => ⟨hv, memo _ v hv⟩,
    (Outcome.exists_ok_of_isOk ?_).imp fun v hv => ⟨hv, program _ v hv⟩,
    (Outcome.exists_ok_of_isOk ?_).imp fun v hv => ⟨hv, transaction _ v hv⟩,
    (Outcome.exists_ok_of_isOk ?_).imp fun v hv => ⟨hv, sideMining _ v hv⟩,
    (Outcome.exists_ok_of_isOk ?_).imp fun v hv => ⟨hv, partialProof _ v hv⟩,
    (Outcome.exists_ok_of_isOk ?_).imp fun v hv => ⟨hv, coinbase _ v hv⟩,
    (Outcome.exists_ok_of_isOk ?_).imp fun v hv => ⟨hv, parentHeader _ v hv⟩,
    (Outcome.exists_ok_of_isOk ?_).imp fun v hv => ⟨hv, auxProof _ v hv⟩,
    (Outcome.exists_ok_of_isOk ?_).imp fun v hv => ⟨hv, header _ v hv⟩,
    (Outcome.exists_ok_of_isOk ?_).imp fun v hv => ⟨hv, sideProof _ v hv⟩,
    (Outcome.exists_ok_of_isOk ?_).imp fun v hv => ⟨hv, block _ v hv⟩⟩
  all_goals decide +kernel

-- ==================================================================== round trips

/-- Encoding loses nothing, as long as what is encoded has a length that a count can tell, as
every byte string in memory has, and the witnesses of a parent coinbase are within the
limit. With a main-chain transaction in it this is so exactly if the transaction's payload
is all of a payload of its kind and version. -/
theorem decode_write :
    (∀ p : SideProof, (write p).length < 2 ^ 64 → p.header.auxProof.coinbase.WitnessesFit →
        (decode (write p) = .ok p ↔ ∃ taken, MainChain.readPayload p.transaction.kind
          p.transaction.payloadVersion p.transaction.payload = .ok taken []))
      ∧ (∀ tx : MainChain.Transaction, (write tx).length < 2 ^ 64 →
        (decode (write tx) = .ok tx ↔ ∃ taken, MainChain.readPayload tx.kind tx.payloadVersion
          tx.payload = .ok taken []))
      ∧ (∀ p : Merkle.PartialProof, (write p).length < 2 ^ 64 → decode (write p) = .ok p)
      ∧ (∀ p : AuxProof, (write p).length < 2 ^ 64 → p.coinbase.WitnessesFit →
        decode (write p) = .ok p)
      ∧ (∀ h : MainChain.Header, (write h).length < 2 ^ 64 →
        h.auxProof.coinbase.WitnessesFit → decode (write h) = .ok h) := by
  refine ⟨fun p hlen hfit => ?_, fun tx hlen => ?_, fun p hlen => ?_, fun p hlen hfit => ?_,
    fun h hlen hfit => ?_⟩
  · simp only [write, List.length_append] at hlen
    have htransaction : (write p.transaction).length < 2 ^ 64 := by
      simp only [write, List.length_append]
      omega
    have hbranch : (write p.branch).length < 2 ^ 64 := by
      simp only [write, List.length_append]
      omega
    have hheader : (write p.header).length < 2 ^ 64 := by
      simp only [write, List.length_append]
      omega
    rw [Exact.decode_write_eq_ok]
    exact ⟨fun hadmits => hadmits.1.1, fun hlayout =>
      ⟨⟨hlayout, MainChain.Transaction.counted_of_length htransaction⟩,
        Merkle.Branch.admits_of_length hbranch, MainChain.Header.admits_of_length hheader hfit⟩⟩
  · rw [Exact.decode_write_eq_ok]
    exact ⟨fun hadmits => hadmits.1, fun hlayout =>
      ⟨hlayout, MainChain.Transaction.counted_of_length hlen⟩⟩
  · exact Exact.decode_write_eq_ok.2 (Merkle.PartialProof.admits_of_length hlen)
  · exact Exact.decode_write_eq_ok.2 (AuxProof.admits_of_length hlen hfit)
  · exact Exact.decode_write_eq_ok.2 (MainChain.Header.admits_of_length hlen hfit)

namespace Sample

/-- A withdrawal with an attribute, an input and an output. -/
def withdrawal : MainChain.Transaction where
  kind := MainChain.Kind.withdraw
  payloadVersion := 0
  payload := [1, 0, 0, 0] ++ [2, 0x45, 0x46] ++ 2 :: List.replicate 64 8
  attributes := [⟨0x81, [1, 2]⟩]
  inputs := [⟨⟨Digest.ofNumber 7, 3⟩, 0xfffffffe⟩]
  outputs := [⟨Digest.ofNumber 9, -1, 0, Octets.zero 21⟩]
  lockTime := 1500
  programs := [⟨[0xac, 0xad], [0xab]⟩]

/-- A withdrawal whose payload goes on behind its end. -/
def overlong : MainChain.Transaction :=
  { withdrawal with payload := withdrawal.payload ++ [0] }

/-- A proof whose coinbase has a witness. -/
def witnessed : AuxProof :=
  { AuxProof.empty with
    coinbase := {
      version := -2
      inputs := [⟨Digest.zero, 0xffffffff, [1, 2, 3], 0xffffffff, [[9, 9], []]⟩]
      outputs := [⟨5000000000, [0x51]⟩]
      lockTime := 0 }
    auxBranch := ⟨[Digest.ofNumber 4], 1⟩ }

/-- A header whose proof has a witness. -/
def witnessedHeader : MainChain.Header := { MainChain.Header.empty with auxProof := witnessed }

/-- A side proof of the withdrawal. -/
def proof : SideProof := ⟨withdrawal, ⟨[Digest.ofNumber 4, Digest.ofNumber 5], 3⟩, witnessedHeader⟩

def pruned : Merkle.PartialProof := ⟨Digest.ofNumber 6, 9, 3, [Digest.ofNumber 4], [1, 0]⟩

end Sample

/-- Values that are short enough come back from their bytes, but for a payload that does not match
its layout. -/
theorem decode_write_samples :
    ((write Sample.proof).length < 2 ^ 64
        ∧ Sample.proof.header.auxProof.coinbase.WitnessesFit
        ∧ decode (write Sample.proof) = .ok Sample.proof)
      ∧ ((write Sample.withdrawal).length < 2 ^ 64
        ∧ decode (write Sample.withdrawal) = .ok Sample.withdrawal)
      ∧ ((write Sample.overlong).length < 2 ^ 64
        ∧ ¬decode (write Sample.overlong) = .ok Sample.overlong)
      ∧ ((write Sample.pruned).length < 2 ^ 64
        ∧ decode (write Sample.pruned) = .ok Sample.pruned)
      ∧ ((write Sample.witnessed).length < 2 ^ 64 ∧ Sample.witnessed.coinbase.WitnessesFit
        ∧ decode (write Sample.witnessed) = .ok Sample.witnessed)
      ∧ ((write Sample.witnessedHeader).length < 2 ^ 64
        ∧ Sample.witnessedHeader.auxProof.coinbase.WitnessesFit
        ∧ decode (write Sample.witnessedHeader) = .ok Sample.witnessedHeader) := by
  obtain ⟨sideProof, transaction, partialProof, auxProof, header⟩ := decode_write
  have hlayout : ∃ taken, MainChain.readPayload MainChain.Kind.withdraw 0
      Sample.withdrawal.payload = .ok taken [] := ⟨Sample.withdrawal.payload, rfl⟩
  have hover : ¬∃ taken, MainChain.readPayload MainChain.Kind.withdraw 0
      Sample.overlong.payload = .ok taken [] := by
    intro h
    obtain ⟨taken, htaken⟩ := h
    have hread : MainChain.readPayload MainChain.Kind.withdraw 0 Sample.overlong.payload
        = .ok Sample.withdrawal.payload [0] := rfl
    rw [hread] at htaken
    cases htaken
  have hproof : (write Sample.proof).length < 2 ^ 64 := by decide +kernel
  have hwithdrawal : (write Sample.withdrawal).length < 2 ^ 64 := by decide +kernel
  have hoverlong : (write Sample.overlong).length < 2 ^ 64 := by decide +kernel
  have hpruned : (write Sample.pruned).length < 2 ^ 64 := by decide
  have hwitnessed : (write Sample.witnessed).length < 2 ^ 64 := by decide +kernel
  have hheader : (write Sample.witnessedHeader).length < 2 ^ 64 := by decide +kernel
  have hfit : Sample.witnessed.coinbase.WitnessesFit := by decide
  exact ⟨⟨hproof, hfit, (sideProof _ hproof hfit).2 hlayout⟩,
    ⟨hwithdrawal, (transaction _ hwithdrawal).2 hlayout⟩,
    ⟨hoverlong, fun h => hover ((transaction _ hoverlong).1 h)⟩,
    ⟨hpruned, partialProof _ hpruned⟩,
    ⟨hwitnessed, hfit, auxProof _ hwitnessed hfit⟩,
    ⟨hheader, hfit, header _ hheader hfit⟩⟩

end Wire

end MergedMining
