/-
What a side-mining transaction says stands at fixed places in its payload.

The side block and the side chain are the first two digests, and the layout that the
kind has is the one in which they are written. The payload is walked over where it stands in a
transaction, with other things behind it, and what it says is read from its bytes alone. Both
take the same bytes. So the payloads that can be decoded are those that the kind has a layout
for, whatever the payload version.
-/
import MergedMining.Proofs.MainChain.Exact
import MergedMining.Proofs.Outcome

namespace MergedMining.MainChain

open Wire

variable {payload : Bytes} {m : SideMining}

/-- The digests at the front of a payload are the side block and the side chain. -/
theorem SideMining.front_of_decode (h : decode payload = .ok m) :
    payload.take 32 = m.sideBlock.bytes ∧ (payload.drop 32).take 32 = m.sideGenesis.bytes := by
  have hpayload : m.sideBlock.bytes ++ (m.sideGenesis.bytes ++ (writeU32 m.blockHeight
      ++ writeVarBytes m.signedData)) = payload := by
    have hwrite := Exact.write_eq_of_decode h
    simpa only [write, List.append_assoc] using hwrite
  rw [← hpayload]
  constructor
  · exact List.take_left' m.sideBlock.length_bytes
  · rw [List.drop_left' m.sideBlock.length_bytes]
    exact List.take_left' m.sideGenesis.length_bytes

/-- The walk over the pieces of the layout and the reader of the fields take the same bytes. -/
theorem SideMining.walk_eq_ok_iff {input rest : Bytes} :
    ([.one (.fixed 32), .one (.fixed 32), .one (.fixed 4), .one .varBytes]
        : List Piece).forM Piece.walk input = .ok () rest
      ↔ ∃ m : SideMining, read input = .ok m rest := by
  constructor
  · intro h
    obtain ⟨_, afterBlock, hblock, h⟩ := Reader.bind_eq_ok.1 h
    obtain ⟨_, afterGenesis, hgenesis, h⟩ := Reader.bind_eq_ok.1 h
    obtain ⟨_, afterHeight, hheight, h⟩ := Reader.bind_eq_ok.1 h
    obtain ⟨_, afterData, hdata, h⟩ := Reader.bind_eq_ok.1 h
    obtain ⟨-, rfl⟩ := Reader.pure_eq_ok.1 h
    obtain ⟨sideBlock, hblock⟩ := Reader.discard_eq_ok.1 hblock
    obtain ⟨sideGenesis, hgenesis⟩ := Reader.discard_eq_ok.1 hgenesis
    obtain ⟨height, hheight⟩ := Reader.discard_eq_ok.1 hheight
    obtain ⟨signedData, hdata⟩ := Reader.discard_eq_ok.1 hdata
    -- the walk takes four octets where the reader takes a number of that width
    obtain ⟨blockHeight, hnumber⟩ : ∃ n, Reader.u32 afterGenesis = .ok n afterHeight :=
      ⟨_, Reader.map_ok (Reader.map_ok hheight)⟩
    refine ⟨⟨sideBlock, sideGenesis, blockHeight, signedData⟩, ?_⟩
    refine Reader.bind_eq_ok.2 ⟨sideBlock, _, hblock, ?_⟩
    refine Reader.bind_eq_ok.2 ⟨sideGenesis, _, hgenesis, ?_⟩
    refine Reader.bind_eq_ok.2 ⟨blockHeight, _, hnumber, ?_⟩
    exact Reader.bind_eq_ok.2 ⟨signedData, _, hdata, rfl⟩
  · intro h
    obtain ⟨m, h⟩ := h
    obtain ⟨sideBlock, afterBlock, hblock, h⟩ := Reader.bind_eq_ok.1 h
    obtain ⟨sideGenesis, afterGenesis, hgenesis, h⟩ := Reader.bind_eq_ok.1 h
    obtain ⟨height, afterHeight, hheight, h⟩ := Reader.bind_eq_ok.1 h
    obtain ⟨signedData, afterData, hdata, h⟩ := Reader.bind_eq_ok.1 h
    obtain ⟨-, rfl⟩ := Reader.pure_eq_ok.1 h
    obtain ⟨number, hnumber, -⟩ := Reader.map_eq_ok.1 hheight
    obtain ⟨octets, hoctets, -⟩ := Reader.map_eq_ok.1 hnumber
    refine Reader.bind_eq_ok.2 ⟨(), _, Reader.discard_eq_ok.2 ⟨_, hblock⟩, ?_⟩
    refine Reader.bind_eq_ok.2 ⟨(), _, Reader.discard_eq_ok.2 ⟨_, hgenesis⟩, ?_⟩
    refine Reader.bind_eq_ok.2 ⟨(), _, Reader.discard_eq_ok.2 ⟨_, hoctets⟩, ?_⟩
    exact Reader.bind_eq_ok.2 ⟨(), _, Reader.discard_eq_ok.2 ⟨_, hdata⟩, rfl⟩

/-- A payload has the layout of its kind exactly if it can be decoded, whatever the version. -/
theorem SideMining.hasLayout_iff {version : UInt8} :
    HasLayout Kind.sideMining version payload ↔ ∃ m : SideMining, decode payload = .ok m := by
  simp only [decode_eq_ok_iff_read, ← walk_eq_ok_iff]
  constructor
  · intro h
    obtain ⟨taken, htaken⟩ := h
    exact Reader.walk_of_captured htaken
  · intro hwalk
    rw [← List.append_nil payload] at hwalk
    have hread := Reader.captured_append hwalk
    rw [List.append_nil] at hread
    exact ⟨payload, hread⟩

namespace Transaction

variable {tx : Transaction}

/-- A transaction has a side mining payload if its kind says so and its payload is one. -/
theorem sideMining_eq_ok :
    tx.sideMining = .ok m ↔ tx.kind = Kind.sideMining ∧ decode tx.payload = .ok m := by
  rw [sideMining, Outcome.ite_eq_ok, isSideMining, decide_eq_true_iff]

/-- What a transaction says, and where in its payload it says it. -/
structure Says (tx : Transaction) (m : SideMining) : Prop where
  sideMining : tx.sideMining = .ok m
  written : write m = tx.payload
  sideBlock : m.sideBlock.bytes = tx.payload.take 32
  sideGenesis : m.sideGenesis.bytes = (tx.payload.drop 32).take 32

/-- What is decoded from a payload is what the payload says. -/
theorem says_of_sideMining (h : tx.sideMining = .ok m) : tx.Says m := by
  obtain ⟨-, hdecode⟩ := sideMining_eq_ok.1 h
  obtain ⟨hblock, hgenesis⟩ := SideMining.front_of_decode hdecode
  exact ⟨h, Exact.write_eq_of_decode hdecode, hblock.symm, hgenesis.symm⟩

/-- A side-mining transaction whose payload has its layout says something. -/
theorem exists_says (hlayout : HasLayout tx.kind tx.payloadVersion tx.payload)
    (hkind : tx.kind = Kind.sideMining) : ∃ m, tx.Says m := by
  rw [hkind, SideMining.hasLayout_iff] at hlayout
  obtain ⟨m, hdecode⟩ := hlayout
  exact ⟨m, says_of_sideMining (sideMining_eq_ok.2 ⟨hkind, hdecode⟩)⟩

/-- A transaction whose payload says something can be written, with lists that a count can
tell. -/
theorem admits_of_sideMining (h : tx.sideMining = .ok m) (hcounted : tx.Counted) :
    Exact.Admits tx := by
  obtain ⟨hkind, hpayload⟩ := sideMining_eq_ok.1 h
  refine ⟨?_, hcounted⟩
  rw [hkind]
  exact SideMining.hasLayout_iff.2 ⟨m, hpayload⟩

end Transaction

end MergedMining.MainChain
