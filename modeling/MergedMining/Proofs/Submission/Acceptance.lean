/-
Whether what a watcher announces is accepted.

A watcher and a pipeline never speak of anything but the announcement, so what the
one makes has to be what the other checks. The proof of a block rebuilds the block's
tree, since above the announced transactions no node has two children of one digest,
and its root is the one in the header. The branch read off it for a transaction is the
one that the block's leaves give, so it verifies. The header survives the source, which
writes the auxiliary proof and has it read again, because the block was decoded. And
the payload is the one for which the transaction was announced.

A proof tells the number of transactions in 32 bits. Where it wraps around to zero, all
announcements of the block are refused.
-/
import MergedMining.Proofs.Merkle.Alternating
import MergedMining.Proofs.Submission.Inclusion
import MergedMining.Proofs.Watch.Announcements
import MergedMining.Proofs.Wire.RoundTrip

namespace MergedMining

-- ========================================================= the header's journey

/-- A header comes back from a source that answers with it, if it can be written. -/
theorem SpvHeader.toHeader_ofHeader {header : MainChain.Header}
    (h : Wire.Exact.Admits header) : (ofHeader header).toHeader = .ok header :=
  Outcome.bind_eq_ok.2 ⟨header.auxProof, Wire.Exact.decode_write_eq_ok.2 h, rfl⟩

-- ============================================================ what is accepted

/-- The header of the block lets everything be built that is announced of it. -/
theorem Submission.build_of_announced {served : List Digest} {block : MainChain.Block}
    {n : Notification} (hheader : Wire.Exact.Admits block.header)
    (hcount : block.transactions.length < 2 ^ 32)
    (hroot : Merkle.root (block.transactions.map (·.id)) = .ok block.header.transactionsRoot)
    (htwins : ∀ height position, ¬Merkle.Twins (block.transactions.map (·.id)) height position)
    (hn : n ∈ Watch.announced served block) :
    ∃ (branch : Merkle.Branch) (payload : MainChain.SideMining),
      build n (.ofHeader block.header)
          = .ok ⟨payload.sideGenesis, payload.sideBlock, ⟨n.transaction, branch, block.header⟩⟩
        ∧ (SideProof.mk n.transaction branch block.header).verify = true
        ∧ payload.sideGenesis ∈ served := by
  obtain ⟨hproof, htx, hserved⟩ := Watch.mem_announced_iff.1 hn
  obtain ⟨payload, hpayload, hgenesis⟩ := Watch.isServed_iff.1 hserved
  obtain ⟨index, hindex⟩ := List.mem_iff_getElem?.1 htx
  have hwanted : (block.transactions.map (Watch.isServed served))[index]? = some true := by
    rw [List.getElem?_map, hindex, Option.map_some, hserved]
  have hleaf : (block.transactions.map (·.id))[index]? = some n.transaction.id := by
    rw [List.getElem?_map, hindex]
    rfl
  -- no two neighbours are twins, so the leaves cannot repeat
  have hno : ¬Merkle.Repeats (block.transactions.map (·.id))
      (block.transactions.map (Watch.isServed served)) := by
    intro h
    obtain ⟨i, height, -, hrepeated⟩ := h
    exact htwins height _ hrepeated
  obtain ⟨tree, branch, hextract, hsame, hbranch, hverify⟩ :=
    Merkle.PartialProof.branchFor_of_build hproof (by rwa [List.length_map]) hno hroot hwanted hleaf
  obtain ⟨hblock, -⟩ := Merkle.PartialProof.pruned_of_build hproof (by rwa [List.length_map])
  exact ⟨branch, payload,
    build_eq_ok.2 ⟨block.header, tree, branch, payload, SpvHeader.toHeader_ofHeader hheader,
      hblock.symm, hextract, hsame, hbranch, hverify, hpayload, rfl⟩,
    hverify, hgenesis⟩

/-- Where the number of transactions is zero in 32 bits, all that is announced is refused. -/
theorem Submission.build_of_wraps {served : List Digest} {block : MainChain.Block}
    {n : Notification} (hheader : Wire.Exact.Admits block.header)
    (hwraps : 2 ^ 32 ∣ block.transactions.length) (hn : n ∈ Watch.announced served block) :
    build n (.ofHeader block.header) = .error (.merkle (.malformed .noTransactions)) := by
  obtain ⟨hproof, -, -⟩ := Watch.mem_announced_iff.1 hn
  obtain ⟨-, -, hsame⟩ := Merkle.PartialProof.build_eq_ok_iff.1 hproof
  have hhash : ¬block.header.hash ≠ n.proof.blockHash := by simp [hsame]
  have hextract := Merkle.PartialProof.extract_of_wraps hproof (by rwa [List.length_map])
  rw [build, SpvHeader.toHeader_ofHeader hheader, Except.mapError, Outcome.ok_bind, if_neg hhash,
    hextract]
  rfl

namespace Submission.Pipeline

variable {m : Type → Type} [Monad m] [LawfulMonad m] {p : Pipeline m} {n : Notification}
  {s : Submitted}

/-- With a source that answers, what is built depends on its answer alone. -/
private theorem build_of_header {source : SpvHeader} (hkind : n.transaction.isSideMining = true)
    (hsource : p.header n.proof.blockHash = pure source) :
    p.build n = ExceptT.mk (pure (Submission.build n source)) := by
  have hheader : wrapping .header (p.header n.proof.blockHash)
      = (pure source : ExceptT Error m SpvHeader) := by
    rw [hsource]
    exact map_pure (f := m) _ _
  rw [build, hheader]
  simp only [if_pos hkind, pure_bind]

/-- A submission is built from the header that the node answers with. -/
private theorem build_eq_pure {source : SpvHeader} (hkind : n.transaction.isSideMining = true)
    (hsource : p.header n.proof.blockHash = pure source)
    (hbuild : Submission.build n source = .ok s) : p.build n = pure s := by
  rw [build_of_header hkind hsource, hbuild]
  rfl

/-- What was built goes to the node of the side chain that it names. -/
theorem process_eq {submit : Submit m} (hbuild : p.build n = pure s)
    (hnode : p.node? s.sideGenesis = some submit) :
    p.process n = do
      wrapping .submit (submit s.sideBlock.text s.proof.text)
      return s := by
  rw [process, hbuild, pure_bind, hnode]

/-- What is planned for a block that was decoded is accepted, if the source answers with the
block's header: what is built carries the transaction and the header, verifies and names a
chain that is served. With nodes for all chains that are served it comes to one submission,
and nothing but this can fail. The block's header has the root of its transactions, and no
node of their tree has one digest for two children. A proof tells the number of transactions
in 32 bits, so there are no more of them than that. -/
theorem accepts_planned {served : List Digest} {input : Bytes} {block : MainChain.Block}
    (hdecode : Wire.decode input = .ok block) (hcount : block.transactions.length < 2 ^ 32)
    (hroot : Merkle.root (block.transactions.map (·.id)) = .ok block.header.transactionsRoot)
    (htwins : ∀ height position, ¬Merkle.Twins (block.transactions.map (·.id)) height position)
    (hsource : p.header block.header.hash = pure (.ofHeader block.header)) :
    ∃ todo, (Watch.follower served).plan block = .ok todo ∧ ∀ n ∈ todo,
      ∃ s, p.build n = pure s ∧ s.proof.transaction = n.transaction
        ∧ s.proof.header = block.header ∧ s.proof.verify = true ∧ s.sideGenesis ∈ served
        ∧ ((∀ genesis ∈ served, (p.node? genesis).isSome) →
          ∃ submit, p.node? s.sideGenesis = some submit
            ∧ p.process n = do
                wrapping .submit (submit s.sideBlock.text s.proof.text)
                return s) := by
  refine ⟨Watch.announced served block, Watch.plan_eq, fun n hn => ?_⟩
  obtain ⟨⟨hheader, -⟩, -⟩ : (Wire.Exact.Admits block.header ∧ _) ∧ _ :=
    Wire.Exact.decode_eq_ok.1 hdecode
  obtain ⟨branch, payload, hchecked, hverify, hserved⟩ :=
    build_of_announced hheader hcount hroot htwins hn
  obtain ⟨hproof, -, hkind⟩ := Watch.mem_announced_iff.1 hn
  obtain ⟨hblock, -⟩ := Merkle.PartialProof.pruned_of_build hproof (by rwa [List.length_map])
  have hbuild := build_eq_pure (Watch.isSideMining_of_isServed hkind) (hblock ▸ hsource) hchecked
  refine ⟨_, hbuild, rfl, rfl, hverify, hserved, fun hnodes => ?_⟩
  obtain ⟨submit, hsubmit⟩ := Option.isSome_iff_exists.1 (hnodes _ hserved)
  exact ⟨submit, hsubmit, process_eq hbuild hsubmit⟩

-- ================================================================= two leaves

/-- A block of a record and a side-mining transaction. -/
def pairBlock : MainChain.Block where
  header := headerOver (Digest.pair pairedId minedId)
  transactions := [paired, mined]

/-- A pipeline whose source answers with the header of that root and that serves the chain. -/
def serving (root : Digest) : Pipeline Id :=
  { answering root with
    node? := fun genesis => if genesis = minedGenesis then some fun _ _ => pure () else none }

/-- The block of two transactions is read back from its bytes. -/
theorem decode_pairBlock : Wire.decode (Wire.write pairBlock) = .ok pairBlock := by
  have hheader : Wire.Exact.Admits AuxProof.empty := AuxProof.admits_empty
  have hpaired : Wire.Exact.Admits paired := Wire.Exact.decode_write_eq_ok.1 rfl
  have hmined : Wire.Exact.Admits mined := Wire.Exact.decode_write_eq_ok.1 rfl
  have hall : Wire.Exact.AdmitsAll pairBlock.transactions :=
    ⟨by decide, List.forall_mem_cons.2 ⟨hpaired, List.forall_mem_singleton.2 hmined⟩⟩
  have hblock : Wire.Exact.Admits pairBlock := ⟨hheader, hall⟩
  exact Wire.Exact.decode_write_eq_ok.2 hblock

private theorem ids_pairBlock : pairBlock.transactions.map (·.id) = [pairedId, minedId] := by
  rw [pairBlock, List.map_cons, List.map_singleton, id_paired, id_mined]

/-- Two leaves that differ are no twins, and above them there is one node. -/
theorem not_twins_pairBlock (height position : Nat) :
    ¬Merkle.Twins (pairBlock.transactions.map (·.id)) height position := by
  rw [ids_pairBlock]
  intro h
  obtain rfl : height = 0 := by
    have hheight : height < 1 := h.lt_height
    omega
  obtain ⟨child, hleft, hright⟩ := h
  have inside : 2 * position + 1 < 2 := (List.getElem?_eq_some_iff.1 hright).1
  obtain rfl : position = 0 := by omega
  cases hleft
  exact absurd hright (by decide)

/-- In the block of two transactions the one of the two that is served is submitted. -/
theorem accepts_planned_pairBlock :
    Wire.decode (Wire.write pairBlock) = .ok pairBlock
      ∧ ∃ todo, (Watch.follower [minedGenesis]).plan pairBlock = .ok todo
        ∧ ∃ n ∈ todo, ∃ s, n.transaction = mined
        ∧ (serving (Digest.pair pairedId minedId)).build n = pure s
        ∧ s.proof.transaction = mined ∧ s.proof.header = pairBlock.header
        ∧ s.proof.verify = true ∧ s.sideGenesis ∈ [minedGenesis]
        ∧ ∃ submit, (serving (Digest.pair pairedId minedId)).node? s.sideGenesis = some submit
          ∧ (serving (Digest.pair pairedId minedId)).process n = do
              wrapping .submit (submit s.sideBlock.text s.proof.text)
              return s := by
  have hroot : Merkle.root (pairBlock.transactions.map (·.id))
      = .ok pairBlock.header.transactionsRoot := by
    rw [ids_pairBlock, Merkle.root, Merkle.rootOf, Merkle.nextLevel, Merkle.rootOf]
    rfl
  obtain ⟨todo, hplan, hall⟩ := @accepts_planned Id _ _ (serving _) [minedGenesis] _ _
    decode_pairBlock (by decide) hroot not_twins_pairBlock rfl
  have hmem : mined ∈ pairBlock.transactions := List.mem_cons_of_mem _ List.mem_cons_self
  have hserved : Watch.isServed [minedGenesis] mined = true := by decide
  obtain ⟨proof, hproof⟩ := Watch.exists_blockProof [minedGenesis] hmem
  have hn : (⟨proof, mined⟩ : Notification) ∈ todo := by
    obtain rfl := Except.ok.inj (Watch.plan_eq.symm.trans hplan)
    exact Watch.mem_announced_iff.2 ⟨hproof, hmem, hserved⟩
  obtain ⟨s, hbuild, htx, hheader, hverify, hgenesis, hprocess⟩ := hall _ hn
  have hnodes : ∀ genesis ∈ [minedGenesis],
      ((serving (Digest.pair pairedId minedId)).node? genesis).isSome := by
    intro genesis hgenesis
    rw [List.mem_singleton.1 hgenesis]
    rfl
  exact ⟨decode_pairBlock, todo, hplan, _, hn, s, rfl, hbuild, htx, hheader, hverify, hgenesis,
    hprocess hnodes⟩

-- ================================================= a number that wraps around

/-- The names of the two transactions, of which the side-mining one comes first. -/
def pairIds : Bool → Digest := Merkle.sides minedId pairedId

/-- A block of both transactions again and again, in rows, until their number in 32 bits is
zero. -/
def wrapped : MainChain.Block where
  header := headerOver (Merkle.above^[32] pairIds false)
  transactions := (Merkle.row 32).map fun side => if side then paired else mined

private theorem length_wrapped : wrapped.transactions.length = 2 ^ 32 := by
  rw [wrapped, List.length_map, Merkle.length_row]

/-- The leaves of the large block are a row of two alternating hashes. -/
private theorem ids_wrapped : wrapped.transactions.map (·.id) = (Merkle.row 32).map pairIds := by
  rw [wrapped, List.map_map]
  refine List.map_congr_left fun side _ => ?_
  cases side with
  | false => exact id_mined
  | true => exact id_paired

/-- The large block is read back from its bytes. -/
private theorem decode_wrapped : Wire.decode (Wire.write wrapped) = .ok wrapped := by
  have hheader : Wire.Exact.Admits AuxProof.empty := AuxProof.admits_empty
  have hall : ∀ tx ∈ wrapped.transactions, Wire.Exact.Admits tx := by
    intro tx htx
    obtain ⟨side, -, rfl⟩ := List.mem_map.1 htx
    cases side with
    | false => exact Wire.Exact.decode_write_eq_ok.1 rfl
    | true => exact Wire.Exact.decode_write_eq_ok.1 rfl
  have hlen : wrapped.transactions.length < 2 ^ 64 := by
    rw [length_wrapped]
    decide
  have hblock : Wire.Exact.Admits wrapped := ⟨hheader, hlen, hall⟩
  exact Wire.Exact.decode_write_eq_ok.2 hblock

/-- The two nodes differ on each level, which takes two hashes for each. -/
theorem not_twins_wrapped (height position : Nat) :
    ¬Merkle.Twins (wrapped.transactions.map (·.id)) height position := by
  rw [ids_wrapped]
  refine Merkle.not_twins_row (fun k hk => Merkle.ne_of_apart ?_ hk) height position
  decide +kernel

/-- A block of more transactions than a proof can tell: its transactions have the root in its
header and no node of their tree has one digest for two children, the source answers with its
header, and every announcement of it is refused. -/
theorem refuses_planned_wrapped :
    Wire.decode (Wire.write wrapped) = .ok wrapped
      ∧ Merkle.root (wrapped.transactions.map (·.id)) = .ok wrapped.header.transactionsRoot
      ∧ (∀ height position, ¬Merkle.Twins (wrapped.transactions.map (·.id)) height position)
      ∧ (serving wrapped.header.transactionsRoot).header wrapped.header.hash
        = pure (.ofHeader wrapped.header)
      ∧ ∃ todo, (Watch.follower [minedGenesis]).plan wrapped = .ok todo ∧ todo ≠ []
        ∧ ∀ n ∈ todo, (serving wrapped.header.transactionsRoot).build n
            = throw (.merkle (.malformed .noTransactions)) := by
  have hserved : Watch.isServed [minedGenesis] mined = true := by decide
  have hmem : mined ∈ wrapped.transactions := by
    exact List.mem_map.2 ⟨false, Merkle.false_mem_row 32, rfl⟩
  obtain ⟨proof, hproof⟩ := Watch.exists_blockProof [minedGenesis] hmem
  have hn : (⟨proof, mined⟩ : Notification) ∈ Watch.announced [minedGenesis] wrapped :=
    Watch.mem_announced_iff.2 ⟨hproof, hmem, hserved⟩
  refine ⟨decode_wrapped, ?_, not_twins_wrapped, rfl, _, Watch.plan_eq,
    List.ne_nil_of_mem hn, fun n hn => ?_⟩
  · rw [ids_wrapped]
    exact Merkle.root_row pairIds 32
  · obtain ⟨⟨hheader, -⟩, -⟩ : (Wire.Exact.Admits wrapped.header ∧ _) ∧ _ :=
      Wire.Exact.decode_eq_ok.1 decode_wrapped
    have hrefused := Submission.build_of_wraps hheader (dvd_of_eq length_wrapped.symm) hn
    have hsource : (serving wrapped.header.transactionsRoot).header n.proof.blockHash
        = pure (.ofHeader wrapped.header) := rfl
    obtain ⟨-, -, hkind⟩ := Watch.mem_announced_iff.1 hn
    rw [build_of_header (Watch.isSideMining_of_isServed hkind) hsource, hrefused]
    rfl

end Submission.Pipeline

end MergedMining
