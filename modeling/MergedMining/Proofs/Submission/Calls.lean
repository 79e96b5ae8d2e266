/-
Which calls of nodes come of an announcement, and what they carry.

A pipeline calls a node at the end of all checks and nowhere else, so an announcement
comes to one call or to none. What is submitted has to reach the node as what was checked.
The transaction of an announcement was perhaps never decoded: nothing says that it can be
written and read back. The checks see to that. Its payload was decoded, and then its kind
has a layout for it; the branch is as long as the tree is high; and the header's proof was
decoded from what the source gave.
-/
import MergedMining.Proofs.Hex
import MergedMining.Proofs.MainChain.SideMining
import MergedMining.Proofs.Submission.Inclusion
import MergedMining.Proofs.Wire.RoundTrip

namespace MergedMining

-- ========================================================= what is submitted

/-- The header from a node is one that can be written. -/
private theorem SpvHeader.admits_of_toHeader {source : SpvHeader} {header : MainChain.Header}
    (h : source.toHeader = .ok header) : Wire.Exact.Admits header := by
  obtain ⟨auxProof, hdecode, h⟩ := Outcome.bind_eq_ok.1 h
  cases h
  exact (Wire.Exact.decode_eq_ok.1 hdecode).1

/-- The branch that is read off a proof has no more digests than a count can tell. -/
theorem Merkle.PartialProof.admits_branchFor {p : PartialProof} {tree : Extracted} {leaf : Digest}
    {branch : Branch} (hextract : p.extract = .ok tree)
    (hbranch : tree.branchFor leaf = some branch) :
    Wire.Exact.Admits branch := by
  obtain ⟨hlen, -, -⟩ := branchFor_eq_some hextract hbranch
  have hheight : Merkle.height p.transactions.toNat ≤ 32 :=
    height_le (Nat.le_of_lt p.transactions.toNat_lt)
  refine ⟨?_, fun _ _ => trivial⟩
  omega

namespace Submission

/-- A call of a node: whose node it is, and the two texts that it is called with. -/
structure Call where
  /-- The side chain, named by its first block. -/
  genesis : Digest
  block : String
  proof : String
  deriving DecidableEq, Repr

/-- The call by which something is submitted. -/
def Submitted.call (s : Submitted) : Call := ⟨s.sideGenesis, s.sideBlock.text, s.proof.text⟩

/-- A call that fits the announcement and the header that was had for it. -/
structure Call.Fits (n : Notification) (source : SpvHeader) (call : Call) : Prop where
  /-- The payload names the side chain behind the side block. -/
  genesis : call.genesis.bytes = (n.transaction.payload.drop 32).take 32
  block : call.block = Hex.encode (n.transaction.payload.take 32).reverse
  proof : ∃ raw, ∃ proof : SideProof, ∃ tree, Hex.decode call.proof = .ok raw
    ∧ Wire.decode raw = .ok proof
    ∧ source.toHeader = .ok proof.header
    ∧ n.proof.extract = .ok tree
    ∧ proof.transaction = n.transaction
    ∧ proof.header.hash = n.proof.blockHash
    ∧ proof.header.transactionsRoot = tree.root
    ∧ proof.verify = true

/-- Whether a check has failed, and not the node that was called. -/
def Error.isCheck : Error → Bool
  | .submit _ => false
  | _ => true

/-- Building a submission fails with the failure of a check only. -/
private theorem isCheck_of_build (n : Notification) (source : SpvHeader) :
    Outcome.FailsWith (·.isCheck = true) (build n source) := by
  have hcodec {α : Type} (outcome : Except Wire.Error α) :
      Outcome.FailsWith (·.isCheck = true) (outcome.mapError Error.codec) := by
    refine .mapError ?_ outcome
    exact fun _ => rfl
  unfold build
  refine (hcodec _).bind fun header => ?_
  split
  · exact .error rfl
  · refine Outcome.FailsWith.bind ?_ fun tree => ?_
    · refine .mapError ?_ n.proof.extract
      exact fun _ => rfl
    · dsimp only
      split
      · exact .error rfl
      · split
        · split
          · exact (hcodec _).bind fun payload => .pure _
          · exact .error rfl
        · exact .error rfl

/-- What is built is read back from the texts of its call as what was checked. -/
theorem fits_of_build {n : Notification} {source : SpvHeader} {s : Submitted}
    (hcounted : n.transaction.Counted) (h : build n source = .ok s) : s.call.Fits n source := by
  obtain ⟨header, tree, branch, payload, hheader, hhash, hextract, hroot, hbranch, hverify,
    hpayload, rfl⟩ := build_eq_ok.1 h
  obtain ⟨-, hdecode⟩ := MainChain.Transaction.sideMining_eq_ok.1 hpayload
  obtain ⟨hblock, hgenesis⟩ := MainChain.SideMining.front_of_decode hdecode
  have hadmits : Wire.Exact.Admits (SideProof.mk n.transaction branch header) :=
    ⟨MainChain.Transaction.admits_of_sideMining hpayload hcounted,
      Merkle.PartialProof.admits_branchFor hextract hbranch, SpvHeader.admits_of_toHeader hheader⟩
  exact {
    genesis := hgenesis.symm
    block := by rw [hblock]; rfl
    proof := ⟨_, _, tree, Hex.decode_encode _, Wire.Exact.decode_write_eq_ok.2 hadmits, hheader,
      hextract, rfl, hhash, hroot.symm, hverify⟩ }

namespace Pipeline

variable {σ : Type}

-- ===================================================================== runs

section Runs

variable (p : Pipeline (StateM σ)) (n : Notification) (world : σ)

private theorem run_wrapping {α : Type} (why : Node.Error → Error)
    (act : ExceptT Node.Error (StateM σ) α) :
    (wrapping why act).run.run world
      = ((act.run.run world).1.mapError why, (act.run.run world).2) := rfl

/-- What is built depends on the source's answer alone. -/
theorem run_build :
    (p.build n).run.run world =
      if n.transaction.isSideMining then
        match (p.header n.proof.blockHash).run.run world with
        | (.ok source, between) => (Submission.build n source, between)
        | (.error cause, between) => (.error (.header cause), between)
      else (.error (.notSideMining n.transaction.id), world) := by
  unfold build
  split
  · show (wrapping _ (p.header _) >>= _).run.run world = _
    rw [Outcome.run_bind, run_wrapping]
    rcases (p.header n.proof.blockHash).run.run world with ⟨cause | source, between⟩ <;> rfl
  · rfl

/-- What becomes of an announcement, by what is built and what the node answers. -/
theorem run_process :
    (p.process n).run.run world =
      match (p.build n).run.run world with
      | (.error cause, between) => (.error cause, between)
      | (.ok s, between) =>
          match p.node? s.sideGenesis with
          | none => (.error (.unknownSideChain s.sideGenesis), between)
          | some submit =>
              match (submit s.sideBlock.text s.proof.text).run.run between with
              | (.error cause, after) => (.error (.submit cause), after)
              | (.ok (), after) => (.ok s, after) := by
  unfold process
  rw [Outcome.run_bind]
  rcases (p.build n).run.run world with ⟨cause | s, between⟩
  · rfl
  · dsimp only
    cases p.node? s.sideGenesis with
    | none => rfl
    | some submit =>
        dsimp only
        rw [Outcome.run_bind, run_wrapping]
        rcases (submit s.sideBlock.text s.proof.text).run.run between
          with ⟨cause | ⟨⟩, after⟩ <;> rfl

end Runs

-- ==================================================================== calls

/-- The same step, in a world where calls are recorded, of which it makes none. -/
def quiet {ε α : Type} (act : ExceptT ε (StateM σ) α) : ExceptT ε (StateM (σ × List Call)) α :=
  ExceptT.mk fun (world, calls) =>
    let (outcome, after) := act.run.run world
    (outcome, after, calls)

/-- The same node, each call of which is recorded before it is made. -/
def recorded (genesis : Digest) (submit : Submit (StateM σ)) : Submit (StateM (σ × List Call)) :=
  fun block proof => do
    modify fun (world, calls) => (world, calls ++ [⟨genesis, block, proof⟩])
    quiet (submit block proof)

/-- The same pipeline, with a record of the calls of nodes. -/
def logged (p : Pipeline (StateM σ)) : Pipeline (StateM (σ × List Call)) where
  header hash := quiet (p.header hash)
  node? genesis := (p.node? genesis).map (recorded genesis)

/-- A call that is recorded is made, too. -/
private theorem run_recorded (genesis : Digest) (submit : Submit (StateM σ)) (block proof : String)
    (world : σ) (calls : List Call) :
    (recorded genesis submit block proof).run.run (world, calls)
      = (((submit block proof).run.run world).1, ((submit block proof).run.run world).2,
          calls ++ [⟨genesis, block, proof⟩]) := rfl

variable (p : Pipeline (StateM σ)) (n : Notification) (world : σ)

/-- No node is called while things are built. -/
theorem run_logged_build (calls : List Call) :
    (p.logged.build n).run.run (world, calls)
      = (((p.build n).run.run world).1, ((p.build n).run.run world).2, calls) := by
  have hheader : (p.logged.header n.proof.blockHash).run.run (world, calls)
      = (((p.header n.proof.blockHash).run.run world).1,
          ((p.header n.proof.blockHash).run.run world).2, calls) := rfl
  rw [run_build, run_build, hheader]
  split
  · rcases (p.header n.proof.blockHash).run.run world with ⟨cause | source, between⟩ <;> rfl
  · rfl

/-- What is built was built from a header that the source gave. -/
theorem exists_source_of_run_build {s : Submitted} {between : σ}
    (h : (p.build n).run.run world = (.ok s, between)) :
    ∃ source, ((p.header n.proof.blockHash).run.run world).1 = .ok source
      ∧ Submission.build n source = .ok s := by
  rw [run_build] at h
  split at h
  · rcases hheader : (p.header n.proof.blockHash).run.run world with ⟨cause | source, after⟩
    · rw [hheader] at h
      cases h
    · rw [hheader] at h
      exact ⟨source, rfl, congrArg Prod.fst h⟩
  · cases h

/-- Where the node is asked for the header, too, building fails with the failure of a check only. -/
private theorem isCheck_of_run_build {cause : Error} {between : σ}
    (h : (p.build n).run.run world = (.error cause, between)) : cause.isCheck = true := by
  rw [run_build] at h
  split at h
  · rcases hheader : (p.header n.proof.blockHash).run.run world with ⟨answer | source, after⟩
    · rw [hheader] at h
      cases h
      rfl
    · rw [hheader] at h
      exact isCheck_of_build n source cause (congrArg Prod.fst h)
  · cases h
    rfl

/-- Whatever source and nodes answer, an announcement comes to one call of a node at most,
and to none exactly if it fails for another reason than the node's answer. A call goes to
the node of the chain that the payload names, and carries the side block and a proof that
is read back with the announced transaction, the header that was had, and a branch that
leads from the one to the other. -/
theorem process_calls {n : Notification} (hcounted : n.transaction.Counted) :
    ∃ outcome after calls, (p.process n).run.run world = (outcome, after)
      ∧ (p.logged.process n).run.run (world, []) = (outcome, after, calls)
      ∧ calls.length ≤ 1
      ∧ (calls = [] ↔ ∃ cause, outcome = .error cause ∧ cause.isCheck = true)
      ∧ ∀ call ∈ calls, (p.node? call.genesis).isSome = true
          ∧ ∃ source, ((p.header n.proof.blockHash).run.run world).1 = .ok source
            ∧ call.Fits n source := by
  rw [run_process, run_process, run_logged_build]
  rcases hbuild : (p.build n).run.run world with ⟨cause | s, between⟩
  · have hcheck := p.isCheck_of_run_build n world hbuild
    exact ⟨_, _, [], rfl, rfl, Nat.zero_le 1, iff_of_true rfl ⟨cause, rfl, hcheck⟩,
      fun call hcall => (nomatch hcall)⟩
  · -- what was built is sent to the node of its chain, if there is one
    obtain ⟨source, hsource, hbuilt⟩ := p.exists_source_of_run_build n world hbuild
    have hfits := fits_of_build hcounted hbuilt
    dsimp only
    rw [show p.logged.node? s.sideGenesis = (p.node? s.sideGenesis).map (recorded s.sideGenesis)
      from rfl]
    cases hnode : p.node? s.sideGenesis with
    | none =>
        exact ⟨_, _, [], rfl, rfl, Nat.zero_le 1, iff_of_true rfl ⟨_, rfl, rfl⟩,
          fun call hcall => (nomatch hcall)⟩
    | some submit =>
        have hcall : ∀ call ∈ [s.call], (p.node? call.genesis).isSome = true
            ∧ ∃ source, ((p.header n.proof.blockHash).run.run world).1 = .ok source
              ∧ call.Fits n source := by
          refine List.forall_mem_singleton.2 ⟨?_, source, hsource, hfits⟩
          exact Option.isSome_iff_exists.2 ⟨submit, hnode⟩
        have hmade : [s.call] ≠ [] := List.cons_ne_nil _ _
        rw [Option.map_some]
        dsimp only
        rw [run_recorded]
        rcases (submit s.sideBlock.text s.proof.text).run.run between with ⟨cause | ⟨⟩, after⟩
        · -- the call was made, and what the node says against it is no check
          refine ⟨_, _, [s.call], rfl, rfl, Nat.le_refl 1, iff_of_false hmade ?_, hcall⟩
          intro h
          obtain ⟨_, hcause, hcheck⟩ := h
          cases hcause
          cases hcheck
        · refine ⟨_, _, [s.call], rfl, rfl, Nat.le_refl 1, iff_of_false hmade ?_, hcall⟩
          intro h
          obtain ⟨_, hcause, -⟩ := h
          cases hcause

-- ================================================================== one call

/-- A pipeline whose source answers with the header of the block of both transactions, with a
node for the side chain that counts what it is given. -/
def counting : Pipeline (StateM Nat) where
  header _ := pure (SpvHeader.ofHeader (headerOver (Digest.pair pairedId minedId)))
  node? genesis := if genesis = minedGenesis then some fun _ _ => modify (· + 1) else none

private theorem counted_beside : beside.transaction.Counted :=
  ⟨⟨by decide, fun _ h => (nomatch h)⟩, ⟨by decide, fun _ h => (nomatch h)⟩,
    ⟨by decide, fun _ h => (nomatch h)⟩, ⟨by decide, fun _ h => (nomatch h)⟩⟩

/-- For the mined transaction of the block of two the service is called once, with what fits. -/
theorem process_calls_beside :
    beside.transaction.Counted
      ∧ ∃ s call, (counting.process beside).run.run 0 = (.ok s, 1)
        ∧ (counting.logged.process beside).run.run (0, []) = (.ok s, 1, [call])
        ∧ call.genesis = minedGenesis
        ∧ call.Fits beside (SpvHeader.ofHeader (headerOver (Digest.pair pairedId minedId))) := by
  obtain ⟨s, hbuilt, hgenesis⟩ := build_beside
  have hbuild : (counting.build beside).run.run 0 = (.ok s, 0) := by
    rw [run_build]
    exact congrArg (·, 0) hbuilt
  have hnode : counting.node? s.sideGenesis = some fun _ _ => modify (· + 1) := by
    rw [hgenesis]
    rfl
  have hprocess : (counting.process beside).run.run 0 = (.ok s, 1) := by
    rw [run_process, hbuild]
    dsimp only
    rw [hnode]
    rfl
  obtain ⟨outcome, after, calls, hrun, hlogged, hone, hnone, hcalls⟩ :=
    process_calls counting 0 counted_beside
  obtain ⟨rfl, rfl⟩ := Prod.mk.inj (hprocess.symm.trans hrun)
  have hmade : calls ≠ [] := by
    intro hcalls
    obtain ⟨cause, hcause, -⟩ := hnone.1 hcalls
    cases hcause
  have hpos := List.length_pos_iff.2 hmade
  obtain ⟨call, rfl⟩ : ∃ call, calls = [call] := List.length_eq_one_iff.1 (by omega)
  obtain ⟨hserved, source, hsource, hfits⟩ := hcalls call (List.mem_singleton_self call)
  obtain rfl := Except.ok.inj hsource
  refine ⟨counted_beside, s, call, hprocess, hlogged, ?_, hfits⟩
  refine Decidable.byContradiction fun hother => ?_
  rw [show counting.node? call.genesis = none from if_neg hother] at hserved
  cases hserved

end Pipeline

end Submission

end MergedMining
