/-
Headers that a node gives pass the checks that a pipeline makes of headers.

A node answers with a block. The header is read off its front, the auxiliary proof in the middle
of it, and is believed if it has the hash that was asked for. Then the proof is encoded again,
to be decoded once more where the header is used, by itself and with nothing behind it. That
this gives the proof back rests on the formats: a reader accepts what is written and nothing
else, so what was read once is read from what it is written as, whatever stood around it.

So a pipeline that has its headers from a node never finds one of another hash, and what it
cannot decode is the payload.
-/
import MergedMining.Proofs.Node.Replies
import MergedMining.Proofs.Submission.Acceptance
import MergedMining.Proofs.Submission.Calls

namespace MergedMining

-- ===================================================================== headers

namespace SpvHeader

variable {hash : Digest} {raw : Bytes} {source : SpvHeader}

/-- A node is believed if its block begins with a header of the hash that was asked for. -/
theorem ofBlock_eq_ok :
    ofBlock hash raw = .ok source ↔
      ∃ header rest, (Wire.read : Wire.Reader MainChain.Header) raw = .ok header rest
        ∧ header.hash = hash ∧ ofHeader header = source := by
  unfold ofBlock
  split
  · next cause rest hread =>
      constructor
      · exact fun h => (nomatch h)
      · rintro ⟨header, rest', hread', -⟩
        rw [hread] at hread'
        cases hread'
  · next header rest hread =>
      rw [Outcome.ite_eq_ok]
      constructor
      · rintro ⟨hhash, hsource⟩
        exact ⟨header, rest, hread, hhash, Except.ok.inj hsource⟩
      · rintro ⟨header', rest', hread', hhash, rfl⟩
        rw [hread] at hread'
        cases hread'
        exact ⟨hhash, rfl⟩

/-- What a node is believed is had back as the header that its block begins with. -/
theorem toHeader_of_ofBlock (h : ofBlock hash raw = .ok source) :
    ∃ header rest, (Wire.read : Wire.Reader MainChain.Header) raw = .ok header rest
      ∧ source.toHeader = .ok header ∧ header.hash = hash := by
  obtain ⟨header, rest, hread, hhash, rfl⟩ := ofBlock_eq_ok.1 h
  exact ⟨header, rest, hread, toHeader_ofHeader (Wire.Exact.read_eq_ok.1 hread).1, hhash⟩

end SpvHeader

namespace Node

variable {σ : Type} (t : Transport (StateM σ)) (hash : Digest) (world : σ)

/-- A node's header is what is believed of the block that it answers with. -/
theorem run_header :
    (header t hash).run.run world =
      match (rawBlock t hash.text).run.run world with
      | (.ok raw, between) => (SpvHeader.ofBlock hash raw, between)
      | (.error cause, between) => (.error cause, between) := by
  unfold header
  rw [Outcome.run_bind]
  rcases (rawBlock t hash.text).run.run world with ⟨cause | raw, between⟩
  · rfl
  · rfl

variable {t hash world} {source : SpvHeader} {between : σ}

/-- A header from a node is the one that the node's block begins with. -/
theorem toHeader_of_run_header (h : (header t hash).run.run world = (.ok source, between)) :
    ∃ raw header rest, (rawBlock t hash.text).run.run world = (.ok raw, between)
      ∧ (Wire.read : Wire.Reader MainChain.Header) raw = .ok header rest
      ∧ source.toHeader = .ok header
      ∧ header.hash = hash := by
  rw [run_header] at h
  split at h
  · next raw after hraw =>
      obtain ⟨hblock, rfl⟩ := Prod.mk.inj h
      obtain ⟨header, rest, hread, hsource, hhash⟩ := SpvHeader.toHeader_of_ofBlock hblock
      exact ⟨raw, header, rest, hraw, hread, hsource, hhash⟩
  · cases h

/-- A node that replies with a block is believed its header, whatever stands behind it. -/
theorem run_header_of_reply {header : MainChain.Header} {rest : Bytes}
    (hadmits : Wire.Exact.Admits header)
    (hpost : (t.post (request "getblock"
        [("blockhash", .text header.hash.text), ("verbosity", .integer 0)])).run world
      = (.ok (blockReply (Wire.write header ++ rest)), between)) :
    (Node.header t header.hash).run.run world = (.ok (.ofHeader header), between) := by
  have hread : (Wire.read : Wire.Reader MainChain.Header) (Wire.write header ++ rest)
      = .ok header rest := Wire.Exact.read_eq_ok.2 ⟨hadmits, rfl⟩
  rw [run_header, run_rawBlock hpost]
  dsimp only
  rw [SpvHeader.ofBlock_eq_ok.2 ⟨header, rest, hread, rfl, rfl⟩]

end Node

-- ==================================================================== pipelines

namespace Submission

/-- A failure that no header is to blame for: none has another hash than the proof, and what was
not decoded is the payload. -/
structure Error.SparesHeader (n : Notification) (cause : Error) : Prop where
  ne_headerMismatch : ∀ expected found, cause ≠ .headerMismatch expected found
  payload : ∀ e, cause = .codec e → n.transaction.sideMining = .error e

section Build

variable {n : Notification} {source : SpvHeader} {header : MainChain.Header}

/-- If the header converts back and has the block's hash, a submission fails for other reasons
only. -/
private theorem sparesHeader_of_build (hsource : source.toHeader = .ok header)
    (hhash : header.hash = n.proof.blockHash) :
    Outcome.FailsWith (Error.SparesHeader n) (build n source) := by
  unfold build
  rw [hsource]
  show Outcome.FailsWith _ (if _ then _ else _)
  rw [if_neg fun hother => hother hhash]
  refine Outcome.FailsWith.bind (.mapError (fun _ => ⟨by simp, by simp⟩) _) fun tree => ?_
  dsimp only
  split
  · exact .error ⟨by simp, by simp⟩
  · split
    · split
      · refine Outcome.FailsWith.bind ?_ fun payload => .pure _
        intro cause hcause
        cases hpayload : n.transaction.sideMining with
        | ok payload =>
            rw [hpayload] at hcause
            cases hcause
        | error e =>
            rw [hpayload] at hcause
            cases hcause
            exact ⟨by simp, by simp [hpayload]⟩
      · exact .error ⟨by simp, by simp⟩
    · exact .error ⟨by simp, by simp⟩

/-- A payload that cannot be decoded is found last. -/
theorem build_of_payload {tree : Merkle.Extracted} {branch : Merkle.Branch} {e : Wire.Error}
    (hsource : source.toHeader = .ok header) (hhash : header.hash = n.proof.blockHash)
    (hextract : n.proof.extract = .ok tree) (hroot : tree.root = header.transactionsRoot)
    (hbranch : tree.branchFor n.transaction.id = some branch)
    (hverify : (SideProof.mk n.transaction branch header).verify = true)
    (hpayload : n.transaction.sideMining = .error e) : build n source = .error (.codec e) := by
  unfold build
  rw [hsource]
  show (if _ then _ else _) = _
  rw [if_neg fun hother => hother hhash, hextract]
  show (if _ then _ else _) = _
  rw [if_neg fun hother => hother hroot, hbranch]
  show (if _ then _ else _) = _
  rw [if_pos hverify, hpayload]
  rfl

end Build

namespace Pipeline

variable {σ : Type}

/-- Whatever a node answers: a header that it is believed to have is the one that its block begins
with, of the hash that was asked for, also once its auxiliary proof was encoded and decoded again.
So a pipeline with this source finds no header of another hash, and decodes all but the payload. -/
theorem headers_from_node (t : Node.Transport (StateM σ)) :
    (∀ hash world source after, (Node.header t hash).run.run world = (.ok source, after) →
        ∃ raw header rest, (Node.rawBlock t hash.text).run.run world = (.ok raw, after)
          ∧ (Wire.read : Wire.Reader MainChain.Header) raw = .ok header rest
          ∧ source.toHeader = .ok header
          ∧ header.hash = hash)
      ∧ ∀ (node? : Digest → Option (Submit (StateM σ))) (n : Notification) (world : σ),
          ∀ cause, (((Pipeline.mk (Node.header t) node?).build n).run.run world).1 = .error cause →
            cause.SparesHeader n := by
  refine ⟨fun hash world source after h => Node.toHeader_of_run_header h, fun node? n world => ?_⟩
  show Outcome.FailsWith (Error.SparesHeader n) _
  rw [run_build]
  split
  · dsimp only
    rcases hheader : (Node.header t n.proof.blockHash).run.run world with ⟨cause | source, after⟩
    · exact .error ⟨by simp, by simp⟩
    · obtain ⟨-, header, -, -, -, hsource, hhash⟩ := Node.toHeader_of_run_header hheader
      exact sparesHeader_of_build hsource hhash
  · exact .error ⟨by simp, by simp⟩

/-- A submission is built from what the node answers. -/
private theorem run_build_of_header {p : Pipeline (StateM σ)} {n : Notification}
    {source : SpvHeader}
    {world between : σ} (hkind : n.transaction.isSideMining = true)
    (hheader : (p.header n.proof.blockHash).run.run world = (.ok source, between)) :
    (p.build n).run.run world = (Submission.build n source, between) := by
  rw [run_build, if_pos hkind, hheader]

/-- A side-mining transaction whose payload is cut off at its beginning. -/
def emptied : MainChain.Transaction := { mined with payload := [] }

def emptiedId : Digest :=
  Digest.ofNumber 0x482570239fe5b96033f0eadd417e5c7d3f57bc93b596bf278aa38b40509c165b

private theorem id_emptied : emptied.id = emptiedId := by
  rw [MainChain.Transaction.id, Digest.ofBytes_eq_sliding]
  decide +kernel

/-- The header of a block of which this is the one transaction. Its proof has a witness. -/
def emptiedHeader : MainChain.Header :=
  { Wire.Sample.witnessedHeader with transactionsRoot := emptiedId }

/-- A node that replies with this block to whatever it is asked. -/
def emptiedNode : Node.Transport (StateM Unit) where
  post _ := pure (.ok (Node.blockReply (Wire.write emptiedHeader ++ 1 :: Wire.write emptied)))

def emptiedNews : Notification where
  proof := ⟨emptiedHeader.hash, 0, 1, [emptiedId], [1]⟩
  transaction := emptied

private theorem admits_emptiedHeader : Wire.Exact.Admits emptiedHeader :=
  MainChain.Header.admits_of_length (by decide +kernel) (by decide)

/-- All but the payload of the announcement is found to be right. -/
theorem build_emptiedNews {e : Wire.Error} (hpayload : emptied.sideMining = .error e) :
    Submission.build emptiedNews (.ofHeader emptiedHeader) = .error (.codec e) := by
  have hextract : emptiedNews.proof.extract = .ok ⟨1, .leaf emptiedId⟩ := rfl
  have hbranch : (Merkle.Extracted.mk 1 (.leaf emptiedId)).branchFor emptied.id = some .empty := by
    rw [id_emptied]
    decide
  have hverify : (SideProof.mk emptied .empty emptiedHeader).verify = true := by
    show Merkle.Branch.empty.verify emptied.id emptiedId = true
    rw [id_emptied]
    decide
  exact build_of_payload (SpvHeader.toHeader_ofHeader admits_emptiedHeader) rfl hextract rfl hbranch
    hverify hpayload

/-- The header of the sample block is asked for over an envelope and converted both ways. -/
theorem headers_from_node_emptied :
    ∃ source e,
      (Node.header emptiedNode emptiedHeader.hash).run.run () = (.ok source, ())
        ∧ (∃ raw header rest,
            (Node.rawBlock emptiedNode emptiedHeader.hash.text).run.run () = (.ok raw, ())
              ∧ (Wire.read : Wire.Reader MainChain.Header) raw = .ok header rest
              ∧ source.toHeader = .ok header
              ∧ header.hash = emptiedHeader.hash)
        ∧ (((Pipeline.mk (Node.header emptiedNode) fun _ => none).build emptiedNews).run.run ()).1
          = .error (.codec e)
        ∧ (Error.codec e).SparesHeader emptiedNews := by
  obtain ⟨e, hpayload⟩ : ∃ e, emptied.sideMining = .error e := ⟨_, rfl⟩
  have hheader : (Node.header emptiedNode emptiedHeader.hash).run.run ()
      = (.ok (.ofHeader emptiedHeader), ()) := Node.run_header_of_reply admits_emptiedHeader rfl
  have hbuild : (((Pipeline.mk (Node.header emptiedNode) fun _ => none).build
      emptiedNews).run.run ()).1 = .error (.codec e) := by
    have hkind : emptiedNews.transaction.isSideMining = true := rfl
    rw [@run_build_of_header _ ⟨Node.header emptiedNode, fun _ => none⟩ _ _ _ _ hkind hheader]
    exact build_emptiedNews hpayload
  obtain ⟨hreads, hspares⟩ := headers_from_node emptiedNode
  exact ⟨_, e, hheader, hreads _ _ _ _ hheader, hbuild, hspares _ _ _ _ hbuild⟩

end Pipeline

end Submission

end MergedMining
