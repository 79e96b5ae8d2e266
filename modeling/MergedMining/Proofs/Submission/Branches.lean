/-
No announcement fails on its branch.

The last check of a pipeline is whether the branch that it rebuilt leads to the header's root.
When it comes to that, the root of the proof was found to be the header's, and the branch was
read off the proof. So it leads to that root, whatever was sent, and the check never fails. A
transaction for which there is no branch was refused before, as one that the proof does not
reveal.

A branch may be read off the rebuilt tree or put together from the table of nodes that the walk
left behind. It is the same branch.
-/
import MergedMining.Proofs.Machine.Branches
import MergedMining.Proofs.Merkle.Revealing
import MergedMining.Proofs.Merkle.Soundness
import MergedMining.Proofs.Submission.Calls

namespace MergedMining

open Merkle (PartialProof Extracted Tree Walk)

namespace Submission

/-- By the time that a branch is verified nothing can be wrong with it. -/
theorem build_ne_branchMismatch (n : Notification) (source : SpvHeader) :
    Outcome.FailsWith (· ≠ .branchMismatch) (build n source) := by
  unfold build
  refine Outcome.FailsWith.bind (.mapError (fun _ => by simp) _) fun header => ?_
  split
  · exact .error (by simp)
  · refine Outcome.FailsWith.bind_of_ok (.mapError (fun _ => by simp) _) fun tree htree => ?_
    rw [Outcome.mapError_eq_ok] at htree
    dsimp only
    split
    · exact .error (by simp)
    · next hroot =>
        split
        · next branch hbranch =>
            -- the branch leads to the proof's root, and that is the header's
            have hverify := PartialProof.verify_of_branchFor htree hbranch
            rw [not_not.1 hroot] at hverify
            rw [if_pos (by simpa [SideProof.verify] using hverify)]
            exact .bind (.mapError (fun _ => by simp) _) fun _ => .pure _
        · exact .error (by simp)

namespace Pipeline

/-- Whatever the source answers, a pipeline does not fail on a branch. -/
theorem run_build_ne_branchMismatch {σ : Type} (p : Pipeline (StateM σ)) (n : Notification)
    (world : σ) : ((p.build n).run.run world).1 ≠ .error .branchMismatch := by
  rw [run_build]
  split
  · rcases (p.header n.proof.blockHash).run.run world with ⟨cause | source, between⟩
    · simp
    · exact fun h => build_ne_branchMismatch n source _ h rfl
  · simp

/-- A proof that can be rebuilt has a branch for each hash that it reveals: that of the first
leaf with this hash, as long as the tree is high, and it verifies. It is the one that is put
together from the table of nodes that the walk leaves. No other hash has a branch. So no
announcement ever fails on its branch. -/
theorem branch_for_all_found :
    (∀ (p : PartialProof) (e : Extracted), p.extract = .ok e →
        e.Branched p.transactions.toNat
          ∧ ∀ leaf, (Machine.Rebuilt.of e).branchFor leaf = .ok (e.branchFor leaf))
      ∧ ∀ {σ : Type} (p : Pipeline (StateM σ)) (n : Notification) (world : σ),
          ((p.build n).run.run world).1 ≠ .error .branchMismatch := by
  refine ⟨fun p e hextract => ⟨PartialProof.branched hextract, fun leaf => ?_⟩, ?_⟩
  · exact Machine.Rebuilt.branchFor_of hextract leaf
  · exact run_build_ne_branchMismatch

/-- A proof over three leaves that reveals the first and the last, which have one hash. -/
def repeated : PartialProof where
  blockHash := Digest.zero
  height := 7
  transactions := 3
  hashes := [minedId, pairedTail, minedId]
  flags := [0x37]

/-- A tree of four leaves, the last two of which repeat the one transaction. -/
def repeatedTree : Tree :=
  let left := Digest.pair minedId pairedTail
  let right := Digest.pair minedId minedId
  .fork (Digest.pair left right) (.fork left (.leaf minedId) (.cut pairedTail))
    (.single right (.leaf minedId))

/-- The tree of the proof that reveals one hash twice. -/
private theorem extract_repeated :
    repeated.extract = .ok ⟨repeated.transactions, repeatedTree⟩ := by
  have hbits : Merkle.unpackBits repeated.flags
      = [true, true, true, false, true, true, false, false] := by decide
  have hheight : Merkle.height repeated.transactions.toNat = 2 := by decide
  refine PartialProof.extract_eq_ok_iff.2
    ⟨by decide, by decide, by decide, repeatedTree, [false, false], ?_, by decide, rfl⟩
  rw [hbits, hheight]
  refine (Walk.node_eq_ok_of_inside (by decide)).2 ⟨_, _, _,
    (Walk.node_eq_ok_of_inside (by decide)).2
      ⟨_, _, _, Walk.node_leaf _, Walk.node_cut _, by decide, rfl⟩,
    (Walk.node_eq_ok_of_last (by decide)).2 ⟨_, Walk.node_leaf _, rfl⟩, ?_, ?_⟩
  · simp only [Tree.hash, Digest.pair_eq_sliding]
    decide +kernel
  · simp only [repeatedTree, Tree.hash]

/-- A hash that is revealed twice has the branch of its first position. -/
theorem branch_for_all_found_repeated :
    ∃ e, repeated.extract = .ok e
      ∧ e.found = [(0, minedId), (2, minedId)]
      ∧ ∃ b, e.branchFor minedId = some b
        ∧ b.index.toNat = 0
        ∧ b.hashes.length = 2
        ∧ b.verify minedId e.root = true := by
  have hfound : (Extracted.mk repeated.transactions repeatedTree).found
      = [(0, minedId), (2, minedId)] := by
    simp [Extracted.found, repeatedTree, Tree.leaves]
  obtain ⟨hbranched, -⟩ := branch_for_all_found.1 repeated _ extract_repeated
  obtain ⟨b, hbranch, -, hleast, hlen, hverify⟩ :=
    hbranched.branch 0 minedId (by simp [hfound])
  have hfirst : b.index.toNat = 0 := Nat.le_zero.1 (hleast 0 (by simp [hfound]))
  exact ⟨_, extract_repeated, hfound, b, hbranch, hfirst, hlen.trans (by decide), hverify⟩

end Pipeline

end Submission

end MergedMining
