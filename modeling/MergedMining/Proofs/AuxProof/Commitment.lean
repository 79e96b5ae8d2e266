/-
The commitment in a coinbase script, and what an accepted proof was checked for.

The script is searched for the first place where a byte string stands. A first
place stays the first when more bytes follow, so of two scripts of which one
begins with the other both have their commitment in one place, and it is one
commitment.
-/
import MergedMining.AuxProof
import MergedMining.Proofs.Collision
import MergedMining.Proofs.Outcome

namespace MergedMining.AuxProof

-- ============================================================= first places

/-- What was looked for stands at the place that was found. -/
theorem isPrefix_of_position? {wanted script : Bytes} {place : Nat}
    (h : position? wanted script = some place) : wanted <+: script.drop place := by
  induction script generalizing place with
  | nil =>
      rw [position?] at h
      split at h
      · next hw =>
        rw [List.isEmpty_iff.1 hw]
        exact List.nil_prefix
      · cases h
  | cons b script ih =>
      rw [position?] at h
      split at h
      · next hw =>
        obtain rfl := Option.some.inj h
        exact List.isPrefixOf_iff_prefix.1 hw
      · obtain ⟨k, hk, rfl⟩ := Option.map_eq_some_iff.1 h
        exact ih hk

/-- What was found ends within the script. -/
theorem length_le_of_position? {wanted script : Bytes} {place : Nat}
    (h : position? wanted script = some place) : wanted.length ≤ script.length - place := by
  have hlen := (isPrefix_of_position? h).length_le
  rwa [List.length_drop] at hlen

/-- The first place is the first one however the script goes on. -/
theorem position?_append {wanted script : Bytes} {place : Nat} (more : Bytes)
    (h : position? wanted script = some place) :
    position? wanted (script ++ more) = some place := by
  induction script generalizing place with
  | nil =>
      rw [position?] at h
      split at h
      · next hw =>
        obtain rfl := Option.some.inj h
        obtain rfl := List.isEmpty_iff.1 hw
        cases more <;> rfl
      · cases h
  | cons b script ih =>
      rw [List.cons_append, position?]
      have hlen : wanted.length ≤ (b :: script).length := by
        have := length_le_of_position? h
        omega
      -- the pattern fits into what was there before, so more bytes do not matter
      have hsame : wanted.isPrefixOf (b :: (script ++ more)) = wanted.isPrefixOf (b :: script) := by
        rw [Bool.eq_iff_iff, List.isPrefixOf_iff_prefix, List.isPrefixOf_iff_prefix]
        constructor
        · intro hp
          exact List.prefix_of_prefix_length_le hp (List.prefix_append (b :: script) more) hlen
        · intro hp
          exact hp.trans (List.prefix_append (b :: script) more)
      rw [position?] at h
      rw [hsame]
      split at h
      · next hw =>
        rw [if_pos hw]
        exact h
      · next hw =>
        obtain ⟨k, hk, rfl⟩ := Option.map_eq_some_iff.1 h
        rw [if_neg hw, ih hk, Option.map_some]

-- ============================================================== commitments

/-- A commitment is read where the only marker stands and the root follows it. -/
theorem commitment_eq_ok_iff {script tail : Bytes} {root : Digest} :
    commitment script root = .ok tail ↔
      ∃ place, position? marker script = some place
        ∧ position? marker (script.drop (place + 1)) = none
        ∧ position? root.bytes.reverse script = some (place + marker.length)
        ∧ script.drop (place + marker.length + 32) = tail := by
  unfold commitment
  cases hm : position? marker script with
  | none => exact ⟨fun h => (nomatch h), fun ⟨_, h, _⟩ => nomatch h⟩
  | some m =>
      cases hr : position? root.bytes.reverse script with
      | none =>
          simp only [Outcome.throw_eq, Outcome.error_bind, Outcome.ite_error_eq_ok]
          exact ⟨fun h => (nomatch h.2), fun ⟨_, _, _, h, _⟩ => nomatch h⟩
      | some r =>
          simp only [Outcome.throw_eq, Outcome.error_bind, Outcome.ite_error_eq_ok,
            Outcome.ite_eq_ok, Outcome.pure_eq_ok, Bool.not_eq_true, Option.isSome_eq_false_iff,
            Option.isNone_iff_eq_none, Option.some.injEq]
          constructor
          · intro h
            obtain ⟨hs, rfl, rfl⟩ := h
            exact ⟨m, rfl, hs, rfl, rfl⟩
          · intro h
            obtain ⟨_, rfl, hs, rfl, rfl⟩ := h
            exact ⟨hs, rfl, rfl⟩

/-- Of two scripts, one of which begins with the other, both commit to one root, and what
follows it in the one begins with what follows it in the other. -/
theorem commitment_append {script more tail tail' : Bytes} {root root' : Digest}
    (h : commitment script root = .ok tail)
    (h' : commitment (script ++ more) root' = .ok tail') : root = root' ∧ tail' = tail ++ more := by
  obtain ⟨m, hm, -, hr, rfl⟩ := commitment_eq_ok_iff.1 h
  obtain ⟨m', hm', -, hr', rfl⟩ := commitment_eq_ok_iff.1 h'
  rw [position?_append more hm] at hm'
  obtain rfl := Option.some.inj hm'
  have hlen := length_le_of_position? hr
  rw [List.length_reverse, root.length_bytes] at hlen
  have hroot := position?_append more hr
  have hpre := isPrefix_of_position? hroot
  have hpre' := isPrefix_of_position? hr'
  constructor
  · have hsame : root.bytes.reverse.length = root'.bytes.reverse.length := by
      rw [List.length_reverse, List.length_reverse, root.length_bytes, root'.length_bytes]
    have hle := List.prefix_of_prefix_length_le hpre hpre' (Nat.le_of_eq hsame)
    have hrev := hle.eq_of_length hsame
    exact Octets.ext (List.reverse_inj.1 hrev)
  · rw [List.drop_append_of_le_length (by omega)]

-- ================================================================= the check

/-- The script is that of the first input. -/
theorem script_eq_ok_iff {p : AuxProof} {script : Bytes} :
    p.script = .ok script ↔
      ∃ input rest, p.coinbase.inputs = input :: rest ∧ input.script = script := by
  unfold AuxProof.script
  cases p.coinbase.inputs with
  | nil =>
      constructor
      · intro h
        cases h
      · intro h
        obtain ⟨input, rest, h, -⟩ := h
        cases h
  | cons first others =>
      constructor
      · intro h
        exact ⟨first, others, rfl, Except.ok.inj h⟩
      · intro h
        obtain ⟨input, rest, h, rfl⟩ := h
        cases h
        rfl

/-- What an accepted proof was checked for; `tail` follows the committed root. -/
structure Accepted (p : AuxProof) (block : Digest) (chain : UInt32) (tail : Bytes) : Prop where
  index_eq_zero : p.coinbaseBranch.index = 0
  rootFrom_eq : p.coinbaseBranch.rootFrom p.coinbase.id = p.parentHeader.merkleRoot
  depth_le : p.auxBranch.hashes.length ≤ maxDepth
  committed : ∃ script, p.script = .ok script ∧ commitment script (p.auxRoot block) = .ok tail
  length_tail : 8 ≤ tail.length
  size_eq : littleEndian (tail.take 4) = 2 ^ p.auxBranch.hashes.length
  index_eq_slot : p.auxBranch.index.toNat
    = slot (UInt32.ofNat (littleEndian ((tail.drop 4).take 4))) chain p.auxBranch.hashes.length
  hash_eq : p.parentHeader.hash = p.parentHash
  meetsTarget : p.parentHeader.meetsTarget = true

/-- A proof is accepted for nothing less, and for nothing more. -/
theorem check_eq_ok_iff {p : AuxProof} {block : Digest} {chain : UInt32} :
    p.check block chain = .ok () ↔ ∃ tail, p.Accepted block chain tail := by
  unfold check
  simp only [Outcome.throw_eq, Outcome.error_bind, Outcome.ite_eq_ok, Outcome.ite_error_eq_ok,
    Outcome.bind_eq_ok, Outcome.pure_eq_ok, and_true]
  constructor
  · intro h
    obtain ⟨hindex, hroot, hdepth, script, hscript, tail, htail, hlen, hsize, hslot, hhash,
      hwork⟩ := h
    exact ⟨tail, hindex, hroot, Nat.not_lt.1 hdepth, ⟨script, hscript, htail⟩, Nat.not_lt.1 hlen,
      hsize, hslot, hhash, hwork⟩
  · intro h
    obtain ⟨tail, h⟩ := h
    obtain ⟨script, hscript, htail⟩ := h.committed
    exact ⟨h.index_eq_zero, h.rootFrom_eq, Nat.not_lt.2 h.depth_le, script, hscript, tail, htail,
      Nat.not_lt.2 h.length_tail, h.size_eq, h.index_eq_slot, h.hash_eq, h.meetsTarget⟩

end MergedMining.AuxProof
