/-
Decoding is prefix-free and local.

What decodes to a value is read as that value in front of anything. This one law says it all:
if a shorter front decoded as well, then the whole would be read in two ways, and what is
behind a value is left over and refused. The law holds of each format since each is exact. In
particular it holds although the count in front of a sequence is checked against all that is
left of the input, and although payloads and the transactions of the parent chain have no
length in front.
-/
import MergedMining.Proofs.Wire.RoundTrip

namespace MergedMining.Wire

variable {α : Type} [Wire α] {input rest : Bytes} {v : α}

-- ================================================================== the laws

/-- A value is found in front of anything, in no shorter front, and not with something behind. -/
structure PrefixFree (α : Type) [Wire α] : Prop where
  found : ∀ (input : Bytes) (v : α), decode input = .ok v →
    ∀ rest, (read : Reader α) (input ++ rest) = .ok v rest
  cut : ∀ (input : Bytes) (v : α), decode input = .ok v →
    ∀ front, front <+: input → front ≠ input →
      ∃ cause, (decode front : Except Error α) = .error cause
  trailing : ∀ (input : Bytes) (v : α), decode input = .ok v →
    ∀ rest, rest ≠ [] → (decode (input ++ rest) : Except Error α) = .error (.trailing rest.length)

/-- Values that were decoded are found again behind their count, in front of anything. A count
tells the number of the items of any list in memory. -/
structure Framed (α : Type) [Wire α] : Prop extends PrefixFree α where
  sequence : ∀ items : List α, items.length < 2 ^ 64 →
    (∀ v ∈ items, ∃ input, decode input = .ok v) →
    ∀ rest, readSeq (writeSeq items ++ rest) = .ok items rest

/-- What is left over behind a value is refused. -/
theorem decode_of_left (hread : (read : Reader α) input = .ok v rest) (hrest : rest ≠ []) :
    (decode input : Except Error α) = .error (.trailing rest.length) := by
  have hfinish : (do let v ← read; Reader.finish; pure v : Reader α) input
      = .error (.trailing rest.length) rest := by
    rw [Reader.bind_ok hread]
    cases rest with
    | nil => exact absurd rfl hrest
    | cons b rest => rfl
  rw [decode, hfinish]

/-- A format whose values are found in front of anything is prefix-free. -/
theorem prefixFree_of_found
    (found : ∀ (input : Bytes) (v : α), decode input = .ok v →
      ∀ rest, (read : Reader α) (input ++ rest) = .ok v rest) : PrefixFree α where
  found := found
  cut := by
    intro input v hinput front hfront hne
    obtain ⟨back, rfl⟩ := hfront
    cases hdecode : (decode front : Except Error α) with
    | error cause => exact ⟨cause, rfl⟩
    | ok w =>
        -- the whole would be read as what the front is, and the back would be left over
        have hwhole := decode_eq_ok_iff_read.1 hinput
        rw [found front w hdecode back] at hwhole
        injection hwhole with _ hback
        rw [hback, List.append_nil] at hne
        exact absurd rfl hne
  trailing input v hinput rest hrest := decode_of_left (found input v hinput rest) hrest

namespace Exact

variable [Exact α]

/-- A value is found in front of anything. -/
theorem found (input : Bytes) (v : α) (h : decode input = .ok v) (rest : Bytes) :
    (read : Reader α) (input ++ rest) = .ok v rest := by
  obtain ⟨hadmits, rfl⟩ := decode_eq_ok.1 h
  exact read_eq_ok.2 ⟨hadmits, rfl⟩

theorem prefixFree : PrefixFree α := prefixFree_of_found found

/-- An exact format is framed. -/
theorem framed : Framed α where
  toPrefixFree := prefixFree
  sequence := by
    intro items hlen hitems rest
    refine readSeq_eq_ok.2 ⟨⟨hlen, fun v hv => ?_⟩, rfl⟩
    obtain ⟨input, hinput⟩ := hitems v hv
    exact (decode_eq_ok.1 hinput).1

end Exact

-- ================================================================ every format

/-- Every format is prefix-free, and those that are written are found again in sequences. -/
theorem formats_framed :
    Framed Digest ∧ Framed Merkle.Branch ∧ Framed Merkle.PartialProof ∧ Framed MainChain.OutPoint
      ∧ Framed MainChain.Input ∧ Framed MainChain.Output ∧ Framed MainChain.Attribute
      ∧ Framed MainChain.Program ∧ Framed MainChain.Transaction ∧ Framed MainChain.SideMining
      ∧ Framed Parent.Transaction ∧ Framed Parent.Header ∧ Framed AuxProof
      ∧ Framed MainChain.Header ∧ Framed SideProof ∧ PrefixFree MainChain.Block :=
  ⟨Exact.framed, Exact.framed, Exact.framed, Exact.framed, Exact.framed, Exact.framed,
    Exact.framed, Exact.framed, Exact.framed, Exact.framed, Exact.framed, Exact.framed,
    Exact.framed, Exact.framed, Exact.framed, Exact.prefixFree⟩

/-- A side chain proof is found in front of a byte, not in its own beginning, and twice in a
sequence; a block with two bytes behind it is refused. -/
theorem formats_framed_samples :
    (∃ p : SideProof, decode Sample.sideProof = .ok p
        ∧ (read : Reader SideProof) (Sample.sideProof ++ [0]) = .ok p [0]
        ∧ (∃ cause, (decode (Sample.sideProof.take 150) : Except Error SideProof) = .error cause)
        ∧ readSeq (writeSeq [p, p]) = .ok [p, p] [])
      ∧ ∃ b : MainChain.Block, decode Sample.block = .ok b
        ∧ (decode (Sample.block ++ [0, 0]) : Except Error MainChain.Block)
          = .error (.trailing 2) := by
  obtain ⟨-, -, -, -, -, -, -, -, -, -, -, -, -, -, sideProof, block⟩ := formats_framed
  obtain ⟨p, hp⟩ : ∃ p : SideProof, decode Sample.sideProof = .ok p :=
    Outcome.exists_ok_of_isOk (by decide +kernel)
  obtain ⟨b, hb⟩ : ∃ b : MainChain.Block, decode Sample.block = .ok b :=
    Outcome.exists_ok_of_isOk (by decide +kernel)
  have hcut : Sample.sideProof.take 150 ≠ Sample.sideProof := by decide
  have htwo : [p, p].length < 2 ^ 64 := Nat.lt_of_lt_of_le Nat.lt_two_pow_self
    (Nat.pow_le_pow_right (by decide) (by decide : 2 ≤ 64))
  have hpair := sideProof.sequence [p, p] htwo (by simpa using ⟨_, hp⟩) []
  rw [List.append_nil] at hpair
  exact ⟨⟨p, hp, sideProof.found _ p hp [0],
      sideProof.cut _ p hp _ (List.take_prefix ..) hcut, hpair⟩,
    b, hb, block.trailing _ b hb [0, 0] (by decide)⟩

end MergedMining.Wire
