/-
Which true claims to a parent block's work are accepted.

A true claim passes every check but one. The root has to be found right behind the only
marker, and it does stand there. But the search for it begins where the script does and ends
at the first place that it finds. If the root stands in front of the commitment as well, or
reaches into it, that place is the wrong one, and the claim is refused with the words that the
root has to follow the marker, which it does.

So the bytes behind a commitment are free. The bytes in front of it are free as long as the
root does not stand there before its time.
-/
import MergedMining.Proofs.AuxProof.Genuine
import MergedMining.Proofs.Sha256

namespace MergedMining.AuxProof

-- ============================================================= first places

/-- A byte string is found where it stands and where it does not stand any earlier. -/
theorem position?_eq_some_iff {wanted script : Bytes} {place : Nat} :
    position? wanted script = some place
      ↔ wanted <+: script.drop place ∧ ∀ other, wanted <+: script.drop other → place ≤ other := by
  constructor
  · intro h
    exact ⟨isPrefix_of_position? h, fun _ => le_of_position? h⟩
  · rintro ⟨hplace, hleast⟩
    cases h : position? wanted script with
    | none => exact absurd hplace (position?_eq_none_iff.1 h place)
    | some first =>
        have hle := hleast first (isPrefix_of_position? h)
        rw [Nat.le_antisymm hle (le_of_position? h hplace)]

/-- A byte string that stands in one place only is found there, and not again behind it. -/
theorem position?_of_only {wanted script : Bytes} {place : Nat}
    (honly : ∀ other, wanted <+: script.drop other ↔ other = place) :
    position? wanted script = some place
      ∧ position? wanted (script.drop (place + 1)) = none := by
  constructor
  · apply position?_eq_some_iff.2
    exact ⟨(honly place).2 rfl, fun other hother => Nat.le_of_eq ((honly other).1 hother).symm⟩
  · apply position?_eq_none_iff.2
    intro other hother
    rw [List.drop_drop] at hother
    have hplace := (honly _).1 hother
    omega

-- ================================================================= decoys

/-- The root stands in the script before it stands behind the marker. -/
def HasDecoy (script : Bytes) (root : Digest) : Prop :=
  ∃ decoy place, root.bytes.reverse <+: script.drop decoy ∧ marker <+: script.drop place
    ∧ decoy < place + marker.length

/-- The script of the proof's coinbase has a decoy of the root that the proof claims. -/
def Decoyed (p : AuxProof) (block : Digest) : Prop :=
  ∃ script, p.script = .ok script ∧ HasDecoy script (p.auxRoot block)

section Commitments

variable {script : Bytes} {root : Digest} {depth : Nat} {nonce : UInt32}

/-- Where the parts of a commitment stand. -/
theorem Commits.parts (h : Commits script root depth nonce) :
    ∃ place after, (∀ other, marker <+: script.drop other ↔ other = place)
      ∧ root.bytes.reverse <+: script.drop (place + marker.length)
      ∧ script.drop (place + marker.length + 32)
          = toLittleEndian 4 (2 ^ depth) ++ (Wire.writeU32 nonce ++ after) := by
  obtain ⟨before, after, rfl, honly⟩ := h
  have hbehind : (before ++ marker ++ root.bytes.reverse ++ toLittleEndian 4 (2 ^ depth)
        ++ Wire.writeU32 nonce ++ after).drop (before.length + marker.length)
      = root.bytes.reverse ++ (toLittleEndian 4 (2 ^ depth) ++ (Wire.writeU32 nonce ++ after)) := by
    simp only [List.append_assoc]
    rw [← List.append_assoc]
    exact List.drop_left' List.length_append
  have hroot32 : root.bytes.reverse.length = 32 := by
    rw [List.length_reverse, root.length_bytes]
  refine ⟨before.length, after, honly, ?_, ?_⟩
  · rw [hbehind]
    exact List.prefix_append ..
  · rw [← List.drop_drop, hbehind]
    exact List.drop_left' hroot32

/-- The size and the nonce are read back as they were written. -/
theorem read_size_and_nonce {tail after : Bytes} (hdepth : depth ≤ maxDepth)
    (htail : tail = toLittleEndian 4 (2 ^ depth) ++ (Wire.writeU32 nonce ++ after)) :
    8 ≤ tail.length
      ∧ littleEndian (tail.take 4) = 2 ^ depth
      ∧ UInt32.ofNat (littleEndian ((tail.drop 4).take 4)) = nonce := by
  have hsize : (toLittleEndian 4 (2 ^ depth)).length = 4 := length_toLittleEndian 4 _
  have hnonce : (Wire.writeU32 nonce).length = 4 := length_toLittleEndian 4 _
  have hfits : 2 ^ depth < 256 ^ 4 := by
    have hle : 2 ^ depth ≤ 2 ^ maxDepth := Nat.pow_le_pow_right (by decide) hdepth
    exact Nat.lt_of_le_of_lt hle (by decide)
  subst htail
  refine ⟨?_, ?_, ?_⟩
  · rw [List.length_append, List.length_append, hsize, hnonce]
    omega
  · rw [List.take_left' hsize, littleEndian_toLittleEndian, Nat.mod_eq_of_lt hfits]
  · rw [List.drop_left' hsize, List.take_left' hnonce, Wire.writeU32, littleEndian_toLittleEndian,
      Nat.mod_eq_of_lt nonce.toNat_lt, UInt32.ofNat_toNat]

/-- A commitment without a decoy is read as it was made, whatever stands around it. -/
theorem commitment_of_not_hasDecoy (h : Commits script root depth nonce)
    (hdepth : depth ≤ maxDepth) (hdecoy : ¬HasDecoy script root) :
    ∃ tail, commitment script root = .ok tail ∧ 8 ≤ tail.length
      ∧ littleEndian (tail.take 4) = 2 ^ depth
      ∧ UInt32.ofNat (littleEndian ((tail.drop 4).take 4)) = nonce := by
  obtain ⟨place, after, honly, hroot, htail⟩ := h.parts
  obtain ⟨hmarker, hsecond⟩ := position?_of_only honly
  have hfound : position? root.bytes.reverse script = some (place + marker.length) := by
    refine position?_eq_some_iff.2 ⟨hroot, fun other hother => ?_⟩
    by_contra hlt
    exact hdecoy ⟨other, place, hother, (honly place).2 rfl, Nat.lt_of_not_le hlt⟩
  exact ⟨_, commitment_eq_ok_iff.2 ⟨place, hmarker, hsecond, hfound, rfl⟩,
    read_size_and_nonce hdepth htail⟩

/-- A commitment with a decoy is refused for a root that does not follow the marker. -/
theorem commitment_of_hasDecoy (h : Commits script root depth nonce)
    (hdecoy : HasDecoy script root) : commitment script root = .error .misplacedRoot := by
  obtain ⟨place, after, honly, hroot, -⟩ := h.parts
  obtain ⟨hmarker, hsecond⟩ := position?_of_only honly
  obtain ⟨decoy, place', hstands, hplace', hlt⟩ := hdecoy
  obtain rfl := (honly place').1 hplace'
  cases hfound : position? root.bytes.reverse script with
  | none => exact absurd hroot (position?_eq_none_iff.1 hfound _)
  | some first =>
      have hne : place' + marker.length ≠ first := by
        have hle := le_of_position? hfound hstands
        omega
      simp only [commitment, hmarker, hsecond, hfound, hne, Option.isSome_none, if_false]
      rfl

end Commitments

-- ============================================================ genuine proofs

section Genuine

variable {p : AuxProof} {block : Digest} {chain : UInt32}

/-- The commitment of a true claim, in the script of the coinbase. -/
theorem Genuine.script_eq (h : p.Genuine block chain) :
    ∃ script nonce, p.script = .ok script
      ∧ Commits script (p.auxRoot block) p.auxBranch.hashes.length nonce
      ∧ p.auxBranch.index.toNat = slot nonce chain p.auxBranch.hashes.length := by
  obtain ⟨input, others, nonce, hinputs, hcommits, hslot⟩ := h.commits
  have hdepth : p.auxBranch.hashes.length ≤ 30 := h.depth_le
  rw [← slot_eq (by omega)] at hslot
  exact ⟨input.script, nonce, script_eq_ok_iff.2 ⟨input, others, hinputs, rfl⟩, hcommits, hslot⟩

private theorem Genuine.rootFrom_eq (h : p.Genuine block chain) :
    p.coinbaseBranch.rootFrom p.coinbase.id = p.parentHeader.merkleRoot := by
  rw [Merkle.Branch.rootFrom, h.index_eq_zero]
  exact h.fold_coinbase

/-- A genuine proof whose script has no copy of the root in front is accepted. -/
private theorem Genuine.check_of_not_decoyed (h : p.Genuine block chain)
    (hdecoy : ¬p.Decoyed block) :
    p.check block chain = .ok () := by
  obtain ⟨script, nonce, hscript, hcommits, hslot⟩ := h.script_eq
  have hclear : ¬HasDecoy script (p.auxRoot block) := fun hd => hdecoy ⟨script, hscript, hd⟩
  obtain ⟨tail, htail, hlen, hsize, hnonce⟩ :=
    commitment_of_not_hasDecoy hcommits h.depth_le hclear
  rw [← hnonce] at hslot
  refine check_eq_ok_iff.2 ⟨tail, ?_⟩
  exact {
    index_eq_zero := h.index_eq_zero
    rootFrom_eq := h.rootFrom_eq
    depth_le := h.depth_le
    committed := ⟨script, hscript, htail⟩
    length_tail := hlen
    size_eq := hsize
    index_eq_slot := hslot
    hash_eq := h.parentHash_eq.symm
    meetsTarget := decide_eq_true h.work }

/-- A genuine proof whose script has a copy of the root in front is refused. -/
private theorem Genuine.check_of_decoyed (h : p.Genuine block chain) (hdecoy : p.Decoyed block) :
    p.check block chain = .error .misplacedRoot := by
  obtain ⟨script, nonce, hscript, hcommits, -⟩ := h.script_eq
  obtain ⟨script', hscript', hdecoy⟩ := hdecoy
  obtain rfl : script = script' := by
    rw [hscript] at hscript'
    exact Except.ok.inj hscript'
  have hcommitment := commitment_of_hasDecoy hcommits hdecoy
  have hdepth : ¬maxDepth < p.auxBranch.hashes.length := Nat.not_lt.2 h.depth_le
  have hread : (do commitment (← p.script) (p.auxRoot block)) = .error .misplacedRoot := by
    rw [hscript]
    exact hcommitment
  unfold check
  simp only [h.index_eq_zero, h.rootFrom_eq, hdepth, if_true, if_false, ← bind_assoc, hread]
  rfl

/-- A true claim to a parent block's work is accepted, whatever stands around its commitment,
unless the root stands in the script before it stands behind the marker. Then it is refused,
although the root does stand behind the marker. -/
theorem check_of_genuine (h : p.Genuine block chain) :
    (¬p.Decoyed block → p.check block chain = .ok ())
      ∧ (p.Decoyed block → p.check block chain = .error .misplacedRoot) :=
  ⟨h.check_of_not_decoyed, h.check_of_decoyed⟩

end Genuine

-- ============================================================ one commitment

/-- A script that commits to a tree of one block, which has the number seven. -/
def loneScript (front : Bytes) : Bytes :=
  front ++ marker ++ (Digest.ofNumber 7).bytes.reverse ++ [1, 0, 0, 0, 0, 0, 0, 0]

/-- A proof for the block with the number seven, which is alone in its auxiliary tree. The
parent block has only its coinbase, whose script begins with `front`. -/
def alone (front : Bytes) (nonce : UInt32) : AuxProof :=
  let coinbase : Parent.Transaction := {
    version := 1
    inputs := [{
      transaction := Digest.zero, index := 0xffffffff, sequence := 0xffffffff, witness := []
      script := loneScript front }]
    outputs := []
    lockTime := 0 }
  let parentHeader : Parent.Header := { Parent.Header.empty with
    merkleRoot := coinbase.id, bits := 0x207fffff, nonce }
  { coinbase, parentHash := parentHeader.hash, coinbaseBranch := .empty, auxBranch := .empty
    parentHeader }

/-- A proof for the one leaf of its tree is genuine, whatever stands in front of its commitment. -/
private theorem genuine_alone {front : Bytes} {nonce : UInt32} (chain : UInt32)
    (hwork : (alone front nonce).parentHeader.meetsTarget = true)
    (honly : ∀ place, marker <+: (loneScript front).drop place ↔ place = front.length) :
    (alone front nonce).Genuine (Digest.ofNumber 7) chain where
  index_eq_zero := rfl
  fold_coinbase := rfl
  depth_le := Nat.zero_le 30
  commits := by
    have htail : [1, 0, 0, 0, 0, 0, 0, 0] = toLittleEndian 4 (2 ^ 0) ++ Wire.writeU32 0 := by decide
    refine ⟨_, [], 0, rfl, ⟨front, [], ?_, honly⟩, (Nat.mod_one _).symm⟩
    show loneScript front = _
    simp only [loneScript, List.append_nil, List.append_assoc, htail]
    rfl
  index_lt := Nat.one_pos
  parentHash_eq := rfl
  work := of_decide_eq_true hwork

/-- The commitment to the tree of one block, behind the byte three. -/
theorem check_of_genuine_alone :
    (alone [3] 1).Genuine (Digest.ofNumber 7) 5
      ∧ ¬(alone [3] 1).Decoyed (Digest.ofNumber 7)
      ∧ (alone [3] 1).check (Digest.ofNumber 7) 5 = .ok () := by
  have hmarker : position? marker (loneScript [3]) = some 1 := by decide
  have hsecond : position? marker ((loneScript [3]).drop 2) = none := by decide
  have hroot : position? (Digest.ofNumber 7).bytes.reverse (loneScript [3]) = some 5 := by
    decide
  have hwork : (alone [3] 1).parentHeader.meetsTarget = true := by
    simp only [alone, Parent.Header.meetsTarget, Parent.Header.hash, Parent.Transaction.id,
      Digest.ofBytes_eq_sliding]
    decide +kernel
  have hgenuine : (alone [3] 1).Genuine (Digest.ofNumber 7) 5 :=
    genuine_alone 5 hwork (prefix_drop_iff_of_only hmarker hsecond)
  have hclear : ¬(alone [3] 1).Decoyed (Digest.ofNumber 7) := by
    rintro ⟨script, hscript, decoy, place, hdecoy, hplace, hlt⟩
    obtain rfl : loneScript [3] = script := Except.ok.inj hscript
    have hfive := le_of_position? hroot hdecoy
    have hone := (prefix_drop_iff_of_only hmarker hsecond place).1 hplace
    have hfour : marker.length = 4 := rfl
    omega
  exact ⟨hgenuine, hclear, (check_of_genuine hgenuine).1 hclear⟩

/-- The root stands in front of the commitment as well as in it. -/
theorem genuine_not_accepted :
    ¬∀ (p : AuxProof) (block : Digest) (chain : UInt32),
      p.Genuine block chain → p.check block chain = .ok () := by
  intro h
  have hwork : (alone (Digest.ofNumber 7).bytes.reverse 0).parentHeader.meetsTarget = true := by
    simp only [alone, Parent.Header.meetsTarget, Parent.Header.hash, Parent.Transaction.id,
      Digest.ofBytes_eq_sliding]
    decide +kernel
  have hgenuine : (alone (Digest.ofNumber 7).bytes.reverse 0).Genuine (Digest.ofNumber 7) 5 :=
    genuine_alone 5 hwork (prefix_drop_iff_of_only (by decide) (by decide))
  have hdecoy : (alone (Digest.ofNumber 7).bytes.reverse 0).Decoyed (Digest.ofNumber 7) :=
    ⟨_, rfl, 0, 32, by decide, by decide, by decide⟩
  have hcheck := h _ _ _ hgenuine
  rw [hgenuine.check_of_decoyed hdecoy] at hcheck
  cases hcheck

end MergedMining.AuxProof
