/-
Checking proofs on a machine.

A branch is folded by shifting its index to the right, one bit for each level, and the bits
above the branch are looked at only if the branch is shorter than the index is wide. In a script
the marker and the root are searched for before anything is cut off behind them, so what is cut
begins within the script, even where they stand at its end. The size of an auxiliary tree is
computed only after the tree's depth was seen to be small enough.
-/
import MergedMining.Proofs.AuxProof.Commitment
import MergedMining.Proofs.Machine.Branches
import MergedMining.Proofs.Machine.Formats
import MergedMining.Proofs.Merkle.Soundness
import MergedMining.Proofs.Wire.RoundTrip

namespace MergedMining.Machine

open Merkle (PartialProof)

-- ==================================================================== branches

/-- Folds neighbours onto a hash. -/
def fold (running : Digest) : List Digest → (index : Nat) → Run Digest
  | [], _ => return running
  | neighbour :: rest, index => do
      let next :=
        if index % 2 = 1 then Digest.pair neighbour running else Digest.pair running neighbour
      let index ← shiftRight 32 index 1
      fold next rest index

/-- Halving an index never traps, so a branch is folded as without a machine. -/
private theorem fold_eq (running : Digest) (neighbours : List Digest) (index : Nat) :
    fold running neighbours index = .ok (Merkle.fold running neighbours index) := by
  induction neighbours generalizing running index with
  | nil => rfl
  | cons neighbour rest ih =>
      rw [fold, shiftRight_eq (by decide), ok_bind, Nat.pow_one, ih, Merkle.fold]

/-- Folds a branch over a leaf. -/
def rootFrom (b : Merkle.Branch) (leaf : Digest) : Run Digest := fold leaf b.hashes b.index.toNat

private theorem rootFrom_eq (b : Merkle.Branch) (leaf : Digest) :
    rootFrom b leaf = .ok (b.rootFrom leaf) :=
  fold_eq ..

/-- The bits of the index above a short branch have to be clear. -/
def verifyBranch (b : Merkle.Branch) (leaf root : Digest) : Run Bool := do
  if b.hashes.length < 32 then
    let above ← shiftRight 32 b.index.toNat b.hashes.length
    if above ≠ 0 then return false
  let found ← rootFrom b leaf
  return found = root

/-- The shift of the index is guarded by the depth, so checking a branch never traps. -/
private theorem verifyBranch_eq (b : Merkle.Branch) (leaf root : Digest) :
    verifyBranch b leaf root = .ok (b.verify leaf root) := by
  have hindex := b.index.toNat_lt
  have hpos : 0 < 2 ^ b.hashes.length := Nat.two_pow_pos _
  rw [verifyBranch, Merkle.Branch.verify, rootFrom_eq]
  by_cases hshort : b.hashes.length < 32
  · rw [if_pos hshort, shiftRight_eq hshort, ok_bind]
    by_cases hclear : b.index.toNat < 2 ^ b.hashes.length
    · rw [if_neg (not_not_intro (Nat.div_eq_of_lt hclear)), decide_eq_true hclear, Bool.true_and]
      rfl
    · have hne : b.index.toNat / 2 ^ b.hashes.length ≠ 0 :=
        mt (Nat.div_eq_zero_iff_lt hpos).1 hclear
      rw [if_pos hne, decide_eq_false hclear, Bool.false_and]
      rfl
  · -- the index is no wider than the branch is long
    have hclear : b.index.toNat < 2 ^ b.hashes.length :=
      Nat.lt_of_lt_of_le hindex (Nat.pow_le_pow_right (by decide) (Nat.le_of_not_lt hshort))
    rw [if_neg hshort, decide_eq_true hclear, Bool.true_and]
    rfl

/-- Checks the branch of a side proof. -/
def verify (p : SideProof) : Run Bool :=
  verifyBranch p.branch p.transaction.id p.header.transactionsRoot

private theorem verify_eq (p : SideProof) : verify p = .ok p.verify := verifyBranch_eq ..

-- ===================================================================== scripts

/-- The first position at which a byte string stands in another. -/
def find (wanted script : Bytes) : Run (Option Nat) := do
  let candidates ← windows script wanted.length
  return candidates.findIdx? (· = wanted)

/-- A search for a pattern that is not empty takes windows, which never traps, and answers the first
position. -/
private theorem find_eq {wanted : Bytes} (script : Bytes) (hwanted : wanted ≠ []) :
    find wanted script = .ok (AuxProof.position? wanted script) := by
  have hsize : wanted.length ≠ 0 := mt List.length_eq_zero_iff.1 hwanted
  rw [find, windows_eq hsize, ok_bind]
  show Except.ok _ = _
  refine congrArg _ ?_
  induction script with
  | nil =>
      rw [AuxProof.position?, if_neg (mt List.isEmpty_iff.1 hwanted)]
      rfl
  | cons byte rest ih =>
      rw [stretches, AuxProof.position?, ← ih]
      by_cases hfits : wanted.length ≤ (byte :: rest).length
      · have hhere : decide ((byte :: rest).take wanted.length = wanted)
            = wanted.isPrefixOf (byte :: rest) := by
          rw [Bool.eq_iff_iff, decide_eq_true_iff, List.isPrefixOf_iff_prefix,
            List.prefix_iff_eq_take, eq_comm]
        rw [if_pos hfits, List.findIdx?_cons, hhere]
      · have hhere : ¬wanted.isPrefixOf (byte :: rest) = true :=
          fun hp => hfits (List.isPrefixOf_iff_prefix.1 hp).length_le
        rw [List.length_cons] at hfits
        rw [List.length_cons, if_neg hfits, if_neg hhere, stretches_of_short (by omega)]
        rfl

/-- What follows the committed root in the script. -/
def commitment (script : Bytes) (root : Digest) : ExceptT AuxProof.Error Run Bytes := do
  let some markerAt ← find AuxProof.marker script | throw .noMarker
  let behind ← plus wordBits markerAt 1
  let rest ← sliceFrom script behind
  let second ← find AuxProof.marker rest
  if second.isSome then throw .secondMarker
  let some rootAt ← find root.bytes.reverse script | throw .noRoot
  let expected ← plus wordBits markerAt AuxProof.marker.length
  unless expected = rootAt do throw .misplacedRoot
  let tailAt ← plus wordBits rootAt 32
  sliceFrom script tailAt

/-- Each slice of the script lies behind a check of its length, so the commitment is read without a
trap. -/
private theorem commitment_yields {script : Bytes} (hscript : Addressable script) (root : Digest) :
    Yields (commitment script root) (AuxProof.commitment script root) := by
  have hlen : script.length < 2 ^ 56 := hscript
  have hbits : 2 ^ wordBits = 2 ^ 64 := rfl
  have hmarker : AuxProof.marker.length = 4 := rfl
  have hroot : root.bytes.reverse.length = 32 := by rw [List.length_reverse, root.length_bytes]
  have hne : root.bytes.reverse ≠ [] := by
    intro hnil
    rw [hnil] at hroot
    cases hroot
  rw [commitment, AuxProof.commitment]
  refine .lift (find_eq script (by decide)) ?_
  cases hm : AuxProof.position? AuxProof.marker script with
  | none => exact throw_yields _
  | some markerAt =>
      have hend := AuxProof.length_le_of_position? hm
      refine .lift (plus_eq (by omega)) (.lift (sliceFrom_eq (by omega)) ?_)
      refine .lift (find_eq _ (by decide)) ?_
      refine .ite (fun _ => throw_yields _) fun _ => ?_
      refine .lift (find_eq script hne) ?_
      cases hr : AuxProof.position? root.bytes.reverse script with
      | none => exact throw_yields _
      | some rootAt =>
          have hend := AuxProof.length_le_of_position? hr
          refine .lift (plus_eq (by omega)) (.ite (fun _ => ?_) fun _ => throw_yields _)
          refine .lift (plus_eq (by omega)) ?_
          rw [sliceFrom_eq (by omega)]
          exact pure_yields _

/-- The number in the four bytes at a place. -/
def fourBytes (bytes : Bytes) (i : Nat) : Run Nat := do
  let a ← item bytes i
  let b ← item bytes (i + 1)
  let c ← item bytes (i + 2)
  let d ← item bytes (i + 3)
  return littleEndian [a, b, c, d]

/-- Four bytes that are there are read as a number. -/
private theorem fourBytes_eq {bytes : Bytes} {i : Nat} (h : i + 4 ≤ bytes.length) :
    fourBytes bytes i = .ok (littleEndian ((bytes.drop i).take 4)) := by
  have hcut : (bytes.drop i).take 4 = [bytes[i], bytes[i + 1], bytes[i + 2], bytes[i + 3]] := by
    rw [List.drop_eq_getElem_cons (show i < bytes.length by omega),
      List.drop_eq_getElem_cons (show i + 1 < bytes.length by omega),
      List.drop_eq_getElem_cons (show i + 1 + 1 < bytes.length by omega),
      List.drop_eq_getElem_cons (show i + 1 + 1 + 1 < bytes.length by omega)]
    rfl
  rw [fourBytes, item_eq (List.getElem?_eq_getElem (show i < bytes.length by omega)), ok_bind,
    item_eq (List.getElem?_eq_getElem (show i + 1 < bytes.length by omega)), ok_bind,
    item_eq (List.getElem?_eq_getElem (show i + 2 < bytes.length by omega)), ok_bind,
    item_eq (List.getElem?_eq_getElem (show i + 3 < bytes.length by omega)), ok_bind, hcut]
  rfl

/-- The slot of a chain in an auxiliary tree of this depth. -/
def slot (nonce chain : UInt32) (depth : Nat) : Run Nat :=
  let drawn := AuxProof.draw (AuxProof.draw nonce + chain)
  match powerOfTwo? 32 depth with
  | some size => modulo drawn.toNat size
  | none => .ok drawn.toNat

/-- The slot is drawn in wrapping arithmetic and reduced by a shift within the word. -/
private theorem slot_eq (nonce chain : UInt32) (depth : Nat) :
    slot nonce chain depth = .ok (AuxProof.slot nonce chain depth) := by
  have hpos : 0 < 2 ^ depth := Nat.two_pow_pos depth
  rw [slot, AuxProof.slot, powerOfTwo?]
  by_cases hdepth : depth < 32
  · rw [if_pos hdepth, Nat.min_eq_left (Nat.le_of_lt hdepth)]
    exact modulo_eq (Nat.ne_of_gt hpos)
  · rw [if_neg hdepth, Nat.min_eq_right (Nat.le_of_not_lt hdepth),
      Nat.mod_eq_of_lt (UInt32.toNat_lt _)]

/-- Checks that the parent block commits to `block` on behalf of a chain and shows its work. -/
def check (p : AuxProof) (block : Digest) (chain : UInt32) : ExceptT AuxProof.Error Run Unit := do
  unless p.coinbaseBranch.index = 0 do throw .notCoinbase
  let root ← rootFrom p.coinbaseBranch p.coinbase.id
  unless root = p.parentHeader.merkleRoot do throw .coinbaseMismatch
  let depth := p.auxBranch.hashes.length
  if AuxProof.maxDepth < depth then throw (.tooDeep depth)
  let script ← (liftM p.script : ExceptT AuxProof.Error Run Bytes)
  let root ← rootFrom p.auxBranch block
  let tail ← commitment script root
  if tail.length < 8 then throw .truncated
  let size ← fourBytes tail 0
  let nonce ← fourBytes tail 4
  let expected ← shiftLeft 32 1 depth
  unless size = expected do throw (.sizeMismatch size expected)
  let expected ← slot (UInt32.ofNat nonce) chain depth
  unless p.auxBranch.index.toNat = expected do
    throw (.wrongSlot p.auxBranch.index.toNat expected)
  unless p.parentHeader.hash = p.parentHash do throw .parentMismatch
  unless p.parentHeader.meetsTarget do throw .insufficientWork

/-- The script is that of the first input. -/
theorem addressable_script {p : AuxProof} {script : Bytes}
    (hscripts : ∀ input ∈ p.coinbase.inputs, Addressable input.script)
    (h : p.script = .ok script) : Addressable script := by
  unfold AuxProof.script at h
  split at h
  · cases h
  · next input others hinputs =>
      cases h
      exact hscripts input (hinputs ▸ List.mem_cons_self)

/-- Wherever a check fails, and if none does, the machine comes to the same. -/
theorem check_yields {p : AuxProof}
    (hscripts : ∀ input ∈ p.coinbase.inputs, Addressable input.script) (block : Digest)
    (chain : UInt32) : Yields (check p block chain) (p.check block chain) := by
  rw [check, AuxProof.check]
  refine .ite (fun _ => ?_) fun _ => throw_yields _
  refine .lift (rootFrom_eq ..) ?_
  refine .ite (fun _ => ?_) fun _ => throw_yields _
  refine .ite (fun _ => throw_yields _) fun hdepth => ?_
  have hdepth : p.auxBranch.hashes.length ≤ 30 := Nat.le_of_not_lt hdepth
  have hpow : 2 ^ p.auxBranch.hashes.length ≤ 2 ^ 30 := Nat.pow_le_pow_right (by decide) hdepth
  have hlift : Yields (liftM p.script : ExceptT AuxProof.Error Run Bytes) p.script := by
    cases p.script <;> rfl
  refine hlift.bind fun script hscript => ?_
  refine .lift (rootFrom_eq ..) ?_
  refine (commitment_yields (addressable_script hscripts hscript) _).bind fun tail _ => ?_
  refine .ite (fun _ => throw_yields _) fun htail => ?_
  refine .lift (fourBytes_eq (by omega)) (.lift (fourBytes_eq (by omega)) ?_)
  refine .lift (shiftLeft_eq (by omega) (by omega)) ?_
  rw [Nat.one_mul]
  refine .ite (fun _ => ?_) fun _ => throw_yields _
  refine .lift (slot_eq ..) ?_
  refine .ite (fun _ => ?_) fun _ => throw_yields _
  refine .ite (fun _ => ?_) fun _ => throw_yields _
  exact .ite (fun _ => pure_yields ()) fun _ => throw_yields _

-- ================================================================= every input

/-- A script takes its bytes in what the coinbase is written as. -/
theorem length_script_le {t : Parent.Transaction} {i : Parent.Input} (h : i ∈ t.inputs) :
    i.script.length ≤ (Wire.write t).length := by
  have hscript : i.script.length ≤ i.bytes.length := by
    simp only [Parent.Input.bytes, Wire.writeVarBytes, List.length_append]
    omega
  have hinputs : i.bytes.length ≤ (t.inputs.flatMap Parent.Input.bytes).length :=
    Wire.length_le_length_flatMap h
  have hbody : (t.inputs.flatMap Parent.Input.bytes).length ≤ t.bodyBytes.length := by
    simp only [Parent.Transaction.bodyBytes, List.length_append]
    omega
  have hbytes : t.bodyBytes.length ≤ (Wire.write t).length := by
    show _ ≤ t.bytes.length
    unfold Parent.Transaction.bytes Parent.Transaction.legacyBytes
    split <;> simp only [List.length_append, List.length_cons] <;> omega
  omega

section Inputs

variable {input : Bytes}

/-- Whatever a proof was written in as a part of, its scripts can be addressed. -/
theorem addressable_scripts {p : AuxProof} (hinput : Addressable input)
    (hle : (Wire.write p).length ≤ input.length) :
    ∀ i ∈ p.coinbase.inputs, Addressable i.script := by
  intro i hi
  have hlt : input.length < 2 ^ 56 := hinput
  have hscript := length_script_le hi
  have hpart : (Wire.write p.coinbase).length ≤ (Wire.write p).length := by
    show _ ≤ (Wire.write p.coinbase ++ _ ++ _ ++ _ ++ _).length
    simp only [List.length_append]
    omega
  show i.script.length < 2 ^ 56
  omega

/-- The proof within a header is no longer than the header. -/
private theorem length_auxProof_le (h : MainChain.Header) :
    (Wire.write h.auxProof).length ≤ (Wire.write h).length := by
  show _ ≤ (h.bareBytes ++ Wire.write h.auxProof ++ [MainChain.terminator]).length
  simp only [List.length_append]
  omega

/-- The header within a side chain proof is no longer than the proof. -/
private theorem length_header_le (p : SideProof) :
    (Wire.write p.header).length ≤ (Wire.write p).length := by
  show _ ≤ (Wire.write p.transaction ++ Wire.write p.branch ++ Wire.write p.header).length
  simp only [List.length_append]
  omega

private theorem length_flags_le (p : PartialProof) : p.flags.length ≤ (Wire.write p).length := by
  show _ ≤ (_ ++ Wire.writeVarBytes p.flags).length
  simp only [Wire.writeVarBytes, List.length_append]
  omega

end Inputs

/-- Neither reading the bytes nor checking what they hold traps, and all of it ends as the
formats and the checks of the chains have it. -/
structure Untrapped (input : Bytes) : Prop where
  sideProof : Yields (decode input) (Wire.decode input : Except Wire.Error SideProof)
  header : Yields (decode input) (Wire.decode input : Except Wire.Error MainChain.Header)
  auxProof : Yields (decode input) (Wire.decode input : Except Wire.Error AuxProof)
  partialProof : Yields (decode input) (Wire.decode input : Except Wire.Error PartialProof)
  verifies : ∀ p : SideProof, Wire.decode input = .ok p → verify p = .ok p.verify
  checksSideProof : ∀ p : SideProof, Wire.decode input = .ok p → ∀ block chain,
    Yields (check p.header.auxProof block chain) (p.header.auxProof.check block chain)
  checksHeader : ∀ h : MainChain.Header, Wire.decode input = .ok h → ∀ block chain,
    Yields (check h.auxProof block chain) (h.auxProof.check block chain)
  checks : ∀ p : AuxProof, Wire.decode input = .ok p → ∀ block chain,
    Yields (check p block chain) (p.check block chain)
  extracts : ∀ p : PartialProof, Wire.decode input = .ok p →
    Yields (ExceptT.adapt Merkle.Error.malformed (extract p)) (Rebuilt.of <$> p.extract)
  contains : ∀ p : PartialProof, Wire.decode input = .ok p → ∀ e, p.extract = .ok e → ∀ leaf,
    (Rebuilt.of e).contains leaf = e.contains leaf
  branchFor : ∀ p : PartialProof, Wire.decode input = .ok p → ∀ e, p.extract = .ok e → ∀ leaf,
    (Rebuilt.of e).branchFor leaf = .ok (e.branchFor leaf)

/-- No bytes that a machine can hold make it trap. -/
theorem untrapped (input : Bytes) (hinput : Addressable input) : Untrapped input where
  sideProof := decode_yields hinput
  header := decode_yields hinput
  auxProof := decode_yields hinput
  partialProof := decode_yields hinput
  verifies p _ := verify_eq p
  checksSideProof p hp block chain := by
    obtain rfl := Wire.Exact.write_eq_of_decode hp
    have hle := (length_auxProof_le p.header).trans (length_header_le p)
    exact check_yields (addressable_scripts hinput hle) block chain
  checksHeader h hh block chain := by
    obtain rfl := Wire.Exact.write_eq_of_decode hh
    exact check_yields (addressable_scripts hinput (length_auxProof_le h)) block chain
  checks p hp block chain := by
    obtain rfl := Wire.Exact.write_eq_of_decode hp
    exact check_yields (addressable_scripts hinput (Nat.le_refl _)) block chain
  extracts p hp := by
    obtain rfl := Wire.Exact.write_eq_of_decode hp
    exact extract_yields (Nat.lt_of_le_of_lt (length_flags_le p) hinput)
  contains _ _ e _ leaf := Rebuilt.contains_of e leaf
  branchFor _ _ _ he leaf := Rebuilt.branchFor_of he leaf

/-- A side chain proof, and a partial proof of a padded tree, are read and checked as the machine
does it. -/
theorem untrapped_samples :
    (Addressable Wire.Sample.sideProof
        ∧ ∃ p : SideProof, Wire.decode Wire.Sample.sideProof = .ok p
          ∧ (decode Wire.Sample.sideProof : ExceptT Wire.Error Run SideProof).run = .ok (.ok p)
          ∧ verify p = .ok p.verify
          ∧ Yields (check p.header.auxProof Digest.zero 7) (p.header.auxProof.check Digest.zero 7))
      ∧ Addressable (Wire.write Merkle.padded)
      ∧ (ExceptT.adapt Merkle.Error.malformed (extract Merkle.padded)).run
        = .ok (.ok (Rebuilt.of ⟨3, Merkle.paddedTree⟩))
      ∧ (Rebuilt.of ⟨3, Merkle.paddedTree⟩).branchFor (Digest.ofNumber 3)
        = .ok (some ⟨[Digest.ofNumber 3,
            Digest.pair (Digest.ofNumber 1) (Digest.ofNumber 2)], 2⟩) := by
  have hside : Addressable Wire.Sample.sideProof := by decide +kernel
  have hpadded : Addressable (Wire.write Merkle.padded) := by decide
  obtain ⟨p, hp⟩ : ∃ p : SideProof, Wire.decode Wire.Sample.sideProof = .ok p :=
    Outcome.exists_ok_of_isOk (by decide +kernel)
  have hdecode : Wire.decode (Wire.write Merkle.padded) = .ok Merkle.padded :=
    Wire.Exact.decode_write_eq_ok.2 (Merkle.PartialProof.admits_of_length (by decide))
  have hsafe := untrapped _ hside
  have hsafe' := untrapped _ hpadded
  have hextract := hsafe'.extracts _ hdecode
  have hbranch := hsafe'.branchFor _ hdecode _ Merkle.extract_padded (Digest.ofNumber 3)
  rw [Merkle.extract_padded] at hextract
  have hdecoded := hsafe.sideProof
  rw [hp] at hdecoded
  refine ⟨⟨hside, p, hp, hdecoded, hsafe.verifies p hp, hsafe.checksSideProof p hp _ _⟩, hpadded,
    hextract, hbranch.trans ?_⟩
  have hheight : Merkle.height 3 = 2 := by decide
  have hbit : Nat.testBit 2 1 = true := by decide
  simp [Merkle.Extracted.branchFor, Merkle.Extracted.found, Merkle.paddedTree, Merkle.padded,
    Merkle.Tree.leaves, Merkle.Tree.neighbours?, Merkle.Tree.hash, hheight, hbit]

end MergedMining.Machine
