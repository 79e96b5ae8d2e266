/-
Payloads end where their layout ends.

The walk over a payload is local, piece by piece. So a payload is found again inside any
longer byte string that begins with it, and what is found is a payload by itself. For a
piece that repeats this needs that its items are no shorter than they are counted for,
which is a property of the table of layouts.
-/
import MergedMining.MainChain.Payload
import MergedMining.Proofs.Wire.Local

namespace MergedMining.MainChain

open Wire

-- ====================================================================== pieces

/-- What a field takes at the least. -/
def Field.leastSize : Field → Nat
  | .fixed size => size
  | .varBytes => 1
  | .varUint => 1

/-- What fields in a row take at the least. -/
def Field.leastSizes : List Field → Nat
  | [] => 0
  | field :: item => field.leastSize + leastSizes item

/-- The items of a piece that repeats take what they are counted for. -/
def Piece.Roomy : Piece → Prop
  | .one _ => True
  | .many leastSize item => max leastSize 1 ≤ Field.leastSizes item

instance (piece : Piece) : Decidable piece.Roomy :=
  match piece with
  | .one _ => inferInstanceAs (Decidable True)
  | .many _ _ => inferInstanceAs (Decidable (_ ≤ _))

/-- Whether a field is walked over depends on its own bytes only. -/
theorem Field.local_walk (field : Field) : field.walk.Local := by
  cases field with
  | fixed size =>
      have hspells : (Reader.octets size).Spells (fun _ => True) Octets.bytes :=
        fun _ _ _ => by rw [Reader.octets_eq_ok, true_and]
      exact (Reader.Local.of_spells hspells).map _
  | varBytes => exact (Reader.Local.of_spells fun _ _ _ => Reader.varBytes_eq_ok).map _
  | varUint =>
      have hspells : Reader.varUint.Spells (fun _ => True) writeVarUint :=
        fun _ _ _ => by rw [Reader.varUint_eq_ok, true_and]
      exact (Reader.Local.of_spells hspells).map _

/-- A field takes at least the bytes that its kind says. -/
theorem Field.takes_walk (field : Field) : field.walk.Takes field.leastSize := by
  cases field with
  | fixed size => exact (Reader.takes_octets size).map _
  | varBytes => exact Reader.takes_varBytes.map _
  | varUint => exact Reader.takes_varUint.map _

/-- An item takes at least the bytes of its fields. -/
theorem takes_forM_walk (item : List Field) :
    (item.forM Field.walk).Takes (Field.leastSizes item) := by
  induction item with
  | nil => exact Reader.Takes.pure ()
  | cons field item ih => exact field.takes_walk.bind fun _ => ih

/-- A piece is local if each of its items takes a byte, so that a count bounds them. -/
theorem Piece.local_walk {piece : Piece} (h : piece.Roomy) : piece.walk.Local := by
  cases piece with
  | one field => exact field.local_walk
  | many leastSize item =>
      have hitem : (item.forM Field.walk).Local :=
        .forM fun field _ => field.local_walk
      refine .count_bind (fun n => (hitem.times n).map _) fun n => ?_
      have htakes := (takes_forM_walk item).mono h
      exact (Reader.takes_times htakes n).map _

-- ===================================================================== layouts

/-- In each layout the items that repeat take what they are counted for. -/
theorem roomy_of_layout {kind version : UInt8} {pieces : List Piece}
    (h : layout kind version = some pieces) : ∀ piece ∈ pieces, piece.Roomy := by
  unfold layout at h
  repeat' split at h
  all_goals cases h
  all_goals decide

/-- Whether a byte string is a payload of this kind and version: the layout can be walked
and nothing is left over. -/
def HasLayout (kind version : UInt8) (payload : Bytes) : Prop :=
  ∃ taken, readPayload kind version payload = .ok taken []

/-- A payload is what a walk that looks at nothing behind it passes. -/
theorem exists_local_walk (kind version : UInt8) :
    ∃ walk : Reader Unit, walk.Local ∧ readPayload kind version = Reader.captured walk := by
  refine ⟨_, ?_, rfl⟩
  split
  · next pieces hlayout =>
      exact .forM fun piece hpiece => Piece.local_walk (roomy_of_layout hlayout piece hpiece)
  · exact .throw _

/-- A payload is read as itself, whatever stands behind it, and nothing else is. -/
theorem readPayload_eq_ok {kind version : UInt8} {input payload rest : Bytes} :
    readPayload kind version input = .ok payload rest
      ↔ HasLayout kind version payload ∧ input = payload ++ rest := by
  obtain ⟨walk, hlocal, hread⟩ := exists_local_walk kind version
  have hself : HasLayout kind version payload
      ↔ readPayload kind version payload = .ok payload [] := by
    constructor
    · intro h
      obtain ⟨taken, htaken⟩ := h
      rw [hread] at htaken ⊢
      obtain ⟨halone, heq⟩ := (Reader.captured_eq_ok hlocal).1 htaken
      rw [List.append_nil] at heq
      rw [heq]
      exact halone
    · exact fun h => ⟨payload, h⟩
  rw [hself, hread]
  exact Reader.captured_eq_ok hlocal

end MergedMining.MainChain
