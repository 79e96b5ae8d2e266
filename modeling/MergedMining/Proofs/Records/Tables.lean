/-
Tables of a store whose rows are those of records.

What an operation on such a table leaves is the table with the rows of the records that
then stand. That is so also where a record is refused, since nothing changed then. So
operations that follow one another change the records one after the other, which is what a
batch of them does.
-/
import MergedMining.Proofs.Records.Keyed
import MergedMining.Proofs.Store.Numbered
import MergedMining.Proofs.Store.Sessions

namespace MergedMining

/-- A component is read as it was set last, and nothing else depends on it. -/
structure Part.Lawful {σ τ : Type} (part : Part σ τ) : Prop where
  get_set : ∀ whole x, part.get (part.set whole x) = x
  set_get : ∀ whole, part.set whole (part.get whole) = whole
  set_set : ∀ whole x y, part.set (part.set whole x) y = part.set whole y

namespace Store

variable {τ : Type}

-- ================================================================= in turn

/-- Operations that keep a relation between the store and something else, of which the answers
are told by that, keep it when they are run in turn. -/
theorem runEach_inTurn {σ ι α : Type} {R : σ → Store τ → Prop} {op : ι → Op τ α}
    {tells : σ → ι → Except Error α} {next : σ → ι → σ}
    (h : ∀ {x s}, R x s → ∀ i, (s.run (op i)).1 = tells x i ∧ R (next x i) (s.run (op i)).2)
    {x : σ} {s : Store τ} (hs : R x s) (is : List ι) :
    (s.runEach (is.map op)).1 = inTurn tells next x is
      ∧ R (is.foldl next x) (s.runEach (is.map op)).2 := by
  induction is generalizing x s with
  | nil => exact ⟨rfl, hs⟩
  | cons i is ih =>
      obtain ⟨hanswer, hnext⟩ := h hs i
      obtain ⟨hanswers, hall⟩ := ih hnext
      refine ⟨?_, hall⟩
      rw [inTurn, ← hanswer, ← hanswers]
      rfl

/-- The same if the store is given by what it is related to. -/
theorem runEach_states {σ ι α : Type} {state : σ → Store τ} {op : ι → Op τ α}
    {tells : σ → ι → Except Error α} {next : σ → ι → σ}
    (h : ∀ x i, (state x).run (op i) = (tells x i, state (next x i))) (x : σ) (is : List ι) :
    (state x).runEach (is.map op) = (inTurn tells next x is, state (is.foldl next x)) := by
  have hstep {x : σ} {s : Store τ} (hs : s = state x) (i : ι) :
      (s.run (op i)).1 = tells x i ∧ (s.run (op i)).2 = state (next x i) := by
    rw [hs, h]
    exact ⟨rfl, rfl⟩
  have hturn := runEach_inTurn (R := fun x s => s = state x) hstep (Eq.refl (state x)) is
  exact Prod.ext hturn.1 hturn.2

-- ========================================================= tables of records

namespace NumberedTable

variable {ρ κ ν : Type}

/-- A numbered table whose rows are of records: they clash and are named as the records are,
and nothing else in the store depends on them. -/
structure Of (table : NumberedTable τ ν) (k : Keying ρ κ) (row : ρ → ν) (kind : κ → ν → Bool) : Prop
    extends k.RowsBy row table.clash kind where
  lawful : table.toPart.Lawful

/-- The tables, but with the rows of these records. -/
def holding (table : NumberedTable τ ν) (row : ρ → ν) (standing : List ρ) (t : τ) : τ :=
  table.set t (.endless (standing.map row))

section Of

variable [Tables τ] {table : NumberedTable τ ν} {k : Keying ρ κ} {row : ρ → ν}
  {kind : κ → ν → Bool} {t : τ}

omit [Tables τ] in
/-- Tables are determined by the rows of the one table. -/
theorem Of.eq_holding (h : table.Of k row kind) {standing : List ρ}
    (hget : table.get t = .endless (standing.map row)) : t = table.holding row standing t := by
  rw [holding, ← hget]
  exact (h.lawful.set_get t).symm

omit [Tables τ] in
/-- Tables that hold records have their rows. -/
theorem Of.get_holding (h : table.Of k row kind) (standing : List ρ) (t : τ) :
    table.get (table.holding row standing t) = .endless (standing.map row) :=
  h.lawful.get_set t _

omit [Tables τ] in
private theorem Of.set_holding (h : table.Of k row kind) (standing after : List ρ) (t : τ) :
    table.set (table.holding row standing t) (.endless (after.map row))
      = table.holding row after t :=
  h.lawful.set_set t _ _

-- ------------------------------------------------------------------ one call

/-- What becomes of adding a record. -/
def outcome (k : Keying ρ κ) (key : ρ → String) (standing : List ρ) (record : ρ) :
    Except Error Unit :=
  if k.isFree standing record then .ok () else .error (.duplicate (key record))

omit [Tables τ] in
/-- A record is accepted if it is free. -/
theorem isOk_outcome (key : ρ → String) (standing : List ρ) (record : ρ) :
    (outcome k key standing record).isOk = k.isFree standing record := by
  rw [outcome]
  cases k.isFree standing record <;> rfl

/-- A record is added if none stands in its way. -/
theorem Of.run_add (h : table.Of k row kind) (key : ρ → String) (standing : List ρ) (record : ρ) :
    (⟨table.holding row standing t, .steady⟩ : Store τ).run (table.add (row record) (key record))
      = (outcome k key standing record,
          ⟨table.holding row (k.edit standing (.add record)) t, .steady⟩) := by
  have hget := h.get_holding standing t
  have hinsert := h.insert standing record
  by_cases htaken : (standing.map row).any (table.clash (row record)) = true
  · rw [Table.insert, if_pos htaken, Prod.mk.injEq] at hinsert
    have hedit : table.holding row standing t
        = table.holding row (k.edit standing (.add record)) t := congrArg _ (congrArg _ hinsert.2)
    rw [table.run_add_of_taken rfl hget htaken, outcome, ← hinsert.1, hedit]
    rfl
  · rw [Table.insert, if_neg htaken, Prod.mk.injEq] at hinsert
    rw [table.run_add_of_free rfl hget htaken, outcome, ← hinsert.1, hinsert.2, h.set_holding]
    rfl

/-- Records are added in turn, with the answers whether each was free. -/
theorem Of.run_addAll (h : table.Of k row kind) (standing new : List ρ) :
    (⟨table.holding row standing t, .steady⟩ : Store τ).run (table.addAll (new.map row))
      = (.ok (inTurn k.isFree (fun standing record => k.edit standing (.add record)) standing new),
          ⟨table.holding row (k.editAll standing (new.map .add)) t, .steady⟩) := by
  rw [table.run_addAll rfl (h.get_holding standing t), h.insertAll, h.set_holding]

/-- Records are dropped by their keys in turn. -/
theorem Of.run_removeAll (h : table.Of k row kind) (standing : List ρ) (keys : List κ) :
    (⟨table.holding row standing t, .steady⟩ : Store τ).run (table.removeAll kind keys)
      = (.ok (), ⟨table.holding row (k.editAll standing (keys.map .drop)) t, .steady⟩) := by
  rw [table.run_removeAll rfl (h.get_holding standing t), h.deleteAll, h.set_holding]

-- ---------------------------------------------------------------- many calls

/-- Adding records in one go does what adding them in turn does, and says which of these
went well. -/
theorem Of.addAll_inTurn (h : table.Of k row kind) {standing : List ρ}
    (hget : table.get t = .endless (standing.map row)) (key : ρ → String) (new : List ρ) :
    (⟨t, .steady⟩ : Store τ).run (table.addAll (new.map row))
      = (.ok ((runEach ⟨t, .steady⟩
              (new.map fun record => table.add (row record) (key record))).1.map Except.isOk),
          (runEach ⟨t, .steady⟩
            (new.map fun record => table.add (row record) (key record))).2) := by
  have hturn := runEach_states (fun standing record => h.run_add (t := t) key standing record)
    standing new
  have hrun := h.run_addAll (t := t) standing new
  rw [← h.eq_holding hget] at hturn hrun
  rw [hrun, hturn, map_inTurn, Keying.editAll, List.foldl_map]
  simp only [isOk_outcome]

/-- Dropping records in one go does what dropping them in turn does. -/
theorem Of.removeAll_inTurn (h : table.Of k row kind) {standing : List ρ}
    (hget : table.get t = .endless (standing.map row)) (keys : List κ) :
    (⟨t, .steady⟩ : Store τ).run (table.removeAll kind keys)
        = (.ok (), (runEach ⟨t, .steady⟩ (keys.map fun key => table.removeAll kind [key])).2)
      ∧ ∀ outcome ∈ (runEach (⟨t, .steady⟩ : Store τ)
        (keys.map fun key => table.removeAll kind [key])).1, outcome = .ok () := by
  have hturn := runEach_states (fun standing key => h.run_removeAll (t := t) standing [key])
    standing keys
  have hrun := h.run_removeAll (t := t) standing keys
  rw [← h.eq_holding hget] at hturn hrun
  rw [hrun, hturn, Keying.editAll, List.foldl_map]
  exact ⟨rfl, fun outcome => eq_of_mem_inTurn fun _ _ => rfl⟩

-- ------------------------------------------------------------------ histories

/-- The table has the rows of the records that stand after the edits of some calls. -/
def Tracks {ι : Type} (table : NumberedTable τ ν) (k : Keying ρ κ) (row : ρ → ν)
    (edits : ι → List (Edit ρ κ)) (calls : List ι) (t : τ) : Prop :=
  table.get t = .endless ((k.live (calls.flatMap edits)).map row)

variable {ι : Type} {edits : ι → List (Edit ρ κ)} {calls : List ι} {c : ι}

omit [Tables τ] in
/-- The records are tracked across a call that leaves the rows of its edits. -/
theorem tracks_concat (h : table.get t
      = .endless ((k.editAll (k.live (calls.flatMap edits)) (edits c)).map row)) :
    table.Tracks k row edits (calls ++ [c]) t := by
  rw [Tracks, Keying.live_flatMap_concat]
  exact h

end Of

end NumberedTable

end Store

end MergedMining
