/-
Keyed tables by their history.

A record stands in a keyed table from when it is added until it is dropped or the table
is cleared, and it is not added while one stands that it clashes with: the first writer
of a key wins. So which records stand, and in what order, is settled by the edits alone.
They are looked at here apart from any file.

A file holds rows, which say of a record what it says itself. Adding and dropping rows
goes by the same clashes and keys, so the rows are those of the records that stand.
-/
import Mathlib.Data.List.Induction
import MergedMining.Proofs.Store.Rows

namespace MergedMining.Store

/-- A change of a keyed table. -/
inductive Edit (ρ κ : Type) where
  | add (record : ρ)
  | drop (key : κ)
  | clear
  deriving DecidableEq, Repr

/-- Which records of a table clash, and which of them a key names. -/
structure Keying (ρ κ : Type) where
  clash : ρ → ρ → Bool
  names : κ → ρ → Bool

-- =================================================================== histories

/-- Whether something happened in a history, and only what leaves it alone behind it. -/
def Since {α : Type} (happens : List α → α → Prop) (leaves : α → Prop) (history : List α) : Prop :=
  ∃ before x later, history = before ++ x :: later ∧ happens before x ∧ ∀ y ∈ later, leaves y

section Since

variable {α : Type} {happens : List α → α → Prop} {leaves : α → Prop} {history : List α} {x : α}

/-- Before any call nothing has happened. -/
theorem not_since_nil : ¬Since happens leaves [] := by
  intro h
  obtain ⟨before, x, later, heq, -⟩ := h
  exact List.append_ne_nil_of_right_ne_nil before (List.cons_ne_nil x later) heq.symm

/-- It is the last that happens, or it happened before and the last leaves it alone. -/
theorem since_concat :
    Since happens leaves (history ++ [x])
      ↔ happens history x ∨ leaves x ∧ Since happens leaves history := by
  constructor
  · intro h
    obtain ⟨before, y, later, heq, hy, hlater⟩ := h
    rcases List.eq_nil_or_concat later with rfl | ⟨between, last, rfl⟩
    · obtain ⟨rfl, hlast⟩ := List.append_inj' heq rfl
      cases hlast
      exact Or.inl hy
    · rw [List.concat_eq_append] at heq hlater
      rw [← List.cons_append, ← List.append_assoc] at heq
      obtain ⟨rfl, hlast⟩ := List.append_inj' heq rfl
      cases hlast
      refine Or.inr ⟨hlater x (List.mem_append_right _ (List.mem_singleton_self x)), ?_⟩
      exact ⟨before, y, between, rfl, hy, fun z hz => hlater z (List.mem_append_left _ hz)⟩
  · intro h
    rcases h with hx | ⟨hx, before, y, later, rfl, hy, hlater⟩
    · exact ⟨history, x, [], rfl, hx, List.forall_mem_nil _⟩
    · refine ⟨before, y, later ++ [x], List.append_assoc .., hy, ?_⟩
      exact List.forall_mem_append.2 ⟨hlater, List.forall_mem_singleton.2 hx⟩

end Since

/-- What is said of each of several things that are done in turn. -/
def inTurn {σ ι β : Type} (tells : σ → ι → β) (next : σ → ι → σ) (x : σ) : List ι → List β
  | [] => []
  | i :: is => tells x i :: inTurn tells next (next x i) is

/-- What is told in turn may be mapped each time. -/
theorem map_inTurn {σ ι β γ : Type} (f : β → γ) (tells : σ → ι → β) (next : σ → ι → σ) (x : σ)
    (is : List ι) :
    (inTurn tells next x is).map f = inTurn (fun x i => f (tells x i)) next x is := by
  induction is generalizing x with
  | nil => rfl
  | cons i is ih => rw [inTurn, inTurn, List.map_cons, ih]

/-- What is gone through in turn may be mapped before. -/
theorem inTurn_map {σ ι κ β : Type} (f : κ → ι) (tells : σ → ι → β) (next : σ → ι → σ) (x : σ)
    (ks : List κ) :
    inTurn tells next x (ks.map f)
      = inTurn (fun x k => tells x (f k)) (fun x k => next x (f k)) x ks := by
  induction ks generalizing x with
  | nil => rfl
  | cons k ks ih => rw [List.map_cons, inTurn, inTurn, ih]

/-- What is said of all alike is all that is said. -/
theorem eq_of_mem_inTurn {σ ι β : Type} {tells : σ → ι → β} {next : σ → ι → σ} {b answer : β}
    (h : ∀ x i, tells x i = b) {x : σ} {is : List ι} (hmem : answer ∈ inTurn tells next x is) :
    answer = b := by
  induction is generalizing x with
  | nil => cases hmem
  | cons i is ih =>
      rcases List.mem_cons.1 hmem with rfl | hmem
      · exact h x i
      · exact ih hmem

namespace Keying

variable {ρ κ : Type} (k : Keying ρ κ)

-- ============================================================ what stands

/-- Whether no record stands in the way of adding this one. -/
def isFree (standing : List ρ) (record : ρ) : Bool := !standing.any (k.clash record)

/-- The records that stand after one more edit. -/
def edit (standing : List ρ) : Edit ρ κ → List ρ
  | .add record => if standing.any (k.clash record) then standing else standing ++ [record]
  | .drop key => standing.filter (!k.names key ·)
  | .clear => []

/-- The records that stand after further edits. -/
def editAll (standing : List ρ) (edits : List (Edit ρ κ)) : List ρ := edits.foldl k.edit standing

/-- The records that stand after these edits of an empty table, in the order in which they
were added. -/
def live (edits : List (Edit ρ κ)) : List ρ := k.editAll [] edits

/-- Whether an edit takes a record away. -/
def Takes (record : ρ) : Edit ρ κ → Prop
  | .add _ => False
  | .drop key => k.names key record = true
  | .clear => True

instance (record : ρ) : DecidablePred (k.Takes record)
  | .add _ => inferInstanceAs (Decidable False)
  | .drop key => inferInstanceAs (Decidable (k.names key record = true))
  | .clear => inferInstanceAs (Decidable True)

/-- Whether an edit adds a record where none stood in its way, and none behind it takes the
record away. -/
def Stands (edits : List (Edit ρ κ)) (record : ρ) : Prop :=
  Since (fun before e => e = .add record ∧ ∀ q ∈ k.live before, k.clash record q = false)
    (¬k.Takes record ·) edits

variable {k} {standing : List ρ} {edits : List (Edit ρ κ)} {record : ρ}

private theorem editAll_append (first second : List (Edit ρ κ)) :
    k.editAll standing (first ++ second) = k.editAll (k.editAll standing first) second :=
  List.foldl_append

private theorem live_append_edits (first second : List (Edit ρ κ)) :
    k.live (first ++ second) = k.editAll (k.live first) second :=
  editAll_append first second

/-- One more thing is done that makes some edits. -/
theorem live_flatMap_concat {ι : Type} (edits : ι → List (Edit ρ κ)) (is : List ι) (i : ι) :
    k.live ((is ++ [i]).flatMap edits) = k.editAll (k.live (is.flatMap edits)) (edits i) := by
  rw [List.flatMap_append, List.flatMap_singleton, live_append_edits]

/-- What stands after one more edit: what stood and is not taken away, and what is added
where nothing stands in its way. -/
theorem mem_edit {e : Edit ρ κ} :
    record ∈ k.edit standing e
      ↔ (e = .add record ∧ ∀ q ∈ standing, k.clash record q = false)
        ∨ ¬k.Takes record e ∧ record ∈ standing := by
  cases e with
  | add new =>
      rw [edit, Takes, not_false_eq_true, true_and, Edit.add.injEq]
      split
      · next htaken =>
          refine ⟨Or.inr, fun h => h.resolve_left fun hfree => ?_⟩
          obtain ⟨rfl, hfree⟩ := hfree
          obtain ⟨q, hq, hclash⟩ := List.any_eq_true.1 htaken
          rw [hfree q hq] at hclash
          cases hclash
      · next hfree =>
          rw [List.mem_append, List.mem_singleton, or_comm, eq_comm]
          refine or_congr_left (iff_self_and.2 fun hnew q hq => ?_)
          subst hnew
          exact Bool.eq_false_iff.2 fun hclash => hfree (List.any_eq_true.2 ⟨q, hq, hclash⟩)
  | drop key =>
      rw [edit, List.mem_filter, Takes, Bool.not_eq_true', Bool.not_eq_true, and_comm]
      exact ⟨Or.inr, fun h => h.resolve_left fun h => (nomatch h.1)⟩
  | clear =>
      refine iff_of_false (List.not_mem_nil) fun h => ?_
      exact h.elim (fun h => (nomatch h.1)) fun h => h.1 trivial

/-- The records that stand are those that were added where none stood in their way and were
not taken away since. -/
theorem mem_live_iff : record ∈ k.live edits ↔ k.Stands edits record := by
  induction edits using List.reverseRecOn with
  | nil => exact iff_of_false List.not_mem_nil not_since_nil
  | append_singleton edits e ih =>
      rw [live_append_edits, editAll, List.foldl_cons, List.foldl_nil, mem_edit, ih]
      refine Iff.symm ?_
      exact since_concat

/-- What stood before and was not taken away since stands in front, in the order in which it
stood. -/
theorem editAll_eq_append (standing : List ρ) (edits : List (Edit ρ κ)) :
    ∃ added, k.editAll standing edits
        = standing.filter (fun record => decide (∀ e ∈ edits, ¬k.Takes record e)) ++ added
      ∧ ∀ record ∈ added, .add record ∈ edits := by
  induction edits generalizing standing with
  | nil =>
      refine ⟨[], ?_, List.forall_mem_nil _⟩
      rw [List.append_nil]
      exact (List.filter_eq_self.2 fun _ _ => decide_eq_true (List.forall_mem_nil _)).symm
  | cons e edits ih =>
      obtain ⟨added, heq, hadded⟩ := ih (k.edit standing e)
      -- a record stays if the first edit and all others let it stay
      have hstay : ∀ record, decide (∀ x ∈ e :: edits, ¬k.Takes record x)
          = (decide (¬k.Takes record e) && decide (∀ x ∈ edits, ¬k.Takes record x)) := by
        intro record
        simp only [List.forall_mem_cons, Bool.decide_and]
      simp only [hstay]
      rw [show k.editAll standing (e :: edits) = k.editAll (k.edit standing e) edits from rfl, heq]
      cases e with
      | add new =>
          -- an addition takes nothing away
          simp only [Takes, not_false_eq_true, decide_true, Bool.true_and, edit]
          split
          · exact ⟨added, rfl, fun r hr => List.mem_cons_of_mem _ (hadded r hr)⟩
          · rw [List.filter_append, List.append_assoc]
            refine ⟨_, rfl, fun r hr => ?_⟩
            rcases List.mem_append.1 hr with hr | hr
            · rw [List.mem_singleton.1 (List.mem_filter.1 hr).1]
              exact List.mem_cons_self
            · exact List.mem_cons_of_mem _ (hadded r hr)
      | drop key =>
          refine ⟨added, ?_, fun r hr => List.mem_cons_of_mem _ (hadded r hr)⟩
          rw [edit, List.filter_filter]
          congr 2
          funext r
          rw [Bool.and_comm]
          congr 1
          show (!k.names key r) = decide (¬k.names key r = true)
          rw [decide_not, Bool.decide_eq_true]
      | clear =>
          refine ⟨added, ?_, fun r hr => List.mem_cons_of_mem _ (hadded r hr)⟩
          simp [Takes, edit]

/-- A record that was added later does not clash with one that was there. -/
theorem pairwise_live (edits : List (Edit ρ κ)) :
    (k.live edits).Pairwise fun earlier later => k.clash later earlier = false := by
  induction edits using List.reverseRecOn with
  | nil => exact List.Pairwise.nil
  | append_singleton edits e ih =>
      rw [live_append_edits]
      cases e with
      | add record =>
          show (k.edit (k.live edits) (.add record)).Pairwise _
          rw [edit]
          split
          · exact ih
          · next hfree =>
              refine List.pairwise_append.2 ⟨ih, List.pairwise_singleton _ _, fun q hq r hr => ?_⟩
              rw [List.mem_singleton.1 hr]
              exact Bool.eq_false_iff.2 fun hclash => hfree (List.any_eq_true.2 ⟨q, hq, hclash⟩)
      | drop key => exact ih.filter _
      | clear => exact List.Pairwise.nil

/-- What it is to be the records that stand after edits of an empty table: those that were
added where none stood in their way and were not taken away since, no two of which clash, in
the order in which they were added. -/
structure FirstWins (k : Keying ρ κ) (edits : List (Edit ρ κ)) (standing : List ρ) : Prop where
  stands : ∀ record, record ∈ standing ↔ k.Stands edits record
  apart : standing.Pairwise fun earlier later => k.clash later earlier = false
  inOrder : ∀ before later, edits = before ++ later →
    ∃ added, standing
        = (k.live before).filter (fun record => decide (∀ e ∈ later, ¬k.Takes record e)) ++ added
      ∧ ∀ record ∈ added, .add record ∈ later

/-- What is live after edits are the records that came first. -/
theorem firstWins (k : Keying ρ κ) (edits : List (Edit ρ κ)) :
    k.FirstWins edits (k.live edits) where
  stands _ := mem_live_iff
  apart := pairwise_live edits
  inOrder before later heq := by
    rw [heq, live_append_edits]
    exact editAll_eq_append (k.live before) later

-- ==================================================================== rows

/-- Adding a record to a table says whether it was free to be added. -/
theorem insert_eq (k : Keying ρ κ) (standing : List ρ) (record : ρ) :
    Table.insert k.clash standing record
      = (k.isFree standing record, k.edit standing (.add record)) := by
  rw [Table.insert, isFree, edit]
  split
  · next htaken => rw [htaken, Bool.not_true]
  · next hfree => rw [Bool.eq_false_iff.2 hfree, Bool.not_false]

/-- Inserting rows is adding records in turn, with the answers whether each was free. -/
private theorem insertAll_eq (k : Keying ρ κ) (standing new : List ρ) :
    Table.insertAll k.clash standing new
      = (inTurn k.isFree (fun standing record => k.edit standing (.add record)) standing new,
          k.editAll standing (new.map .add)) := by
  induction new generalizing standing with
  | nil => rfl
  | cons record new ih =>
      rw [Table.insertAll, insert_eq]
      dsimp only
      rw [ih]
      rfl

/-- Dropping records from a table says of each key whether it named one. -/
theorem deleteAll_eq (k : Keying ρ κ) (standing : List ρ) (keys : List κ) :
    Table.deleteAll k.names standing keys
      = (inTurn (fun standing key => standing.any (k.names key))
            (fun standing key => k.edit standing (.drop key)) standing keys,
          k.editAll standing (keys.map .drop)) := by
  induction keys generalizing standing with
  | nil => rfl
  | cons key keys ih =>
      rw [Table.deleteAll, Table.delete]
      dsimp only
      rw [ih]
      rfl

/-- Whatever is added finds something that it clashes with afterwards, be it only itself. -/
theorem exists_clash_of_add (hrefl : ∀ r, k.clash r r = true) (standing : List ρ) {new : List ρ}
    (hmem : record ∈ new) :
    ∃ q ∈ k.editAll standing (new.map .add), k.clash record q = true := by
  have h := Table.exists_clash_of_mem hrefl standing hmem
  rwa [insertAll_eq] at h

/-- A record that the last step added clashes with one that is live, if only with itself. -/
theorem exists_clash_of_last {ι : Type} (hrefl : ∀ r, k.clash r r = true)
    {edits : ι → List (Edit ρ κ)} (is : List ι) {i : ι} {new : List ρ}
    (hi : edits i = new.map .add) (hmem : record ∈ new) :
    ∃ q ∈ k.live ((is ++ [i]).flatMap edits), k.clash record q = true := by
  rw [live_flatMap_concat, hi]
  exact exists_clash_of_add hrefl _ hmem

/-- What is left when records are dropped are those that are not named. -/
theorem editAll_drop (standing : List ρ) (keys : List κ) :
    k.editAll standing (keys.map .drop) = standing.filter fun r => !keys.any (k.names · r) := by
  rw [← Table.deleteAll_eq_filter, deleteAll_eq]

/-- Rows that clash and are named as the records are of which they are the rows. -/
structure RowsBy (k : Keying ρ κ) {τ : Type} (row : ρ → τ) (clash : τ → τ → Bool)
    (kind : κ → τ → Bool) : Prop where
  clash_row : ∀ a b, clash (row a) (row b) = k.clash a b
  kind_row : ∀ key a, kind key (row a) = k.names key a

section Rows

variable {τ : Type} {row : ρ → τ} {clash : τ → τ → Bool} {kind : κ → τ → Bool}

/-- A row is inserted as its record is added. -/
theorem RowsBy.insert (h : k.RowsBy row clash kind) (standing : List ρ) (record : ρ) :
    Table.insert clash (standing.map row) (row record)
      = (k.isFree standing record, (k.edit standing (.add record)).map row) := by
  rw [Table.map_insert h.clash_row, insert_eq]

/-- Rows are inserted as their records are added. -/
theorem RowsBy.insertAll (h : k.RowsBy row clash kind) (standing new : List ρ) :
    Table.insertAll clash (standing.map row) (new.map row)
      = (inTurn k.isFree (fun standing record => k.edit standing (.add record)) standing new,
          (k.editAll standing (new.map .add)).map row) := by
  rw [Table.map_insertAll h.clash_row, insertAll_eq]

/-- Rows are deleted as records are dropped by a key. -/
theorem RowsBy.delete (h : k.RowsBy row clash kind) (standing : List ρ) (key : κ) :
    Table.delete (kind key) (standing.map row)
      = (standing.any (k.names key), (k.edit standing (.drop key)).map row) :=
  Table.map_delete (h.kind_row key) standing

/-- Rows are deleted as records are dropped by keys in turn. -/
theorem RowsBy.deleteAll (h : k.RowsBy row clash kind) (standing : List ρ) (keys : List κ) :
    Table.deleteAll kind (standing.map row) keys
      = (inTurn (fun standing key => standing.any (k.names key))
            (fun standing key => k.edit standing (.drop key)) standing keys,
          (k.editAll standing (keys.map .drop)).map row) := by
  rw [Table.map_deleteAll h.kind_row, deleteAll_eq]

end Rows

end Keying

end MergedMining.Store
