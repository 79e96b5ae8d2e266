/-
What calls do to a part of a store's tables.

A part is what is left of the tables when only the rows of one kind are looked at. Where
rows of one kind never clash with others, adding and dropping such rows can be done on
the part alone, and what is added and dropped elsewhere does not show in it. The same
goes for the cursor of one chain. Of the handle only this shows, whether it is open, so a
transaction that can be done on the part comes out there as it does on all of the
tables.
-/
import MergedMining.Proofs.Store.Calls
import MergedMining.Proofs.Store.Rows

namespace MergedMining.Store

-- ====================================================================== rows

namespace Table

variable {ρ κ : Type} {clash : ρ → ρ → Bool} {kind : κ → ρ → Bool} {keep : ρ → Bool}
  {rows new : List ρ}

/-- A search for rows of the part finds nothing outside it. -/
private theorem any_filter_of_imp {p : ρ → Bool} (hp : ∀ q, p q = true → keep q = true)
    (rows : List ρ) : (rows.filter keep).any p = rows.any p := by
  rw [List.any_filter]
  congr 1
  funext q
  cases hpq : p q with
  | true => rw [hp q hpq, Bool.and_self]
  | false => rw [Bool.and_false]

/-- Rows of the part are inserted within it, if rows clash within the part only. -/
theorem insertAll_filter (hclash : ∀ r q, clash r q = true → keep r = keep q)
    (hnew : ∀ r ∈ new, keep r = true) (rows : List ρ) :
    insertAll clash (rows.filter keep) new
      = ((insertAll clash rows new).1, (insertAll clash rows new).2.filter keep) := by
  induction new generalizing rows with
  | nil => rfl
  | cons r new ih =>
      obtain ⟨hr, hnew⟩ := List.forall_mem_cons.1 hnew
      have hany : (rows.filter keep).any (clash r) = rows.any (clash r) :=
        any_filter_of_imp (fun q hq => (hclash r q hq).symm.trans hr) rows
      have hinsert : insert clash (rows.filter keep) r
          = ((insert clash rows r).1, (insert clash rows r).2.filter keep) := by
        rw [insert, insert, hany]
        split
        · rfl
        · rw [List.filter_append, List.filter_cons_of_pos hr, List.filter_nil]
      rw [insertAll, insertAll, hinsert]
      dsimp only
      rw [ih hnew]

/-- Rows of the part are deleted within it. -/
theorem deleteAll_filter (hkind : ∀ key q, kind key q = true → keep q = true) (keys : List κ)
    (rows : List ρ) :
    deleteAll kind (rows.filter keep) keys
      = ((deleteAll kind rows keys).1, (deleteAll kind rows keys).2.filter keep) := by
  induction keys generalizing rows with
  | nil => rfl
  | cons key keys ih =>
      have hdelete : delete (kind key) (rows.filter keep)
          = ((delete (kind key) rows).1, (delete (kind key) rows).2.filter keep) := by
        rw [delete, delete, any_filter_of_imp (hkind key), List.filter_filter, List.filter_filter]
        simp only [Bool.and_comm]
      rw [deleteAll, deleteAll, hdelete]
      dsimp only
      rw [ih]

/-- Rows of another kind are added without a trace in this one. -/
theorem filter_insertAll_of_other (hnew : ∀ r ∈ new, keep r = false) (rows : List ρ) :
    (insertAll clash rows new).2.filter keep = rows.filter keep := by
  obtain ⟨added, heq, hsub, -⟩ := insertAll_eq_append clash rows new
  have hadded : added.filter keep = [] := by
    rw [List.filter_eq_nil_iff]
    intro r hr hkeep
    rw [hnew r (hsub hr)] at hkeep
    cases hkeep
  rw [heq, List.filter_append, hadded, List.append_nil]

/-- Deleting rows outside the part leaves it as it is. -/
theorem filter_deleteAll_of_other (hkind : ∀ key q, kind key q = true → keep q = false)
    (keys : List κ) (rows : List ρ) :
    (deleteAll kind rows keys).2.filter keep = rows.filter keep := by
  rw [deleteAll_eq_filter, List.filter_filter]
  refine List.filter_congr fun q _ => ?_
  cases hq : keep q with
  | false => rfl
  | true =>
      rw [Bool.true_and, Bool.not_eq_true', List.any_eq_false]
      intro key _ hkey
      rw [hkind key q hkey] at hq
      cases hq

end Table

-- ==================================================================== cursors

namespace Cursors

variable {chain other : String}

/-- The cursor of one chain alone. -/
def only (chain : String) (cursors : Cursors) : Cursors :=
  cursors.filter fun entry => entry.1 = chain

private theorem only_cons_self (chain : String) (value : Int) (cursors : Cursors) :
    only chain ((chain, value) :: cursors) = (chain, value) :: only chain cursors :=
  List.filter_cons_of_pos (decide_eq_true rfl)

private theorem only_cons_of_ne (hne : other ≠ chain) (value : Int) (cursors : Cursors) :
    only chain ((other, value) :: cursors) = only chain cursors :=
  List.filter_cons_of_neg fun h => hne (of_decide_eq_true h)

/-- The cursor of a chain is looked up in its part. -/
private theorem lookup_only (chain : String) (cursors : Cursors) :
    (cursors.only chain).lookup chain = cursors.lookup chain := by
  induction cursors with
  | nil => rfl
  | cons entry cursors ih =>
      obtain ⟨name, value⟩ := entry
      by_cases h : name = chain
      · rw [h, only_cons_self, List.lookup_cons_self, List.lookup_cons_self]
      · have hne : (chain == name) = false := beq_false_of_ne (Ne.symm h)
        rw [only_cons_of_ne h, List.lookup_cons, hne, ih]

/-- The cursor of a chain is stored in its part. -/
theorem stored_only (chain : String) (cursors : Cursors) :
    (cursors.only chain).stored chain = cursors.stored chain := by
  rw [stored, lookup_only, ← stored]

/-- The cursor of a chain is set in its part. -/
private theorem set_only (chain : String) (height : UInt32) (cursors : Cursors) :
    (cursors.only chain).set chain height = (cursors.set chain height).only chain := by
  induction cursors with
  | nil => exact (only_cons_self chain height.toNat []).symm
  | cons entry cursors ih =>
      obtain ⟨name, value⟩ := entry
      by_cases h : name = chain
      · rw [h, only_cons_self, set, set, if_pos rfl, if_pos rfl, only_cons_self]
      · rw [only_cons_of_ne h, set, if_neg h, only_cons_of_ne h, ih]

/-- Moving the cursor of one chain moves no other. -/
theorem only_set_of_ne (hne : other ≠ chain) (height : UInt32) (cursors : Cursors) :
    (cursors.set other height).only chain = cursors.only chain := by
  induction cursors with
  | nil => exact only_cons_of_ne hne height.toNat []
  | cons entry cursors ih =>
      obtain ⟨name, value⟩ := entry
      rw [set]
      by_cases h : name = other
      · rw [if_pos h, h, only_cons_of_ne hne, only_cons_of_ne hne]
      · rw [if_neg h]
        by_cases hname : name = chain
        · rw [hname, only_cons_self, only_cons_self, ih]
        · rw [only_cons_of_ne hname, only_cons_of_ne hname, ih]

/-- The cursor of a chain is advanced within its part. -/
private theorem advance_only (chain : String) (height : UInt32) (cursors : Cursors) :
    (cursors.only chain).advance chain height
      = (cursors.advance chain height).map fun out => (out.1, out.2.map (only chain)) := by
  rw [advance, advance, stored_only]
  cases cursors.stored chain with
  | error cause => rfl
  | ok current =>
      show (if height = resetHeight then _ else _)
        = Except.map _ (if height = resetHeight then _ else _)
      split
      · rw [set_only]
        rfl
      · split
        · rw [set_only]
          rfl
        · rfl

/-- Advancing the cursor of another chain leaves the part as it is. -/
theorem only_of_advance_of_ne (hne : other ≠ chain) {height current : UInt32}
    {cursors moved : Cursors} (h : cursors.advance other height = .ok (current, some moved)) :
    moved.only chain = cursors.only chain := by
  obtain ⟨before, -, h⟩ := Outcome.bind_eq_ok.1 h
  split at h
  · cases h
    exact only_set_of_ne hne 0 cursors
  · split at h
    · cases h
      exact only_set_of_ne hne height cursors
    · cases h

end Cursors

-- =============================================================== transactions

section Transactions

variable {τ α : Type}

/-- A store of which nothing shows but some of its tables and whether it is open. -/
def showing (part : τ → τ) (s : Store τ) : Store τ :=
  ⟨part s.tables, if s.isOpen then .steady else .closed⟩

/-- How a transaction ends on a part of the tables, if it ends so on all of them. -/
inductive Ending.Shows (part : τ → τ) : Ending τ α → Ending τ α → Prop where
  | commit (value : α) (tables : τ) :
      Shows part (.commit value tables) (.commit value (part tables))
  | abandon (outcome : Except Error α) : Shows part (.abandon outcome) (.abandon outcome)

variable [Tables τ] {act : τ → Ending τ α} {part : τ → τ} {s : Store τ}

/-- A transaction that can be done on a part of the tables is done on it as on all of them. -/
theorem attempt_showing (h : (act s.tables).Shows part (act (part s.tables))) :
    (s.showing part).attempt (Op.transaction act)
      = (s.attempt (Op.transaction act)).map fun out => (out.1, out.2.showing part) := by
  obtain ⟨tables, link⟩ := s
  by_cases hclosed : link = .closed
  · subst hclosed
    rw [attempt_of_closed rfl, attempt_of_closed rfl]
    rfl
  · have hopen : ∀ t, (⟨t, link⟩ : Store τ).isOpen = true := by
      intro t
      cases link with
      | closed => exact absurd rfl hclosed
      | _ => rfl
    have hshowing : ∀ t, showing part ⟨t, link⟩ = ⟨part t, .steady⟩ := fun t => by
      rw [showing, if_pos (hopen t)]
    rw [hshowing, attempt, attempt, run_transaction_of_isOpen (hopen tables)]
    generalize hall : act tables = all at h
    generalize honpart : act (part tables) = onPart at h
    cases h with
    | commit value after =>
        rw [run_of_commit rfl honpart]
        exact congrArg (fun s => Except.ok (value, s)) (hshowing after).symm
    | abandon outcome =>
        rw [run_of_abandon rfl honpart]
        cases outcome with
        | error cause => cases link <;> rfl
        | ok value =>
            -- a handle that is adrift is so no longer, but is open as before
            cases link with
            | closed => exact absurd rfl hclosed
            | _ => rfl

/-- What does not show in what a transaction commits does not show after it. -/
theorem showing_of_attempt {value : α} {after : Store τ}
    (h : s.attempt (Op.transaction act) = .ok (value, after))
    (hcommit : ∀ tables, act s.tables = .commit value tables → part tables = part s.tables) :
    after.showing part = s.showing part := by
  have htables : part after.tables = part s.tables := by
    rcases of_attempt_transaction h with hact | ⟨-, hsame⟩
    · exact hcommit _ hact
    · rw [hsame]
  rw [showing, showing, htables, isOpen_of_attempt_transaction h]

variable {cursors : Part τ Cursors} {chain other : String}

/-- The cursor of a chain is moved on its own as it is among others. -/
theorem attempt_move_showing (hget : ∀ t, cursors.get (part t) = (cursors.get t).only chain)
    (hset : ∀ t moved, cursors.set (part t) (moved.only chain) = part (cursors.set t moved))
    (height : UInt32) (s : Store τ) :
    (s.showing part).attempt (Cursors.move cursors chain height)
      = (s.attempt (Cursors.move cursors chain height)).map
          fun out => (out.1, out.2.showing part) := by
  refine attempt_showing ?_
  rw [hget, Cursors.advance_only]
  cases (cursors.get s.tables).advance chain height with
  | error cause => exact .abandon _
  | ok out =>
      obtain ⟨current, _ | moved⟩ := out
      · exact .abandon _
      · show Ending.Shows part _ (.commit current (cursors.set (part s.tables) (moved.only chain)))
        rw [hset]
        exact .commit current _

/-- Moving the cursor of another chain leaves the part that a store shows. -/
theorem showing_of_attempt_move (hne : other ≠ chain)
    (hset : ∀ t moved, Cursors.only chain moved = (cursors.get t).only chain →
      part (cursors.set t moved) = part t)
    {height current : UInt32} {after : Store τ}
    (h : s.attempt (Cursors.move cursors other height) = .ok (current, after)) :
    after.showing part = s.showing part := by
  refine showing_of_attempt h fun tables hact => ?_
  split at hact
  · next moved hadvance =>
      cases hact
      exact hset _ _ (Cursors.only_of_advance_of_ne hne hadvance)
  · cases hact
  · cases hact

end Transactions

end MergedMining.Store
