/-
What adding and dropping rows leaves in a table, and that doing both again changes
nothing.

Adding puts rows behind those that are there, and of each key the first row stays.
So a second round of adding finds every key taken. After a round of dropping it
does not: a key that was dropped is free again and its row comes back. But it comes
back only to be dropped by the same round as before, so adding and dropping
together, done twice, are done once.
-/
import MergedMining.Store.Table

namespace MergedMining.Store.Table

variable {ρ κ : Type} {clash : ρ → ρ → Bool} {kind : κ → ρ → Bool} {rows new : List ρ}

-- ==================================================================== adding

/-- Rows are added behind the others, and no row that is added clashes with one that was
there. -/
theorem insertAll_eq_append (clash : ρ → ρ → Bool) (rows new : List ρ) :
    ∃ added, (insertAll clash rows new).2 = rows ++ added ∧ added ⊆ new
      ∧ ∀ r ∈ added, ∀ q ∈ rows, clash r q = false := by
  induction new generalizing rows with
  | nil => exact ⟨[], (List.append_nil rows).symm, List.nil_subset _, fun r hr => (nomatch hr)⟩
  | cons r new ih =>
      rw [insertAll, insert]
      by_cases h : rows.any (clash r) = true
      · rw [if_pos h]
        obtain ⟨added, heq, hsub, hfree⟩ := ih rows
        exact ⟨added, heq, fun x hx => List.mem_cons_of_mem r (hsub hx), hfree⟩
      · rw [if_neg h]
        obtain ⟨added, heq, hsub, hfree⟩ := ih (rows ++ [r])
        refine ⟨r :: added, ?_, List.cons_subset.2 ⟨List.mem_cons_self, ?_⟩, ?_⟩
        · show (insertAll clash (rows ++ [r]) new).2 = rows ++ r :: added
          rw [heq, List.append_assoc, List.singleton_append]
        · exact fun x hx => List.mem_cons_of_mem r (hsub hx)
        · intro x hx q hq
          rcases List.mem_cons.1 hx with rfl | hx
          · rw [List.any_eq_true] at h
            exact Bool.eq_false_iff.2 fun hclash => h ⟨q, hq, hclash⟩
          · exact hfree x hx q (List.mem_append_left _ hq)

/-- Every row finds its key taken afterwards. -/
theorem exists_clash_of_mem (hrefl : ∀ r, clash r r = true) (rows : List ρ) {r : ρ}
    (hr : r ∈ new) :
    ∃ q ∈ (insertAll clash rows new).2, clash r q = true := by
  induction new generalizing rows with
  | nil => cases hr
  | cons x new ih =>
      rw [insertAll, insert]
      rcases List.mem_cons.1 hr with rfl | hr
      · by_cases h : rows.any (clash r) = true
        · rw [if_pos h]
          obtain ⟨q, hq, hclash⟩ := List.any_eq_true.1 h
          obtain ⟨added, heq, -, -⟩ := insertAll_eq_append clash rows new
          exact ⟨q, heq ▸ List.mem_append_left _ hq, hclash⟩
        · rw [if_neg h]
          obtain ⟨added, heq, -, -⟩ := insertAll_eq_append clash (rows ++ [r]) new
          refine ⟨r, ?_, hrefl r⟩
          show r ∈ (insertAll clash (rows ++ [r]) new).2
          rw [heq]
          exact List.mem_append_left _ (List.mem_append_right _ List.mem_cons_self)
      · exact ih _ hr

/-- Where every key is taken nothing is added. -/
theorem insertAll_of_taken (h : ∀ r ∈ new, ∃ q ∈ rows, clash r q = true) :
    (insertAll clash rows new).2 = rows := by
  induction new with
  | nil => rfl
  | cons r new ih =>
      rw [List.forall_mem_cons] at h
      rw [insertAll, insert, if_pos (List.any_eq_true.2 h.1)]
      exact ih h.2

/-- Inserting rows twice is inserting them once. -/
theorem insertAll_insertAll (hrefl : ∀ r, clash r r = true) :
    (insertAll clash (insertAll clash rows new).2 new).2 = (insertAll clash rows new).2 :=
  insertAll_of_taken fun _ hr => exists_clash_of_mem hrefl rows hr

/-- Something is said to be added exactly if the rows are others than before. -/
theorem any_insertAll (clash : ρ → ρ → Bool) (rows new : List ρ) :
    (insertAll clash rows new).1.any id = true ↔ (insertAll clash rows new).2 ≠ rows := by
  induction new generalizing rows with
  | nil => exact iff_of_false Bool.false_ne_true fun h => h rfl
  | cons r new ih =>
      rw [insertAll, insert]
      by_cases h : rows.any (clash r) = true
      · rw [if_pos h]
        exact ih rows
      · rw [if_neg h]
        refine iff_of_true rfl fun hsame => ?_
        obtain ⟨added, heq, -, -⟩ := insertAll_eq_append clash (rows ++ [r]) new
        have hlen := congrArg List.length (heq.symm.trans hsame)
        simp only [List.length_append, List.length_singleton] at hlen
        omega

/-- Where no key is taken, not even by a row that is added before, everything is added. -/
theorem insertAll_of_free (hrows : ∀ r ∈ new, ∀ q ∈ rows, clash r q = false)
    (hnew : new.Pairwise fun earlier later => clash later earlier = false) :
    (insertAll clash rows new).2 = rows ++ new := by
  induction new generalizing rows with
  | nil => exact (List.append_nil rows).symm
  | cons r new ih =>
      obtain ⟨hr, hrows⟩ := List.forall_mem_cons.1 hrows
      obtain ⟨hlater, hnew⟩ := List.pairwise_cons.1 hnew
      have hfree : ¬rows.any (clash r) = true := by
        rw [List.any_eq_true]
        intro h
        obtain ⟨q, hq, hclash⟩ := h
        rw [hr q hq] at hclash
        cases hclash
      rw [insertAll, insert, if_neg hfree]
      show (insertAll clash (rows ++ [r]) new).2 = rows ++ r :: new
      rw [ih ?_ hnew, List.append_assoc, List.singleton_append]
      intro x hx q hq
      rcases List.mem_append.1 hq with hq | hq
      · exact hrows x hx q hq
      · rw [List.mem_singleton.1 hq]
        exact hlater x hx

-- ================================================================== dropping

/-- Deleting by keys leaves the rows that no key is about. -/
theorem deleteAll_eq_filter (keys : List κ) :
    (deleteAll kind rows keys).2 = rows.filter fun r => !keys.any (kind · r) := by
  induction keys generalizing rows with
  | nil => exact (List.filter_eq_self.2 fun _ _ => rfl).symm
  | cons key keys ih =>
      rw [deleteAll, delete]
      show (deleteAll kind (rows.filter (!kind key ·)) keys).2 = _
      rw [ih, List.filter_filter]
      congr 1
      funext r
      rw [List.any_cons, Bool.not_or, Bool.and_comm]

-- ===================================================================== again

/-- Adding rows and then dropping some, done twice, is done once. Which rows are dropped
must not depend on more than what makes rows clash. -/
theorem deleteAll_insertAll_again {keys : List κ} (hrefl : ∀ r, clash r r = true)
    (hkind : ∀ key r q, clash r q = true → kind key r = kind key q) :
    (deleteAll kind
        (insertAll clash (deleteAll kind (insertAll clash rows new).2 keys).2 new).2 keys).2
      = (deleteAll kind (insertAll clash rows new).2 keys).2 := by
  rw [deleteAll_eq_filter, deleteAll_eq_filter]
  let kept := fun r => !keys.any (kind · r)
  show ((insertAll clash ((insertAll clash rows new).2.filter kept) new).2).filter kept
    = (insertAll clash rows new).2.filter kept
  obtain ⟨back, heq, hsub, hfree⟩ :=
    insertAll_eq_append clash ((insertAll clash rows new).2.filter kept) new
  -- a row comes back only where the row of its key was dropped, and is dropped as that was
  have hback : back.filter kept = [] := by
    rw [List.filter_eq_nil_iff]
    intro r hr hkept
    obtain ⟨q, hq, hclash⟩ := exists_clash_of_mem hrefl rows (hsub hr)
    have hsame : kept q = kept r := by
      show (!keys.any (kind · q)) = !keys.any (kind · r)
      simp only [hkind _ r q hclash]
    have hfalse := hfree r hr q (List.mem_filter.2 ⟨hq, hsame ▸ hkept⟩)
    rw [hclash] at hfalse
    cases hfalse
  rw [heq, List.filter_append, hback, List.append_nil, List.filter_filter]
  simp only [Bool.and_self]

-- =================================================================== renaming

section Image

variable {ν : Type} {clash' : ν → ν → Bool} {f : ρ → ν}

/-- A row is added as its image is, if images clash as the rows do. -/
theorem map_insert (hclash : ∀ r q, clash' (f r) (f q) = clash r q) (rows : List ρ) (r : ρ) :
    insert clash' (rows.map f) (f r)
      = ((insert clash rows r).1, (insert clash rows r).2.map f) := by
  have hany : (rows.map f).any (clash' (f r)) = rows.any (clash r) := by
    rw [List.any_map]
    exact congrArg rows.any (funext fun q => hclash r q)
  rw [insert, insert, hany]
  split
  · rfl
  · rw [List.map_append, List.map_singleton]

/-- Rows may be mapped before they are inserted, if they clash as before. -/
theorem map_insertAll (hclash : ∀ r q, clash' (f r) (f q) = clash r q) (rows new : List ρ) :
    insertAll clash' (rows.map f) (new.map f)
      = ((insertAll clash rows new).1, (insertAll clash rows new).2.map f) := by
  induction new generalizing rows with
  | nil => rfl
  | cons r new ih =>
      rw [List.map_cons, insertAll, insertAll, map_insert hclash]
      dsimp only
      rw [ih]

/-- Rows are dropped as their images are, if these are of the same kinds. -/
theorem map_delete {kind : ρ → Bool} {kind' : ν → Bool} (hkind : ∀ r, kind' (f r) = kind r)
    (rows : List ρ) :
    delete kind' (rows.map f) = ((delete kind rows).1, (delete kind rows).2.map f) := by
  have hcomp : kind' ∘ f = kind := funext hkind
  rw [delete, delete, List.any_map, List.filter_map, hcomp]
  congr 3
  exact funext fun r => congrArg not (hkind r)

/-- Rows may be mapped before they are deleted, if the keys are about the same ones. -/
theorem map_deleteAll {kind' : κ → ν → Bool} (hkind : ∀ key r, kind' key (f r) = kind key r)
    (rows : List ρ) (keys : List κ) :
    deleteAll kind' (rows.map f) keys
      = ((deleteAll kind rows keys).1, (deleteAll kind rows keys).2.map f) := by
  induction keys generalizing rows with
  | nil => rfl
  | cons key keys ih =>
      rw [deleteAll, deleteAll, map_delete (hkind key)]
      dsimp only
      rw [ih]

end Image

end MergedMining.Store.Table
