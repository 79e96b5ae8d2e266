/-
What is done with a store over time, and what it answers.

A store is made on a new file, called, closed, and opened on its file again. Which calls
there are is a matter of the store; here it is said what holds of any. If a property of the
tables, with regard to the calls that were made, is kept by every call on a handle that
works, then it holds whatever was done with the store, since closing and opening change no
table and a closed handle does nothing.

Two stores are alike if whatever is done with them later is answered in the same way. They
need not have the same tables. It is enough that their tables are related by something that
every call keeps while it gives the same answer on both sides.
-/
import Mathlib.Data.List.Induction
import MergedMining.Proofs.Store.Calls

namespace MergedMining.Store

/-- Tables of which it is known what calls they take, and what these do and answer. -/
class Callable (τ : Type) where
  Call : Type
  Answer : Call → Type
  op (c : Call) : Op τ (Answer c)

open Callable

/-- What is done with a store. -/
inductive Use (κ : Type) where
  | call (c : κ)
  | close
  | reopen
  deriving DecidableEq, Repr

-- ================================================================== one call

section Leaves

variable {τ α : Type}

/-- What an operation does on a handle that works: it gives this answer, the handle works, and
this holds of the tables that it leaves. -/
def Leaves (op : Op τ α) (t : τ) (answer : Except Error α) (holds : τ → Prop) : Prop :=
  ∃ after, (⟨t, .steady⟩ : Store τ).run op = (answer, ⟨after, .steady⟩) ∧ holds after

variable {op : Op τ α} {t : τ} {answer : Except Error α} {holds also : τ → Prop}

/-- What is left may be said with less. -/
theorem Leaves.mono (h : Leaves op t answer holds) (himp : ∀ after, holds after → also after) :
    Leaves op t answer also := by
  obtain ⟨after, hrun, hafter⟩ := h
  exact ⟨after, hrun, himp after hafter⟩

theorem Leaves.map {β : Type} (h : Leaves op t answer holds) (f : α → β) :
    Leaves (f <$> op) t (answer.map f) holds := by
  obtain ⟨after, hrun, hafter⟩ := h
  refine ⟨after, ?_, hafter⟩
  rw [run_map, hrun]

variable [Tables τ]

theorem Leaves.query {look : τ → Except Error α} (h : holds t) :
    Leaves (Op.query look) t (look t) holds :=
  ⟨t, run_query rfl look, h⟩

theorem Leaves.commit {act : τ → Ending τ α} {value : α} {after : τ}
    (hact : act t = .commit value after) (h : holds after) :
    Leaves (Op.transaction act) t (.ok value) holds :=
  ⟨after, run_of_commit rfl hact, h⟩

theorem Leaves.update {change : τ → τ} (h : holds (change t)) :
    Leaves (Op.update change) t (.ok ()) holds :=
  ⟨change t, run_update rfl change, h⟩

end Leaves

/-- What an operation does to the handle that it is made on, however that stands to its
file. -/
structure Guarded {τ α : Type} [Tables τ] (op : Op τ α) : Prop where
  closed : ∀ t, (⟨t, .closed⟩ : Store τ).run op
    = (.error (.closed (Tables.storeName τ)), ⟨t, .closed⟩)
  /-- It neither opens the handle nor closes it. -/
  isOpen_run : ∀ s : Store τ, (s.run op).2.isOpen = s.isOpen
  /-- What it does is committed, unless it found no number left. -/
  steady : ∀ t, ((⟨t, .steady⟩ : Store τ).run op).1 ≠ .error .full →
    ((⟨t, .steady⟩ : Store τ).run op).2.link = .steady

namespace Guarded

variable {τ α β : Type} [Tables τ]

/-- A transaction is guarded: it changes nothing unless it commits, and nothing at all on a closed
store. -/
theorem transaction (act : τ → Ending τ α) : Guarded (Op.transaction act) where
  closed _ := rfl
  isOpen_run s := by
    by_cases hopen : s.isOpen = true
    · rw [run_transaction_of_isOpen hopen]
      cases act s.tables with
      | commit value tables => rfl
      | abandon outcome =>
          cases hlink : s.link with
          | adrift => exact hopen.symm
          | _ => rfl
      | giveUp again => exact hopen.symm
    · rw [run_transaction_of_not_isOpen hopen]
  steady t h := by
    have hopen : (⟨t, .steady⟩ : Store τ).isOpen = true := rfl
    rw [run_transaction_of_isOpen hopen] at h ⊢
    revert h
    cases act t with
    | commit value tables => exact fun _ => rfl
    | abandon outcome => exact fun _ => rfl
    | giveUp again => exact fun h => absurd rfl h

theorem update (change : τ → τ) : Guarded (Op.update change) := transaction _

/-- So is a statement. -/
theorem statement (act : τ → Ending τ α) : Guarded (Op.statement act) where
  closed _ := rfl
  isOpen_run s := by
    by_cases hopen : s.isOpen = true
    · rw [run_statement_of_isOpen hopen]
      cases act s.tables with
      | commit value tables => rfl
      | abandon outcome => rfl
      | giveUp again =>
          cases hlink : s.link with
          | unfinished file => exact hopen.symm
          | _ => rfl
    · rw [run_statement_of_not_isOpen hopen]
  steady t _ := by
    have hopen : (⟨t, .steady⟩ : Store τ).isOpen = true := rfl
    rw [run_statement_of_isOpen hopen]
    cases act t <;> rfl

/-- What is made of the answer afterwards does not touch the handle. -/
protected theorem bind {op : Op τ α} {next : α → Op τ β} (h : Guarded op)
    (hnext : ∀ a (s : Store τ), (s.run (next a)).2 = s) : Guarded (op >>= next) := by
  have hsame (s : Store τ) : (s.run (op >>= next)).2 = (s.run op).2 := by
    rcases hop : s.run op with ⟨cause | a, s'⟩
    · rw [run_bind_of_error hop]
    · rw [run_bind_of_ok hop, hnext]
  constructor
  · intro t
    exact run_bind_of_error (h.closed t)
  · intro s
    rw [hsame, h.isOpen_run]
  · intro t hfull
    rw [hsame]
    refine h.steady t fun hop => hfull ?_
    rw [run_bind_of_error (Prod.ext hop rfl)]

theorem map {op : Op τ α} (h : Guarded op) (f : α → β) : Guarded (f <$> op) := by
  rw [map_eq_pure_bind]
  exact h.bind fun _ _ => rfl

end Guarded

section Sessions

variable {τ : Type} [Callable τ]

/-- The store after something was done with it. -/
def use (s : Store τ) : Use (Call τ) → Store τ
  | .call c => (s.run (op c)).2
  | .close => s.close
  | .reopen => s.reopen

/-- What is answered to a use, if it is a call. -/
def answer? (s : Store τ) : Use (Call τ) → Option ((c : Call τ) × Except Error (Answer c))
  | .call c => some ⟨c, (s.run (op c)).1⟩
  | _ => none

/-- What is answered to uses that are made one after the other. -/
def answers (s : Store τ) : List (Use (Call τ)) → List ((c : Call τ) × Except Error (Answer c))
  | [] => []
  | u :: uses => (s.answer? u).toList ++ (s.use u).answers uses

/-- Whether nothing that is done later tells the two apart. -/
def Alike (s s' : Store τ) : Prop := ∀ uses, s.answers uses = s'.answers uses

theorem Alike.refl (s : Store τ) : s.Alike s := fun _ => rfl

-- =============================================================== simulations

/-- A relation of tables that calls keep, whose answers it does not show in. -/
structure Simulation (rel : τ → τ → Prop) : Prop where
  steady : ∀ {t t'}, rel t t' → ∀ c, ∃ answer after after',
    (⟨t, .steady⟩ : Store τ).run (op c) = (answer, ⟨after, .steady⟩)
      ∧ (⟨t', .steady⟩ : Store τ).run (op c) = (answer, ⟨after', .steady⟩) ∧ rel after after'
  closed : ∀ c, ∃ answer, ∀ t, (⟨t, .closed⟩ : Store τ).run (op c) = (answer, ⟨t, .closed⟩)

/-- Stores with related tables are alike, if their handles are both open or both closed. -/
theorem Simulation.alike {rel : τ → τ → Prop} (h : Simulation rel) {t t' : τ} (hrel : rel t t')
    {link : Link τ} (hlink : link = .steady ∨ link = .closed) :
    Alike (⟨t, link⟩ : Store τ) ⟨t', link⟩ := by
  intro uses
  induction uses generalizing t t' link with
  | nil => rfl
  | cons u uses ih =>
      rw [answers, answers]
      cases u with
      | call c =>
          rcases hlink with rfl | rfl
          · obtain ⟨answer, after, after', hrun, hrun', hafter⟩ := h.steady hrel c
            simp only [answer?, use, hrun, hrun', ih hafter (Or.inl rfl)]
          · obtain ⟨answer, hrun⟩ := h.closed c
            simp only [answer?, use, hrun, ih hrel (Or.inr rfl)]
      | close =>
          rcases hlink with rfl | rfl
          · exact congrArg _ (ih hrel (Or.inr rfl))
          · exact congrArg _ (ih hrel (Or.inr rfl))
      | reopen =>
          rcases hlink with rfl | rfl
          · exact congrArg _ (ih hrel (Or.inl rfl))
          · exact congrArg _ (ih hrel (Or.inl rfl))

-- ================================================================= histories

variable [Tables τ]

/-- The store after these uses of a new one. -/
def after (uses : List (Use (Call τ))) : Store τ := uses.foldl use create

private theorem after_concat (uses : List (Use (Call τ))) (u : Use (Call τ)) :
    (after (uses ++ [u]) : Store τ) = (after uses).use u := by
  rw [after, List.foldl_append]
  rfl

/-- What holds of tables with regard to the calls that were made of them is kept by every
call. -/
structure Keeps (holds : List (Call τ) → τ → Prop) : Prop where
  empty : holds [] Tables.empty
  steady : ∀ {calls t}, holds calls t → ∀ c, ∃ answer,
    Leaves (op c) t answer (holds (calls ++ [c]))
  closed : ∀ t c, ((⟨t, .closed⟩ : Store τ).run (op c)).2 = ⟨t, .closed⟩

variable {holds : List (Call τ) → τ → Prop}

/-- An invariant may be said in other words. -/
theorem Keeps.congr {holds' : List (Call τ) → τ → Prop} (h : Keeps holds)
    (hiff : ∀ calls t, holds calls t ↔ holds' calls t) : Keeps holds' := by
  have hsame : holds = holds' := funext fun calls => funext fun t => propext (hiff calls t)
  rwa [← hsame]

/-- An invariant is kept by every use of a store that is steady or closed: a call, a close or an
opening. -/
private theorem Keeps.use (h : Keeps holds) {calls : List (Call τ)} {t : τ} (ht : holds calls t)
    {link : Link τ} (hlink : link = .steady ∨ link = .closed) (u : Use (Call τ)) :
    ∃ calls' t' link', (⟨t, link⟩ : Store τ).use u = ⟨t', link'⟩
      ∧ (link' = .steady ∨ link' = .closed) ∧ holds calls' t' := by
  cases u with
  | call c =>
      rcases hlink with rfl | rfl
      · obtain ⟨answer, t', hrun, ht'⟩ := h.steady ht c
        exact ⟨_, t', _, congrArg Prod.snd hrun, Or.inl rfl, ht'⟩
      · exact ⟨_, t, _, h.closed t c, Or.inr rfl, ht⟩
  | close =>
      rcases hlink with rfl | rfl
      · exact ⟨_, t, _, rfl, Or.inr rfl, ht⟩
      · exact ⟨_, t, _, rfl, Or.inr rfl, ht⟩
  | reopen =>
      rcases hlink with rfl | rfl
      · exact ⟨_, t, _, rfl, Or.inl rfl, ht⟩
      · exact ⟨_, t, _, rfl, Or.inl rfl, ht⟩

/-- Whatever was done with a store, its tables are such as some calls leave them. -/
theorem Keeps.after (h : Keeps holds) (uses : List (Use (Call τ))) :
    ∃ calls t link, (after uses : Store τ) = ⟨t, link⟩ ∧ (link = .steady ∨ link = .closed)
      ∧ holds calls t := by
  induction uses using List.reverseRecOn with
  | nil => exact ⟨[], _, _, rfl, Or.inl rfl, h.empty⟩
  | append_singleton uses u ih =>
      obtain ⟨calls, t, link, hafter, hlink, ht⟩ := ih
      obtain ⟨calls', t', link', huse, hlink', ht'⟩ := h.use ht hlink u
      refine ⟨calls', t', link', ?_, hlink', ht'⟩
      rw [after_concat, hafter]
      exact huse

/-- An open store works, and its tables are such as some calls leave them. -/
theorem Keeps.after_open (h : Keeps holds) {uses : List (Use (Call τ))}
    (hopen : (Store.after uses : Store τ).isOpen = true) :
    ∃ calls t, (Store.after uses : Store τ) = ⟨t, .steady⟩ ∧ holds calls t := by
  obtain ⟨calls, t, link, hafter, hlink, ht⟩ := h.after uses
  rw [hafter] at hopen ⊢
  rcases hlink with rfl | rfl
  · exact ⟨calls, t, rfl, ht⟩
  · cases hopen

/-- A call of a store works and leaves tables such as some calls leave them that end with it,
or the store is closed. -/
theorem Keeps.after_call (h : Keeps holds) (uses : List (Use (Call τ))) (c : Call τ) :
    (∃ calls t, ((Store.after uses : Store τ).run (op c)).2 = ⟨t, .steady⟩ ∧ holds (calls ++ [c]) t)
      ∨ ∃ t, (Store.after uses : Store τ) = ⟨t, .closed⟩ := by
  obtain ⟨calls, t, link, hafter, hlink, ht⟩ := h.after uses
  rw [hafter]
  rcases hlink with rfl | rfl
  · obtain ⟨answer, t', hrun, ht'⟩ := h.steady ht c
    exact Or.inl ⟨calls, t', congrArg Prod.snd hrun, ht'⟩
  · exact Or.inr ⟨t, rfl⟩

/-- If nothing is done but calling it, a store works and its tables are such as these calls
leave them. -/
theorem Keeps.after_calls (h : Keeps holds) (calls : List (Call τ)) :
    ∃ t, (Store.after (calls.map .call) : Store τ) = ⟨t, .steady⟩ ∧ holds calls t := by
  induction calls using List.reverseRecOn with
  | nil => exact ⟨_, rfl, h.empty⟩
  | append_singleton calls c ih =>
      obtain ⟨t, hafter, ht⟩ := ih
      obtain ⟨answer, t', hrun, ht'⟩ := h.steady ht c
      refine ⟨t', ?_, ht'⟩
      rw [List.map_append, List.map_singleton, after_concat, hafter]
      exact congrArg Prod.snd hrun

end Sessions

-- ============================================================== one by one

section EachInTurn

variable {τ α : Type}

/-- Runs operations in turn, whatever becomes of each. -/
def runEach (s : Store τ) : List (Op τ α) → List (Except Error α) × Store τ
  | [] => ([], s)
  | op :: ops =>
      let (outcome, s) := s.run op
      let (outcomes, s) := s.runEach ops
      (outcome :: outcomes, s)

end EachInTurn

end MergedMining.Store
