/-
A file that is closed and opened again and again, and what its user is answered.

The calls on open handles are answered as if they had been made one after the other on a
handle that is never closed, and the calls on closed handles are refused and change nothing.

What carries it is that the file has what the open handle shows, as long as nothing is done
that is not committed. An operation leaves something uncommitted only behind one that found no
number left for a row, and on a file that no one but the store has written there always is one.
-/
import MergedMining.Proofs.Store.Handles

namespace MergedMining.Store.OnFile

open Callable

-- ============================================================ what is replied

section Replies

variable {τ : Type} {p : OnFile τ} {hs : List Holder} {handle : Nat}

/-- Nothing is shown through a handle that the file does not have. -/
def Quiet (p : OnFile τ) : Prop := ∀ link ∈ p.links, link = .steady ∨ link = .closed

private theorem quiet_unopened (t : τ) : (unopened t).Quiet := by
  intro link hlink
  cases hlink

/-- Through an open handle the tables of the file are seen. -/
private theorem Quiet.store?_eq (h : p.Quiet) (hopen : p.isOpen handle = true) :
    p.store? handle = some ⟨p.tables, .steady⟩ := by
  unfold isOpen store? at hopen
  unfold store?
  cases hlink : p.links[handle]? with
  | none =>
      rw [hlink] at hopen
      cases hopen
  | some link =>
      rcases h link (List.mem_of_getElem? hlink) with rfl | rfl
      · rfl
      · rw [hlink] at hopen
        cases hopen

/-- A call that leaves its store steady or closed leaves the file quiet. -/
private theorem Quiet.through (h : p.Quiet) {act : Store τ → Store τ}
    (hact : ∀ s, p.store? handle = some s → (act s).link = .steady ∨ (act s).link = .closed) :
    (p.through handle act).Quiet := by
  unfold OnFile.through
  cases hstore : p.store? handle with
  | none => exact h
  | some s =>
      intro link hlink
      rcases List.mem_or_eq_of_mem_set hlink with hlink | rfl
      · exact h link hlink
      · exact hact s hstore

/-- Closing a handle leaves the file quiet, with its tables. -/
private theorem Quiet.close (h : p.Quiet) (handle : Nat) :
    (p.close handle).Quiet ∧ (p.close handle).tables = p.tables := by
  refine ⟨h.through fun _ _ => Or.inr rfl, ?_⟩
  unfold OnFile.close OnFile.through store?
  cases hlink : p.links[handle]? with
  | none => rfl
  | some link => rcases h link (List.mem_of_getElem? hlink) with rfl | rfl <;> rfl

/-- So do the releases of a shutdown. -/
private theorem Quiet.foldl_release (h : p.Quiet) (pending : List (Option Nat)) :
    (pending.foldl release p).Quiet
      ∧ (pending.foldl release p).tables = p.tables := by
  induction pending generalizing p with
  | nil => exact ⟨h, rfl⟩
  | cons r pending ih =>
      rw [List.foldl_cons]
      cases r with
      | none => exact ih h
      | some handle =>
          obtain ⟨hquiet, htables⟩ := h.close handle
          rw [← htables]
          exact ih hquiet

variable [Tables τ] [Callable τ]

/-- A call on a handle that was closed is refused, and does nothing. -/
theorem refused (hguarded : ∀ c : Call τ, Guarded (op c)) (hlt : handle < p.links.length)
    (hclosed : p.isOpen handle = false) (c : Call τ) :
    p.reply? (.call handle c) = some ⟨c, .error (.closed (Tables.storeName τ))⟩
      ∧ p.step (.call handle c) = p := by
  have hrun := (hguarded c).closed
  constructor
  · rw [reply?, store?, getElem?_of_isOpen_false hlt hclosed]
    simp [hrun]
  · exact through_of_isOpen_false hclosed fun t => congrArg Prod.snd (hrun t)

/-- What is no call on an open handle leaves the tables as they are, and nothing is told of
it. -/
theorem Quiet.step_of_not_issued (hguarded : ∀ c : Call τ, Guarded (op c)) (h : p.Quiet)
    (hagrees : Agrees p hs) {a : Act (Call τ)} (hnot : a.issued? hs = none) :
    p.told? a = none ∧ (p.step a).Quiet ∧ (p.step a).tables = p.tables := by
  cases a with
  | call handle c =>
      have hclosed : p.isOpen handle = false := by
        rw [hagrees.isOpen_eq]
        simpa [Act.issued?] using hnot
      have hsame : p.step (.call handle c) = p :=
        through_of_isOpen_false hclosed fun t => congrArg Prod.snd ((hguarded c).closed t)
      rw [hsame]
      refine ⟨?_, h, rfl⟩
      rw [told?, hclosed, if_neg Bool.false_ne_true]
  | close handle => exact ⟨rfl, h.close handle⟩
  | opening coordinator =>
      rw [step]
      by_cases hopen : p.opens.any id = true
      · rw [if_pos hopen]
        exact ⟨rfl, h, rfl⟩
      · rw [if_neg hopen]
        refine ⟨rfl, fun link hlink => ?_, rfl⟩
        rcases List.mem_append.1 hlink with hlink | hlink
        · exact h link hlink
        · exact Or.inl (List.mem_singleton.1 hlink)
  | enlist coordinator => exact ⟨rfl, h, rfl⟩
  | shutdown coordinator =>
      rw [step_shutdown]
      exact ⟨rfl, h.foldl_release _⟩

omit [Tables τ] [Callable τ] in
private theorem eq_of_steady {s : Store τ} (h : s.link = .steady) : ⟨s.tables, .steady⟩ = s := by
  rw [← h]

/-- A call on an open handle is answered from the tables, and leaves what it leaves there. -/
theorem Quiet.step_of_issued (h : p.Quiet) (hagrees : Agrees p hs) {a : Act (Call τ)} {c : Call τ}
    (hissued : a.issued? hs = some c)
    (hsteady : ((⟨p.tables, .steady⟩ : Store τ).run (op c)).2.link = .steady) :
    p.told? a = some ⟨c, ((⟨p.tables, .steady⟩ : Store τ).run (op c)).1⟩
      ∧ (p.step a).Quiet
      ∧ (⟨(p.step a).tables, .steady⟩ : Store τ)
        = ((⟨p.tables, .steady⟩ : Store τ).run (op c)).2 := by
  cases a with
  | call handle c' =>
      obtain ⟨hopen, rfl⟩ : hs[handle]?.any Holder.isOpen = true ∧ c' = c := by
        simpa [Act.issued?] using hissued
      rw [← hagrees.isOpen_eq] at hopen
      have hstore := h.store?_eq hopen
      refine ⟨?_, ?_, ?_⟩
      · rw [told?, if_pos hopen, reply?, hstore]
        rfl
      · refine h.through fun s hs => ?_
        rw [hstore] at hs
        obtain rfl := Option.some.inj hs
        exact Or.inl hsteady
      · have htables : (p.step (.call handle c')).tables
            = ((⟨p.tables, .steady⟩ : Store τ).run (op c')).2.tables := by
          rw [step, OnFile.through, hstore]
        rw [htables]
        exact eq_of_steady hsteady
  | _ => cases hissued

/-- A handle on which these calls are made in turn never has anything uncommitted. -/
def Stays (s : Store τ) : List (Call τ) → Prop
  | [] => True
  | c :: calls => (s.run (op c)).2.link = .steady ∧ Stays (s.run (op c)).2 calls

/-- The calls on open handles are answered as if they were made one after the other on one
handle that is never closed. -/
theorem told_eq (hguarded : ∀ c : Call τ, Guarded (op c)) (h : p.Quiet) (hagrees : Agrees p hs)
    (acts : List (Act (Call τ))) (hstays : Stays ⟨p.tables, .steady⟩ (issued hs acts)) :
    p.told acts = (⟨p.tables, .steady⟩ : Store τ).answers ((issued hs acts).map .call) := by
  induction acts generalizing p hs with
  | nil => rfl
  | cons a acts ih =>
      have hnext := hagrees.step hguarded a
      rw [told]
      rw [issued] at hstays ⊢
      cases hissued : a.issued? hs with
      | none =>
          rw [hissued] at hstays
          obtain ⟨htold, hquiet, htables⟩ := h.step_of_not_issued hguarded hagrees hissued
          rw [← htables] at hstays ⊢
          rw [htold]
          exact ih hquiet hnext hstays
      | some c =>
          rw [hissued] at hstays
          obtain ⟨hsteady, hstays⟩ := hstays
          obtain ⟨htold, hquiet, hafter⟩ := h.step_of_issued hagrees hissued hsteady
          rw [← hafter] at hstays
          rw [htold, ih hquiet hnext hstays, hafter]
          rfl

/-- A store whose calls keep an invariant stays steady through all of them. -/
private theorem stays_of_keeps {holds : List (Call τ) → τ → Prop} (h : Keeps holds)
    {calls : List (Call τ)}
    {t : τ} (ht : holds calls t) (more : List (Call τ)) : Stays (⟨t, .steady⟩ : Store τ) more := by
  induction more generalizing calls t with
  | nil => trivial
  | cons c more ih =>
      obtain ⟨answer, after, hrun, hafter⟩ := h.steady ht c
      rw [Stays, hrun]
      exact ⟨rfl, ih hafter⟩

/-- A store stays steady as long as no call reports a full table. -/
private theorem stays_of_not_full (hguarded : ∀ c : Call τ, Guarded (op c)) {s : Store τ}
    (hsteady : s.link = .steady) {calls : List (Call τ)}
    (h : ∀ a ∈ s.answers (calls.map .call), a.2 ≠ .error .full) : Stays s calls := by
  induction calls generalizing s with
  | nil => trivial
  | cons c calls ih =>
      have hfirst : (s.run (op c)).1 ≠ .error .full := h ⟨c, _⟩ List.mem_cons_self
      rw [← eq_of_steady hsteady] at hfirst
      have hnext := (hguarded c).steady s.tables hfirst
      rw [eq_of_steady hsteady] at hnext
      exact ⟨hnext, ih hnext fun a ha => h a (List.mem_cons_of_mem _ ha)⟩

end Replies

-- ============================================================== transparency

section Transparency

variable {τ : Type} [Tables τ] [Callable τ]

/-- That a file is closed and opened again does not show, except that handles which were closed
are refused. -/
structure Transparent (τ : Type) [Tables τ] [Callable τ] : Prop where
  /-- A handle is open from when it is opened until it is closed or its coordinator is shut
  down, whatever else is done. -/
  isOpen_after : ∀ (t : τ) (acts : List (Act (Call τ))) (handle : Nat),
    ((unopened t).after acts).isOpen handle = (holders acts)[handle]?.any Holder.isOpen
  /-- The calls on open handles are answered as they are on one handle that is never closed. -/
  told_new : ∀ acts : List (Act (Call τ)),
    (unopened (Tables.empty : τ)).told acts
      = (create : Store τ).answers ((issued [] acts).map .call)
  /-- So they are whatever the file had before, if there were numbers enough for the rows. -/
  told_file : ∀ (t : τ) (acts : List (Act (Call τ))),
    (∀ a ∈ (⟨t, .steady⟩ : Store τ).answers ((issued [] acts).map .call), a.2 ≠ .error .full) →
      (unopened t).told acts = (⟨t, .steady⟩ : Store τ).answers ((issued [] acts).map .call)
  /-- A call on a handle that was closed is refused, whichever it is, and changes nothing. -/
  refused : ∀ (p : OnFile τ) (handle : Nat), handle < p.links.length → p.isOpen handle = false →
    ∀ c : Call τ, p.reply? (.call handle c) = some ⟨c, .error (.closed (Tables.storeName τ))⟩
      ∧ p.step (.call handle c) = p
  /-- However a handle was closed, closing it once more changes nothing. -/
  close_again : ∀ (p : OnFile τ) (handle : Nat), p.isOpen handle = false →
    p.step (.close handle) = p
  shutdown_again : ∀ (p : OnFile τ) (coordinator : Nat),
    (p.step (.shutdown coordinator)).step (.shutdown coordinator) = p.step (.shutdown coordinator)
  /-- A shutdown does nothing to handles that were closed before. -/
  shutdown_closed : ∀ (p : OnFile τ) (coordinator : Nat),
    (∀ handle, some handle ∈ (p.releases coordinator).pending → p.isOpen handle = false) →
      p.step (.shutdown coordinator)
        = { p with releases := Function.update p.releases coordinator .none }

/-- The handles agree with their holders after any acts. -/
private theorem Agrees.after (hguarded : ∀ c : Call τ, Guarded (op c)) {p : OnFile τ}
    {hs : List Holder}
    (h : Agrees p hs) (acts : List (Act (Call τ))) :
    Agrees (p.after acts) (acts.foldl Act.change hs) := by
  induction acts generalizing p hs with
  | nil => exact h
  | cons a acts ih => exact ih (h.step hguarded a)

omit [Tables τ] [Callable τ] in
private theorem close_of_isOpen_false {p : OnFile τ} {handle : Nat} (h : p.isOpen handle = false) :
    p.close handle = p :=
  through_of_isOpen_false h fun _ => rfl

omit [Tables τ] [Callable τ] in
/-- Releasing handles that are not open changes nothing. -/
private theorem foldl_release_of_isOpen_false {p : OnFile τ} {pending : List (Option Nat)}
    (h : ∀ handle, some handle ∈ pending → p.isOpen handle = false) :
    pending.foldl release p = p := by
  induction pending with
  | nil => rfl
  | cons r pending ih =>
      have hsame : p.release r = p := by
        cases r with
        | none => rfl
        | some handle => exact close_of_isOpen_false (h handle List.mem_cons_self)
      rw [List.foldl_cons, hsame]
      exact ih fun handle hmem => h handle (List.mem_cons_of_mem _ hmem)

/-- A shutdown whose handles are not open only forgets its releases. -/
private theorem step_shutdown_of_isOpen_false {p : OnFile τ} {coordinator : Nat}
    (h : ∀ handle, some handle ∈ (p.releases coordinator).pending → p.isOpen handle = false) :
    p.step (.shutdown coordinator)
      = { p with releases := Function.update p.releases coordinator .none } := by
  rw [step_shutdown, foldl_release_of_isOpen_false h]

/-- After a shutdown nothing waits for another. -/
theorem releases_step_shutdown (p : OnFile τ) (coordinator : Nat) :
    (p.step (.shutdown coordinator)).releases
      = Function.update p.releases coordinator .none := by
  rw [step_shutdown]

/-- A store is transparent if what holds of its tables is kept by every call, so that no number
is ever missing, and if its operations do to a handle no more than they may. -/
theorem transparent {holds : List (Call τ) → τ → Prop} (hkeeps : Keeps holds)
    (hguarded : ∀ c : Call τ, Guarded (op c)) : Transparent τ where
  isOpen_after t acts handle := ((agrees_unopened t).after hguarded acts).isOpen_eq handle
  told_new acts :=
    told_eq hguarded (quiet_unopened _) (agrees_unopened _) acts
      (stays_of_keeps hkeeps hkeeps.empty _)
  told_file t acts h :=
    told_eq hguarded (quiet_unopened t) (agrees_unopened t) acts (stays_of_not_full hguarded rfl h)
  refused p handle hlt hclosed c := refused hguarded hlt hclosed c
  close_again p handle h := close_of_isOpen_false h
  shutdown_again p coordinator := by
    have hreleases := releases_step_shutdown p coordinator
    rw [step_shutdown_of_isOpen_false (p := p.step (.shutdown coordinator)), hreleases,
      Function.update_idem, ← hreleases]
    intro handle hwaits
    rw [hreleases, Function.update_self] at hwaits
    cases hwaits
  shutdown_closed p coordinator h := step_shutdown_of_isOpen_false h

end Transparency

end MergedMining.Store.OnFile
