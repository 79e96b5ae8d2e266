/-
The handles of a file that is opened more than once, and which of them are open.

A handle is used until it is closed, by itself or by the coordinator that it was registered
with when it was opened. Then the file can be opened again, with another handle, and the old
one goes on to be refused. So it follows from what was done alone which handles are open, and
nothing is asked of the tables for that: no operation opens a handle or closes it.

What carries it is that a handle that is open waits to be released, by the coordinator it was
registered with and by no other. So a shutdown closes those handles that it has to and leaves
the others alone.
-/
import Mathlib.Logic.Function.Basic
import MergedMining.Proofs.Store.Sessions
import MergedMining.Store.Shutdown

namespace MergedMining

-- ================================================================== releases

/-- Releases that register nothing are made in turn, and none is left. -/
theorem Releases.shutdown_eq {ρ σ : Type} (act : σ → ρ → σ) (r : Releases ρ) (world : σ) :
    r.shutdown (fun release world => (act world release, [])) world
      = (r.pending.foldl act world, .none) := by
  unfold shutdown
  generalize r.pending = pending
  induction pending generalizing world with
  | nil => rfl
  | cons release pending ih => exact ih (act world release)

namespace Store

-- ================================================================ one file

/-- What is done with a file of tables. Handles are numbered in the order in which they are
opened. -/
inductive Act (κ : Type) where
  | call (handle : Nat) (c : κ)
  | close (handle : Nat)
  /-- Opens the file, if no handle on it is open, and registers the new handle. -/
  | opening (coordinator : Nat)
  /-- Something else is registered, whose release does nothing to the file. -/
  | enlist (coordinator : Nat)
  | shutdown (coordinator : Nat)
  deriving DecidableEq, Repr

/-- A file of tables with all the handles that were opened on it. -/
structure OnFile (τ : Type) where
  /-- What the open handle shows, or what the file has if none is open. -/
  tables : τ
  links : List (Link τ)
  /-- What each coordinator has to release: a handle, or something else. -/
  releases : Nat → Releases (Option Nat)

namespace OnFile

open Callable

variable {τ : Type} {p : OnFile τ} {handle : Nat}

/-- A file that was never opened. -/
def unopened (t : τ) : OnFile τ := ⟨t, [], fun _ => .none⟩

/-- The store as a handle shows it, if there is such a handle. -/
def store? (p : OnFile τ) (handle : Nat) : Option (Store τ) :=
  p.links[handle]?.map fun link => ⟨p.tables, link⟩

/-- Whether the handle was opened and is open. -/
def isOpen (p : OnFile τ) (handle : Nat) : Bool := (p.store? handle).any Store.isOpen

/-- Which of the handles are open. -/
def opens (p : OnFile τ) : List Bool := p.links.map fun link => Store.isOpen ⟨p.tables, link⟩

/-- Does something with a handle, if it was opened. -/
def through (p : OnFile τ) (handle : Nat) (act : Store τ → Store τ) : OnFile τ :=
  match p.store? handle with
  | some s => { p with tables := (act s).tables, links := p.links.set handle (act s).link }
  | none => p

/-- Closes a handle. -/
def close (p : OnFile τ) (handle : Nat) : OnFile τ := p.through handle Store.close

/-- Does a release, which closes a handle or does nothing. -/
def release (p : OnFile τ) : Option Nat → OnFile τ
  | some handle => p.close handle
  | none => p

/-- Leaves a release with a coordinator. -/
def register (p : OnFile τ) (coordinator : Nat) (r : Option Nat) : OnFile τ :=
  { p with
    releases := Function.update p.releases coordinator ((p.releases coordinator).register r) }

section Acts

variable [Tables τ] [Callable τ]

/-- What an act leaves. -/
def step (p : OnFile τ) : Act (Call τ) → OnFile τ
  | .call handle c => p.through handle fun s => (s.run (op c)).2
  | .close handle => p.close handle
  | .opening coordinator =>
      if p.opens.any id then p
      else
        match openAt (.file p.tables) with
        | .ok s =>
            { p.register coordinator (some p.links.length) with
              tables := s.tables, links := p.links ++ [s.link] }
        | .error _ => p
  | .enlist coordinator => p.register coordinator none
  | .shutdown coordinator =>
      let (after, left) :=
        (p.releases coordinator).shutdown (fun r world => (world.release r, [])) p
      { after with releases := Function.update after.releases coordinator left }

/-- What acts leave, one after the other. -/
def after (p : OnFile τ) (acts : List (Act (Call τ))) : OnFile τ := acts.foldl step p

/-- What is replied to a call on a handle that was opened. -/
def reply? (p : OnFile τ) : Act (Call τ) → Option ((c : Call τ) × Except Error (Answer c))
  | .call handle c => (p.store? handle).map fun s => ⟨c, (s.run (op c)).1⟩
  | _ => none

/-- What is replied to a call on an open handle. -/
def told? (p : OnFile τ) : Act (Call τ) → Option ((c : Call τ) × Except Error (Answer c))
  | .call handle c => if p.isOpen handle then p.reply? (.call handle c) else none
  | _ => none

/-- What is replied to the calls that are made on open handles. -/
def told (p : OnFile τ) : List (Act (Call τ)) → List ((c : Call τ) × Except Error (Answer c))
  | [] => []
  | a :: acts => (p.told? a).toList ++ (p.step a).told acts

end Acts

end OnFile

-- ============================================================ who has the file

/-- A handle, as far as what was done tells of it. -/
structure Holder where
  coordinator : Nat
  isOpen : Bool
  deriving DecidableEq, Repr

/-- The handle, open if it was and stays so. -/
def Holder.still (h : Holder) (stays : Bool) : Holder := { h with isOpen := h.isOpen && stays }

@[simp] theorem Holder.still_true (h : Holder) : h.still true = h := by
  rw [still, Bool.and_true]

section Holders

variable {κ : Type}

/-- The handles after something was done. -/
def Act.change (hs : List Holder) : Act κ → List Holder
  | .call .. | .enlist _ => hs
  | .close handle => hs.modify handle (·.still false)
  | .opening coordinator => if hs.any (·.isOpen) then hs else hs ++ [⟨coordinator, true⟩]
  | .shutdown coordinator => hs.map fun h => h.still (h.coordinator ≠ coordinator)

/-- The call that is made on an open handle. -/
def Act.issued? (hs : List Holder) : Act κ → Option κ
  | .call handle c => if hs[handle]?.any (·.isOpen) then some c else none
  | _ => none

/-- The handles that were opened. -/
def holders (acts : List (Act κ)) : List Holder := acts.foldl Act.change []

/-- The calls that are made on open handles. -/
def issued (hs : List Holder) : List (Act κ) → List κ
  | [] => []
  | a :: acts => (a.issued? hs).toList ++ issued (a.change hs) acts

end Holders

namespace OnFile

open Callable

-- ============================================================ handles and acts

section Handles

variable {τ : Type} {p : OnFile τ} {handle : Nat} {act : Store τ → Store τ}

/-- A handle is open if it is listed as open. -/
theorem isOpen_eq (p : OnFile τ) (handle : Nat) : p.isOpen handle = p.opens[handle]?.any id := by
  unfold isOpen store? opens
  rw [List.getElem?_map]
  cases p.links[handle]? <;> rfl

/-- A handle that was given out and is not open is closed. -/
theorem getElem?_of_isOpen_false (hlt : handle < p.links.length) (h : p.isOpen handle = false) :
    p.links[handle]? = some .closed := by
  unfold isOpen store? at h
  rw [List.getElem?_eq_getElem hlt] at h ⊢
  cases hclosed : p.links[handle] with
  | closed => rfl
  | _ =>
      rw [hclosed] at h
      cases h

/-- What does nothing to a closed handle does nothing through a handle that is not open. -/
theorem through_of_isOpen_false (h : p.isOpen handle = false)
    (hact : ∀ t, act ⟨t, .closed⟩ = ⟨t, .closed⟩) : p.through handle act = p := by
  unfold through store?
  by_cases hlt : handle < p.links.length
  · obtain ⟨_, hlink⟩ := List.getElem?_eq_some_iff.1 (getElem?_of_isOpen_false hlt h)
    rw [List.getElem?_eq_getElem hlt, hlink, Option.map_some]
    simp only [hact]
    rw [← hlink, List.set_getElem_self]
  · rw [List.getElem?_eq_none (Nat.le_of_not_lt hlt), Option.map_none]

private theorem releases_through : (p.through handle act).releases = p.releases := by
  unfold through
  cases p.store? handle <;> rfl

/-- Only the handle that something is done with can be opened or closed by it. -/
theorem getElem?_opens_through (handle' : Nat) :
    (p.through handle act).opens[handle']?
      = if handle' = handle then (p.store? handle).map fun s => (act s).isOpen
        else p.opens[handle']? := by
  unfold through opens
  cases hstore : p.store? handle with
  | none =>
      by_cases h : handle' = handle
      · rw [if_pos h, h, List.getElem?_map, Option.map_eq_none_iff.1 hstore]
        rfl
      · rw [if_neg h]
  | some s =>
      have hlt : handle < p.links.length := by
        obtain ⟨link, hlink, -⟩ := Option.map_eq_some_iff.1 hstore
        exact (List.getElem?_eq_some_iff.1 hlink).1
      rw [List.getElem?_map, List.getElem?_set]
      by_cases h : handle' = handle
      · rw [if_pos h, if_pos h.symm, if_pos hlt]
        rfl
      · rw [if_neg h, if_neg (Ne.symm h), List.getElem?_map]
        rfl

/-- What neither opens a handle nor closes it. -/
theorem opens_through (hact : ∀ s, (act s).isOpen = s.isOpen) :
    (p.through handle act).opens = p.opens := by
  apply List.ext_getElem?
  intro handle'
  rw [getElem?_opens_through]
  by_cases h : handle' = handle
  · rw [if_pos h, h]
    unfold store? opens
    rw [List.getElem?_map, Option.map_map]
    exact congrArg (Option.map · _) (funext fun link => hact _)
  · rw [if_neg h]

/-- Closing a handle closes this one only. -/
private theorem getElem?_opens_close (handle' : Nat) :
    (p.close handle).opens[handle']?
      = p.opens[handle']?.map fun isOpen => isOpen && decide (handle' ≠ handle) := by
  unfold close
  rw [getElem?_opens_through]
  by_cases h : handle' = handle
  · rw [if_pos h, h]
    unfold store? opens
    rw [List.getElem?_map]
    cases p.links[handle]? <;> simp [Store.isOpen, Store.close]
  · rw [if_neg h]
    simp [h]

/-- After a shutdown those handles are open that were and did not wait to be released. -/
theorem getElem?_opens_foldl_release (pending : List (Option Nat)) (handle' : Nat) :
    (pending.foldl release p).opens[handle']?
      = p.opens[handle']?.map fun isOpen => isOpen && decide (some handle' ∉ pending) := by
  induction pending generalizing p with
  | nil => simp
  | cons r pending ih =>
      rw [List.foldl_cons, ih]
      cases r with
      | none => simp [release]
      | some handle =>
          rw [release, getElem?_opens_close, Option.map_map]
          refine congrArg (Option.map · _) (funext fun isOpen => ?_)
          by_cases h : handle' = handle <;> simp [h]

/-- Running releases registers none. -/
private theorem releases_foldl_release (pending : List (Option Nat)) :
    (pending.foldl release p).releases = p.releases := by
  induction pending generalizing p with
  | nil => rfl
  | cons r pending ih =>
      rw [List.foldl_cons, ih]
      cases r with
      | none => rfl
      | some handle => exact releases_through

end Handles

-- ================================================================= who is open

section Openness

variable {τ : Type} {p p' : OnFile τ} {hs hs' : List Holder}

/-- Registering adds one release, at its own coordinator. -/
private theorem mem_pending_register {coordinator coordinator' : Nat} {r r' : Option Nat} :
    r' ∈ ((p.register coordinator r).releases coordinator').pending
      ↔ r' ∈ (p.releases coordinator').pending ∨ coordinator' = coordinator ∧ r' = r := by
  by_cases h : coordinator' = coordinator
  · simp [register, h, Releases.register]
  · simp [register, h]

/-- The handles are those that what was done tells of, and each that is open waits to be
released by the coordinator it was registered with. -/
structure Agrees (p : OnFile τ) (hs : List Holder) : Prop where
  opens_eq : p.opens = hs.map Holder.isOpen
  waits : ∀ {handle coordinator}, hs[handle]? = some ⟨coordinator, true⟩ →
    some handle ∈ (p.releases coordinator).pending
  registered : ∀ {handle coordinator}, some handle ∈ (p.releases coordinator).pending →
    hs[handle]?.map Holder.coordinator = some coordinator

/-- A file that was never opened has no holders. -/
theorem agrees_unopened (t : τ) : Agrees (unopened t) [] where
  opens_eq := rfl
  waits h := nomatch h
  registered h := nomatch h

/-- An open handle waits for the coordinator that it was registered at, and for no other. -/
private theorem Agrees.mem_pending_iff (h : Agrees p hs) {handle coordinator coordinator' : Nat}
    (hopen : hs[handle]? = some ⟨coordinator, true⟩) :
    some handle ∈ (p.releases coordinator').pending ↔ coordinator = coordinator' := by
  constructor
  · intro hwaits
    have hregistered := h.registered hwaits
    rw [hopen] at hregistered
    exact Option.some.inj hregistered
  · rintro rfl
    exact h.waits hopen

/-- A handle is open if its holder is. -/
theorem Agrees.isOpen_eq (h : Agrees p hs) (handle : Nat) :
    p.isOpen handle = hs[handle]?.any Holder.isOpen := by
  rw [OnFile.isOpen_eq, h.opens_eq, List.getElem?_map]
  cases hs[handle]? <;> rfl

/-- Only the handles and the releases matter for the holders. -/
private theorem Agrees.congr (h : Agrees p hs) (hopens : p'.opens = p.opens)
    (hreleases : p'.releases = p.releases) : Agrees p' hs where
  opens_eq := hopens.trans h.opens_eq
  waits hopen := by
    rw [hreleases]
    exact h.waits hopen
  registered hwaits := by
    rw [hreleases] at hwaits
    exact h.registered hwaits

/-- Some handles are closed, and none of those that stay open is released. -/
theorem Agrees.keep {stays : Nat → Bool} (h : Agrees p hs)
    (hopens : ∀ handle : Nat, p'.opens[handle]? = p.opens[handle]?.map (· && stays handle))
    (hhs : ∀ handle : Nat, hs'[handle]? = hs[handle]?.map (·.still (stays handle)))
    (hreleases : ∀ handle coordinator, some handle ∈ (p'.releases coordinator).pending →
      some handle ∈ (p.releases coordinator).pending)
    (hstays : ∀ handle coordinator, stays handle = true →
      some handle ∈ (p.releases coordinator).pending →
      some handle ∈ (p'.releases coordinator).pending) : Agrees p' hs' := by
  constructor
  · apply List.ext_getElem?
    intro handle
    rw [hopens, h.opens_eq, List.getElem?_map, List.getElem?_map, hhs]
    cases hs[handle]? <;> rfl
  · intro handle coordinator hopen
    rw [hhs, Option.map_eq_some_iff] at hopen
    obtain ⟨holder, hholder, heq⟩ := hopen
    obtain ⟨hcoordinator, hboth⟩ := Holder.mk.inj heq
    obtain ⟨hopen, hstay⟩ := Bool.and_eq_true_iff.1 hboth
    refine hstays handle coordinator hstay (h.waits ?_)
    rw [hholder, ← hcoordinator, ← hopen]
  · intro handle coordinator hwaits
    rw [hhs, Option.map_map]
    exact h.registered (hreleases handle coordinator hwaits)

/-- On a file that no handle is open on another is opened. -/
theorem Agrees.opening (h : Agrees p hs) (coordinator : Nat) :
    Agrees { p.register coordinator (some p.links.length) with
        links := p.links ++ [.steady] } (hs ++ [⟨coordinator, true⟩]) := by
  have hlen : p.links.length = hs.length := by
    have hopens := congrArg List.length h.opens_eq
    rwa [opens, List.length_map, List.length_map] at hopens
  constructor
  · show List.map _ (p.links ++ [.steady]) = _
    rw [List.map_append, List.map_append]
    exact congrArg (· ++ [true]) h.opens_eq
  · intro handle coordinator' hopen
    -- the new handle is the one that was registered last
    refine mem_pending_register.2 ?_
    rw [List.getElem?_append] at hopen
    split at hopen
    · exact Or.inl (h.waits hopen)
    · next hlast =>
        obtain ⟨hzero, hholder⟩ := List.getElem?_eq_some_iff.1 hopen
        rw [List.length_singleton, Nat.lt_one_iff] at hzero
        simp only [List.getElem_singleton, Holder.mk.injEq, and_true] at hholder
        refine Or.inr ⟨hholder.symm, congrArg some ?_⟩
        omega
  · intro handle coordinator' hwaits
    rcases mem_pending_register.1 hwaits with hwaits | ⟨rfl, hhandle⟩
    · have hold := h.registered hwaits
      obtain ⟨holder, hholder, hcoordinator⟩ := Option.map_eq_some_iff.1 hold
      rw [List.getElem?_append_left (List.getElem?_eq_some_iff.1 hholder).1]
      exact hold
    · obtain rfl := Option.some.inj hhandle
      rw [hlen, List.getElem?_concat_length]
      rfl

/-- Registering a release that closes nothing changes no holder. -/
private theorem Agrees.enlist (h : Agrees p hs) (coordinator : Nat) :
    Agrees (p.register coordinator none) hs where
  opens_eq := h.opens_eq
  waits hopen := mem_pending_register.2 (Or.inl (h.waits hopen))
  registered hwaits := h.registered
    ((mem_pending_register.1 hwaits).resolve_right fun hnone => nomatch hnone.2)

variable [Tables τ] [Callable τ]

/-- A shutdown runs the pending releases of its coordinator and forgets them. -/
theorem step_shutdown (coordinator : Nat) :
    p.step (.shutdown coordinator)
      = { (p.releases coordinator).pending.foldl release p with
          releases := Function.update p.releases coordinator .none } := by
  have hrel := releases_foldl_release (p := p) (p.releases coordinator).pending
  rw [step, Releases.shutdown_eq release]
  dsimp only
  rw [hrel]

/-- Whatever is done, it is known which handles are open. -/
theorem Agrees.step (hguarded : ∀ c : Call τ, Guarded (op c)) (h : Agrees p hs)
    (a : Act (Call τ)) : Agrees (p.step a) (a.change hs) := by
  cases a with
  | call handle c => exact h.congr (opens_through (hguarded c).isOpen_run) releases_through
  | close handle =>
      have hrel : (p.step (.close handle)).releases = p.releases := releases_through
      refine h.keep getElem?_opens_close (fun handle' => ?_) (fun _ _ => ?_) fun _ _ _ => ?_
      · unfold Act.change
        rw [List.getElem?_modify]
        by_cases heq : handle = handle' <;> cases hs[handle']? <;> simp [heq, eq_comm]
      · rw [hrel]
        exact id
      · rw [hrel]
        exact id
  | opening coordinator =>
      -- both sides refuse to open the file while a handle is open
      have hany : p.opens.any id = hs.any Holder.isOpen := by
        rw [h.opens_eq, List.any_map]
        rfl
      rw [OnFile.step, Act.change, hany]
      by_cases hopen : hs.any Holder.isOpen = true
      · rw [if_pos hopen, if_pos hopen]
        exact h
      · rw [if_neg hopen, if_neg hopen]
        exact h.opening coordinator
  | enlist coordinator => exact h.enlist coordinator
  | shutdown coordinator =>
      rw [step_shutdown]
      -- what is pending at a coordinator are the open handles that were registered there
      refine h.keep (getElem?_opens_foldl_release _) (fun handle => ?_)
        (fun handle coordinator' => ?_)
        fun handle coordinator' hstays => ?_
      · rw [Act.change, List.getElem?_map]
        cases hholder : hs[handle]? with
        | none => rfl
        | some holder =>
            obtain ⟨coordinator', _ | _⟩ := holder
            · rfl
            · simp [h.mem_pending_iff hholder]
      · by_cases heq : coordinator' = coordinator
        · simp [heq, Releases.none]
        · simp [heq]
      · by_cases heq : coordinator' = coordinator
        · rw [heq]
          exact fun hwaits => absurd hwaits (of_decide_eq_true hstays)
        · simp [heq]

end Openness

end OnFile

end Store

end MergedMining
