/-
What the settled store answers about a withdraw, by the calls that were made.

A withdraw can be recorded many times: by the first call that names it, then, once it
was removed or the store reset, by the next. What is answered is what the last of these
said, whatever other withdraws its batch had and whatever became of them. The proof goes
over the calls one by one: each is a step that records, drops, clears or does nothing of
the kind, and the question which call counts is answered along the way.
-/
import MergedMining.Proofs.Records.Keyed
import MergedMining.Proofs.Settled.Linkage
import MergedMining.Proofs.Store.Sessions

namespace MergedMining

open Store

namespace SettledStore

variable {s : SettledStore}

-- =================================================================== operations

/-- A store that only the program has touched, whose handle was opened and works. -/
structure Untouched (s : SettledStore) : Prop where
  link : s.link = .steady
  deposits : s.tables.deposits = .endless s.tables.deposits.rows
  linked : s.tables.Linked

/-- A new store is untouched. -/
theorem untouched_create : Untouched (Store.create : SettledStore) where
  link := rfl
  deposits := rfl
  linked := ⟨rfl, List.nodup_nil, fun _ h => (nomatch h), fun _ h => (nomatch h),
    fun _ h => (nomatch h)⟩

/-- Withdraws are added as rows that share one payout. -/
private theorem run_addWithdraws (h : Untouched s) (hashes : List String) (payout : Bytes)
    (succeeded : Bool) :
    ∃ added rows, s.run (addWithdraws hashes payout succeeded)
        = (.ok added, ⟨s.tables.withPayout rows payout, .steady⟩)
      ∧ s.tables.Additions hashes succeeded rows := by
  obtain ⟨added, rows, hsettle, -, hrows⟩ :=
    SettledTables.settle_eq h.linked.withdraws hashes payout succeeded
  exact ⟨added, rows, run_of_commit h.link (by rw [hsettle]), hrows⟩

/-- A withdraw is recorded on its own as it is in a batch of one. -/
theorem run_addWithdraw (hash : String) (payout : Bytes) (succeeded : Bool) :
    (s.run (addWithdraw hash payout succeeded)).2
      = (s.run (addWithdraws [hash] payout succeeded)).2 := by
  show ((addWithdraws [hash] payout succeeded >>= _).run.run s).2
    = ((addWithdraws [hash] payout succeeded).run.run s).2
  rw [Outcome.run_bind]
  rcases (addWithdraws [hash] payout succeeded).run.run s with ⟨cause | added, after⟩
  · rfl
  · dsimp only
    split <;> rfl

/-- What is done to deposits leaves the withdraws and their payouts alone. -/
theorem run_addDeposit (h : Untouched s) (deposit : Deposit) :
    ∃ rows, (s.run (addDeposit deposit)).2
      = ⟨{ s.tables with deposits := .endless rows }, .steady⟩ := by
  by_cases htaken : s.tables.deposits.rows.any (DepositRow.clash (.ofDeposit deposit)) = true
  · refine ⟨s.tables.deposits.rows, ?_⟩
    rw [addDeposit, depositTable.run_add_of_taken h.link h.deposits htaken, ← h.deposits, ← h.link]
  · exact ⟨_, congrArg Prod.snd (depositTable.run_add_of_free h.link h.deposits htaken _)⟩

private theorem run_addDeposits (h : Untouched s) (all : List Deposit) :
    ∃ rows, (s.run (addDeposits all)).2
      = ⟨{ s.tables with deposits := .endless rows }, .steady⟩ :=
  ⟨_, congrArg Prod.snd (depositTable.run_addAll h.link h.deposits _)⟩

private theorem run_removeDeposits (h : Untouched s) (keys : List (String × String)) :
    ∃ rows, (s.run (removeDeposits keys)).2
      = ⟨{ s.tables with deposits := .endless rows }, .steady⟩ :=
  ⟨_, congrArg Prod.snd (depositTable.run_removeAll h.link h.deposits _ keys)⟩

-- ====================================================================== calls

/-- A call of the settled store. -/
inductive Call where
  | addWithdraw (hash : String) (payout : Bytes) (succeeded : Bool)
  | addWithdraws (hashes : List String) (payout : Bytes) (succeeded : Bool)
  | removeWithdraw (hash : String)
  | removeWithdraws (hashes : List String)
  | containsWithdraw (hash : String)
  | withdraw? (hash : String)
  | withdraws (succeeded : Bool)
  | addDeposit (deposit : Deposit)
  | addDeposits (deposits : List Deposit)
  | removeDeposit (hash genesis : String)
  | removeDeposits (keys : List (String × String))
  | containsDeposit (hash genesis : String)
  | depositsWithHash (hash : String)
  | deposits (succeeded : Bool)
  | reset
  deriving DecidableEq, Repr

namespace Call

/-- What a call answers with. -/
def Answer : Call → Type
  | .addWithdraws .. | .addDeposits _ => List Bool
  | .containsWithdraw _ | .containsDeposit .. => Bool
  | .withdraw? _ => Option Withdraw
  | .withdraws _ => List Withdraw
  | .depositsWithHash _ | .deposits _ => List Deposit
  | .addWithdraw .. | .removeWithdraw _ | .removeWithdraws _ | .addDeposit _ | .removeDeposit ..
  | .removeDeposits _ | .reset => Unit

/-- What a call does. -/
def op : (c : Call) → Op SettledTables c.Answer
  | .addWithdraw hash payout succeeded => SettledStore.addWithdraw hash payout succeeded
  | .addWithdraws hashes payout succeeded => SettledStore.addWithdraws hashes payout succeeded
  | .removeWithdraw hash => SettledStore.removeWithdraw hash
  | .removeWithdraws hashes => SettledStore.removeWithdraws hashes
  | .containsWithdraw hash => SettledStore.containsWithdraw hash
  | .withdraw? hash => SettledStore.withdraw? hash
  | .withdraws succeeded => SettledStore.withdraws succeeded
  | .addDeposit deposit => SettledStore.addDeposit deposit
  | .addDeposits all => SettledStore.addDeposits all
  | .removeDeposit hash genesis => SettledStore.removeDeposit hash genesis
  | .removeDeposits keys => SettledStore.removeDeposits keys
  | .containsDeposit hash genesis => SettledStore.containsDeposit hash genesis
  | .depositsWithHash hash => SettledStore.depositsWithHash hash
  | .deposits succeeded => SettledStore.deposits succeeded
  | .reset => Op.reset

/-- The store behind a call. -/
def perform (s : SettledStore) : Call → SettledStore
  | .addWithdraw hash payout succeeded => (s.run (SettledStore.addWithdraw hash payout succeeded)).2
  | .addWithdraws hashes payout succeeded =>
      (s.run (SettledStore.addWithdraws hashes payout succeeded)).2
  | .removeWithdraw hash => (s.run (SettledStore.removeWithdraw hash)).2
  | .removeWithdraws hashes => (s.run (SettledStore.removeWithdraws hashes)).2
  | .containsWithdraw hash => (s.run (SettledStore.containsWithdraw hash)).2
  | .withdraw? hash => (s.run (SettledStore.withdraw? hash)).2
  | .withdraws succeeded => (s.run (SettledStore.withdraws succeeded)).2
  | .addDeposit deposit => (s.run (SettledStore.addDeposit deposit)).2
  | .addDeposits all => (s.run (SettledStore.addDeposits all)).2
  | .removeDeposit hash genesis => (s.run (SettledStore.removeDeposit hash genesis)).2
  | .removeDeposits keys => (s.run (SettledStore.removeDeposits keys)).2
  | .containsDeposit hash genesis => (s.run (SettledStore.containsDeposit hash genesis)).2
  | .depositsWithHash hash => (s.run (SettledStore.depositsWithHash hash)).2
  | .deposits succeeded => (s.run (SettledStore.deposits succeeded)).2
  | .reset => (s.run Op.reset).2

/-- Whether a call says of a withdraw that it was settled by a payout. -/
def Records (hash : String) (payout : Bytes) (succeeded : Bool) : Call → Prop
  | .addWithdraw one payout' succeeded' => hash = one ∧ payout = payout' ∧ succeeded = succeeded'
  | .addWithdraws all payout' succeeded' => hash ∈ all ∧ payout = payout' ∧ succeeded = succeeded'
  | _ => False

/-- Whether a call drops what is recorded of a withdraw. -/
def Clears (hash : String) : Call → Prop
  | .removeWithdraw one => hash = one
  | .removeWithdraws all => hash ∈ all
  | .reset => True
  | _ => False

/-- What a call can do to the tables. -/
inductive Turns (c : Call) (t : SettledTables) : SettledTables → Prop where
  | settle {hashes : List String} {payout : Bytes} {succeeded : Bool} {rows : List WithdrawRow}
      (hrows : t.Additions hashes succeeded rows)
      (hrecords : ∀ hash payout' succeeded', c.Records hash payout' succeeded'
        ↔ hash ∈ hashes ∧ payout' = payout ∧ succeeded' = succeeded)
      (hclears : ∀ hash, ¬c.Clears hash) : Turns c t (t.withPayout rows payout)
  | drop {hashes : List String}
      (hrecords : ∀ hash payout succeeded, ¬c.Records hash payout succeeded)
      (hclears : ∀ hash, c.Clears hash ↔ hash ∈ hashes) : Turns c t (t.forget hashes)
  | reset (hrecords : ∀ hash payout succeeded, ¬c.Records hash payout succeeded)
      (hclears : ∀ hash, c.Clears hash) : Turns c t Tables.empty
  /-- Withdraws are left as they are. -/
  | aside {deposits : List DepositRow}
      (hrecords : ∀ hash payout succeeded, ¬c.Records hash payout succeeded)
      (hclears : ∀ hash, ¬c.Clears hash) : Turns c t { t with deposits := .endless deposits }

private theorem perform_eq (s : SettledStore) (c : Call) : c.perform s = (s.run c.op).2 := by
  cases c <;> rfl

-- ---------------------------------------------------------------------- kinds

/-- A call says nothing of any withdraw. -/
structure Silent (c : Call) : Prop where
  records : ∀ hash payout succeeded, ¬c.Records hash payout succeeded
  clears : ∀ hash, ¬c.Clears hash

/-- What the operation of a call is, with what the call says of withdraws. -/
inductive Kind (c : Call) : {α : Type} → Op SettledTables α → Prop where
  | query {α : Type} (look : SettledTables → Except Store.Error α) (silent : c.Silent) :
      Kind c (Op.query look)
  /-- It is about deposits. -/
  | deposits {α : Type} {op : Op SettledTables α} (guarded : Guarded op)
      (run : ∀ {s : SettledStore}, Untouched s →
        ∃ rows, (s.run op).2 = ⟨{ s.tables with deposits := .endless rows }, .steady⟩)
      (silent : c.Silent) : Kind c op
  | settle {hashes : List String} {payout : Bytes} {succeeded : Bool}
      (hrecords : ∀ hash payout' succeeded', c.Records hash payout' succeeded'
        ↔ hash ∈ hashes ∧ payout' = payout ∧ succeeded' = succeeded)
      (hclears : ∀ hash, ¬c.Clears hash) :
        Kind c (SettledStore.addWithdraws hashes payout succeeded)
  | settleOne {one : String} {payout : Bytes} {succeeded : Bool}
      (hrecords : ∀ hash payout' succeeded', c.Records hash payout' succeeded'
        ↔ hash = one ∧ payout' = payout ∧ succeeded' = succeeded)
      (hclears : ∀ hash, ¬c.Clears hash) :
        Kind c (SettledStore.addWithdraw one payout succeeded)
  | drop {hashes : List String}
      (hrecords : ∀ hash payout succeeded, ¬c.Records hash payout succeeded)
      (hclears : ∀ hash, c.Clears hash ↔ hash ∈ hashes) :
        Kind c (SettledStore.removeWithdraws hashes)
  | reset (hrecords : ∀ hash payout succeeded, ¬c.Records hash payout succeeded)
      (hclears : ∀ hash, c.Clears hash) : Kind c Op.reset

/-- Of which kind each call is. -/
theorem kind (c : Call) : c.Kind c.op := by
  cases c with
  | addWithdraw hash payout succeeded =>
      exact .settleOne (fun _ _ _ => Iff.rfl) fun _ h => h
  | addWithdraws hashes payout succeeded => exact .settle (fun _ _ _ => Iff.rfl) fun _ h => h
  | removeWithdraw hash => exact .drop (fun _ _ _ h => h) fun _ => List.mem_singleton.symm
  | removeWithdraws hashes => exact .drop (fun _ _ _ h => h) fun _ => Iff.rfl
  | addDeposit deposit =>
      dsimp only [op]
      exact .deposits (depositTable.guarded_add _ _) (run_addDeposit · deposit)
        ⟨fun _ _ _ h => h, fun _ h => h⟩
  | addDeposits all =>
      dsimp only [op]
      exact .deposits (depositTable.guarded_addAll _) (run_addDeposits · all)
        ⟨fun _ _ _ h => h, fun _ h => h⟩
  | removeDeposit hash genesis =>
      dsimp only [op]
      exact .deposits (depositTable.guarded_removeAll _ _) (run_removeDeposits · [(hash, genesis)])
        ⟨fun _ _ _ h => h, fun _ h => h⟩
  | removeDeposits keys =>
      dsimp only [op]
      exact .deposits (depositTable.guarded_removeAll _ _) (run_removeDeposits · keys)
        ⟨fun _ _ _ h => h, fun _ h => h⟩
  | reset => exact .reset (fun _ _ _ h => h) fun _ => trivial
  | containsWithdraw | withdraw? | withdraws | containsDeposit | depositsWithHash | deposits =>
      dsimp only [op]
      exact .query _ ⟨fun _ _ _ h => h, fun _ h => h⟩

variable {c : Call}

namespace Kind

variable {α : Type} {op : Op SettledTables α}

/-- No call of any kind changes a store that it fails on. -/
theorem guarded (h : c.Kind op) : Guarded op := by
  cases h with
  | query look => exact Guarded.statement _
  | deposits guarded => exact guarded
  | settle => exact Guarded.transaction _
  | @settleOne one payout succeeded =>
      have hbatch : Guarded (SettledStore.addWithdraws [one] payout succeeded) :=
        Guarded.transaction _
      refine hbatch.bind fun added s => ?_
      split <;> rfl
  | drop => exact Guarded.update _
  | reset => exact Guarded.update _

/-- What an operation leaves. -/
theorem turns (hkind : c.Kind op) (h : Untouched s) :
    ∃ t, (s.run op).2 = ⟨t, .steady⟩ ∧ c.Turns s.tables t := by
  cases hkind with
  | query look silent =>
      refine ⟨{ s.tables with deposits := .endless s.tables.deposits.rows }, ?_,
        .aside silent.records silent.clears⟩
      rw [run_query h.link, ← h.deposits, ← h.link]
  | deposits guarded run silent =>
      obtain ⟨rows, hrun⟩ := run h
      exact ⟨_, hrun, .aside silent.records silent.clears⟩
  | @settle hashes payout succeeded hrecords hclears =>
      obtain ⟨added, rows, hrun, hrows⟩ := run_addWithdraws h hashes payout succeeded
      exact ⟨_, congrArg Prod.snd hrun, .settle hrows hrecords hclears⟩
  | @settleOne one payout succeeded hrecords hclears =>
      obtain ⟨added, rows, hrun, hrows⟩ := run_addWithdraws h [one] payout succeeded
      refine ⟨_, (run_addWithdraw one payout succeeded).trans (congrArg Prod.snd hrun),
        .settle hrows (fun hash payout' succeeded' => ?_) hclears⟩
      rw [hrecords, List.mem_singleton]
  | @drop hashes hrecords hclears =>
      exact ⟨_, congrArg Prod.snd (run_update h.link _), .drop hrecords hclears⟩
  | reset hrecords hclears =>
      exact ⟨_, congrArg Prod.snd (run_update h.link _), .reset hrecords hclears⟩

end Kind

private theorem perform_turns (h : Untouched s) (c : Call) :
    ∃ t, c.perform s = ⟨t, .steady⟩ ∧ c.Turns s.tables t := by
  rw [perform_eq]
  exact c.kind.turns h

namespace Turns

variable {t t' : SettledTables} {hash : String}

/-- What a call turns the tables into is untouched by anything else. -/
private theorem untouched (ht : c.Turns s.tables t) (h : Untouched s) : Untouched ⟨t, .steady⟩ := by
  cases ht with
  | settle hrows => exact ⟨rfl, h.deposits, h.linked.withPayout hrows⟩
  | drop => exact ⟨rfl, h.deposits, h.linked.forget _⟩
  | reset => exact untouched_create
  | aside =>
      obtain ⟨hwithdraws, hnumbers, hbelow, hpoints, hpointed⟩ := h.linked
      exact ⟨rfl, rfl, hwithdraws, hnumbers, hbelow, hpoints, hpointed⟩

/-- What is recorded of a withdraw was recorded before and is not dropped, or is what the
call says, if nothing was recorded. -/
theorem find?_eq_some (ht : c.Turns t t') (h : t.Linked) {w : Withdraw} :
    t'.find? hash = some w
      ↔ ¬c.Clears hash ∧ t.find? hash = some w
        ∨ t.find? hash = none ∧ w.hash = hash ∧ c.Records hash w.payout w.succeeded := by
  cases ht with
  | settle hrows hrecords hclears =>
      rw [h.find?_withPayout hrows, hrecords, and_iff_right (hclears hash)]
      refine or_congr_right (and_congr_right fun _ => ?_)
      constructor
      · intro hw
        obtain ⟨hmem, rfl⟩ := hw
        exact ⟨rfl, hmem, rfl, rfl⟩
      · intro hw
        obtain ⟨rfl, hmem, rfl, rfl⟩ := hw
        exact ⟨hmem, rfl⟩
  | drop hrecords hclears =>
      rw [h.find?_forget, hclears]
      split
      · next hmem =>
          refine iff_of_false (fun hw => (nomatch hw)) fun hw => ?_
          exact hw.elim (fun hw => hw.1 hmem) fun hw => hrecords _ _ _ hw.2.2
      · next hmem =>
          refine ⟨fun hw => Or.inl ⟨hmem, hw⟩, fun hw => ?_⟩
          exact hw.elim And.right fun hw => absurd hw.2.2 (hrecords _ _ _)
  | reset hrecords hclears =>
      refine iff_of_false (fun hw => (nomatch hw)) fun hw => ?_
      exact hw.elim (fun hw => hw.1 (hclears hash)) fun hw => hrecords _ _ _ hw.2.2
  | aside hrecords hclears =>
      rw [and_iff_right (hclears hash)]
      exact ⟨Or.inl, fun hw => hw.resolve_right fun hw => hrecords _ _ _ hw.2.2⟩

end Turns

end Call

-- ==================================================================== history

/-- The store after these calls of a new one. -/
def after (calls : List Call) : SettledStore :=
  calls.foldl Call.perform Store.create

/-- Whether one of the calls is such, and none behind it clears the withdraw. -/
def Since (such : List Call → Call → Prop) (hash : String) (calls : List Call) : Prop :=
  ∃ before call later, calls = before ++ call :: later ∧ such before call
    ∧ ∀ c ∈ later, ¬c.Clears hash

/-- Whether a withdraw was recorded, and neither removed nor lost in a reset since. -/
def Known (calls : List Call) (hash : String) : Prop :=
  Since (fun _ call => ∃ payout succeeded, call.Records hash payout succeeded) hash calls

/-- Whether this is what the call said that recorded the withdraw after it was last removed
or the store was last reset. -/
def RecordedAs (calls : List Call) (w : Withdraw) : Prop :=
  Since (fun before call => ¬Known before w.hash ∧ call.Records w.hash w.payout w.succeeded)
    w.hash calls

/-- Something happened since the last clearing if the last call is such, or does not clear and it
had happened. -/
private theorem since_concat {such : List Call → Call → Prop} {hash : String} {calls : List Call}
    {c : Call} :
    Since such hash (calls ++ [c]) ↔ such calls c ∨ ¬c.Clears hash ∧ Since such hash calls :=
  Store.since_concat

private theorem not_since_nil {such : List Call → Call → Prop} {hash : String} :
    ¬Since such hash [] :=
  Store.not_since_nil

/-- The store goes with the calls that were made. -/
structure Tracks (calls : List Call) (s : SettledStore) : Prop where
  untouched : Untouched s
  known : ∀ hash, (s.tables.find? hash).isSome = true ↔ Known calls hash
  recorded : ∀ hash w, s.tables.find? hash = some w ↔ w.hash = hash ∧ RecordedAs calls w

variable {calls : List Call}

/-- A call that says something of a withdraw drops nothing of it. -/
theorem Call.not_clears_of_records {c : Call} {hash : String} {payout : Bytes} {succeeded : Bool}
    (h : c.Records hash payout succeeded) : ¬c.Clears hash := by
  cases c with
  | addWithdraw => exact fun h => h
  | addWithdraws => exact fun h => h
  | _ => cases h

/-- A hash is known after a call that records it, and stays known until it is cleared. -/
private theorem known_concat {c : Call} {hash : String} :
    Known (calls ++ [c]) hash
      ↔ (∃ payout succeeded, c.Records hash payout succeeded) ∨ ¬c.Clears hash ∧ Known calls hash :=
  since_concat

/-- A withdraw is recorded by the first call with its hash, and stays recorded until it is
cleared. -/
private theorem recordedAs_concat {c : Call} {w : Withdraw} :
    RecordedAs (calls ++ [c]) w
      ↔ ¬Known calls w.hash ∧ c.Records w.hash w.payout w.succeeded
        ∨ ¬c.Clears w.hash ∧ RecordedAs calls w :=
  since_concat

private theorem tracks_create : Tracks [] (Store.create : SettledStore) where
  untouched := untouched_create
  known _ := iff_of_false (fun h => (nomatch h)) not_since_nil
  recorded _ _ := iff_of_false (fun h => (nomatch h)) fun h => not_since_nil h.2

/-- One more call. -/
theorem Tracks.perform (h : Tracks calls s) (c : Call) : Tracks (calls ++ [c]) (c.perform s) := by
  obtain ⟨t, hperform, hturns⟩ := c.perform_turns h.untouched
  -- what the call makes of what is recorded decides both parts
  have hfind (hash : String) (w : Withdraw) :
      t.find? hash = some w
        ↔ ¬c.Clears hash ∧ s.tables.find? hash = some w
          ∨ s.tables.find? hash = none ∧ w.hash = hash ∧ c.Records hash w.payout w.succeeded :=
    hturns.find?_eq_some h.untouched.linked
  rw [hperform]
  refine ⟨hturns.untouched h.untouched, fun hash => ?_, fun hash w => ?_⟩
  · show (t.find? hash).isSome = true ↔ _
    rw [known_concat, Option.isSome_iff_exists]
    constructor
    · intro hex
      obtain ⟨w, hw⟩ := hex
      rcases (hfind hash w).1 hw with ⟨hc, hold⟩ | ⟨-, -, hrecords⟩
      · exact Or.inr ⟨hc, (h.known hash).1 (Option.isSome_iff_exists.2 ⟨w, hold⟩)⟩
      · exact Or.inl ⟨_, _, hrecords⟩
    · rintro (⟨payout, succeeded, hrecords⟩ | ⟨hc, hknown⟩)
      · cases hold : s.tables.find? hash with
        | none => exact ⟨⟨hash, payout, succeeded⟩, (hfind hash _).2 (Or.inr ⟨hold, rfl, hrecords⟩)⟩
        | some w => exact ⟨w, (hfind hash w).2 (Or.inl ⟨Call.not_clears_of_records hrecords, hold⟩)⟩
      · obtain ⟨w, hold⟩ := Option.isSome_iff_exists.1 ((h.known hash).2 hknown)
        exact ⟨w, (hfind hash w).2 (Or.inl ⟨hc, hold⟩)⟩
  · have hnone : s.tables.find? hash = none ↔ ¬Known calls hash := by
      rw [← h.known, Option.not_isSome_iff_eq_none]
    show t.find? hash = some w ↔ _
    rw [hfind, h.recorded, hnone, recordedAs_concat]
    by_cases hw : w.hash = hash
    · subst hw
      simp only [true_and]
      exact or_comm
    · simp only [hw, false_and, and_false, or_self]

/-- The store tracks its calls across any further ones. -/
private theorem Tracks.foldl (h : Tracks calls s) (more : List Call) :
    Tracks (calls ++ more) (more.foldl Call.perform s) := by
  induction more generalizing calls s with
  | nil =>
      rw [List.append_nil]
      exact h
  | cons c more ih =>
      have hmore := ih (h.perform c)
      rwa [List.append_assoc, List.singleton_append] at hmore

-- =================================================================== answers

/-- After any calls each withdraw points at a payout, each payout is pointed at, a withdraw
is said to be there exactly if it is answered with something, and it is answered with what
the call said that recorded it after it was last removed or the store was last reset. -/
theorem withdraws_linked (calls : List Call) :
    (∀ row ∈ (after calls).tables.withdraws.rows,
        ∃ payout, (row.payout, payout) ∈ (after calls).tables.payouts)
      ∧ (∀ p ∈ (after calls).tables.payouts,
        ∃ row ∈ (after calls).tables.withdraws.rows, row.payout = p.1)
      ∧ ∀ hash, ∃ there answer,
        (after calls).run (containsWithdraw hash) = (.ok there, after calls)
          ∧ (after calls).run (withdraw? hash) = (.ok answer, after calls)
          ∧ (there = true ↔ answer.isSome = true)
          ∧ ∀ w, answer = some w ↔ w.hash = hash ∧ RecordedAs calls w := by
  have h : Tracks calls (after calls) := tracks_create.foldl calls
  obtain ⟨hlink, -, hlinked⟩ := h.untouched
  refine ⟨hlinked.points, hlinked.pointed, fun hash => ?_⟩
  refine ⟨_, _, run_query hlink _, run_query hlink _, ?_, h.recorded hash⟩
  rw [← hlinked.isSome_find?]
  rfl

/-- A withdraw keeps the payout of its batch when another is removed and recorded anew. -/
example :
    ((after [.addWithdraws ["a", "b"] [1] true, .removeWithdraw "a",
        .addWithdraws ["a", "b"] [2] false]).run (withdraw? "b")).1
      = .ok (some ⟨"b", [1], true⟩) := rfl

end SettledStore

end MergedMining
