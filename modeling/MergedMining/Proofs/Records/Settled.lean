/-
The deposits and withdraws that were settled, by the calls that were made of their store.

Deposits are a table like others. A withdraw lies in two tables, and which number its payout
has depends on all that was recorded before. But no call shows the number. What shows of a
row is the withdraw, the mark and the payout behind the number, and it goes by this alone
which rows are added and dropped. A payout that comes or goes does not change what shows of
the rows that stay. So a call answers, and leaves, what the settled deposits and withdraws
that stand make it answer and leave, whatever numbers are used up.
-/
import MergedMining.Proofs.Records.Tables
import MergedMining.Proofs.Settled.History

namespace MergedMining

open Store

/-- A deposit is named by its transaction and the chain that it went to. -/
def Deposit.keying : Keying Deposit (String × String) where
  clash a b := (a.hash, a.genesis) = (b.hash, b.genesis)
  names key d := (d.hash, d.genesis) = key

/-- What a failure calls a deposit. -/
def Deposit.label (d : Deposit) : String := s!"{d.hash} ({d.genesis})"

/-- A settled withdraw is named by its transaction. -/
def Withdraw.keying : Keying Withdraw String where
  clash a b := a.hash = b.hash
  names hash w := w.hash = hash

/-- The withdraws that are settled by one payout. -/
def Withdraw.settledBy (payout : Bytes) (succeeded : Bool) (hashes : List String) : List Withdraw :=
  hashes.map fun hash => ⟨hash, payout, succeeded⟩

-- ============================================================== what rows show

/-- What shows of the row of a withdraw: the withdraw, the mark and the payout. -/
abbrev Shown := String × Int × Option Bytes

/-- Whether two are of one withdraw. -/
def Shown.clash (a b : Shown) : Bool := a.1 = b.1

/-- What shows of the row of a settled withdraw. -/
def Withdraw.shown (w : Withdraw) : Shown := (w.hash, w.succeeded.toInt, some w.payout)

private theorem Withdraw.keying_shown :
    Withdraw.keying.RowsBy Withdraw.shown Shown.clash fun hash a => a.1 = hash where
  clash_row _ _ := rfl
  kind_row _ _ := rfl

namespace SettledTables

/-- What shows of a row where these are the payouts. -/
def shownOver (payouts : List (Int × Bytes)) (row : WithdrawRow) : Shown :=
  (row.hash, row.succeeded, payouts.lookup row.payout)

/-- The store has these deposits and withdraws. -/
structure Shows (ds : List Deposit) (ws : List Withdraw) (t : SettledTables) : Prop where
  deposits : t.deposits = .endless (ds.map .ofDeposit)
  linked : t.Linked
  withdraws : t.withdraws.rows.map (shownOver t.payouts) = ws.map Withdraw.shown

variable {t : SettledTables} {ds : List Deposit} {ws : List Withdraw}

private theorem toInt_inj {a b : Bool} : a.toInt = b.toInt ↔ a = b := by
  cases a <;> cases b <;> decide

/-- The deposits have no part in the linkage of the withdraws. -/
private theorem Linked.replace (h : Linked t) (deposits : Numbered DepositRow) :
    Linked { t with deposits } := by
  obtain ⟨hwithdraws, hnumbers, hbelow, hpoints, hpointed⟩ := h
  exact ⟨hwithdraws, hnumbers, hbelow, hpoints, hpointed⟩

/-- Payouts that are put behind others change nothing about the rows that point at these. -/
theorem Linked.shownOver_append (h : Linked t) (later : List (Int × Bytes)) {row : WithdrawRow}
    (hrow : row ∈ t.withdraws.rows) :
    shownOver (t.payouts ++ later) row = shownOver t.payouts row := by
  obtain ⟨payout, hmem⟩ := h.points row hrow
  rw [shownOver, shownOver, List.lookup_append, lookup_of_mem h.numbers hmem, Option.some_or]

/-- A row that is requested shows what is requested, once its payout is behind the others. -/
theorem Linked.shownOver_requested (h : Linked t) (hashes : List String) (payout : Bytes)
    (succeeded : Bool) :
    (t.requested hashes succeeded).map (shownOver (t.payouts ++ [(t.nextPayout, payout)]))
      = (Withdraw.settledBy payout succeeded hashes).map Withdraw.shown := by
  have hnone : t.payouts.lookup t.nextPayout = none := by
    rw [List.lookup_eq_none_iff]
    intro p hp
    have := h.below p hp
    rw [bne_iff_ne]
    omega
  rw [requested, Withdraw.settledBy, List.map_map, List.map_map]
  refine List.map_congr_left fun hash _ => ?_
  simp only [Function.comp_apply, shownOver, Withdraw.shown, List.lookup_append, hnone,
    Option.none_or, List.lookup_cons_self]

/-- What shows of rows is added as they are. -/
theorem insertAll_shownOver (payouts : List (Int × Bytes)) (rows new : List WithdrawRow) :
    Table.insertAll Shown.clash (rows.map (shownOver payouts)) (new.map (shownOver payouts))
      = ((Table.insertAll WithdrawRow.clash rows new).1,
          (Table.insertAll WithdrawRow.clash rows new).2.map (shownOver payouts)) :=
  Table.map_insertAll (fun _ _ => rfl) rows new

/-- Settling hashes adds their withdraws in turn, if the tables show what stands. -/
private theorem Shows.settle (h : Shows ds ws t) (hashes : List String) (payout : Bytes)
    (succeeded : Bool) :
    ∃ t', t.settle hashes payout succeeded
        = some (inTurn Withdraw.keying.isFree (fun ws w => Withdraw.keying.edit ws (.add w)) ws
            (Withdraw.settledBy payout succeeded hashes), t')
      ∧ Shows ds (Withdraw.keying.editAll ws
          ((Withdraw.settledBy payout succeeded hashes).map .add)) t' := by
  obtain ⟨added, rows, hsettle, hinsert, hrows⟩ :=
    settle_eq h.linked.withdraws hashes payout succeeded
  let extended := t.payouts ++ [(t.nextPayout, payout)]
  have hold : t.withdraws.rows.map (shownOver extended) = ws.map Withdraw.shown := by
    rw [← h.withdraws]
    exact List.map_congr_left fun row hrow => h.linked.shownOver_append _ hrow
  have hshown := insertAll_shownOver extended t.withdraws.rows (t.requested hashes succeeded)
  rw [hold, h.linked.shownOver_requested, hinsert, Withdraw.keying_shown.insertAll,
    Prod.mk.injEq] at hshown
  obtain ⟨hadded, hafter⟩ := hshown
  refine ⟨t.withPayout rows payout, ?_, h.deposits, h.linked.withPayout hrows, ?_⟩
  · rw [hsettle, hadded]
  · rw [hafter]
    refine List.map_congr_left fun row hrow => ?_
    by_cases hnone : rows = []
    · -- no payout was kept, and all rows were there before
      subst hnone
      have hthere : row ∈ t.withdraws.rows := (List.append_nil t.withdraws.rows) ▸ hrow
      exact (h.linked.shownOver_append _ hthere).symm
    · show shownOver (if rows = [] then _ else _) row = _
      rw [if_neg hnone]

/-- Forgetting hashes drops their withdraws. -/
private theorem Shows.forget (h : Shows ds ws t) (hashes : List String) :
    Shows ds (Withdraw.keying.editAll ws (hashes.map .drop)) (t.forget hashes) where
  deposits := h.deposits
  linked := h.linked.forget hashes
  withdraws := by
    have hshown : ∀ row ∈ t.remaining hashes,
        shownOver (t.forget hashes).payouts row = shownOver t.payouts row := by
      intro row hrow
      obtain ⟨payout, hmem⟩ := h.linked.points row (mem_remaining.1 hrow).1
      have hkept := (mem_payouts_forget h.linked.withdraws).2 ⟨hmem, row, hrow, rfl⟩
      rw [shownOver, shownOver, lookup_of_mem h.linked.numbers hmem,
        lookup_of_mem (h.linked.forget hashes).numbers hkept]
    have hfilter : (t.remaining hashes).map (shownOver t.payouts)
        = (ws.filter (·.hash ∉ hashes)).map Withdraw.shown := by
      have hrows := congrArg (List.filter (·.1 ∉ hashes)) h.withdraws
      rw [List.filter_map, List.filter_map] at hrows
      exact hrows
    have hnamed (w : Withdraw) :
        (!hashes.any (Withdraw.keying.names · w)) = decide (w.hash ∉ hashes) := by
      show (!hashes.any fun hash => w.hash = hash) = _
      grind
    rw [withdraws_forget h.linked.withdraws, Keying.editAll_drop]
    simp only [hnamed]
    rw [← hfilter]
    exact List.map_congr_left hshown

/-- A hash has a row if a withdraw with this hash stands. -/
theorem Shows.rows_eq (h : Shows ds ws t) (hash : String) :
    t.withdraws.rows.any (·.hash = hash) = ws.any (·.hash = hash) := by
  have hany := congrArg (List.any · (·.1 = hash)) h.withdraws
  simp only [List.any_map] at hany
  exact hany

/-- The withdraw that a row shows, if there is a payout behind it. -/
def withdrawOf (a : Shown) : Option Withdraw :=
  a.2.2.map fun payout => ⟨a.1, payout, asFlag a.2.1⟩

/-- A row is joined with its payout as it is shown over the payouts. -/
private theorem joined_eq (t : SettledTables) : t.joined = withdrawOf ∘ shownOver t.payouts := by
  funext row
  unfold joined
  rw [Function.comp_apply, withdrawOf, shownOver]
  cases t.payouts.lookup row.payout <;> rfl

/-- What shows of a settled withdraw is that withdraw. -/
theorem withdrawOf_comp_shown : withdrawOf ∘ Withdraw.shown = some := by
  funext w
  rw [Function.comp_apply, withdrawOf, Withdraw.shown, Option.map_some, asFlag_toInt]

/-- The first row of a hash, joined with its payout, is the withdraw that stands. -/
private theorem Shows.find?_eq (h : Shows ds ws t) (hash : String) :
    (t.withdraws.rows.find? (·.hash = hash)).bind t.joined = ws.find? (·.hash = hash) := by
  have hfind := congrArg (fun shown => (List.find? (·.1 = hash) shown).bind withdrawOf) h.withdraws
  simp only [List.find?_map, Option.bind_map] at hfind
  rw [withdrawOf_comp_shown, Option.bind_fun_some, ← joined_eq] at hfind
  exact hfind

/-- The rows of an outcome, joined with their payouts, are the withdraws of this outcome. -/
private theorem Shows.filterMap_eq (h : Shows ds ws t) (succeeded : Bool) :
    (t.withdraws.rows.filter (·.succeeded = succeeded.toInt)).filterMap t.joined
      = ws.filter (·.succeeded = succeeded) := by
  have hfilter := congrArg
    (fun shown => (List.filter (·.2.1 = succeeded.toInt) shown).filterMap withdrawOf) h.withdraws
  simp only [List.filter_map, List.filterMap_map] at hfilter
  have hmark : ((fun a : Shown => decide (a.2.1 = succeeded.toInt)) ∘ Withdraw.shown)
      = fun w => decide (w.succeeded = succeeded) := by
    funext w
    exact decide_eq_decide.2 toInt_inj
  rw [withdrawOf_comp_shown, hmark, List.filterMap_some, ← joined_eq] at hfilter
  exact hfilter

end SettledTables

namespace SettledStore

open SettledTables

-- ====================================================================== calls

namespace Call

/-- The edits of deposits that a call makes. -/
def depositEdits : Call → List (Edit Deposit (String × String))
  | .addDeposit deposit => [.add deposit]
  | .addDeposits all => all.map .add
  | .removeDeposit hash genesis => [.drop (hash, genesis)]
  | .removeDeposits keys => keys.map .drop
  | .reset => [.clear]
  | _ => []

/-- The edits of withdraws that a call makes. -/
def withdrawEdits : Call → List (Edit Withdraw String)
  | .addWithdraw hash payout succeeded => [.add ⟨hash, payout, succeeded⟩]
  | .addWithdraws hashes payout succeeded => (Withdraw.settledBy payout succeeded hashes).map .add
  | .removeWithdraw hash => [.drop hash]
  | .removeWithdraws hashes => hashes.map .drop
  | .reset => [.clear]
  | _ => []

/-- What a call answers where these deposits and withdraws stand. -/
def answer (ds : List Deposit) (ws : List Withdraw) : (c : Call) → Except Error c.Answer
  | .addWithdraw hash payout succeeded =>
      NumberedTable.outcome Withdraw.keying Withdraw.hash ws ⟨hash, payout, succeeded⟩
  | .addWithdraws hashes payout succeeded =>
      .ok (inTurn Withdraw.keying.isFree (fun ws w => Withdraw.keying.edit ws (.add w)) ws
        (Withdraw.settledBy payout succeeded hashes))
  | .containsWithdraw hash => .ok (ws.any (·.hash = hash))
  | .withdraw? hash => .ok (ws.find? (·.hash = hash))
  | .withdraws succeeded => .ok (ws.filter (·.succeeded = succeeded))
  | .addDeposit deposit =>
      NumberedTable.outcome Deposit.keying Deposit.label ds deposit
  | .addDeposits all =>
      .ok (inTurn Deposit.keying.isFree (fun ds d => Deposit.keying.edit ds (.add d)) ds all)
  | .containsDeposit hash genesis => .ok (ds.any fun d => (d.hash, d.genesis) = (hash, genesis))
  | .depositsWithHash hash => .ok (ds.filter (·.hash = hash))
  | .deposits succeeded => .ok (ds.filter (·.succeeded = succeeded))
  | .removeWithdraw _ | .removeWithdraws _ => .ok ()
  | .removeDeposit .. | .removeDeposits _ | .reset => .ok ()

end Call

instance : Callable SettledTables := ⟨Call, Call.Answer, Call.op⟩

-- ====================================================================== steps

/-- The table keeps deposits by their hash and chain. -/
theorem depositTable_of :
    depositTable.Of Deposit.keying DepositRow.ofDeposit fun key row => row.key = key where
  clash_row _ _ := rfl
  kind_row _ _ := rfl
  lawful := ⟨fun _ _ => rfl, fun _ => rfl, fun _ _ _ => rfl⟩

end SettledStore

namespace SettledTables.Shows

open SettledStore

variable {ds : List Deposit} {ws : List Withdraw} {t : SettledTables}

private theorem eq_holding (h : Shows ds ws t) : t = depositTable.holding .ofDeposit ds t :=
  depositTable_of.eq_holding h.deposits

/-- Other deposits may be put in without a change to the withdraws. -/
private theorem holding (h : Shows ds ws t) (ds' : List Deposit) :
    Shows ds' ws (depositTable.holding .ofDeposit ds' t) where
  deposits := rfl
  linked := h.linked.replace _
  withdraws := h.withdraws

private theorem empty : Shows [] [] (Tables.empty : SettledTables) where
  deposits := rfl
  linked := untouched_create.linked
  withdraws := rfl

/-- Recording withdraws answers and leaves what those that stand make it answer and leave. -/
theorem addWithdraws (h : Shows ds ws t) (hashes : List String) (payout : Bytes)
    (succeeded : Bool) :
    Leaves (SettledStore.addWithdraws hashes payout succeeded) t
      (.ok (inTurn Withdraw.keying.isFree (fun ws w => Withdraw.keying.edit ws (.add w)) ws
        (Withdraw.settledBy payout succeeded hashes)))
      (Shows ds
        (Withdraw.keying.editAll ws ((Withdraw.settledBy payout succeeded hashes).map .add))) := by
  obtain ⟨t', hsettle, hshows⟩ := h.settle hashes payout succeeded
  exact Leaves.commit (by simp only [hsettle]) hshows

/-- A withdraw is added if its hash is free, and refused with its hash otherwise. -/
theorem addWithdraw (h : Shows ds ws t) (hash : String) (payout : Bytes) (succeeded : Bool) :
    Leaves (SettledStore.addWithdraw hash payout succeeded) t
      (NumberedTable.outcome Withdraw.keying Withdraw.hash ws ⟨hash, payout, succeeded⟩)
      (Shows ds (Withdraw.keying.edit ws (.add ⟨hash, payout, succeeded⟩))) := by
  obtain ⟨t', hrun, hshows⟩ := h.addWithdraws [hash] payout succeeded
  refine ⟨t', ?_, hshows⟩
  have hone : (SettledStore.addWithdraws [hash] payout succeeded).run.run ⟨t, .steady⟩
      = (.ok [Withdraw.keying.isFree ws ⟨hash, payout, succeeded⟩], ⟨t', .steady⟩) := hrun
  rw [SettledStore.addWithdraw, run, Outcome.run_bind, hone, NumberedTable.outcome]
  cases Withdraw.keying.isFree ws ⟨hash, payout, succeeded⟩ <;> rfl

/-- A deposit has a row if it stands. -/
theorem containsDeposit (h : Shows ds ws t) (hash genesis : String) :
    t.deposits.rows.any (·.key = (hash, genesis))
      = ds.any fun d => (d.hash, d.genesis) = (hash, genesis) := by
  rw [h.deposits]
  exact List.any_map

/-- The deposits of a kind are those that stand and are of the kind. -/
theorem deposits_where (h : Shows ds ws t) (kind : DepositRow → Bool) :
    (t.deposits.rows.filter kind).map DepositRow.toDeposit
      = ds.filter fun d => kind (.ofDeposit d) := by
  have hback : DepositRow.toDeposit ∘ DepositRow.ofDeposit = id := by
    funext d
    show (⟨d.hash, d.genesis, asFlag d.succeeded.toInt⟩ : Deposit) = d
    rw [asFlag_toInt]
  rw [h.deposits]
  show ((ds.map DepositRow.ofDeposit).filter kind).map DepositRow.toDeposit = _
  rw [List.filter_map, List.map_map, hback, List.map_id]
  rfl

/-- The rows of a hash are the deposits with this hash. -/
theorem deposits_withHash (h : Shows ds ws t) (hash : String) :
    (t.deposits.rows.filter (·.hash = hash)).map DepositRow.toDeposit = ds.filter (·.hash = hash) :=
  h.deposits_where (·.hash = hash)

/-- The rows of an outcome are the deposits of this outcome. -/
theorem deposits_marked (h : Shows ds ws t) (succeeded : Bool) :
    (t.deposits.rows.filter (·.succeeded = succeeded.toInt)).map DepositRow.toDeposit
      = ds.filter (·.succeeded = succeeded) :=
  (h.deposits_where (·.succeeded = succeeded.toInt)).trans
    (List.filter_congr fun _ _ => decide_eq_decide.2 toInt_inj)

/-- A call answers what the deposits and withdraws that stand make it answer, and leaves those
that stand after its edits. -/
theorem call (h : Shows ds ws t) (c : Call) :
    Leaves c.op t (c.answer ds ws) (Shows (Deposit.keying.editAll ds c.depositEdits)
      (Withdraw.keying.editAll ws c.withdrawEdits)) := by
  cases c with
  | addWithdraw hash payout succeeded => exact h.addWithdraw hash payout succeeded
  | addWithdraws hashes payout succeeded => exact h.addWithdraws hashes payout succeeded
  | removeWithdraw hash =>
      show Leaves (Op.update fun t : SettledTables => t.forget [hash]) t (.ok ()) _
      exact Leaves.update (h.forget [hash])
  | removeWithdraws hashes =>
      show Leaves (Op.update fun t : SettledTables => t.forget hashes) t (.ok ()) _
      exact Leaves.update (h.forget hashes)
  | containsWithdraw hash =>
      show Leaves (containsWithdraw hash) t (.ok (ws.any (·.hash = hash))) _
      rw [← h.rows_eq]
      exact Leaves.query h
  | withdraw? hash =>
      show Leaves (withdraw? hash) t (.ok (ws.find? (·.hash = hash))) _
      rw [← h.find?_eq]
      exact Leaves.query h
  | withdraws succeeded =>
      show Leaves (SettledStore.withdraws succeeded) t (.ok (ws.filter (·.succeeded = succeeded))) _
      rw [← h.filterMap_eq]
      exact Leaves.query h
  | addDeposit deposit =>
      -- the deposits are a numbered table by themselves
      rw [h.eq_holding]
      exact ⟨_, depositTable_of.run_add Deposit.label ds deposit, h.holding _⟩
  | addDeposits all =>
      rw [h.eq_holding]
      exact ⟨_, depositTable_of.run_addAll ds all, h.holding _⟩
  | removeDeposit hash genesis =>
      rw [h.eq_holding]
      exact ⟨_, depositTable_of.run_removeAll ds [(hash, genesis)], h.holding _⟩
  | removeDeposits keys =>
      rw [h.eq_holding]
      exact ⟨_, depositTable_of.run_removeAll ds keys, h.holding _⟩
  | containsDeposit hash genesis =>
      show Leaves (SettledStore.containsDeposit hash genesis) t (.ok _) _
      rw [← h.containsDeposit]
      exact Leaves.query h
  | depositsWithHash hash =>
      show Leaves (depositsWithHash hash) t (.ok (ds.filter (·.hash = hash))) _
      rw [← h.deposits_withHash]
      exact Leaves.query h
  | deposits succeeded =>
      show Leaves (SettledStore.deposits succeeded) t (.ok (ds.filter (·.succeeded = succeeded))) _
      rw [← h.deposits_marked]
      exact Leaves.query h
  | reset =>
      show Leaves Op.reset t (.ok ()) _
      exact Leaves.update empty

end SettledTables.Shows

namespace SettledStore

/-- The deposits that stand after these calls. -/
def standingDeposits (calls : List Call) : List Deposit :=
  Deposit.keying.live (calls.flatMap Call.depositEdits)

/-- The withdraws that stand after these calls. -/
def standingWithdraws (calls : List Call) : List Withdraw :=
  Withdraw.keying.live (calls.flatMap Call.withdrawEdits)

/-- The store has the deposits and the withdraws that stand after these calls. -/
def Holds (calls : List Call) : SettledTables → Prop :=
  SettledTables.Shows (standingDeposits calls) (standingWithdraws calls)

/-- Every call leaves the deposits and the withdraws that stand after it. -/
theorem keeps : @Keeps SettledTables _ _ Holds where
  empty := SettledTables.Shows.empty
  steady {calls t} h c := by
    refine ⟨_, SettledTables.Shows.call h c |>.mono fun after hafter => ?_⟩
    rw [Holds, standingDeposits, standingWithdraws, Keying.live_flatMap_concat,
      Keying.live_flatMap_concat]
    exact hafter
  closed t c := congrArg Prod.snd (c.kind.guarded.closed t)

end SettledStore

end MergedMining
