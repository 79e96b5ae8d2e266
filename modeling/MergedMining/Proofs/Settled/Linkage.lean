/-
Withdraws and the payouts that they point at.

Two tables are kept in step by hand. A payout is put in before it is known whether one
of its withdraws is new, and is taken out again if none is; and payouts go with the last
withdraw that points at them. So at all times each withdraw has its payout and each
payout has a withdraw. What makes the joining of the two sound is the numbering: a new
payout has a number that none before it had, so no row that was there starts or stops
pointing at something.
-/
import MergedMining.Proofs.Store.Numbered
import MergedMining.Store.Settled

namespace MergedMining

open Store

private theorem WithdrawRow.clash_refl (row : WithdrawRow) :
    row.clash row = true :=
  decide_eq_true rfl

namespace SettledTables

/-- A payout is behind each withdraw, and a withdraw before each payout. -/
structure Linked (t : SettledTables) : Prop where
  withdraws : t.withdraws = .endless t.withdraws.rows
  /-- No two payouts have one number. -/
  numbers : (t.payouts.map Prod.fst).Nodup
  below : ∀ p ∈ t.payouts, p.1 < t.nextPayout
  points : ∀ row ∈ t.withdraws.rows, ∃ payout, (row.payout, payout) ∈ t.payouts
  pointed : ∀ p ∈ t.payouts, ∃ row ∈ t.withdraws.rows, row.payout = p.1

/-- What is recorded of a withdraw. -/
def find? (t : SettledTables) (hash : String) : Option Withdraw :=
  (t.withdraws.rows.find? (·.hash = hash)).bind t.joined

variable {t t' : SettledTables} {hashes : List String} {hash : String} {payout : Bytes}
  {succeeded : Bool} {added : List Bool}

-- ================================================================== looking up

/-- Under different numbers each payout is looked up by its own. -/
theorem lookup_of_mem {payouts : List (Int × Bytes)} {number : Int} {payout : Bytes}
    (hnumbers : (payouts.map Prod.fst).Nodup) (hmem : (number, payout) ∈ payouts) :
    payouts.lookup number = some payout := by
  induction payouts with
  | nil => cases hmem
  | cons p payouts ih =>
      obtain ⟨first, bytes⟩ := p
      obtain ⟨hfirst, hnumbers⟩ := List.nodup_cons.1 hnumbers
      rcases List.mem_cons.1 hmem with heq | hmem
      · cases heq
        exact List.lookup_cons_self
      · have hne : (number == first) = false := by
          refine beq_false_of_ne fun heq => hfirst ?_
          exact heq ▸ List.mem_map.2 ⟨(number, payout), hmem, rfl⟩
        rw [List.lookup_cons, hne]
        exact ih hnumbers hmem

/-- A mark that was made for a flag reads as the flag. -/
theorem asFlag_toInt (flag : Bool) : asFlag flag.toInt = flag := by
  cases flag <;> rfl

/-- A row whose payout is there is joined with it. -/
private theorem joined_of_mem {row : WithdrawRow} (h : Linked t)
    (hmem : (row.payout, payout) ∈ t.payouts) :
    t.joined row = some ⟨row.hash, payout, asFlag row.succeeded⟩ := by
  rw [joined, lookup_of_mem h.numbers hmem]
  rfl

/-- What is recorded of a withdraw is there if a row of it is. -/
theorem Linked.isSome_find? (h : Linked t) :
    (t.find? hash).isSome = t.withdraws.rows.any (·.hash = hash) := by
  unfold find?
  cases hrow : t.withdraws.rows.find? (·.hash = hash) with
  | none =>
      have hnone : ¬t.withdraws.rows.any (·.hash = hash) = true := by
        rw [List.any_eq_true]
        intro hex
        obtain ⟨row, hmem, hhash⟩ := hex
        exact List.find?_eq_none.1 hrow row hmem hhash
      exact (Bool.eq_false_iff.2 hnone).symm
  | some row =>
      have hmem := List.mem_of_find?_eq_some hrow
      obtain ⟨payout, hpayout⟩ := h.points row hmem
      rw [Option.bind_some, joined_of_mem h hpayout]
      exact (List.any_eq_true.2 ⟨row, hmem, List.find?_some hrow⟩).symm

-- ==================================================================== settling

/-- The tables with further rows and, if there is one, the payout that these point at. -/
def withPayout (t : SettledTables) (rows : List WithdrawRow) (payout : Bytes) : SettledTables :=
  { t with
    withdraws := .endless (t.withdraws.rows ++ rows)
    payouts := if rows = [] then t.payouts else t.payouts ++ [(t.nextPayout, payout)]
    nextPayout := t.nextPayout + 1 }

/-- The rows that are added for withdraws: one for each that has none yet. -/
structure Additions (t : SettledTables) (hashes : List String) (succeeded : Bool)
    (rows : List WithdrawRow) : Prop where
  payout : ∀ row ∈ rows, row.payout = t.nextPayout
  succeeded : ∀ row ∈ rows, row.succeeded = succeeded.toInt
  named : ∀ row ∈ rows, row.hash ∈ hashes
  fresh : ∀ row ∈ rows, ∀ q ∈ t.withdraws.rows, q.hash ≠ row.hash
  complete : ∀ hash ∈ hashes, ∃ row ∈ t.withdraws.rows ++ rows, row.hash = hash

/-- The rows with which withdraws are settled by the next payout. -/
def requested (t : SettledTables) (hashes : List String) (succeeded : Bool) : List WithdrawRow :=
  hashes.map fun hash => ⟨hash, t.nextPayout, succeeded.toInt⟩

/-- Of the rows that are requested those are added whose withdraw has none. -/
theorem exists_additions (t : SettledTables) (hashes : List String) (succeeded : Bool) :
    ∃ rows, (Table.insertAll WithdrawRow.clash t.withdraws.rows (t.requested hashes succeeded)).2
        = t.withdraws.rows ++ rows
      ∧ Additions t hashes succeeded rows := by
  obtain ⟨rows, heq, hsub, hfresh⟩ :=
    Table.insertAll_eq_append WithdrawRow.clash t.withdraws.rows (t.requested hashes succeeded)
  have hmade : ∀ row ∈ rows, ∃ hash ∈ hashes, ⟨hash, t.nextPayout, succeeded.toInt⟩ = row :=
    fun row hrow => List.mem_map.1 (hsub hrow)
  refine ⟨rows, heq, ?_, ?_, ?_, ?_, ?_⟩
  · intro row hrow
    obtain ⟨hash, -, rfl⟩ := hmade row hrow
    rfl
  · intro row hrow
    obtain ⟨hash, -, rfl⟩ := hmade row hrow
    rfl
  · intro row hrow
    obtain ⟨hash, hmem, rfl⟩ := hmade row hrow
    exact hmem
  · intro row hrow q hq
    exact Ne.symm (of_decide_eq_false (hfresh row hrow q hq))
  · intro hash hhash
    have hrow : ⟨hash, t.nextPayout, succeeded.toInt⟩ ∈ t.requested hashes succeeded :=
      List.mem_map.2 ⟨hash, hhash, rfl⟩
    obtain ⟨q, hq, hclash⟩ := Table.exists_clash_of_mem WithdrawRow.clash_refl t.withdraws.rows hrow
    rw [heq] at hq
    exact ⟨q, hq, (of_decide_eq_true hclash).symm⟩

/-- Settling withdraws adds rows, and the payout if there are any to add. -/
theorem settle_eq (h : t.withdraws = .endless t.withdraws.rows) (hashes : List String)
    (payout : Bytes) (succeeded : Bool) :
    ∃ added rows, t.settle hashes payout succeeded = some (added, t.withPayout rows payout)
      ∧ Table.insertAll WithdrawRow.clash t.withdraws.rows (t.requested hashes succeeded)
        = (added, t.withdraws.rows ++ rows)
      ∧ Additions t hashes succeeded rows := by
  obtain ⟨rows, heq, hadditions⟩ := exists_additions t hashes succeeded
  have hadded := Table.any_insertAll WithdrawRow.clash t.withdraws.rows
    (t.requested hashes succeeded)
  rw [heq, ne_eq, List.append_right_eq_self] at hadded
  have hinsert := Numbered.insertAll_endless WithdrawRow.clash t.withdraws.rows
    (t.requested hashes succeeded)
  rw [← h, heq] at hinsert
  have hpair : Table.insertAll WithdrawRow.clash t.withdraws.rows (t.requested hashes succeeded)
      = ((Table.insertAll WithdrawRow.clash t.withdraws.rows (t.requested hashes succeeded)).1,
        t.withdraws.rows ++ rows) := Prod.ext rfl heq
  generalize (Table.insertAll WithdrawRow.clash t.withdraws.rows (t.requested hashes succeeded)).1
    = added at hadded hinsert hpair
  refine ⟨added, rows, ?_, hpair, hadditions⟩
  -- the payout is put in if any row was
  have hpayouts : (if added.any id = true then t.payouts ++ [(t.nextPayout, payout)] else t.payouts)
      = if rows = [] then t.payouts else t.payouts ++ [(t.nextPayout, payout)] := by
    by_cases hrows : rows = []
    · rw [if_pos hrows, if_neg fun hany => hadded.1 hany hrows]
    · rw [if_neg hrows, if_pos (hadded.2 hrows)]
  have hrequested : (hashes.map fun hash => ⟨hash, t.nextPayout, succeeded.toInt⟩)
      = t.requested hashes succeeded := rfl
  unfold settle
  dsimp only
  rw [hrequested, hinsert]
  dsimp only
  rw [hpayouts]
  rfl

section WithPayout

variable {rows : List WithdrawRow} {p : Int × Bytes}

/-- A payout is put in if there are rows for it. -/
private theorem mem_payouts_withPayout :
    p ∈ (t.withPayout rows payout).payouts
      ↔ p ∈ t.payouts ∨ rows ≠ [] ∧ p = (t.nextPayout, payout) := by
  show p ∈ (if rows = [] then t.payouts else t.payouts ++ [(t.nextPayout, payout)]) ↔ _
  split
  · next hrows => exact ⟨Or.inl, fun h => h.resolve_right fun h => h.1 hrows⟩
  · next hrows => rw [List.mem_append, List.mem_singleton, and_iff_right hrows]

/-- New rows are linked to their new payout, and the others as before. -/
theorem Linked.withPayout (h : Linked t) (hrows : Additions t hashes succeeded rows) :
    Linked (t.withPayout rows payout) where
  withdraws := rfl
  numbers := by
    show ((if rows = [] then t.payouts
      else t.payouts ++ [(t.nextPayout, payout)]).map Prod.fst).Nodup
    split
    · exact h.numbers
    · rw [List.map_append, List.map_singleton]
      refine List.nodup_append.2 ⟨h.numbers, List.pairwise_singleton _ _, ?_⟩
      intro number hnumber last hlast
      obtain ⟨p, hp, rfl⟩ := List.mem_map.1 hnumber
      rw [List.mem_singleton.1 hlast]
      exact Int.ne_of_lt (h.below p hp)
  below := by
    intro p hp
    show p.1 < t.nextPayout + 1
    rcases mem_payouts_withPayout.1 hp with hp | ⟨-, rfl⟩
    · have := h.below p hp
      omega
    · exact Int.lt_succ _
  points := by
    intro row hrow
    rcases List.mem_append.1 hrow with hrow | hrow
    · obtain ⟨payout, hpayout⟩ := h.points row hrow
      exact ⟨payout, mem_payouts_withPayout.2 (Or.inl hpayout)⟩
    · refine ⟨payout, mem_payouts_withPayout.2 (Or.inr ⟨List.ne_nil_of_mem hrow, ?_⟩)⟩
      rw [hrows.payout row hrow]
  pointed := by
    intro p hp
    rcases mem_payouts_withPayout.1 hp with hp | ⟨hne, rfl⟩
    · obtain ⟨row, hrow, hpayout⟩ := h.pointed p hp
      exact ⟨row, List.mem_append_left _ hrow, hpayout⟩
    · obtain ⟨row, hrow⟩ := List.exists_mem_of_ne_nil rows hne
      exact ⟨row, List.mem_append_right _ hrow, hrows.payout row hrow⟩

/-- What was recorded of a withdraw stays, and of those that are settled by the new payout
this is recorded that had nothing recorded yet. -/
theorem Linked.find?_withPayout (h : Linked t) (hrows : Additions t hashes succeeded rows)
    {w : Withdraw} :
    (t.withPayout rows payout).find? hash = some w
      ↔ t.find? hash = some w
        ∨ t.find? hash = none ∧ hash ∈ hashes ∧ w = ⟨hash, payout, succeeded⟩ := by
  have hafter : Linked (t.withPayout rows payout) := h.withPayout hrows
  have happend : (t.withdraws.rows ++ rows).find? (·.hash = hash)
      = (t.withdraws.rows.find? (·.hash = hash)).or (rows.find? (·.hash = hash)) :=
    List.find?_append
  unfold find?
  show ((t.withdraws.rows ++ rows).find? (·.hash = hash)).bind _ = some w ↔ _
  rw [happend]
  -- a row that was there comes before the new ones of its hash, and keeps its own payout
  cases hold : t.withdraws.rows.find? (·.hash = hash) with
  | some row =>
      obtain ⟨payout', hpayout⟩ := h.points row (List.mem_of_find?_eq_some hold)
      rw [Option.some_or, Option.bind_some, Option.bind_some, joined_of_mem h hpayout,
        joined_of_mem hafter (mem_payouts_withPayout.2 (Or.inl hpayout))]
      exact ⟨Or.inl, fun h => h.resolve_right fun h => (nomatch h.1)⟩
  | none =>
      rw [Option.none_or, Option.bind_none]
      cases hnew : rows.find? (·.hash = hash) with
      | none =>
          -- each hash that was asked for has a row, old or new
          have hnot : hash ∉ hashes := by
            intro hmem
            obtain ⟨row, hrow, hhash⟩ := hrows.complete hash hmem
            rcases List.mem_append.1 hrow with hrow | hrow
            · exact List.find?_eq_none.1 hold row hrow (decide_eq_true hhash)
            · exact List.find?_eq_none.1 hnew row hrow (decide_eq_true hhash)
          refine iff_of_false (fun h => (nomatch h)) fun h => ?_
          exact h.elim (fun h => (nomatch h)) fun h => hnot h.2.1
      | some row =>
          have hrow := List.mem_of_find?_eq_some hnew
          have hhash : row.hash = hash := by simpa using List.find?_some hnew
          have hpayout : (row.payout, payout) ∈ (t.withPayout rows payout).payouts := by
            refine mem_payouts_withPayout.2 (Or.inr ⟨List.ne_nil_of_mem hrow, ?_⟩)
            rw [hrows.payout row hrow]
          have hmem : hash ∈ hashes := hhash ▸ hrows.named row hrow
          rw [Option.bind_some, joined_of_mem hafter hpayout, hrows.succeeded row hrow,
            asFlag_toInt, hhash]
          constructor
          · intro h
            exact Or.inr ⟨rfl, hmem, (Option.some.inj h).symm⟩
          · intro h
            obtain h | ⟨-, -, rfl⟩ := h
            · cases h
            · rfl

end WithPayout

-- ==================================================================== forgetting

/-- The rows that are left when withdraws are dropped. -/
def remaining (t : SettledTables) (hashes : List String) : List WithdrawRow :=
  t.withdraws.rows.filter (·.hash ∉ hashes)

/-- The rows that remain are those whose hash is not forgotten. -/
theorem mem_remaining {row : WithdrawRow} :
    row ∈ t.remaining hashes ↔ row ∈ t.withdraws.rows ∧ row.hash ∉ hashes := by
  rw [remaining, List.mem_filter, decide_eq_true_iff]

/-- Forgetting leaves the rows that remain. -/
theorem withdraws_forget (h : t.withdraws = .endless t.withdraws.rows) :
    (t.forget hashes).withdraws = .endless (t.remaining hashes) := by
  have hkept (row : WithdrawRow) :
      (!hashes.any fun hash => row.hash = hash) = decide (row.hash ∉ hashes) := by grind
  show t.withdraws.deleteAll _ hashes = _
  rw [h, Numbered.deleteAll_endless, Table.deleteAll_eq_filter]
  simp only [hkept]
  rfl

/-- A payout is kept as long as a remaining row refers to it. -/
theorem mem_payouts_forget (h : t.withdraws = .endless t.withdraws.rows) {p : Int × Bytes} :
    p ∈ (t.forget hashes).payouts
      ↔ p ∈ t.payouts ∧ ∃ row ∈ t.remaining hashes, row.payout = p.1 := by
  show p ∈ t.payouts.filter _ ↔ _
  rw [List.mem_filter]
  refine and_congr_right fun _ => ?_
  show (t.forget hashes).withdraws.rows.any (·.payout = p.1) = true ↔ _
  rw [withdraws_forget h, List.any_eq_true]
  simp only [decide_eq_true_eq]
  rfl

/-- Forgetting keeps the rows and the payouts linked. -/
theorem Linked.forget (h : Linked t) (hashes : List String) : Linked (t.forget hashes) where
  withdraws := by
    rw [withdraws_forget h.withdraws]
    rfl
  numbers := h.numbers.sublist (List.Sublist.map _ List.filter_sublist)
  below := fun p hp => h.below p ((mem_payouts_forget h.withdraws).1 hp).1
  points := by
    intro row hrow
    rw [withdraws_forget h.withdraws] at hrow
    obtain ⟨payout, hpayout⟩ := h.points row (mem_remaining.1 hrow).1
    exact ⟨payout, (mem_payouts_forget h.withdraws).2 ⟨hpayout, row, hrow, rfl⟩⟩
  pointed := by
    intro p hp
    rw [withdraws_forget h.withdraws]
    exact ((mem_payouts_forget h.withdraws).1 hp).2

/-- The row of a hash remains the first one, unless the hash is forgotten. -/
private theorem find?_remaining (t : SettledTables) (hashes : List String) (hash : String) :
    (t.remaining hashes).find? (·.hash = hash)
      = if hash ∈ hashes then none else t.withdraws.rows.find? (·.hash = hash) := by
  unfold remaining
  split
  · next hmem =>
      rw [List.find?_eq_none]
      intro row hrow hhash
      obtain ⟨-, hnot⟩ := mem_remaining.1 hrow
      exact hnot (of_decide_eq_true hhash ▸ hmem)
  · next hmem =>
      rw [List.find?_filter]
      congr 1
      funext row
      grind

/-- Nothing is left of the withdraws that are dropped, and everything of the others, also
where their payout is that of a withdraw that is dropped. -/
theorem Linked.find?_forget (h : Linked t) (hashes : List String) (hash : String) :
    (t.forget hashes).find? hash = if hash ∈ hashes then none else t.find? hash := by
  unfold find?
  rw [withdraws_forget h.withdraws]
  show ((t.remaining hashes).find? (·.hash = hash)).bind _ = _
  rw [find?_remaining]
  split
  · rfl
  · next hkept =>
      cases hrow : t.withdraws.rows.find? (·.hash = hash) with
      | none => rfl
      | some row =>
          have hmem := List.mem_of_find?_eq_some hrow
          have hhash : row.hash = hash := by simpa using List.find?_some hrow
          obtain ⟨payout, hpayout⟩ := h.points row hmem
          have hleft : row ∈ t.remaining hashes := mem_remaining.2 ⟨hmem, hhash ▸ hkept⟩
          rw [Option.bind_some, Option.bind_some, joined_of_mem h hpayout,
            joined_of_mem (h.forget hashes)
              ((mem_payouts_forget h.withdraws).2 ⟨hpayout, row, hleft, rfl⟩)]

end SettledTables

end MergedMining
