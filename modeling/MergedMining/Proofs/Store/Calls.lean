/-
Calls of a store, and how they come out on a handle that works and on one that is
closed.

On a steady handle a transaction that commits leaves its tables, and one that is
abandoned leaves everything as it is. On a closed handle nothing is done. Of a
cursor it is said where it stands after it was moved, which is where it is then read.
A caller that moves a cursor past one height after the other moves it up, unless the
next height is the one that sends it back.
-/
import MergedMining.Proofs.Outcome
import MergedMining.Store.Cursor

namespace MergedMining.Store

variable {τ α β : Type} {s : Store τ} {act : τ → Ending τ α} {value : α} {tables : τ}

/-- What is made of an operation's value does not touch the store. -/
theorem run_map (f : α → β) (op : Op τ α) :
    s.run (f <$> op) = ((s.run op).1.map f, (s.run op).2) := by
  rw [run, ExceptT.run_map, StateT.run_map]
  rfl

section Bind

variable {op : Op τ α} {next : α → Op τ β} {s' : Store τ}

/-- After a call that succeeds the next one runs on what it left. -/
theorem run_bind_of_ok (h : s.run op = (.ok value, s')) :
    s.run (op >>= next) = s'.run (next value) := by
  unfold run at h ⊢
  rw [Outcome.run_bind, h]

/-- An operation that fails leaves nothing to go on with. -/
theorem run_bind_of_error {cause : Error} (h : s.run op = (.error cause, s')) :
    s.run (op >>= next) = (.error cause, s') := by
  unfold run at h ⊢
  rw [Outcome.run_bind, h]

end Bind

private theorem isOpen_of_steady (hlink : s.link = .steady) : s.isOpen = true := by
  rw [isOpen, hlink]

-- =============================================================== transactions

variable [Tables τ]

/-- On an open store a transaction commits, abandons its changes or gives up on a full table. -/
theorem run_transaction_of_isOpen (hopen : s.isOpen = true) :
    s.run (Op.transaction act)
      = match act s.tables with
        | .commit value tables => (.ok value, { s with tables })
        | .abandon outcome =>
            match s.link with
            | .adrift => (outcome, { s with link := .unfinished s.tables })
            | _ => (outcome, s)
        | .giveUp again => (.error .full, ⟨again s.file, .adrift⟩) :=
  if_pos hopen

/-- On a store that is not open a transaction is refused. -/
theorem run_transaction_of_not_isOpen (hopen : ¬s.isOpen = true) :
    s.run (Op.transaction act) = (.error (.closed (Tables.storeName τ)), s) :=
  if_neg hopen

/-- A transaction that commits leaves its tables. -/
theorem run_of_commit (hlink : s.link = .steady) (hact : act s.tables = .commit value tables) :
    s.run (Op.transaction act) = (.ok value, ⟨tables, .steady⟩) := by
  rw [run_transaction_of_isOpen (isOpen_of_steady hlink), hact, ← hlink]

/-- A transaction that abandons its changes leaves the store as it was. -/
theorem run_of_abandon {outcome : Except Error α} (hlink : s.link = .steady)
    (hact : act s.tables = .abandon outcome) : s.run (Op.transaction act) = (outcome, s) := by
  rw [run_transaction_of_isOpen (isOpen_of_steady hlink), hact, hlink]

/-- An update changes the tables and answers nothing. -/
theorem run_update (hlink : s.link = .steady) (change : τ → τ) :
    s.run (Op.update change) = (.ok (), ⟨change s.tables, .steady⟩) := by
  unfold Op.update
  exact run_of_commit hlink rfl

/-- An attempt that commits is one that succeeds. -/
theorem attempt_of_commit (hlink : s.link = .steady) (hact : act s.tables = .commit value tables) :
    s.attempt (Op.transaction act) = .ok (value, ⟨tables, .steady⟩) := by
  rw [attempt, run_of_commit hlink hact]

private theorem attempt_of_abandon (hlink : s.link = .steady)
    (hact : act s.tables = .abandon (.ok value)) :
    s.attempt (Op.transaction act) = .ok (value, s) := by
  rw [attempt, run_of_abandon hlink hact]

/-- An attempt on a closed store fails. -/
theorem attempt_of_closed (hlink : s.link = .closed) :
    s.attempt (Op.transaction act) = .error (.closed (Tables.storeName τ)) := by
  have hshut : ¬s.isOpen = true := by
    rw [isOpen, hlink]
    exact Bool.false_ne_true
  rw [attempt, run_transaction_of_not_isOpen hshut]

omit [Tables τ] in
/-- An attempt that succeeds is a run with this answer. -/
theorem run_of_attempt {op : Op τ α} {s' : Store τ} (h : s.attempt op = .ok (value, s')) :
    s.run op = (.ok value, s') := by
  unfold attempt at h
  split at h
  · next hrun =>
      cases h
      exact hrun
  · cases h

/-- A transaction that ends well has committed the tables or left them as they were, however
the handle stands to its file. -/
theorem of_attempt_transaction {s' : Store τ}
    (h : s.attempt (Op.transaction act) = .ok (value, s')) :
    act s.tables = .commit value s'.tables
      ∨ act s.tables = .abandon (.ok value) ∧ s'.tables = s.tables := by
  have hrun := run_of_attempt h
  by_cases hopen : s.isOpen = true
  · rw [run_transaction_of_isOpen hopen] at hrun
    split at hrun
    · next hact =>
        cases hrun
        exact Or.inl hact
    · next hact =>
        split at hrun
        · cases hrun
          exact Or.inr ⟨hact, rfl⟩
        · cases hrun
          exact Or.inr ⟨hact, rfl⟩
    · cases hrun
  · rw [run_transaction_of_not_isOpen hopen] at hrun
    cases hrun

/-- A transaction neither opens nor closes the store. -/
theorem isOpen_of_attempt_transaction {s' : Store τ}
    (h : s.attempt (Op.transaction act) = .ok (value, s')) : s'.isOpen = s.isOpen := by
  have hrun := run_of_attempt h
  by_cases hopen : s.isOpen = true
  · rw [run_transaction_of_isOpen hopen] at hrun
    split at hrun
    · cases hrun
      rfl
    · split at hrun
      · next hlink =>
          cases hrun
          exact hopen.symm
      · cases hrun
        rfl
    · cases hrun
  · rw [run_transaction_of_not_isOpen hopen] at hrun
    cases hrun

/-- What is made of the value can be made before it is committed. -/
theorem attempt_map_commit (f : α → β) (value : τ → α) (change : τ → τ) :
    s.attempt (f <$> Op.transaction fun t => .commit (value t) (change t))
      = s.attempt (Op.transaction fun t => .commit (f (value t)) (change t)) := by
  rw [attempt, attempt, run_map]
  by_cases hopen : s.isOpen = true
  · rw [run_transaction_of_isOpen hopen, run_transaction_of_isOpen hopen]
    rfl
  · rw [run_transaction_of_not_isOpen hopen, run_transaction_of_not_isOpen hopen]
    rfl

-- ================================================================= statements

/-- On an open store a statement does what a transaction does, but for a full table. -/
theorem run_statement_of_isOpen (hopen : s.isOpen = true) :
    s.run (Op.statement act)
      = match act s.tables with
        | .commit value tables => (.ok value, { s with tables })
        | .abandon outcome => (outcome, s)
        | .giveUp again =>
            match s.link with
            | .unfinished file => (.error .full, ⟨again file, .adrift⟩)
            | _ => (.error .full, s) :=
  if_pos hopen

/-- On a store that is not open a statement is refused. -/
theorem run_statement_of_not_isOpen (hopen : ¬s.isOpen = true) :
    s.run (Op.statement act) = (.error (.closed (Tables.storeName τ)), s) :=
  if_neg hopen

/-- A statement that commits leaves its tables. -/
theorem run_statement_of_commit (hlink : s.link = .steady)
    (hact : act s.tables = .commit value tables) :
    s.run (Op.statement act) = (.ok value, ⟨tables, .steady⟩) := by
  rw [run_statement_of_isOpen (isOpen_of_steady hlink), hact, ← hlink]

/-- A statement that abandons its changes leaves the store as it was. -/
theorem run_statement_of_abandon {outcome : Except Error α} (hlink : s.link = .steady)
    (hact : act s.tables = .abandon outcome) : s.run (Op.statement act) = (outcome, s) := by
  rw [run_statement_of_isOpen (isOpen_of_steady hlink), hact]

/-- Looking at the tables leaves them as they are. -/
theorem run_query (hlink : s.link = .steady) (look : τ → Except Error α) :
    s.run (Op.query look) = (look s.tables, s) :=
  run_statement_of_abandon hlink rfl

-- ==================================================================== numbers

/-- A number that a column was written with is read back. -/
theorem as32_toNat (column : String) (number : UInt32) :
    as32 column (number.toNat : Int) = .ok number := by
  have hrange : (0 : Int) ≤ (number.toNat : Int) ∧ (number.toNat : Int) < 2 ^ 32 := by
    have := number.toNat_lt
    omega
  rw [as32, if_pos hrange, Int.toNat_natCast, UInt32.ofNat_toNat]

/-- An index that was stored is read back. -/
theorem as16_toNat (column : String) (number : UInt16) :
    as16 column (number.toNat : Int) = .ok number := by
  have hrange : (0 : Int) ≤ (number.toNat : Int) ∧ (number.toNat : Int) < 2 ^ 16 := by
    have := number.toNat_lt
    omega
  rw [as16, if_pos hrange, Int.toNat_natCast, UInt16.ofNat_toNat]

-- ==================================================================== heights

/-- Below a bound the next height is one more. -/
theorem toNat_succ {height bound : UInt32} (h : height < bound) :
    (height + 1).toNat = height.toNat + 1 := by
  have hlt := UInt32.lt_iff_toNat_lt.1 h
  have hbound := bound.toNat_lt
  rw [UInt32.toNat_add, UInt32.toNat_one, Nat.mod_eq_of_lt (by omega)]

/-- Below a bound the next height is higher. -/
theorem lt_succ {height bound : UInt32} (h : height < bound) : height < height + 1 := by
  rw [UInt32.lt_iff_toNat_lt, toNat_succ h]
  exact Nat.lt_succ_self _

/-- Below a bound that is not the reset height, the next height is not the reset one either. -/
theorem succ_ne_reset {height bound : UInt32} (h : height < bound) (hbound : bound ≠ resetHeight) :
    height + 1 ≠ resetHeight := by
  intro heq
  have hsucc := toNat_succ h
  have hlt := UInt32.lt_iff_toNat_lt.1 h
  have hmax : resetHeight.toNat = 2 ^ 32 - 1 := rfl
  rw [heq, hmax] at hsucc
  have hne : bound.toNat ≠ resetHeight.toNat := fun h => hbound (UInt32.toNat_inj.1 h)
  have := bound.toNat_lt
  omega

-- ==================================================================== cursors

namespace Cursors

/-- A cursor that was set is stored as such, whatever other rows of its chain there are. -/
theorem stored_set (cursors : Cursors) (chain : String) (height : UInt32) :
    (cursors.set chain height).stored chain = .ok height := by
  have hlookup : (cursors.set chain height).lookup chain = some (height.toNat : Int) := by
    induction cursors with
    | nil => rw [set, List.lookup_cons_self]
    | cons entry cursors ih =>
        obtain ⟨name, value⟩ := entry
        rw [set]
        by_cases h : name = chain
        · rw [if_pos h, h, List.lookup_cons_self]
        · rw [if_neg h, List.lookup_cons, ih]
          have hne : (chain == name) = false := beq_false_of_ne (Ne.symm h)
          rw [hne]
  rw [stored, hlookup]
  exact as32_toNat "height" height

variable {cursors : Cursors} {chain : String} {current height : UInt32}

/-- Advancing to zero only asks where the cursor is. -/
theorem advance_zero (hstored : cursors.stored chain = .ok current) :
    cursors.advance chain 0 = .ok (current, none) := by
  have hnot : ¬current < 0 := UInt32.not_lt.2 UInt32.zero_le
  refine Outcome.bind_eq_ok.2 ⟨current, hstored, ?_⟩
  rw [if_neg (by decide), if_neg hnot]
  rfl

/-- Advancing to a higher height sets the cursor. -/
theorem advance_up (hstored : cursors.stored chain = .ok current) (hlt : current < height)
    (hreset : height ≠ resetHeight) :
    cursors.advance chain height = .ok (height, some (cursors.set chain height)) := by
  refine Outcome.bind_eq_ok.2 ⟨current, hstored, ?_⟩
  rw [if_neg hreset, if_pos hlt]
  rfl

/-- Advancing to the reset height sets the cursor to zero. -/
theorem advance_reset (hstored : cursors.stored chain = .ok current) :
    cursors.advance chain resetHeight = .ok (0, some (cursors.set chain 0)) :=
  Outcome.bind_eq_ok.2 ⟨current, hstored, rfl⟩

variable {part : Part τ Cursors}

/-- Where a cursor stands that a height was named to. -/
def named (before height : UInt32) : UInt32 :=
  if height = resetHeight then 0 else if before < height then height else before

/-- A cursor that was advanced is stored at the height that is answered. -/
theorem of_advance {moved : Option Cursors}
    (h : cursors.advance chain height = .ok (current, moved)) :
    ∃ before, cursors.stored chain = .ok before ∧ current = named before height
      ∧ (moved.getD cursors).stored chain = .ok current := by
  obtain ⟨before, hbefore, h⟩ := Outcome.bind_eq_ok.1 h
  refine ⟨before, hbefore, ?_⟩
  unfold named
  split at h
  · next hreset =>
      cases h
      exact ⟨(if_pos hreset).symm, stored_set _ _ _⟩
  · next hreset =>
      rw [if_neg hreset]
      split at h
      · next hlt =>
          cases h
          exact ⟨(if_pos hlt).symm, stored_set _ _ _⟩
      · next hlt =>
          cases h
          exact ⟨(if_neg hlt).symm, hbefore⟩

/-- A cursor in a store is moved as it is by itself, and where it then stands is said. -/
theorem of_attempt_move {s' : Store τ}
    (hpart : ∀ t cursors, part.get (part.set t cursors) = cursors)
    (h : s.attempt (move part chain height) = .ok (current, s')) :
    ∃ before, (part.get s.tables).stored chain = .ok before ∧ current = named before height
      ∧ (part.get s'.tables).stored chain = .ok current := by
  rcases of_attempt_transaction h with hact | ⟨hact, htables⟩
  · split at hact
    · next current' cursors hadvance =>
        obtain ⟨before, hbefore, hnamed, hafter⟩ := of_advance hadvance
        injection hact with hcurrent htables
        rw [← htables, hpart, ← hcurrent]
        exact ⟨before, hbefore, hnamed, hafter⟩
    · cases hact
    · cases hact
  · split at hact
    · cases hact
    · next current' hadvance =>
        obtain ⟨before, hbefore, hnamed, hafter⟩ := of_advance hadvance
        injection hact with hcurrent
        rw [htables, ← Except.ok.inj hcurrent]
        exact ⟨before, hbefore, hnamed, hafter⟩
    · next hadvance => cases hact

/-- Naming zero reads a cursor. -/
theorem attempt_move_zero (hlink : s.link = .steady)
    (hstored : (part.get s.tables).stored chain = .ok current) :
    s.attempt (move part chain 0) = .ok (current, s) := by
  refine attempt_of_abandon hlink ?_
  rw [advance_zero hstored]

/-- A move to a higher height succeeds on a steady store. -/
theorem attempt_move_up (hlink : s.link = .steady)
    (hstored : (part.get s.tables).stored chain = .ok current) (hlt : current < height)
    (hreset : height ≠ resetHeight) :
    s.attempt (move part chain height)
      = .ok (height, ⟨part.set s.tables ((part.get s.tables).set chain height), .steady⟩) := by
  refine attempt_of_commit hlink ?_
  rw [advance_up hstored hlt hreset]

/-- Where a cursor stands after it was moved past a height. -/
def past (height : UInt32) : UInt32 := if height + 1 = resetHeight then 0 else height + 1

/-- A move past a block leaves the cursor at the height after it, or at zero if that is the reset
one. -/
theorem attempt_move_past {bound : UInt32} (hlink : s.link = .steady)
    (hstored : (part.get s.tables).stored chain = .ok height) (hlt : height < bound) :
    s.attempt (move part chain (height + 1))
      = .ok (past height,
          ⟨part.set s.tables ((part.get s.tables).set chain (past height)), .steady⟩) := by
  by_cases hreset : height + 1 = resetHeight
  · have hadvance := advance_reset hstored
    rw [past, if_pos hreset, hreset]
    refine attempt_of_commit hlink ?_
    rw [hadvance]
  · rw [past, if_neg hreset]
    exact attempt_move_up hlink hstored (lt_succ hlt) hreset

end Cursors

end MergedMining.Store
