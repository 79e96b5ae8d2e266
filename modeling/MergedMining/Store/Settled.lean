/-
The settled store: deposits that were delivered to a side chain, and withdraws
that were paid out on the main chain.

A payout settles many withdraws with one transaction. The transaction is kept
once, and each withdraw it settles points at it; it is dropped when the last of
them is.

A row is marked with one or zero, and the lists of what succeeded and of what did
not go by the mark. A row that was tampered with can bear another mark; it is in
neither list, and what it says of itself is `Store.asFlag` of the mark.
-/
import MergedMining.Octets
import MergedMining.Store.Numbered

namespace MergedMining

-- ================================================================ records

/-- A deposit that was delivered, or failed to be. -/
structure Deposit where
  hash : String
  genesis : String
  succeeded : Bool
  deriving DecidableEq, Repr

/-- A withdraw together with the transaction that paid it out. -/
structure Withdraw where
  hash : String
  payout : Bytes
  succeeded : Bool
  deriving DecidableEq, Repr

-- =================================================================== rows

/-- A deposit as it lies in the file. -/
structure DepositRow where
  hash : String
  genesis : String
  succeeded : Int
  deriving DecidableEq, Repr

namespace DepositRow

def ofDeposit (d : Deposit) : DepositRow := { d with succeeded := d.succeeded.toInt }

/-- What a row means. -/
def toDeposit (r : DepositRow) : Deposit := { r with succeeded := Store.asFlag r.succeeded }

/-- The transaction and the chain that name a deposit. -/
def key (r : DepositRow) : String × String := (r.hash, r.genesis)

/-- Whether two rows are of one deposit. -/
def clash (a b : DepositRow) : Bool := a.key = b.key

end DepositRow

/-- A withdraw as it lies in the file. -/
structure WithdrawRow where
  hash : String
  payout : Int
  succeeded : Int
  deriving DecidableEq, Repr

/-- Whether two rows are of one withdraw. -/
def WithdrawRow.clash (a b : WithdrawRow) : Bool := a.hash = b.hash

/-- The tables of the settled store. -/
structure SettledTables where
  deposits : Store.Numbered DepositRow
  /-- The payouts that some withdraw points at, by number. -/
  payouts : List (Int × Bytes)
  withdraws : Store.Numbered WithdrawRow
  /-- No payout had this number or a later one. -/
  nextPayout : Int
  deriving DecidableEq, Repr

/-- Payouts are numbered from one. -/
instance : Tables SettledTables := ⟨"finished_txs", ⟨.empty, [], .empty, 1⟩⟩

/-- A store of what was settled. -/
abbrev SettledStore := Store SettledTables

namespace SettledTables

/-- A withdraw with the payout that its row points at. -/
def joined (t : SettledTables) (row : WithdrawRow) : Option Withdraw := do
  let payout ← t.payouts.lookup row.payout
  return { row with payout, succeeded := Store.asFlag row.succeeded }

/-- Records withdraws as settled by a payout, and says of each whether it was new. The
payout is kept if one of them was, and its number is used up in any case. There is no
answer if no number is left for a withdraw. -/
def settle (t : SettledTables) (hashes : List String) (payout : Bytes) (succeeded : Bool) :
    Option (List Bool × SettledTables) :=
  let rows := hashes.map fun hash => ⟨hash, t.nextPayout, succeeded.toInt⟩
  match t.withdraws.insertAll WithdrawRow.clash rows with
  | .ok (added, withdraws) =>
      let payouts := if added.any id then t.payouts ++ [(t.nextPayout, payout)] else t.payouts
      some (added, { t with withdraws, payouts, nextPayout := t.nextPayout + 1 })
  | .error _ => none

/-- Drops withdraws, and the payouts that none is left for. -/
def forget (t : SettledTables) (hashes : List String) : SettledTables :=
  let withdraws := t.withdraws.deleteAll (fun hash row => row.hash = hash) hashes
  let payouts := t.payouts.filter fun (number, _) => withdraws.rows.any (·.payout = number)
  { t with withdraws, payouts }

end SettledTables

namespace SettledStore

open Store

-- --------------------------------------------------------------- deposits

def depositTable : NumberedTable SettledTables DepositRow where
  get := (·.deposits)
  set t deposits := { t with deposits }
  clash := DepositRow.clash

/-- Adds a deposit that is not there yet. -/
def addDeposit (deposit : Deposit) : Op SettledTables Unit :=
  depositTable.add (.ofDeposit deposit) s!"{deposit.hash} ({deposit.genesis})"

/-- Adds deposits, and says of each whether it was new. -/
def addDeposits (deposits : List Deposit) : Op SettledTables (List Bool) :=
  depositTable.addAll (deposits.map .ofDeposit)

/-- Whether a deposit is recorded. -/
def containsDeposit (hash genesis : String) : Op SettledTables Bool :=
  .query fun t => .ok (t.deposits.rows.any (·.key = (hash, genesis)))

/-- The deposits of a transaction, one for each chain it was delivered to. -/
def depositsWithHash (hash : String) : Op SettledTables (List Deposit) :=
  .query fun t => .ok ((t.deposits.rows.filter (·.hash = hash)).map DepositRow.toDeposit)

/-- The deposits that are marked as succeeded, or those that are marked as failed. -/
def deposits (succeeded : Bool) : Op SettledTables (List Deposit) :=
  .query fun t =>
    .ok ((t.deposits.rows.filter (·.succeeded = succeeded.toInt)).map DepositRow.toDeposit)

def removeDeposits (keys : List (String × String)) : Op SettledTables Unit :=
  depositTable.removeAll (fun key row => row.key = key) keys

def removeDeposit (hash genesis : String) : Op SettledTables Unit :=
  removeDeposits [(hash, genesis)]

-- -------------------------------------------------------------- withdraws

/-- Records withdraws as settled by a payout, and says of each whether it was new. A
withdraw that no number is left for cannot be added on its own either, since the payout
that it points at is undone with the rest. -/
def addWithdraws (hashes : List String) (payout : Bytes) (succeeded : Bool) :
    Op SettledTables (List Bool) :=
  .transaction fun t =>
    match t.settle hashes payout succeeded with
    | some (added, t) => .commit added t
    | none => .giveUp id

/-- Records a withdraw that is not there yet as settled by a payout. -/
def addWithdraw (hash : String) (payout : Bytes) (succeeded : Bool) : Op SettledTables Unit := do
  match ← addWithdraws [hash] payout succeeded with
  | [true] => return ()
  | _ => throw (.duplicate hash)

/-- Whether a withdraw is recorded. -/
def containsWithdraw (hash : String) : Op SettledTables Bool :=
  .query fun t => .ok (t.withdraws.rows.any (·.hash = hash))

/-- The withdraw of this number, with its payout. -/
def withdraw? (hash : String) : Op SettledTables (Option Withdraw) :=
  .query fun t => .ok ((t.withdraws.rows.find? (·.hash = hash)).bind t.joined)

/-- The withdraws that are marked as succeeded, or those that are marked as failed. -/
def withdraws (succeeded : Bool) : Op SettledTables (List Withdraw) :=
  .query fun t =>
    .ok ((t.withdraws.rows.filter (·.succeeded = succeeded.toInt)).filterMap t.joined)

/-- Drops withdraws, and the payouts that none is left for. -/
def removeWithdraws (hashes : List String) : Op SettledTables Unit :=
  .update (·.forget hashes)

/-- Drops a withdraw, and its payout if none is left for it. -/
def removeWithdraw (hash : String) : Op SettledTables Unit := removeWithdraws [hash]

end SettledStore

end MergedMining
