/-
Stores: tables in a file, and a handle through which they are used.

The handle is open or closed; the tables outlive it, so a file that is opened
again shows what was last committed. An operation on a closed handle is refused.
A transaction that fails commits nothing. An operation can look at what it
committed and fail after that, so a failure does not undo it.

One failure does more. When no number is left for a row, all that is not committed
is undone, and the row is added once more on its own, which can succeed where it
failed within a transaction. The handle goes on counting a transaction that was
given up as running. It works like any other until a transaction is abandoned: that
one is not ended, and from then on nothing is committed. What is done shows through
the handle but not in the file, and closing the handle loses it.

Numbers lie in a file wider than the program means them, so a file that was
tampered with can hold a number that means nothing. It is refused where it is
read, under the name of its column. A flag is a number as well, but there is no
number that does not read as one.
-/
import MergedMining.Octets

namespace MergedMining.Store

-- =============================================================== failures

/-- Why an operation of a store fails. -/
inductive Error where
  /-- The file cannot be used as this store. -/
  | cannotOpen (store : String)
  | duplicate (key : String)
  | closed (store : String)
  /-- The file holds a number that this column cannot mean. -/
  | corrupt (column : String) (value : Int)
  | full
  deriving DecidableEq, Repr

namespace Error

/-- What is said of an operation that failed. -/
def message : Error → String
  | .cannotOpen store => "cannot open store: " ++ store
  | .duplicate key => "record already exists: " ++ key
  | .closed store => "store " ++ store ++ " is closed"
  | .corrupt column value => "corrupt value in column " ++ column ++ ": " ++ toString value
  | .full => "database error: error returned from database: (code: 13) database or disk is full"

/-- Whether the record is there already, which callers take for success. -/
def isDuplicate : Error → Bool
  | .duplicate _ => true
  | _ => false

end Error

-- ================================================================ numbers

/-- A number of this column as the 32-bit number it means. -/
def as32 (column : String) (value : Int) : Except Error UInt32 :=
  if 0 ≤ value ∧ value < 2 ^ 32 then .ok (UInt32.ofNat value.toNat)
  else .error (.corrupt column value)

/-- A number of this column as the 16-bit number it means. -/
def as16 (column : String) (value : Int) : Except Error UInt16 :=
  if 0 ≤ value ∧ value < 2 ^ 16 then .ok (UInt16.ofNat value.toNat)
  else .error (.corrupt column value)

/-- A number as the flag it means: false if its lower 32 bits are zero. -/
def asFlag (value : Int) : Bool := value % 2 ^ 32 ≠ 0

end MergedMining.Store

namespace MergedMining

-- ================================================================ handles

/-- A set of tables that makes up a store. -/
class Tables (τ : Type) where
  /-- What failures call the store. -/
  storeName : String
  /-- No table has a row. -/
  empty : τ

/-- A component of type `τ` of values of type `σ`, such as one of the tables. -/
structure Part (σ τ : Type) where
  get : σ → τ
  set : σ → τ → σ

/-- Changes a component and leaves the rest. -/
def Part.modify {σ τ : Type} (part : Part σ τ) (change : τ → τ) (whole : σ) : σ :=
  part.set whole (change (part.get whole))

/-- How a handle stands to its file. -/
inductive Link (τ : Type) where
  | closed
  /-- What is done is committed. -/
  | steady
  /-- What is done is committed, but a transaction that was given up counts as running. -/
  | adrift
  /-- A transaction was never ended. What is done is part of it, and the file has these
  tables, which were committed before. -/
  | unfinished (file : τ)
  deriving DecidableEq, Repr

/-- A store: its tables as the handle shows them, and how the handle stands to the file. -/
structure Store (τ : Type) where
  tables : τ
  link : Link τ

namespace Store

variable {τ α : Type}

/-- The handle can be used. -/
def isOpen (s : Store τ) : Bool :=
  match s.link with
  | .closed => false
  | _ => true

/-- The tables that the file has, which are those that were committed. -/
def file (s : Store τ) : τ :=
  match s.link with
  | .unfinished file => file
  | _ => s.tables

-- ====================================================== opening and closing

/-- What lies where a store is to be opened. -/
inductive Place (τ : Type) where
  /-- Nothing: a new file is made. -/
  | free
  | file (tables : τ)
  /-- Something that cannot be used as a file of tables. -/
  | obstructed
  deriving DecidableEq, Repr

/-- Opens a store at a place, which then holds what is there or nothing. -/
def openAt [Tables τ] : Place τ → Except Error (Store τ)
  | .free => .ok ⟨Tables.empty, .steady⟩
  | .file tables => .ok ⟨tables, .steady⟩
  | .obstructed => .error (.cannotOpen (Tables.storeName τ))

/-- A store on a file that was not there before. -/
def create [Tables τ] : Store τ := ⟨Tables.empty, .steady⟩

/-- Closes the handle. Closing a closed handle changes nothing. -/
def close (s : Store τ) : Store τ := ⟨s.file, .closed⟩

/-- A handle that is opened anew shows what is in the file. -/
def reopen (s : Store τ) : Store τ := ⟨s.file, .steady⟩

-- ============================================================== operations

/-- What can be done with a store. -/
abbrev Op (τ α : Type) := ExceptT Error (StateM (Store τ)) α

/-- How an operation comes to its end. -/
inductive Ending (τ α : Type) where
  /-- It leaves these tables. -/
  | commit (value : α) (tables : τ)
  /-- It is abandoned, having changed nothing. -/
  | abandon (outcome : Except Error α)
  /-- It is given up, since no number is left for a row. `again` adds that row on its own,
  if it can be added. -/
  | giveUp (again : τ → τ)

namespace Op

/-- Runs a transaction on the tables, if the handle is open. -/
def transaction [Tables τ] (act : τ → Ending τ α) : Op τ α :=
  ExceptT.mk fun s =>
    if s.isOpen then
      match act s.tables with
      | .commit value tables => (.ok value, { s with tables })
      | .abandon outcome =>
          match s.link with
          | .adrift => (outcome, { s with link := .unfinished s.tables })
          | _ => (outcome, s)
      | .giveUp again => (.error .full, ⟨again s.file, .adrift⟩)
    else (.error (.closed (Tables.storeName τ)), s)

/-- Runs a single statement on the tables, if the handle is open. It is no transaction, so
none stays behind when it is abandoned or given up; giving it up undoes what is not
committed. -/
def statement [Tables τ] (act : τ → Ending τ α) : Op τ α :=
  ExceptT.mk fun s =>
    if s.isOpen then
      match act s.tables with
      | .commit value tables => (.ok value, { s with tables })
      | .abandon outcome => (outcome, s)
      | .giveUp again =>
          match s.link with
          | .unfinished file => (.error .full, ⟨again file, .adrift⟩)
          | _ => (.error .full, s)
    else (.error (.closed (Tables.storeName τ)), s)

/-- An operation that changes the tables and cannot fail. -/
def update [Tables τ] (change : τ → τ) : Op τ Unit :=
  transaction fun tables => .commit () (change tables)

/-- An operation that looks at the tables and leaves them. -/
def query [Tables τ] (look : τ → Except Error α) : Op τ α :=
  statement fun tables => .abandon (look tables)

/-- Empties all tables. -/
def reset [Tables τ] : Op τ Unit := update fun _ => Tables.empty

end Op

/-- Runs an operation; beside its outcome stands the store as it is afterwards. -/
def run (op : Op τ α) (s : Store τ) : Except Error α × Store τ := StateT.run (ExceptT.run op) s

/-- Runs an operation, and keeps the store only if it succeeds. -/
def attempt (op : Op τ α) (s : Store τ) : Except Error (α × Store τ) :=
  match s.run op with
  | (.ok value, s') => .ok (value, s')
  | (.error e, _) => .error e

end Store

end MergedMining
