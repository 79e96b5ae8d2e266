/-
The deposits that wait, by the calls that were made of their store.

Each call makes some edits of the deposits, as they are told in `Keyed`, and those that
stand after all of these edits are those that the store has.
-/
import MergedMining.Proofs.Records.Kinds
import MergedMining.Store.Main

namespace MergedMining

open Store

/-- A deposit that waits is named by its transaction and the chain that it goes to. -/
def MainTx.keying : Keying MainTx (String × String) where
  clash := MainTx.clash
  names key t := t.key = key

/-- What a failure calls a deposit that waits. -/
def MainTx.label (tx : MainTx) : String := s!"{tx.hash} ({tx.genesis})"

namespace MainStore

-- ====================================================================== calls

/-- A call of the main-chain store. -/
inductive Call where
  | height (height : UInt32)
  | add (tx : MainTx)
  | addAll (txs : List MainTx)
  | contains (hash genesis : String)
  | remove (hash genesis : String)
  | removeAll (keys : List (String × String))
  | keys
  | all
  | withHashes (hashes : List String)
  | reset
  deriving DecidableEq, Repr

namespace Call

def Answer : Call → Type
  | .height _ => UInt32
  | .addAll _ => List Bool
  | .contains .. => Bool
  | .keys => List (String × String)
  | .all | .withHashes _ => List MainTx
  | .add _ | .remove .. | .removeAll _ | .reset => Unit

def op : (c : Call) → Op MainTables c.Answer
  | .height named => MainStore.height named
  | .add tx => MainStore.add tx
  | .addAll txs => MainStore.addAll txs
  | .contains hash genesis => MainStore.contains hash genesis
  | .remove hash genesis => MainStore.remove hash genesis
  | .removeAll named => MainStore.removeAll named
  | .keys => MainStore.keys
  | .all => MainStore.all
  | .withHashes hashes => MainStore.withHashes hashes
  | .reset => Op.reset

/-- The edits that a call makes. -/
def edits : Call → List (Edit MainTx (String × String))
  | .add tx => [.add tx]
  | .addAll txs => txs.map .add
  | .remove hash genesis => [.drop (hash, genesis)]
  | .removeAll named => named.map .drop
  | .reset => [.clear]
  | .height _ | .contains .. | .keys | .all | .withHashes _ => []

/-- What a call does to the cursor of the main chain. -/
def mark : Call → Cursors.Mark
  | .height named => .naming chain named
  | .reset => .clear
  | _ => .other

end Call

instance : Callable MainTables := ⟨Call, Call.Answer, Call.op⟩

/-- The deposits that stand after these calls. -/
def standing (calls : List Call) : List MainTx := MainTx.keying.live (calls.flatMap Call.edits)

/-- The store has the deposits that stand after these calls. -/
def Holds (calls : List Call) (t : MainTables) : Prop :=
  table.Tracks MainTx.keying id Call.edits calls t

-- ====================================================================== steps

/-- The table keeps deposits by their hash and chain. -/
theorem table_of : table.Of MainTx.keying id (fun key row => row.key = key) where
  clash_row _ _ := rfl
  kind_row _ _ := rfl
  lawful := ⟨fun _ _ => rfl, fun _ => rfl, fun _ _ _ => rfl⟩

def cursors : Part MainTables Cursors := ⟨(·.cursors), fun t cursors => { t with cursors }⟩

theorem cursors_lawful : cursors.Lawful := ⟨fun _ _ => rfl, fun _ => rfl, fun _ _ _ => rfl⟩

/-- Of which kind each call is. -/
theorem Call.kind (c : Call) :
    Kind table id (fun key row => row.key = key) (·.cursors) c.op c.edits c.mark.onCursors := by
  cases c with
  | height named => exact Kind.move cursors_lawful (fun _ _ => rfl) fun _ => rfl
  | add tx => exact Kind.add MainTx.label tx
  | addAll txs =>
      have hall : table.addAll (txs.map id) = MainStore.addAll txs := by
        rw [List.map_id]
        rfl
      dsimp only [Call.op]
      rw [← hall]
      exact Kind.addAll txs
  | remove hash genesis => exact Kind.removeAll [(hash, genesis)]
  | removeAll named => exact Kind.removeAll named
  | reset => exact Kind.reset
  | contains | keys | all | withHashes =>
      dsimp only [Call.op]
      exact Kind.query _

/-- Every call leaves the deposits that stand after it. -/
theorem keeps : @Keeps MainTables _ _ Holds :=
  Kind.keeps_table Call.kind table_of (fun _ _ => rfl) rfl

end MainStore

end MergedMining
