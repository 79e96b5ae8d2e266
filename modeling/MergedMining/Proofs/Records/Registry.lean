/-
The registrations that stand, by the calls that were made of the registry.

A registration clashes with two kinds of others, those of its transaction and those of its
chain, but it is named by its chain alone.
-/
import MergedMining.Proofs.Records.Kinds
import MergedMining.Store.Registry

namespace MergedMining

open Store

/-- A registration clashes with those of its transaction and of its chain, and is named by its
chain. -/
def Registration.keying : Keying Registration String where
  clash a b := a.hash = b.hash || a.genesis = b.genesis
  names genesis r := r.genesis = genesis

/-- The row of a registration is read as the registration. -/
theorem RegistrationRow.toRegistration_ofRegistration (r : Registration) :
    (ofRegistration r).toRegistration = .ok r :=
  Outcome.bind_eq_ok.2 ⟨r.height, as32_toNat _ _, rfl⟩

namespace Registry

-- ====================================================================== calls

/-- A call of the registry. -/
inductive Call where
  | add (chain : Registration)
  | addAll (chains : List Registration)
  | find? (genesis : String)
  | contains (genesis : String)
  | all
  | remove (genesis : String)
  | removeAll (genesis : List String)
  | reset
  deriving DecidableEq, Repr

namespace Call

def Answer : Call → Type
  | .addAll _ => List Bool
  | .find? _ => Option Registration
  | .contains _ => Bool
  | .all => List Registration
  | .add _ | .remove _ | .removeAll _ | .reset => Unit

def op : (c : Call) → Op RegistryTables c.Answer
  | .add chain => Registry.add chain
  | .addAll chains => Registry.addAll chains
  | .find? genesis => Registry.find? genesis
  | .contains genesis => Registry.contains genesis
  | .all => Registry.all
  | .remove genesis => Registry.remove genesis
  | .removeAll genesis => Registry.removeAll genesis
  | .reset => Op.reset

/-- The edits that a call makes. -/
def edits : Call → List (Edit Registration String)
  | .add chain => [.add chain]
  | .addAll chains => chains.map .add
  | .remove genesis => [.drop genesis]
  | .removeAll genesis => genesis.map .drop
  | .reset => [.clear]
  | .find? _ | .contains _ | .all => []

end Call

instance : Callable RegistryTables := ⟨Call, Call.Answer, Call.op⟩

/-- The registrations that stand after these calls. -/
def standing (calls : List Call) : List Registration :=
  Registration.keying.live (calls.flatMap Call.edits)

/-- The store has the registrations that stand after these calls. -/
def Holds (calls : List Call) (t : RegistryTables) : Prop :=
  table.Tracks Registration.keying RegistrationRow.ofRegistration Call.edits calls t

-- ====================================================================== steps

/-- The table keeps registrations by their chain and by their transaction. -/
theorem table_of :
    table.Of Registration.keying RegistrationRow.ofRegistration
      (fun chain row => row.genesis = chain) where
  clash_row _ _ := rfl
  kind_row _ _ := rfl
  lawful := ⟨fun _ _ => rfl, fun _ => rfl, fun _ _ _ => rfl⟩

/-- Of which kind each call is. There is nothing beside the registrations. -/
theorem Call.kind (c : Call) :
    Kind table RegistrationRow.ofRegistration (fun chain row => row.genesis = chain) (fun _ => ())
      c.op c.edits id := by
  cases c with
  | add chain => exact Kind.add Registration.genesis chain
  | addAll chains => exact Kind.addAll chains
  | remove genesis => exact Kind.removeAll [genesis]
  | removeAll genesis => exact Kind.removeAll genesis
  | reset => exact Kind.reset
  | contains =>
      dsimp only [Call.op]
      exact (Kind.query _).map _
  | find? | all =>
      dsimp only [Call.op]
      exact Kind.query _

/-- Every call leaves the registrations that stand after it. -/
theorem keeps : @Keeps RegistryTables _ _ Holds :=
  Kind.keeps_table Call.kind table_of (fun _ _ => rfl) rfl

end Registry

end MergedMining
