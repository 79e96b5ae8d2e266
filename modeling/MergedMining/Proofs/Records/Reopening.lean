/-
That the files of the stores are closed and opened again does not show.

It is shown of any store whose calls do to their handle no more than transactions and
statements do, and whose tables are always such as some calls leave them. Here it is said which
of the two each call is.
-/
import MergedMining.Proofs.Records.Main
import MergedMining.Proofs.Records.Registry
import MergedMining.Proofs.Records.Settled
import MergedMining.Proofs.Records.Side
import MergedMining.Proofs.Store.Reopening

namespace MergedMining

open Store

/-- Closing and opening again does not show in any of the stores, whatever is done with it and
by whichever way it is closed. -/
theorem closing_transparent :
    OnFile.Transparent MainTables ∧ OnFile.Transparent SideTables
      ∧ OnFile.Transparent SettledTables ∧ OnFile.Transparent RegistryTables :=
  ⟨OnFile.transparent MainStore.keeps fun c => (MainStore.Call.kind c).guarded,
    OnFile.transparent SideStore.keeps fun c => (SideStore.Call.kind c).guarded,
    OnFile.transparent SettledStore.keeps fun c => c.kind.guarded,
    OnFile.transparent Registry.keeps fun c => (Registry.Call.kind c).guarded⟩

/-- A deposit that was added before a shutdown is there when the file is opened again. -/
example (tx : MainTx) :
    (OnFile.unopened (Tables.empty : MainTables)).told
        [.opening 0, .call 0 (MainStore.Call.add tx), .shutdown 0, .call 0 MainStore.Call.reset,
          .opening 1, .call 1 MainStore.Call.keys]
      = [⟨MainStore.Call.add tx, .ok ()⟩, ⟨MainStore.Call.keys, .ok [tx.key]⟩] := rfl

end MergedMining
