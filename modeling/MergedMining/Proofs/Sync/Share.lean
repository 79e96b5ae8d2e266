/-
What of a side-chain store is one chain's, and that a tracker works on nothing else.

A chain's share is its cursor and the rows of its outputs. Rows are told apart by their
chain before anything else, so a tracker that sees nothing but its chain's share records,
drops and moves what it would have recorded, dropped and moved on the whole store. And
what it does shows in no share but its own. Both hold of the effects of planned blocks,
which record outputs under the chain's own address only.
-/
import MergedMining.Proofs.CatchUp.Forward
import MergedMining.Proofs.CatchUp.Parts
import MergedMining.Proofs.Store.Parts
import MergedMining.Proofs.Sync.Unspent

namespace MergedMining

open CatchUp Store

-- ===================================================================== shares

/-- The cursor and the outputs of the chain with this address, beside all withdraws. -/
def SideTables.share (address : String) (t : SideTables) : SideTables :=
  { t with
    cursors := t.cursors.only address
    utxos := t.utxos.filter (·.genesis = address) }

/-- What of a store is the share of the chain with this address. -/
def SideStore.share (address : String) (store : SideStore) : SideStore :=
  store.showing (.share address)

private theorem UtxoRow.genesis_eq_of_clash {r q : UtxoRow} (h : r.clash q = true) :
    r.genesis = q.genesis :=
  congrArg (fun key => key.2.2) (of_decide_eq_true h)

private theorem SideStore.genesis_of_isOutpoint {address : String} {outpoint : String × UInt16}
    {row : UtxoRow} (h : isOutpoint address outpoint row = true) : row.genesis = address :=
  congrArg (fun key => key.2.2) (of_decide_eq_true h)

namespace Sync.Tracker

variable (t : Tracker) {effect : Effect}

/-- What is recorded is recorded under the address of the chain. -/
def Owns : Effect → Prop
  | .record utxos => ∀ utxo ∈ utxos, utxo.genesis = t.address
  | .drop _ => True

/-- A tracker plans its own effects only. -/
theorem plans : t.follower.Plans t.Owns := by
  intro block todo h effect heffect
  obtain rfl : t.effects block = todo := Except.ok.inj h
  rcases List.mem_append.1 heffect with hrecord | hdrop
  · split at hrecord
    · cases hrecord
    · obtain rfl := List.mem_singleton.1 hrecord
      exact fun utxo hutxo => genesis_of_mem_received hutxo
  · split at hdrop
    · cases hdrop
    · obtain rfl := List.mem_singleton.1 hdrop
      exact trivial

-- ================================================================ its own share

/-- An effect of a tracker's own does to the share of its chain what it does to the tables. -/
private theorem share_onTables (h : t.Owns effect) (tables : SideTables) :
    t.onTables effect (tables.share t.address) = (t.onTables effect tables).share t.address := by
  have hrows : effect.onRows t.address (tables.utxos.filter (·.genesis = t.address))
      = (effect.onRows t.address tables.utxos).filter (·.genesis = t.address) := by
    cases effect with
    | record utxos =>
        have hnew : ∀ row ∈ utxos.map UtxoRow.ofUtxo, decide (row.genesis = t.address) = true := by
          intro row hrow
          obtain ⟨utxo, hutxo, rfl⟩ := List.mem_map.1 hrow
          exact decide_eq_true (h utxo hutxo)
        refine congrArg Prod.snd (Table.insertAll_filter (fun r q hclash => ?_) hnew _)
        rw [UtxoRow.genesis_eq_of_clash hclash]
    | drop outpoints =>
        exact congrArg Prod.snd (Table.deleteAll_filter
          (fun _ _ hout => decide_eq_true (SideStore.genesis_of_isOutpoint hout)) outpoints _)
  rw [onTables, SideTables.share, hrows]
  rfl

/-- A tracker gets by with the share of its chain. -/
theorem within_share : t.follower.Within t.Owns (SideStore.share t.address) where
  cursor height store := attempt_move_showing (fun _ => rfl) (fun _ _ => rfl) height store
  act := by
    intro effect h store
    have hattempt : (SideStore.share t.address store).attempt (t.apply effect)
        = (store.attempt (t.apply effect)).map
            fun out => (out.1, SideStore.share t.address out.2) := by
      rw [attempt_apply, attempt_apply]
      refine attempt_showing ?_
      rw [t.share_onTables h]
      exact .commit () _
    cases happly : store.attempt (t.apply effect) with
    | ok out =>
        rw [happly] at hattempt
        rw [t.act_of_ok happly, t.act_of_ok hattempt]
        rfl
    | error cause =>
        rw [happly] at hattempt
        rw [t.act_of_error happly, t.act_of_error hattempt]
        rfl

-- =============================================================== other shares

/-- It leaves the shares of other chains. -/
private theorem share_onTables_of_ne {address : String} (hne : t.address ≠ address)
    (h : t.Owns effect)
    (tables : SideTables) :
    (t.onTables effect tables).share address = tables.share address := by
  have hrows : (effect.onRows t.address tables.utxos).filter (·.genesis = address)
      = tables.utxos.filter (·.genesis = address) := by
    cases effect with
    | record utxos =>
        refine Table.filter_insertAll_of_other (fun row hrow => ?_) _
        obtain ⟨utxo, hutxo, rfl⟩ := List.mem_map.1 hrow
        exact decide_eq_false fun heq => hne ((h utxo hutxo).symm.trans heq)
    | drop outpoints =>
        refine Table.filter_deleteAll_of_other (fun outpoint row hout => ?_) outpoints _
        exact decide_eq_false fun heq =>
          hne ((SideStore.genesis_of_isOutpoint hout).symm.trans heq)
  rw [SideTables.share, SideTables.share, onTables, hrows]

/-- A tracker spares the shares of other chains. -/
theorem spares_share {address : String} (hne : t.address ≠ address) :
    t.follower.Spares t.Owns (SideStore.share address) where
  cursor h := showing_of_attempt_move hne
    (fun tables moved hmoved => congrArg
      (fun cursors => ({ tables.share address with cursors } : SideTables)) hmoved) h
  act := by
    intro effect hplanned store after h
    have happly := t.attempt_of_act h
    rw [attempt_apply] at happly
    refine showing_of_attempt happly fun tables hact => ?_
    cases hact
    exact t.share_onTables_of_ne hne hplanned _

end Sync.Tracker

end MergedMining
