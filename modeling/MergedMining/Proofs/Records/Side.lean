/-
The withdraws that wait and the outputs that are unspent, by the calls that were made of
their store.

Both tables are keyed, and a call edits one of them at the most. The numbers of an output are
wider in its row, where no two of them become one.
-/
import MergedMining.Proofs.Records.Kinds
import MergedMining.Store.Side

namespace MergedMining

open Store

/-- A withdraw that waits is named by its transaction. -/
def SideTx.keying : Keying SideTx String where
  clash a b := a.hash = b.hash
  names hash t := t.hash = hash

/-- The transaction, the index and the chain that name an output. -/
def Utxo.key (u : Utxo) : String × UInt16 × String :=
  (u.output.transaction, u.output.index, u.genesis)

/-- Outputs are named by their keys, and clash if they have the same. -/
def Utxo.keying : Keying Utxo (String × UInt16 × String) where
  clash a b := a.key = b.key
  names key u := u.key = key

/-- The row of an output bears the name of the output and no other. -/
theorem UtxoRow.key_ofUtxo (u : Utxo) (transaction : String) (index : UInt16) (genesis : String) :
    (ofUtxo u).key = (transaction, (index.toNat : Int), genesis)
      ↔ u.key = (transaction, index, genesis) := by
  simp only [key, ofUtxo, Utxo.key, Prod.mk.injEq, Int.natCast_inj, UInt16.toNat_inj]

/-- The rows of outputs clash, and are dropped, as the outputs. -/
theorem Utxo.keying_rows : Utxo.keying.RowsBy UtxoRow.ofUtxo UtxoRow.clash
    fun key => SideStore.isOutpoint key.2.2 (key.1, key.2.1) where
  clash_row a _ := decide_eq_decide.2 (UtxoRow.key_ofUtxo a _ _ _)
  kind_row _ u := decide_eq_decide.2 (UtxoRow.key_ofUtxo u _ _ _)

-- ================================================================ reading rows

/-- The row of a withdraw is read as the withdraw. -/
theorem SideTxRow.toTx_ofTx (t : SideTx) : (ofTx t).toTx = .ok t :=
  Outcome.bind_eq_ok.2 ⟨t.blockHeight, as32_toNat _ _, rfl⟩

/-- The row of an output is read as the output. -/
theorem UtxoRow.toUtxo_ofUtxo (u : Utxo) : (ofUtxo u).toUtxo = .ok u := by
  refine Outcome.bind_eq_ok.2 ⟨u.output.index, as16_toNat _ _, ?_⟩
  exact Outcome.bind_eq_ok.2 ⟨u.output.sequence, as32_toNat _ _, rfl⟩

-- ================================================================ on one chain

/-- The name of an output on a chain. -/
def Utxo.named (genesis : String) (outpoint : String × UInt16) : String × UInt16 × String :=
  (outpoint.1, outpoint.2, genesis)

/-- Outputs as they are named on one chain. -/
def Utxo.keyingOn (genesis : String) : Keying Utxo (String × UInt16) where
  clash := Utxo.keying.clash
  names outpoint := Utxo.keying.names (named genesis outpoint)

/-- So they do if they are dropped by outpoints of one chain. -/
theorem Utxo.keyingOn_rows (genesis : String) :
    (Utxo.keyingOn genesis).RowsBy UtxoRow.ofUtxo UtxoRow.clash (SideStore.isOutpoint genesis) where
  clash_row := Utxo.keying_rows.clash_row
  kind_row outpoint := Utxo.keying_rows.kind_row (named genesis outpoint)

/-- Dropping by outpoints of a chain is dropping by outpoints with the chain named. -/
private theorem Utxo.editAll_keyingOn (genesis : String) (utxos : List Utxo)
    (outpoints : List (String × UInt16)) :
    (Utxo.keyingOn genesis).editAll utxos (outpoints.map .drop)
      = Utxo.keying.editAll utxos ((outpoints.map (named genesis)).map .drop) := by
  simp only [Keying.editAll, List.foldl_map]
  rfl

namespace SideStore

-- ====================================================================== calls

/-- A call of the side-chain store. -/
inductive Call where
  | height (genesis : String) (height : UInt32)
  | add (tx : SideTx)
  | addAll (txs : List SideTx)
  | contains (hash : String)
  | remove (hash : String)
  | removeAll (hashes : List String)
  | withHashes (hashes : List String)
  | ofChain (genesis : String)
  | addUtxo (utxo : Utxo)
  | addUtxos (utxos : List Utxo)
  | removeUtxo (transaction : String) (index : UInt16) (genesis : String)
  | removeUtxos (outpoints : List (String × UInt16)) (genesis : String)
  | utxosOfChain (genesis : String)
  | utxosOfAddress (address : String)
  | reset
  deriving DecidableEq, Repr

namespace Call

def Answer : Call → Type
  | .height .. => UInt32
  | .addAll _ | .removeUtxos .. => List Bool
  | .contains _ | .removeUtxo .. => Bool
  | .withHashes _ | .ofChain _ => List SideTx
  | .utxosOfChain _ | .utxosOfAddress _ => List Utxo
  | .add _ | .remove _ | .removeAll _ | .addUtxo _ | .addUtxos _ | .reset => Unit

def op : (c : Call) → Op SideTables c.Answer
  | .height genesis named => SideStore.height genesis named
  | .add tx => SideStore.add tx
  | .addAll txs => SideStore.addAll txs
  | .contains hash => SideStore.contains hash
  | .remove hash => SideStore.remove hash
  | .removeAll hashes => SideStore.removeAll hashes
  | .withHashes hashes => SideStore.withHashes hashes
  | .ofChain genesis => SideStore.ofChain genesis
  | .addUtxo utxo => SideStore.addUtxo utxo
  | .addUtxos utxos => SideStore.addUtxos utxos
  | .removeUtxo transaction index genesis => SideStore.removeUtxo transaction index genesis
  | .removeUtxos outpoints genesis => SideStore.removeUtxos outpoints genesis
  | .utxosOfChain genesis => SideStore.utxosOfChain genesis
  | .utxosOfAddress address => SideStore.utxosOfAddress address
  | .reset => Op.reset

/-- The edits of withdraws that a call makes. -/
def edits : Call → List (Edit SideTx String)
  | .add tx => [.add tx]
  | .addAll txs => txs.map .add
  | .remove hash => [.drop hash]
  | .removeAll hashes => hashes.map .drop
  | .reset => [.clear]
  | _ => []

/-- The edits of outputs that a call makes. -/
def utxoEdits : Call → List (Edit Utxo (String × UInt16 × String))
  | .addUtxo utxo => [.add utxo]
  | .addUtxos utxos => utxos.map .add
  | .removeUtxo transaction index genesis => [.drop (transaction, index, genesis)]
  | .removeUtxos outpoints genesis => (outpoints.map (Utxo.named genesis)).map .drop
  | .reset => [.clear]
  | _ => []

/-- What a call does to the cursors of side chains. -/
def mark : Call → Cursors.Mark
  | .height genesis named => .naming genesis named
  | .reset => .clear
  | _ => .other

/-- The rows of outputs after a call. -/
def onUtxos (rows : List UtxoRow) : Call → List UtxoRow
  | .addUtxo utxo => (Table.insert UtxoRow.clash rows (.ofUtxo utxo)).2
  | .addUtxos utxos => (Table.insertAll UtxoRow.clash rows (utxos.map .ofUtxo)).2
  | .removeUtxo transaction index genesis =>
      (Table.delete (isOutpoint genesis (transaction, index)) rows).2
  | .removeUtxos outpoints genesis => (Table.deleteAll (isOutpoint genesis) rows outpoints).2
  | .reset => []
  | _ => rows

/-- The rows after a call are those of the outputs after its edits. -/
theorem onUtxos_rows (c : Call) (utxos : List Utxo) :
    c.onUtxos (utxos.map .ofUtxo) = (Utxo.keying.editAll utxos c.utxoEdits).map .ofUtxo := by
  cases c with
  | addUtxo utxo => exact congrArg Prod.snd (Utxo.keying_rows.insert utxos utxo)
  | addUtxos new => exact congrArg Prod.snd (Utxo.keying_rows.insertAll utxos new)
  | removeUtxo transaction index genesis =>
      exact congrArg Prod.snd ((Utxo.keyingOn_rows genesis).delete utxos (transaction, index))
  | removeUtxos outpoints genesis =>
      rw [onUtxos, (Utxo.keyingOn_rows genesis).deleteAll, Utxo.editAll_keyingOn]
      rfl
  | _ => rfl

end Call

instance : Callable SideTables := ⟨Call, Call.Answer, Call.op⟩

/-- The withdraws that stand after these calls. -/
def standing (calls : List Call) : List SideTx := SideTx.keying.live (calls.flatMap Call.edits)

/-- The outputs that stand after these calls. -/
def standingUtxos (calls : List Call) : List Utxo :=
  Utxo.keying.live (calls.flatMap Call.utxoEdits)

/-- The store has the withdraws and the outputs that stand after these calls. -/
structure Holds (calls : List Call) (t : SideTables) : Prop where
  withdraws : table.Tracks SideTx.keying SideTxRow.ofTx Call.edits calls t
  utxos : t.utxos = (standingUtxos calls).map .ofUtxo

-- ====================================================================== steps

/-- The table keeps withdraws by their hash. -/
theorem table_of : table.Of SideTx.keying SideTxRow.ofTx (fun hash row => row.hash = hash) where
  clash_row _ _ := rfl
  kind_row _ _ := rfl
  lawful := ⟨fun _ _ => rfl, fun _ => rfl, fun _ _ _ => rfl⟩

def cursors : Part SideTables Cursors := ⟨(·.cursors), fun t cursors => { t with cursors }⟩

theorem cursors_lawful : cursors.Lawful := ⟨fun _ _ => rfl, fun _ => rfl, fun _ _ _ => rfl⟩

/-- Of which kind each call is. Beside the withdraws are cursors and outputs. -/
theorem Call.kind (c : Call) :
    Kind table SideTxRow.ofTx (fun hash row => row.hash = hash) (fun t => (t.cursors, t.utxos))
      c.op c.edits (Prod.map c.mark.onCursors c.onUtxos) := by
  cases c with
  | height genesis named => exact Kind.move cursors_lawful (fun _ _ => rfl) fun _ => rfl
  | add tx => exact Kind.add SideTx.hash tx
  | addAll txs => exact Kind.addAll txs
  | remove hash => exact Kind.removeAll [hash]
  | removeAll hashes => exact Kind.removeAll hashes
  | addUtxo | addUtxos =>
      dsimp only [Call.op]
      exact Kind.update (fun _ => rfl) fun _ => rfl
  | removeUtxo | removeUtxos =>
      dsimp only [Call.op]
      exact Kind.commit (fun _ => rfl) (fun _ => rfl) fun _ => rfl
  | reset => exact Kind.reset
  | contains | withHashes | ofChain | utxosOfChain | utxosOfAddress =>
      dsimp only [Call.op, SideStore.utxosOfChain, SideStore.utxosOfAddress]
      exact Kind.query _

/-- Every call leaves the withdraws and the outputs that stand after it, and of the cursors
whatever its mark keeps. -/
theorem keeps_marked (holds : List Call → Cursors → Prop) (hnil : holds [] [])
    (hstep : ∀ {calls cursors}, holds calls cursors → ∀ c : Call,
      holds (calls ++ [c]) (c.mark.onCursors cursors)) :
    @Keeps SideTables _ _ fun calls t => Holds calls t ∧ holds calls t.cursors := by
  refine (Kind.keeps
    (fun calls beside => holds calls beside.1 ∧ beside.2 = (standingUtxos calls).map .ofUtxo)
    Call.kind table_of (fun _ _ => rfl) rfl ⟨hnil, rfl⟩ ?_).congr fun calls t => ?_
  · intro calls beside h c
    refine ⟨hstep h.1 c, ?_⟩
    show c.onUtxos beside.2 = _
    rw [h.2, Call.onUtxos_rows, standingUtxos, standingUtxos, Keying.live_flatMap_concat]
  · exact ⟨fun h => ⟨⟨h.1, h.2.2⟩, h.2.1⟩, fun h => ⟨h.1.withdraws, h.2, h.1.utxos⟩⟩

/-- Every call leaves the withdraws and the outputs that stand after it. -/
theorem keeps : @Keeps SideTables _ _ Holds := by
  simpa only [and_true] using keeps_marked (fun _ _ => True) trivial fun _ _ => trivial

end SideStore

end MergedMining
