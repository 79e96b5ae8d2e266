/-
What the rows of a tracker mean: the outputs paid to watched addresses that are not
spent.

On a chain where every output is created once and is not spent before, the rows that
the blocks below a height leave are plain to write down. They are the outputs
recorded of these blocks, in order, without those that one of the blocks spends. For
nothing is recorded whose key is taken, so nothing that is recorded is ignored, and
what a block drops was recorded by it or by a block below it, so dropping now and
dropping at the end come to the same. That a session gets there whatever happens to
its ticks is the theory of how sessions converge.
-/
import Mathlib.Data.List.Flatten
import MergedMining.Proofs.Sync.Convergence

namespace MergedMining

open Store

-- =================================================================== outpoints

namespace Sync

/-- The outputs that a block creates. -/
def created (block : Node.Block) : List (String × UInt16) :=
  block.transactions.flatMap fun tx => tx.outputs.map fun output => (tx.id, output.index)

/-- Every output is created once, and spent in the block that creates it or in a later one. -/
structure Chain.Orderly (chain : Chain) : Prop where
  nodup_created : ∀ height, (created (chain.block height)).Nodup
  created_once : ∀ height height' outpoint, outpoint ∈ created (chain.block height) →
    outpoint ∈ created (chain.block height') → height = height'
  spent_later : ∀ height height' outpoint, outpoint ∈ created (chain.block height) →
    outpoint ∈ Tracker.spent (chain.block height') → height ≤ height'

end Sync

/-- The transaction and the index of an output. -/
def Utxo.outpoint (u : Utxo) : String × UInt16 := (u.output.transaction, u.output.index)

/-- Outputs whose rows clash have one outpoint. -/
private theorem UtxoRow.clash_ofUtxo {u v : Utxo} (h : (ofUtxo u).clash (ofUtxo v) = true) :
    u.outpoint = v.outpoint := by
  have hkey := of_decide_eq_true h
  simp only [key, ofUtxo, Prod.mk.injEq, Int.natCast_inj] at hkey
  exact Prod.ext hkey.1 (UInt16.toNat_inj.1 hkey.2.1)

/-- The row of an output of the chain is under the output's outpoint. -/
private theorem UtxoRow.isOutpoint_ofUtxo {u : Utxo} {address : String} {outpoint : String × UInt16}
    (haddress : u.genesis = address) :
    SideStore.isOutpoint address outpoint (ofUtxo u) = true ↔ outpoint = u.outpoint := by
  unfold SideStore.isOutpoint
  rw [decide_eq_true_iff]
  simp only [key, ofUtxo, Prod.mk.injEq, Int.natCast_inj, haddress, and_true]
  constructor
  · intro h
    obtain ⟨htx, hindex⟩ := h
    exact Prod.ext htx.symm (UInt16.toNat_inj.1 hindex).symm
  · intro h
    subst h
    exact ⟨rfl, rfl⟩

namespace Sync.Tracker

variable {t : Tracker} {chain : Chain} {block : Node.Block} {height : UInt32}

-- =================================================================== one block

/-- An output is recorded if its address is monitored and its value is an amount. -/
private theorem utxo?_eq_some {tx : Node.Transaction} {output : Node.Output} {u : Utxo} :
    t.utxo? height tx output = some u ↔
      output.address ∈ t.monitored ∧ ∃ amount, Amount.parse output.value = .ok amount
        ∧ u = ⟨⟨tx.id, output.index, t.spendableFrom height tx output⟩, amount, t.address,
            output.address⟩ := by
  unfold utxo?
  split
  · next hmem =>
      cases hparse : Amount.parse output.value with
      | ok amount =>
          constructor
          · intro h
            exact ⟨hmem, amount, rfl, (Option.some.inj h).symm⟩
          · intro h
            obtain ⟨-, amount', hamount, rfl⟩ := h
            cases hamount
            rfl
      | error cause =>
          constructor
          · intro h
            cases h
          · intro h
            obtain ⟨-, amount', hamount, -⟩ := h
            cases hamount
  · next hmem =>
      constructor
      · intro h
        cases h
      · intro h
        obtain ⟨hmem', -⟩ := h
        exact absurd hmem' hmem

/-- A block brings the outputs of its transactions that are recorded. -/
private theorem mem_received {u : Utxo} :
    u ∈ t.received block ↔
      ∃ tx ∈ block.transactions, ∃ output ∈ tx.outputs,
        t.utxo? block.height tx output = some u := by
  unfold received
  rw [List.mem_flatMap]
  simp only [List.mem_filterMap]

/-- What a block brings is of the tracker's chain. -/
theorem genesis_of_mem_received {u : Utxo} (h : u ∈ t.received block) : u.genesis = t.address := by
  obtain ⟨tx, -, output, -, hu⟩ := mem_received.1 h
  obtain ⟨-, amount, -, rfl⟩ := utxo?_eq_some.1 hu
  rfl

/-- What is recorded of a block is of outputs that the block creates, each at most once. -/
theorem outpoints_received_sublist (t : Tracker) (block : Node.Block) :
    ((t.received block).map Utxo.outpoint).Sublist (created block) := by
  unfold received created
  rw [List.map_flatMap]
  refine List.Sublist.flatMap_right _ fun tx _ => ?_
  induction tx.outputs with
  | nil => exact List.Sublist.slnil
  | cons output outputs ih =>
      rw [List.filterMap_cons, List.map_cons]
      cases hu : t.utxo? block.height tx output with
      | none => exact ih.cons _
      | some u =>
          obtain ⟨-, amount, -, rfl⟩ := utxo?_eq_some.1 hu
          exact ih.cons_cons _

-- ================================================================ many blocks

/-- What is recorded of the blocks below a height, if none is ignored. -/
def receivedBelow (t : Tracker) (chain : Chain) (count : Nat) : List Utxo :=
  (List.range count).flatMap fun h => t.received (chain.block (UInt32.ofNat h))

/-- The outputs that the first blocks spend. -/
def spentBelow (chain : Chain) (count : Nat) : List (String × UInt16) :=
  (List.range count).flatMap fun h => spent (chain.block (UInt32.ofNat h))

/-- What was received below a height was received in one of the blocks. -/
private theorem mem_receivedBelow {count : Nat} {u : Utxo} :
    u ∈ t.receivedBelow chain count ↔
      ∃ h < count, u ∈ t.received (chain.block (UInt32.ofNat h)) := by
  unfold receivedBelow
  rw [List.mem_flatMap]
  simp only [List.mem_range]

/-- What was spent below a height was spent in one of the blocks. -/
private theorem mem_spentBelow {count : Nat} {outpoint : String × UInt16} :
    outpoint ∈ spentBelow chain count ↔
      ∃ h < count, outpoint ∈ spent (chain.block (UInt32.ofNat h)) := by
  unfold spentBelow
  rw [List.mem_flatMap]
  simp only [List.mem_range]

/-- The heights below a height, as numbers and as heights. -/
theorem exists_lt_toNat (p : UInt32 → Prop) :
    (∃ h < height.toNat, p (UInt32.ofNat h)) ↔ ∃ h < height, p h := by
  constructor
  · intro h
    obtain ⟨h, hlt, hp⟩ := h
    refine ⟨UInt32.ofNat h, ?_, hp⟩
    rw [UInt32.lt_iff_toNat_lt, UInt32.toNat_ofNat_of_lt' (Nat.lt_trans hlt height.toNat_lt)]
    exact hlt
  · intro h
    obtain ⟨h, hlt, hp⟩ := h
    exact ⟨h.toNat, UInt32.lt_iff_toNat_lt.1 hlt, UInt32.ofNat_toNat.symm ▸ hp⟩

private theorem mem_receivedBelow_toNat {u : Utxo} :
    u ∈ t.receivedBelow chain height.toNat ↔ ∃ h < height, u ∈ t.received (chain.block h) :=
  mem_receivedBelow.trans (exists_lt_toNat fun h => u ∈ t.received (chain.block h))

private theorem mem_spentBelow_toNat {outpoint : String × UInt16} :
    outpoint ∈ spentBelow chain height.toNat ↔ ∃ h < height, outpoint ∈ spent (chain.block h) :=
  mem_spentBelow.trans (exists_lt_toNat fun h => outpoint ∈ spent (chain.block h))

/-- The next block brings its outputs. -/
private theorem receivedBelow_succ (count : Nat) :
    t.receivedBelow chain (count + 1)
      = t.receivedBelow chain count ++ t.received (chain.block (UInt32.ofNat count)) := by
  unfold receivedBelow
  rw [List.range_succ, List.flatMap_append, List.flatMap_singleton]

/-- The next block spends its outpoints. -/
private theorem spentBelow_succ (count : Nat) :
    spentBelow chain (count + 1)
      = spentBelow chain count ++ spent (chain.block (UInt32.ofNat count)) := by
  unfold spentBelow
  rw [List.range_succ, List.flatMap_append, List.flatMap_singleton]

/-- Whether an output is not among these. -/
def unspentBy (t : Tracker) (outpoints : List (String × UInt16)) (row : UtxoRow) : Bool :=
  !outpoints.any (SideStore.isOutpoint t.address · row)

private theorem unspentBy_append (outpoints others : List (String × UInt16)) (row : UtxoRow) :
    t.unspentBy (outpoints ++ others) row
      = (t.unspentBy others row && t.unspentBy outpoints row) := by
  rw [unspentBy, List.any_append, Bool.not_or, Bool.and_comm, ← unspentBy, ← unspentBy]

/-- The row of an output is unspent by outpoints that do not include the output's. -/
private theorem unspentBy_ofUtxo {outpoints : List (String × UInt16)} {u : Utxo}
    (haddress : u.genesis = t.address) :
    t.unspentBy outpoints (.ofUtxo u) = true ↔ u.outpoint ∉ outpoints := by
  rw [unspentBy, Bool.not_eq_true', ← Bool.not_eq_true, List.any_eq_true]
  refine not_congr ⟨?_, ?_⟩
  · intro h
    obtain ⟨outpoint, hmem, hrow⟩ := h
    rw [UtxoRow.isOutpoint_ofUtxo haddress] at hrow
    exact hrow ▸ hmem
  · intro hmem
    exact ⟨u.outpoint, hmem, (UtxoRow.isOutpoint_ofUtxo haddress).2 rfl⟩

/-- The outpoint of what is recorded of a block is created by the block. -/
theorem created_of_mem_received {u : Utxo} (h : u ∈ t.received block) :
    u.outpoint ∈ created block :=
  (outpoints_received_sublist t block).subset (List.mem_map_of_mem h)

/-- What is recorded of a block is of no output that was recorded below it. -/
theorem outpoint_ne_of_mem {count : Nat} (horderly : chain.Orderly) (hcount : count < 2 ^ 32)
    {u v : Utxo} (hu : u ∈ t.receivedBelow chain count)
    (hv : v ∈ t.received (chain.block (UInt32.ofNat count))) : u.outpoint ≠ v.outpoint := by
  intro heq
  obtain ⟨h, hlt, hu⟩ := mem_receivedBelow.1 hu
  have hcreated := created_of_mem_received hu
  rw [heq] at hcreated
  have hsame := horderly.created_once _ _ _ hcreated (created_of_mem_received hv)
  have htoNat := congrArg UInt32.toNat hsame
  rw [UInt32.toNat_ofNat_of_lt' hcount, UInt32.toNat_ofNat_of_lt' (Nat.lt_trans hlt hcount)]
    at htoNat
  omega

private theorem nodup_outpoints_received (t : Tracker) (horderly : chain.Orderly)
    (height : UInt32) :
    ((t.received (chain.block height)).map Utxo.outpoint).Nodup :=
  (horderly.nodup_created height).sublist (outpoints_received_sublist t _)

/-- The outputs of a block find their keys free. -/
theorem insertAll_received {count : Nat} (horderly : chain.Orderly) (hcount : count < 2 ^ 32)
    {rows : List UtxoRow} (hrows : rows ⊆ (t.receivedBelow chain count).map .ofUtxo) :
    (Table.insertAll UtxoRow.clash rows
        ((t.received (chain.block (UInt32.ofNat count))).map .ofUtxo)).2
      = rows ++ (t.received (chain.block (UInt32.ofNat count))).map .ofUtxo := by
  apply Table.insertAll_of_free
  · intro r hr q hq
    obtain ⟨u, hu, rfl⟩ := List.mem_map.1 hr
    obtain ⟨v, hv, rfl⟩ := List.mem_map.1 (hrows hq)
    refine Bool.eq_false_iff.2 fun hclash => ?_
    exact outpoint_ne_of_mem horderly hcount hv hu (UtxoRow.clash_ofUtxo hclash).symm
  · have hnodup := nodup_outpoints_received t horderly (UInt32.ofNat count)
    rw [List.Nodup, List.pairwise_map] at hnodup
    rw [List.pairwise_map]
    refine hnodup.imp fun hne => Bool.eq_false_iff.2 fun hclash => ?_
    exact hne (UtxoRow.clash_ofUtxo hclash).symm

/-- An orderly chain creates no outpoint twice, in one block or in two. -/
private theorem nodup_outpoints_receivedBelow (t : Tracker) {count : Nat} (horderly : chain.Orderly)
    (hcount : count ≤ 2 ^ 32) : ((t.receivedBelow chain count).map Utxo.outpoint).Nodup := by
  induction count with
  | zero => exact List.nodup_nil
  | succ count ih =>
      have hlt : count < 2 ^ 32 := Nat.lt_of_succ_le hcount
      rw [receivedBelow_succ, List.map_append, List.nodup_append]
      refine ⟨ih (Nat.le_of_lt hlt), nodup_outpoints_received t horderly _, ?_⟩
      intro a ha b hb
      obtain ⟨u, hu, rfl⟩ := List.mem_map.1 ha
      obtain ⟨v, hv, rfl⟩ := List.mem_map.1 hb
      exact outpoint_ne_of_mem horderly hlt hu hv

/-- No block below spends what a block creates. -/
theorem unspentBy_spentBelow {count : Nat} (horderly : chain.Orderly) (hcount : count < 2 ^ 32)
    {u : Utxo} (hu : u ∈ t.received (chain.block (UInt32.ofNat count))) :
    t.unspentBy (spentBelow chain count) (.ofUtxo u) = true := by
  rw [unspentBy_ofUtxo (genesis_of_mem_received hu)]
  intro hmem
  obtain ⟨h, hlt, hspent⟩ := mem_spentBelow.1 hmem
  have hle := horderly.spent_later _ _ _ (created_of_mem_received hu) hspent
  rw [UInt32.le_iff_toNat_le, UInt32.toNat_ofNat_of_lt' hcount,
    UInt32.toNat_ofNat_of_lt' (Nat.lt_trans hlt hcount)] at hle
  omega

/-- What was recorded below a height and not spent below it. -/
def keptBelow (t : Tracker) (chain : Chain) (count : Nat) : List UtxoRow :=
  ((t.receivedBelow chain count).map .ofUtxo).filter (t.unspentBy (spentBelow chain count))

/-- A block adds what it pays to what was kept, and takes away what it spends of both. -/
theorem handle_keptBelow (horderly : chain.Orderly) {count : Nat} (hcount : count < 2 ^ 32) :
    t.handle (chain.block (UInt32.ofNat count)) (t.keptBelow chain count)
      = t.keptBelow chain (count + 1) := by
  let block := chain.block (UInt32.ofNat count)
  let rows := (t.receivedBelow chain count).map UtxoRow.ofUtxo
  let new := (t.received block).map UtxoRow.ofUtxo
  have hadded : (Table.insertAll UtxoRow.clash (t.keptBelow chain count) new).2
      = t.keptBelow chain count ++ new :=
    insertAll_received horderly hcount List.filter_sublist.subset
  have hnew : new.filter (t.unspentBy (spent block))
      = new.filter (t.unspentBy (spentBelow chain (count + 1))) := by
    refine List.filter_congr fun r hr => ?_
    obtain ⟨u, hu, rfl⟩ := List.mem_map.1 hr
    rw [spentBelow_succ, unspentBy_append, unspentBy_spentBelow horderly hcount hu, Bool.and_true]
  have hold : (t.keptBelow chain count).filter (t.unspentBy (spent block))
      = rows.filter (t.unspentBy (spentBelow chain (count + 1))) := by
    rw [keptBelow, List.filter_filter]
    refine List.filter_congr fun r _ => ?_
    rw [spentBelow_succ, unspentBy_append]
  rw [handle_eq, Table.deleteAll_eq_filter]
  show ((Table.insertAll UtxoRow.clash (t.keptBelow chain count) new).2).filter
    (t.unspentBy (spent block)) = _
  rw [hadded, List.filter_append, hold, hnew, keptBelow, receivedBelow_succ, List.map_append,
    List.filter_append]

/-- Blocks handled in order from the first leave what was recorded and not spent. -/
theorem foldl_handle_eq (horderly : chain.Orderly) {count : Nat} (hcount : count ≤ 2 ^ 32) :
    (List.range count).foldl (fun rows h => t.handle (chain.block (UInt32.ofNat h)) rows) []
      = t.keptBelow chain count := by
  induction count with
  | zero => rfl
  | succ count ih =>
      have hlt : count < 2 ^ 32 := Nat.lt_of_succ_le hcount
      rw [List.range_succ, List.foldl_append, ih (Nat.le_of_lt hlt), List.foldl_cons,
        List.foldl_nil, handle_keptBelow horderly hlt]

/-- In an orderly chain the rows below a height are the outputs received and not spent there. -/
private theorem rowsBelow_eq (horderly : chain.Orderly) (height : UInt32) :
    t.rowsBelow chain 0 [] height = t.keptBelow chain height.toNat := by
  rw [← foldl_handle_eq horderly (Nat.le_of_lt height.toNat_lt), rowsBelow, List.range_eq_range']
  rfl

-- ==================================================================== meaning

/-- The row of an output with this amount, of a transaction in the block of this height. -/
def rowOf (t : Tracker) (height : UInt32) (tx : Node.Transaction) (output : Node.Output)
    (amount : Int64) : UtxoRow where
  transaction := tx.id
  index := output.index.toNat
  sequence :=
    if tx.kind = MainChain.Kind.coinbase then
      ((min (height.toNat + t.maturity.toNat) (2 ^ 32 - 1) : Nat) : Int)
    else output.lock.toNat
  amount := amount
  genesis := t.address
  address := output.address

/-- The row is that of an output of a block below a height that pays a watched address, has
an amount, and is not spent by a block below that height. -/
def Unspent (t : Tracker) (chain : Chain) (height : UInt32) (row : UtxoRow) : Prop :=
  ∃ h < height, ∃ tx ∈ (chain.block h).transactions, ∃ output ∈ tx.outputs,
    output.address ∈ t.monitored
      ∧ (∃ amount, Amount.parse output.value = .ok amount ∧ row = t.rowOf h tx output amount)
      ∧ ∀ k < height, (tx.id, output.index) ∉ spent (chain.block k)

/-- An output of a coinbase is spendable after its maturity, or at the highest height if that is out
of range, and any other from its lock on. -/
private theorem toNat_spendableFrom {tx : Node.Transaction} {output : Node.Output} :
    ((t.spendableFrom height tx output).toNat : Int)
      = if tx.kind = MainChain.Kind.coinbase then
          ((min (height.toNat + t.maturity.toNat) (2 ^ 32 - 1) : Nat) : Int)
        else output.lock.toNat := by
  unfold spendableFrom
  split
  · rw [addHeights, UInt32.toNat_ofNat_of_lt']
    exact Nat.lt_of_le_of_lt (Nat.min_le_right _ _) (by decide)
  · rfl

private theorem ofUtxo_eq_rowOf {tx : Node.Transaction} {output : Node.Output} {amount : Int64} :
    UtxoRow.ofUtxo ⟨⟨tx.id, output.index, t.spendableFrom height tx output⟩, amount, t.address,
        output.address⟩ = t.rowOf height tx output amount := by
  rw [UtxoRow.ofUtxo, rowOf, toNat_spendableFrom]

/-- In an orderly chain the rows below a height are those of the outputs that are unspent there. -/
private theorem mem_rowsBelow (horderly : chain.Orderly) {row : UtxoRow} :
    row ∈ t.rowsBelow chain 0 [] height ↔ t.Unspent chain height row := by
  rw [rowsBelow_eq horderly, keptBelow, List.mem_filter, List.mem_map]
  constructor
  · intro h
    obtain ⟨⟨u, hu, rfl⟩, hkept⟩ := h
    obtain ⟨h, hlt, hu⟩ := mem_receivedBelow_toNat.1 hu
    rw [unspentBy_ofUtxo (genesis_of_mem_received hu), mem_spentBelow_toNat] at hkept
    obtain ⟨tx, htx, output, houtput, hu⟩ := mem_received.1 hu
    rw [chain.height_block] at hu
    obtain ⟨hmonitored, amount, hamount, rfl⟩ := utxo?_eq_some.1 hu
    refine ⟨h, hlt, tx, htx, output, houtput, hmonitored, ⟨amount, hamount, ofUtxo_eq_rowOf⟩, ?_⟩
    intro k hk hspent
    exact hkept ⟨k, hk, hspent⟩
  · intro h
    obtain ⟨h, hlt, tx, htx, output, houtput, hmonitored, ⟨amount, hamount, rfl⟩, hunspent⟩ := h
    let u : Utxo := ⟨⟨tx.id, output.index, t.spendableFrom h tx output⟩, amount, t.address,
      output.address⟩
    have hu : u ∈ t.received (chain.block h) := by
      refine mem_received.2 ⟨tx, htx, output, houtput, ?_⟩
      rw [chain.height_block]
      exact utxo?_eq_some.2 ⟨hmonitored, amount, hamount, rfl⟩
    refine ⟨⟨u, mem_receivedBelow_toNat.2 ⟨h, hlt, hu⟩, ofUtxo_eq_rowOf⟩, ?_⟩
    rw [← ofUtxo_eq_rowOf, unspentBy_ofUtxo rfl, mem_spentBelow_toNat]
    intro h
    obtain ⟨k, hk, hspent⟩ := h
    exact hunspent k hk hspent

/-- In an orderly chain no row is there twice. -/
private theorem nodup_rowsBelow (horderly : chain.Orderly) (height : UInt32) :
    (t.rowsBelow chain 0 [] height).Nodup := by
  rw [rowsBelow_eq horderly]
  refine List.Nodup.sublist List.filter_sublist ?_
  have hnodup := nodup_outpoints_receivedBelow t horderly (Nat.le_of_lt height.toNat_lt)
  rw [List.Nodup, List.pairwise_map] at hnodup
  rw [List.Nodup, List.pairwise_map]
  refine hnodup.imp fun hne heq => hne ?_
  exact UtxoRow.clash_ofUtxo (decide_eq_true (congrArg UtxoRow.key heq))

/-- Where the cursor of a session stands and the block there was not started, the rows of the
chain are those of its unspent outputs, each once. -/
theorem mem_rows_iff_unspent (horderly : chain.Orderly) {s : Session}
    (h : t.Reaches chain (.started Tables.empty) s) (hcursor : s.cursor t.address = .ok height)
    (hfresh : s.written = []) :
    (s.rows.filter (·.genesis = t.address)).Nodup
      ∧ ∀ row, row ∈ s.rows.filter (·.genesis = t.address) ↔ t.Unspent chain height row := by
  have hrows : s.rows = t.rowsBelow chain 0 [] height := h.rows_eq rfl hcursor hfresh
  rw [hrows]
  refine ⟨(nodup_rowsBelow horderly height).sublist List.filter_sublist, fun row => ?_⟩
  rw [List.mem_filter, mem_rowsBelow horderly]
  constructor
  · exact fun h => h.1
  · intro hunspent
    refine ⟨hunspent, ?_⟩
    obtain ⟨h, -, tx, -, output, -, -, ⟨amount, -, rfl⟩, -⟩ := hunspent
    exact decide_eq_true rfl

/-- The first block of the sample creates one outpoint and the second block two. -/
private theorem mem_created_sampleChain {outpoint : String × UInt16} :
    outpoint ∈ created (sampleChain.block height) ↔
      (height = 0 ∧ outpoint = ("a", 0))
        ∨ (height = 1 ∧ (outpoint = ("b", 0) ∨ outpoint = ("b", 1))) := by
  unfold created sampleChain
  by_cases h0 : height = 0
  · subst h0
    simp
  · by_cases h1 : height = 1
    · subst h1
      simp
    · simp [h0, h1]

/-- The second block of the sample spends what the first one creates. -/
private theorem mem_spent_sampleChain {outpoint : String × UInt16} :
    outpoint ∈ spent (sampleChain.block height) ↔ height = 1 ∧ outpoint = ("a", 0) := by
  unfold spent sampleChain
  by_cases h0 : height = 0
  · subst h0
    simp
  · by_cases h1 : height = 1
    · subst h1
      simp
    · simp [h0, h1]

/-- The sample creates each outpoint once and spends none before it is created. -/
private theorem sampleChain_orderly : sampleChain.Orderly where
  nodup_created height := by
    unfold created sampleChain
    by_cases h0 : height = 0
    · subst h0
      decide
    · by_cases h1 : height = 1
      · subst h1
        decide
      · simp [h0, h1]
  created_once height height' outpoint h h' := by
    rw [mem_created_sampleChain] at h h'
    rcases h with ⟨rfl, rfl⟩ | ⟨rfl, rfl | rfl⟩
    · rcases h' with ⟨rfl, -⟩ | ⟨-, h'⟩
      · rfl
      · exact absurd h' (by decide)
    · rcases h' with ⟨-, h'⟩ | ⟨rfl, -⟩
      · exact absurd h' (by decide)
      · rfl
    · rcases h' with ⟨-, h'⟩ | ⟨rfl, -⟩
      · exact absurd h' (by decide)
      · rfl
  spent_later height height' outpoint h h' := by
    rw [mem_created_sampleChain] at h
    rw [mem_spent_sampleChain] at h'
    obtain ⟨rfl, rfl⟩ := h'
    rcases h with ⟨rfl, -⟩ | ⟨rfl, -⟩
    · decide
    · decide

/-- The disturbed session ends with the rows of what is unspent below height 2. -/
theorem mem_rows_iff_unspent_disturbed :
    sampleChain.Orderly ∧ sample.Reaches sampleChain (.started Tables.empty) disturbed
      ∧ disturbed.cursor sample.address = .ok 2 ∧ disturbed.written = []
      ∧ (disturbed.rows.filter (·.genesis = sample.address)).Nodup
      ∧ ∀ row, row ∈ disturbed.rows.filter (·.genesis = sample.address)
        ↔ sample.Unspent sampleChain 2 row := by
  have hfresh : disturbed.written = [] := by decide
  exact ⟨sampleChain_orderly, reaches_disturbed, cursor_disturbed, hfresh,
    mem_rows_iff_unspent sampleChain_orderly reaches_disturbed cursor_disturbed hfresh⟩

end Sync.Tracker

end MergedMining
