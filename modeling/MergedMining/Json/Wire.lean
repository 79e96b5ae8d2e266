/-
JSON forms of the types that travel on the wire.

Each is the record of its fields. Transactions and headers also show the name
that is computed from them; it is not looked at when they are read.
-/
import MergedMining.Json.Form
import MergedMining.Merkle.Partial
import MergedMining.SideProof

namespace MergedMining.JsonForm

-- ================================================================= merkle

instance : JsonForm Merkle.Branch where
  write d b := .record [field d "hashes" b.hashes, field d "index" b.index]
  read := coded fun d v => do
    let r ← fields ["hashes", "index"] v
    return { hashes := ← get d r "hashes", index := ← get d r "index" }

instance : JsonForm Merkle.PartialProof where
  write d p := .record [field d "block_hash" p.blockHash, field d "height" p.height,
    field d "transactions" p.transactions, field d "hashes" p.hashes, field d "flags" p.flags]
  read := coded fun d v => do
    let r ← fields ["block_hash", "height", "transactions", "hashes", "flags"] v
    return {
      blockHash := ← get d r "block_hash", height := ← get d r "height"
      transactions := ← get d r "transactions", hashes := ← get d r "hashes"
      flags := ← get d r "flags" }

-- ================================================= main-chain transactions

instance : JsonForm MainChain.OutPoint where
  write d p := .record [field d "tx_id" p.transaction, field d "index" p.index]
  read := coded fun d v => do
    let r ← fields ["tx_id", "index"] v
    return { transaction := ← get d r "tx_id", index := ← get d r "index" }

instance : JsonForm MainChain.Input where
  write d i := .record [field d "previous" i.previous, field d "sequence" i.sequence]
  read := coded fun d v => do
    let r ← fields ["previous", "sequence"] v
    return { previous := ← get d r "previous", sequence := ← get d r "sequence" }

instance : JsonForm MainChain.Output where
  write d o := .record [field d "asset_id" o.asset, field d "value" o.value,
    field d "output_lock" o.lock, field d "program_hash" o.programHash]
  read := coded fun d v => do
    let r ← fields ["asset_id", "value", "output_lock", "program_hash"] v
    return {
      asset := ← get d r "asset_id", value := ← get d r "value", lock := ← get d r "output_lock"
      programHash := ← get d r "program_hash" }

instance : JsonForm MainChain.Attribute where
  write d a := .record [field d "usage" a.usage, field d "data" a.data]
  read := coded fun d v => do
    let r ← fields ["usage", "data"] v
    return { usage := ← get d r "usage", data := ← get d r "data" }

instance : JsonForm MainChain.Program where
  write d p := .record [field d "code" p.code, field d "parameter" p.parameter]
  read := coded fun d v => do
    let r ← fields ["code", "parameter"] v
    return { code := ← get d r "code", parameter := ← get d r "parameter" }

instance : JsonForm MainChain.Transaction where
  write d t := .record [field d "tx_type" t.kind, field d "payload_version" t.payloadVersion,
    field d "payload" t.payload, field d "attributes" t.attributes, field d "inputs" t.inputs,
    field d "outputs" t.outputs, field d "lock_time" t.lockTime, field d "programs" t.programs]
  read := coded fun d v => do
    let r ← fields ["tx_type", "payload_version", "payload", "attributes", "inputs", "outputs",
      "lock_time", "programs"] v
    return {
      kind := ← get d r "tx_type", payloadVersion := ← get d r "payload_version"
      payload := ← get d r "payload", attributes := ← getD d r "attributes" []
      inputs := ← getD d r "inputs" [], outputs := ← getD d r "outputs" []
      lockTime := ← get d r "lock_time", programs := ← getD d r "programs" [] }

instance : JsonForm MainChain.SideMining where
  write d p := .record [field d "side_block_hash" p.sideBlock,
    field d "side_genesis_hash" p.sideGenesis, field d "block_height" p.blockHeight,
    field d "signed_data" p.signedData]
  read := coded fun d v => do
    let r ← fields ["side_block_hash", "side_genesis_hash", "block_height", "signed_data"] v
    return {
      sideBlock := ← get d r "side_block_hash", sideGenesis := ← get d r "side_genesis_hash"
      blockHeight := ← get d r "block_height", signedData := ← get d r "signed_data" }

-- =========================================================== parent chain

instance : JsonForm Parent.Input where
  write d i := .record [field d "txid" i.transaction, field d "vout" i.index,
    field d "script_sig" i.script, field d "sequence" i.sequence, field d "witness" i.witness]
  read d v := do
    let r ← fields ["txid", "vout", "script_sig", "sequence", "witness"] v
    return {
      transaction := ← get d r "txid", index := ← get d r "vout"
      script := ← get d r "script_sig", sequence := ← get d r "sequence"
      witness := ← getD d r "witness" [] }

instance : JsonForm Parent.Output where
  write d o := .record [field d "value" o.value, field d "script_pubkey" o.script]
  read d v := do
    let r ← fields ["value", "script_pubkey"] v
    return { value := ← get d r "value", script := ← get d r "script_pubkey" }

instance : JsonForm Parent.Transaction where
  write d t := .record [field d "version" t.version, field d "inputs" t.inputs,
    field d "outputs" t.outputs, field d "lock_time" t.lockTime, field d "txid" t.id]
  read := coded fun d v => do
    let r ← fields ["version", "inputs", "outputs", "lock_time"] v
    return {
      version := ← get d r "version", inputs := ← getD d r "inputs" []
      outputs := ← getD d r "outputs" [], lockTime := ← get d r "lock_time" }

instance : JsonForm Parent.Header where
  write d h := .record [field d "version" h.version, field d "previous" h.previous,
    field d "merkle_root" h.merkleRoot, field d "time" h.time, field d "bits" h.bits,
    field d "nonce" h.nonce, field d "hash" h.hash]
  read := coded fun d v => do
    let r ← fields ["version", "previous", "merkle_root", "time", "bits", "nonce"] v
    return {
      version := ← get d r "version", previous := ← get d r "previous"
      merkleRoot := ← get d r "merkle_root", time := ← get d r "time", bits := ← get d r "bits"
      nonce := ← get d r "nonce" }

-- ======================================================= headers and proofs

/-- The proof of no work may be left out. -/
instance : JsonForm AuxProof where
  write d p := .record [field d "parent_coinbase_tx" p.coinbase,
    field d "parent_hash" p.parentHash, field d "parent_coinbase_branch" p.coinbaseBranch,
    field d "aux_branch" p.auxBranch, field d "parent_header" p.parentHeader]
  read := coded fun d v =>
    match v with
    | .null => .ok .empty
    | _ => do
        let r ← fields ["parent_coinbase_tx", "parent_hash", "parent_coinbase_branch",
          "aux_branch", "parent_header"] v
        return {
          coinbase := ← get d r "parent_coinbase_tx", parentHash := ← get d r "parent_hash"
          coinbaseBranch := ← get d r "parent_coinbase_branch"
          auxBranch := ← get d r "aux_branch", parentHeader := ← get d r "parent_header" }

instance : JsonForm MainChain.Header where
  write d h := .record [field d "version" h.version, field d "previous" h.previous,
    field d "transactions_root" h.transactionsRoot, field d "timestamp" h.timestamp,
    field d "bits" h.bits, field d "nonce" h.nonce, field d "height" h.height,
    field d "aux_pow" h.auxProof]
  read := coded fun d v => do
    let r ← fields ["version", "previous", "transactions_root", "timestamp", "bits", "nonce",
      "height", "aux_pow"] v
    return {
      version := ← get d r "version", previous := ← get d r "previous"
      transactionsRoot := ← get d r "transactions_root", timestamp := ← get d r "timestamp"
      bits := ← get d r "bits", nonce := ← get d r "nonce", height := ← get d r "height"
      auxProof := ← getD d r "aux_pow" .empty }

instance : JsonForm MainChain.Block where
  write d b := .record [field d "header" b.header, field d "transactions" b.transactions]
  read := coded fun d v => do
    let r ← fields ["header", "transactions"] v
    return { header := ← get d r "header", transactions := ← getD d r "transactions" [] }

instance : JsonForm SideProof where
  write d p := .record [field d "side_aux_block_tx" p.transaction, field d "branch" p.branch,
    field d "main_block_header" p.header]
  read := coded fun d v => do
    let r ← fields ["side_aux_block_tx", "branch", "main_block_header"] v
    return {
      transaction := ← get d r "side_aux_block_tx", branch := ← get d r "branch"
      header := ← get d r "main_block_header" }

end MergedMining.JsonForm
