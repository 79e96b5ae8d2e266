/-
The configuration: where data lies, how often and how long nodes are asked, and
which side chains are served.

It is looked up by name, from the environment as a rule. Numbers are read first,
then the list of side chains, and what was read is judged afterwards, the side
chains in turn and the main chain's node last; the first thing that is wrong is
reported. No two side chains may have a first block or its address in common,
since the stores keep them apart by these.
-/
import MergedMining.Digits
import MergedMining.Json.Form

namespace MergedMining

/-- A side chain that is served. -/
structure SideChain where
  name : String
  /-- The address of its first block. -/
  address : String
  /-- The hash of its first block. -/
  genesis : Digest
  url : String
  monitored : List String
  deriving DecidableEq, Repr

instance : JsonForm SideChain where
  write d c := .record [
    JsonForm.field d "name" c.name, JsonForm.field d "genesis_block_address" c.address,
    JsonForm.field d "genesis_block_hash" c.genesis, JsonForm.field d "rpc_url" c.url,
    JsonForm.field d "monitored_addresses" c.monitored]
  read d v := do
    let r ← JsonForm.fields ["name", "genesis_block_address", "genesis_block_hash", "rpc_url",
      "monitored_addresses"] v
    return {
      name := ← JsonForm.get d r "name", address := ← JsonForm.get d r "genesis_block_address"
      genesis := ← JsonForm.get d r "genesis_block_hash", url := ← JsonForm.get d r "rpc_url"
      monitored := ← JsonForm.getD d r "monitored_addresses" [] }

/-- The configuration. -/
structure Config where
  dataDir : String
  /-- Milliseconds between two rounds. -/
  interval : UInt64
  /-- Seconds until a node's silence is a failure. -/
  timeout : UInt64
  /-- How many blocks deep a coinbase has to lie before it can be spent. -/
  maturity : UInt32
  sideChains : List SideChain
  /-- Where the main chain's node listens, if blocks are to be submitted. -/
  mainUrl : Option String
  deriving DecidableEq, Repr

namespace Config

-- =============================================================== failures

/-- What is wrong with a configuration. -/
inductive Error where
  | badNumber (key value : String)
  | missing (key : String)
  | badSideChains
  | noSideChains
  | notPositive (key : String)
  | badUrl (what : String)
  | sharedAddress (address : String)
  | sharedGenesis (genesis : Digest)
  deriving DecidableEq, Repr

/-- The names under which the configuration is looked up. -/
def dataDirKey : String := "ARBITER_DATA_DIR"

/-- The name of the time between two ticks. -/
def intervalKey : String := "ARBITER_SYNC_INTERVAL_MS"

/-- The name of the time after which a request is given up. -/
def timeoutKey : String := "ARBITER_RPC_TIMEOUT_SECS"

/-- The name of the number of blocks above one from which on its coinbase can be spent. -/
def maturityKey : String := "ARBITER_COINBASE_MATURITY"

/-- The name of the list of side chains. -/
def sideChainsKey : String := "ARBITER_SIDE_CHAINS"

/-- The name of the address of the main chain's node. -/
def mainUrlKey : String := "ARBITER_MAIN_RPC_URL"

/-- What is said of a configuration that is refused. -/
def Error.message : Error → String
  | .badNumber key value => s!"invalid value for {key}: {value}"
  | .missing key => "Missing required env var: " ++ key
  | .badSideChains => sideChainsKey ++ " must be a JSON array of side chains"
  | .noSideChains => sideChainsKey ++ " lists no side chains"
  | .notPositive key => key ++ " must be positive"
  | .badUrl what => what ++ " must start with http:// or https://"
  | .sharedAddress address => "duplicate genesis_block_address " ++ address
  | .sharedGenesis genesis => "duplicate genesis_block_hash " ++ genesis.text

-- ================================================================ reading

/-- The number below `bound` that a text spells; a plus sign may stand in front. -/
def number? (bound : Nat) (text : String) : Option Nat :=
  let digits :=
    match text.toList with
    | '+' :: rest => rest
    | cs => cs
  (Digits.parse? digits).filter (· < bound)

/-- The number of this name, or its default. -/
def number (lookup : String → Option String) (key : String) (bound default : Nat) :
    Except Error Nat :=
  match lookup key with
  | none => .ok default
  | some text =>
      match number? bound text with
      | some n => .ok n
      | none => .error (.badNumber key text)

/-- The side chains that are listed, before anything is judged. -/
def listed (lookup : String → Option String) : Except Error (List SideChain) :=
  match lookup sideChainsKey with
  | none => .error (.missing sideChainsKey)
  | some text => (JsonForm.parse text).mapError fun _ => .badSideChains

-- ================================================================ judging

/-- Refuses an address that a client could not call. -/
def checkUrl (what url : String) : Except Error Unit :=
  if url.startsWith "http://" || url.startsWith "https://" then .ok () else .error (.badUrl what)

/-- Refuses a side chain without a proper node, or with something in common with
the side chains before it. -/
def checkSideChain (earlier : List SideChain) (c : SideChain) : Except Error Unit := do
  checkUrl ("rpc_url of side chain " ++ c.name) c.url
  if earlier.any (·.address = c.address) then throw (.sharedAddress c.address)
  if earlier.any (·.genesis = c.genesis) then throw (.sharedGenesis c.genesis)

/-- Refuses the first side chain that is wrong, given those before it. -/
def checkSideChains (earlier : List SideChain) : List SideChain → Except Error Unit
  | [] => .ok ()
  | c :: rest => do
      checkSideChain earlier c
      checkSideChains (earlier ++ [c]) rest

/-- Refuses a configuration that cannot work. -/
def check (c : Config) : Except Error Unit := do
  if c.sideChains.isEmpty then throw .noSideChains
  if c.interval = 0 then throw (.notPositive intervalKey)
  if c.timeout = 0 then throw (.notPositive timeoutKey)
  checkSideChains [] c.sideChains
  match c.mainUrl with
  | some url => checkUrl mainUrlKey url
  | none => return ()

/-- The configuration that a lookup gives. -/
def load (lookup : String → Option String) : Except Error Config := do
  let interval ← number lookup intervalKey (2 ^ 64) 1000
  let timeout ← number lookup timeoutKey (2 ^ 64) 10
  let maturity ← number lookup maturityKey (2 ^ 32) 100
  let config : Config := {
    dataDir := (lookup dataDirKey).getD "./data"
    interval := UInt64.ofNat interval
    timeout := UInt64.ofNat timeout
    maturity := UInt32.ofNat maturity
    sideChains := ← listed lookup
    mainUrl := (lookup mainUrlKey).filter (!·.isEmpty) }
  check config
  return config

end Config

end MergedMining
