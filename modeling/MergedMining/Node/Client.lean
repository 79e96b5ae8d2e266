/-
Asking a node: one JSON request and one JSON reply for each question.

A reply is an envelope with a result, an error, or neither. It is taken for
malformed as a whole if any part of it is, so a result of the wrong type is
malformed even beside an error. How requests travel is left open: the transport
takes a request to its reply, in whatever monad it works.
-/
import MergedMining.Json.Form
import MergedMining.MainChain.Header
import MergedMining.Node.Block

namespace MergedMining.Node

-- =============================================================== failures

/-- Why a node did not answer a question. -/
inductive Error where
  /-- No reply came, or one that says by its status that it is none. -/
  | transport (detail : String)
  | remote (code : Int) (message : String)
  /-- The reply to this method holds neither a result nor an error. -/
  | emptyResult (method : String)
  | malformed (detail : String)
  | rejected (block : String)
  deriving DecidableEq, Repr

/-- What is said of a request that failed. -/
def Error.message : Error → String
  | .transport detail => "transport error: " ++ detail
  | .remote code message => s!"rpc error {code}: {message}"
  | .emptyResult method => method ++ " returned no result"
  | .malformed detail => "malformed response: " ++ detail
  | .rejected block => "aux block rejected: " ++ block

-- ============================================================== transport

/-- What comes back over the wire. -/
structure Reply where
  status : Nat
  body : String
  deriving DecidableEq, Repr

/-- A way to a node. What fails is told in words. -/
structure Transport (m : Type → Type) where
  post : JsonValue → m (Except String Reply)

/-- The request that asks for a method. -/
def request (method : String) (params : List (String × JsonValue)) : JsonValue :=
  .record [("method", .text method), ("params", .record params)]

-- =============================================================== envelope

/-- What a reply holds. -/
structure Envelope (α : Type) where
  result : Option α
  error : Option (Int × String)
  deriving Repr

/-- The form of a code, which is a signed 64-bit number. -/
def readCode (given : List (String × JsonValue)) : Except FormError Int := do
  return (← JsonForm.get (α := Int64) .plain given "code").toInt

/-- Reads an error: a code and a message. -/
def readError : JsonValue → Except FormError (Option (Int × String))
  | .null => .ok none
  | v => do
      let r ← JsonForm.fields ["code", "message"] v
      return some (← readCode r, ← JsonForm.get .plain r "message")

/-- Reads an envelope. In an object both fields may be missing, in an array neither. -/
def readEnvelope {α : Type} [JsonForm α] (v : JsonValue) : Except FormError (Envelope α) := do
  let r ← JsonForm.fields ["result", "error"] v
  let given (name : String) : Except FormError JsonValue :=
    match v, r.lookup name with
    | _, some field => .ok field
    | .object _, none => .ok .null
    | _, none => .error .shape
  return {
    result := ← JsonForm.read .plain (← given "result")
    error := ← readError (← given "error") }

/-- What is said of a reply that is no envelope. -/
def unreadable : String := "error decoding response body"

/-- The result in a reply, or why there is none. -/
def resultOf {α : Type} [JsonForm α] (method : String) (reply : Reply) : Except Error α := do
  if 400 ≤ reply.status then throw (.transport s!"status {reply.status}")
  let some value := JsonValue.parse? reply.body | throw (.malformed unreadable)
  let envelope ← (readEnvelope value).mapError fun _ => .malformed unreadable
  match envelope.error, envelope.result with
  | some (code, message), _ => throw (.remote code message)
  | none, some result => return result
  | none, none => throw (.emptyResult method)

-- ================================================================= client

section Client

variable {m : Type → Type} [Monad m] (t : Transport m)

/-- Asks for a method and reads its result. -/
def call {α : Type} [JsonForm α] (method : String) (params : List (String × JsonValue)) :
    ExceptT Error m α := do
  match ← t.post (request method params) with
  | .ok reply => resultOf method reply
  | .error detail => throw (.transport detail)

/-- How many blocks a chain has. -/
def blockCount : ExceptT Error m UInt32 := call t "getblockcount" []

/-- The block of a side chain at a height. -/
def blockAt (height : UInt32) : ExceptT Error m Block :=
  call t "getblockbyheight" [JsonForm.field .plain "height" height]

/-- A node's word on an aux block: any whole JSON value that is not nested too deep. -/
structure Ack where
  value : JsonValue

/-- How deep a reply may be nested within its envelope. -/
def deepest : Nat := 126

instance : JsonForm Ack where
  write _ a := a.value
  read _ v := if v.isWhole deepest then .ok ⟨v⟩ else .error .shape

/-- Hands an aux block and its proof to a side chain. -/
def submitAuxBlock (block proof : String) : ExceptT Error m Unit := do
  let ack : Ack ← call t "submitauxblock" [("blockhash", .text block), ("sideauxpow", .text proof)]
  match ack.value with
  | .bool false => throw (.rejected block)
  | _ => return ()

/-- The bytes of a block, looked up by its hash. -/
def rawBlock (hash : String) : ExceptT Error m Bytes := do
  let text : String ← call t "getblock" [("blockhash", .text hash), ("verbosity", .integer 0)]
  match Hex.decode text with
  | .ok bytes => return bytes
  | .error e => throw (.malformed e.message)

/-- The block that these bytes are. -/
def decodeBlock (raw : Bytes) : Except Error MainChain.Block :=
  (Wire.decode raw).mapError fun e => .malformed e.message

/-- The block of the main chain at a height. -/
def mainBlockAt (height : UInt32) : ExceptT Error m MainChain.Block := do
  let hash : String ← call t "getblockhash" [JsonForm.field .plain "height" height]
  decodeBlock (← rawBlock t hash)

end Client

end MergedMining.Node
