/-
Watching the main chain for side-mining transactions of the chains served.

Each such transaction is announced together with a proof that its block holds
it. One proof serves a whole block: it reveals all of the block's transactions
that are announced. A block's announcements are sent in the order of its
transactions, and the cursor moves past a block when all of them are sent, so a
block that was cut off is announced again in full.
-/
import MergedMining.CatchUp
import MergedMining.MainChain.Header
import MergedMining.Merkle.Partial
import MergedMining.Store.Main
import MergedMining.Tasks

namespace MergedMining

/-- A transaction, and the proof that a block of the main chain holds it. -/
structure Notification where
  proof : Merkle.PartialProof
  transaction : MainChain.Transaction
  deriving DecidableEq, Repr

namespace Watch

open CatchUp

-- ============================================================ what is seen

/-- Whether a transaction is a side-mining transaction of a chain that is served. -/
def isServed (served : List Digest) (tx : MainChain.Transaction) : Bool :=
  tx.isSideMining &&
    match tx.sideMining with
    | .ok payload => payload.sideGenesis ∈ served
    | .error _ => false

/-- The notifications that a block is announced with, one for each transaction of a served chain. -/
def notifications (served : List Digest) (block : MainChain.Block) :
    Except Merkle.Error (List Notification) := do
  let wanted := block.transactions.map (isServed served)
  if wanted.any id then
    let leaves := block.transactions.map (·.id)
    let proof ← Merkle.PartialProof.build block.header.hash block.header.height leaves wanted
    return (block.transactions.filter (isServed served)).map (⟨proof, ·⟩)
  else return []

-- ============================================================ what is done

/-- Why a block cannot be announced. -/
inductive Failure where
  | merkle (cause : Merkle.Error)
  | channelClosed
  deriving DecidableEq, Repr

/-- What a watcher changes: the cursor and the queue of announcements. -/
structure World where
  store : MainStore
  channel : Channel Notification

/-- Sends a notification through the channel. -/
def send (n : Notification) (w : World) : Attempt World Failure :=
  match w.channel.send n with
  | .queued channel => .done { w with channel }
  | .full => .waits
  | .closed => .failed (.handling .channelClosed)

/-- Names a height to the cursor of the main chain. -/
def cursor (height : UInt32) (w : World) : Except Store.Error (UInt32 × World) := do
  let (current, store) ← w.store.attempt (MainStore.height height)
  return (current, { w with store })

/-- Follows the main chain. The loop ends when there is nobody to announce to. -/
def follower (served : List Digest) : Follower World MainChain.Block Notification Failure where
  cursor := cursor
  heightOf block := block.header.height
  plan block := (notifications served block).mapError .merkle
  act := send
  interruptible := true
  fatal
    | .handling .channelClosed => true
    | _ => false

/-- What is said of a tick that failed. -/
def message : CatchUp.Error Failure → String
  | .rpc cause => "rpc: " ++ cause.message
  | .store cause => "store: " ++ cause.message
  | .handling (.merkle cause) => "proof: " ++ cause.message
  | .handling .channelClosed => "notification channel closed"
  | .wrongHeight expected found => s!"asked for main block {expected}, node returned {found}"

end Watch

end MergedMining
