/-
Catching up with a chain, block by block.

A tick asks a node how many blocks there are, compares this with a stored
cursor, and handles the blocks from the cursor on in order. What a block asks
for is planned first and then done, one effect after the other; when all of it
is done the cursor moves past the block. So a tick that is cut off anywhere
leaves a cursor below which every block was handled in full, and the next tick
begins with the block that may have been handled in part.

A tick is a machine: each step is one question to the node or one change of the
world, and says what the step after it is. What lies outside, the node's answers
and whether somebody cancels, comes in as the moment at which the step is taken.
A loop ticks until it is cancelled or a failure is fatal.
-/
import MergedMining.Node.Client
import MergedMining.Store.Handle

namespace MergedMining.CatchUp

-- ============================================================ the outside

/-- What becomes of a question to a node. -/
inductive Answer (α : Type) where
  | arrived (value : α)
  | failed (cause : Node.Error)
  /-- Somebody cancels before there is an answer. -/
  | cancelled
  deriving DecidableEq, Repr

/-- The outside at one moment. A step looks at what concerns it. -/
structure Moment (β : Type) where
  /-- The answer to how many blocks there are. -/
  height : Answer UInt32
  /-- The answer to what the block at the current height is. -/
  block : Answer β
  cancelled : Bool

-- ================================================================ outcomes

/-- Why a tick fails. -/
inductive Error (ε : Type) where
  | rpc (cause : Node.Error)
  | store (cause : Store.Error)
  | wrongHeight (expected found : UInt32)
  /-- A block could not be handled. -/
  | handling (cause : ε)
  deriving DecidableEq, Repr

/-- How a tick ends that did not fail. -/
inductive Progress where
  /-- There was nothing to do. -/
  | idle (height : UInt32)
  /-- The cursor went as far as the chain; so many effects were done. -/
  | caughtUp (start stop : UInt32) (effects : Nat)
  | interrupted (start stop : UInt32)
  deriving DecidableEq, Repr

-- =============================================================== followers

/-- What becomes of an effect. -/
inductive Attempt (σ ε : Type) where
  | done (world : σ)
  /-- The world is not ready for it. -/
  | waits
  | failed (cause : Error ε)

/-- What follows a chain: how its blocks are handled, and what that does to the
world. -/
structure Follower (σ β ω ε : Type) where
  /-- Moves the cursor up, or reads it if the height is zero. -/
  cursor : UInt32 → σ → Except Store.Error (UInt32 × σ)
  heightOf : β → UInt32
  plan : β → Except ε (List ω)
  act : ω → σ → Attempt σ ε
  /-- Whether cancelling can keep an effect from being done. -/
  interruptible : Bool
  fatal : Error ε → Bool

-- =================================================================== ticks

/-- The stretch that a tick is to catch up with. -/
structure Span where
  start : UInt32
  current : UInt32
  /-- How many blocks the chain has. -/
  target : UInt32
  effects : Nat
  deriving DecidableEq, Repr

/-- What a tick does next. -/
inductive Tick (ω ε : Type) where
  /-- Asks how many blocks there are. -/
  | ask
  | halt
  | measure (reported : UInt32)
  | fetch (span : Span)
  /-- Does what is left of the current block's effects, then moves the cursor. -/
  | act (span : Span) (todo : List ω)
  | over (outcome : Except (Error ε) Progress)

namespace Tick

variable {σ β ω ε : Type}

/-- The tick goes on with the block at the cursor, or is over. -/
def goOn (span : Span) : Tick ω ε :=
  if span.current < span.target then .fetch span
  else .over (.ok (.caughtUp span.start span.current span.effects))

/-- A tick ends before the chain does, where its cursor stands. -/
def interrupt (span : Span) : Tick ω ε := .over (.ok (.interrupted span.start span.current))

/-- A block came in: its effects are taken up if it is the one that was asked for. -/
def take (f : Follower σ β ω ε) (span : Span) (block : β) : Tick ω ε :=
  if f.heightOf block = span.current then
    match f.plan block with
    | .ok todo => .act span todo
    | .error cause => .over (.error (.handling cause))
  else .over (.error (.wrongHeight span.current (f.heightOf block)))

/-- One step of a tick: it asks, looks at an answer, does one effect or moves the cursor. -/
def step (f : Follower σ β ω ε) (now : Moment β) (world : σ) : Tick ω ε → σ × Tick ω ε
  | .ask =>
      match now.height with
      | .arrived reported => (world, .measure reported)
      | .failed cause => (world, .over (.error (.rpc cause)))
      | .cancelled => (world, .halt)
  | .halt =>
      match f.cursor 0 world with
      | .ok (height, world) => (world, .over (.ok (.interrupted height height)))
      | .error cause => (world, .over (.error (.store cause)))
  | .measure reported =>
      match f.cursor 0 world with
      | .ok (start, world) =>
          if reported ≤ start then (world, .over (.ok (.idle start)))
          else (world, .fetch ⟨start, start, reported, 0⟩)
      | .error cause => (world, .over (.error (.store cause)))
  | .fetch span =>
      if now.cancelled then (world, interrupt span)
      else
        match now.block with
        | .arrived block => (world, take f span block)
        | .failed cause => (world, .over (.error (.rpc cause)))
        | .cancelled => (world, interrupt span)
  | .act span [] =>
      match f.cursor (span.current + 1) world with
      | .ok (current, world) => (world, goOn { span with current })
      | .error cause => (world, .over (.error (.store cause)))
  | .act span (effect :: todo) =>
      if f.interruptible && now.cancelled then (world, interrupt span)
      else
        match f.act effect world with
        | .done world => (world, .act { span with effects := span.effects + 1 } todo)
        | .waits => (world, .act span (effect :: todo))
        | .failed cause => (world, .over (.error cause))
  | .over outcome => (world, .over outcome)

end Tick

-- =================================================================== loops

/-- What a loop does next. -/
inductive Loop (ω ε : Type) where
  | ticking (tick : Tick ω ε)
  | resting
  | stopped

namespace Loop

variable {σ β ω ε : Type}

/-- Whether a loop ends after a tick. -/
def ends (f : Follower σ β ω ε) : Except (Error ε) Progress → Bool
  | .ok (.interrupted ..) => true
  | .ok _ => false
  | .error cause => f.fatal cause

/-- One step of the loop: of the tick that is going, or from one tick to the next. -/
def step (f : Follower σ β ω ε) (now : Moment β) (world : σ) : Loop ω ε → σ × Loop ω ε
  | .ticking (.over outcome) => (world, if ends f outcome then .stopped else .resting)
  | .ticking tick =>
      let (world, tick) := tick.step f now world
      (world, .ticking tick)
  | .resting => (world, if now.cancelled then .stopped else .ticking .ask)
  | .stopped => (world, .stopped)

end Loop

end MergedMining.CatchUp
