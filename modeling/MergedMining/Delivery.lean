/-
Announcements on their way from the watcher to the pipeline.

The watcher sends into a bounded queue and then moves its cursor. The cursor
lasts and the queue does not. The pipeline takes one announcement out at a time
and processes it to its end. Both stop when somebody cancels, the pipeline also
when the watcher has stopped and nothing waits any more; what waits when the
pipeline stops is gone. After a stop or a crash both can begin again, on the same
store and with an empty queue.

The two take turns in any order. What a turn meets outside comes with it.
-/
import MergedMining.Watch

namespace MergedMining

open CatchUp

/-- The watcher, the pipeline, and what lies between them. -/
structure Delivery where
  world : Watch.World
  watcher : Loop Notification Watch.Failure
  receiving : Bool
  /-- What the pipeline was handed, the first first. -/
  handed : List Notification

namespace Delivery

/-- Both begin, with room for so many announcements between them. -/
def start (capacity : Nat) (store : MainStore) : Delivery where
  world := ⟨store, .create capacity⟩
  watcher := .ticking .ask
  receiving := true
  handed := []

/-- The watcher's loop has ended. -/
def watcherStopped (d : Delivery) : Bool :=
  match d.watcher with
  | .stopped => true
  | _ => false

/-- Neither the watcher nor the pipeline goes on. -/
def isStopped (d : Delivery) : Bool := d.watcherStopped && !d.receiving

-- =================================================================== turns

/-- What happens to the delivery next. -/
inductive Turn where
  | watcher (now : Moment MainChain.Block)
  /-- The pipeline receives, unless it notices that somebody cancels. -/
  | pipeline (cancelled : Bool)
  | restart

/-- The pipeline stops, and what waits is gone. -/
def stopReceiving (d : Delivery) : Delivery :=
  { d with receiving := false, world := { d.world with channel := d.world.channel.dropReceiver } }

/-- The pipeline takes out what was sent first. -/
def receive (d : Delivery) : Delivery :=
  match d.world.channel.receive? with
  | some (n, channel) => { d with world := { d.world with channel }, handed := d.handed ++ [n] }
  | none => if d.watcherStopped then d.stopReceiving else d

/-- What a turn leaves. -/
def step (served : List Digest) (d : Delivery) : Turn → Delivery
  | .watcher now =>
      let (world, watcher) := d.watcher.step (Watch.follower served) now d.world
      { d with world, watcher }
  | .pipeline cancelled =>
      if !d.receiving then d else if cancelled then d.stopReceiving else d.receive
  | .restart =>
      { start d.world.channel.capacity d.world.store with handed := d.handed }

/-- What turns leave, one after the other. -/
def run (served : List Digest) (turns : List Turn) (d : Delivery) : Delivery :=
  turns.foldl (step served) d

end Delivery

end MergedMining
