/-
Loops that get by with a part of the world.

A part is what is left of a world when something in it is no longer looked at. If the
calls of a follower, made on the part alone, give the same answers and leave the part of
the world that they would have left, then so do the steps of its ticks and of its loop.
And if the calls change nothing in some other part of the world, then neither do the
steps. In both cases the effects that are done are those of planned blocks, so only of
these something has to be known.
-/
import MergedMining.CatchUp

namespace MergedMining.CatchUp

variable {σ ν β ω ε : Type} {f : Follower σ β ω ε} {planned : ω → Prop} {part : σ → σ}

/-- The same attempt with another look at the world that it leaves. -/
def Attempt.map (look : σ → ν) : Attempt σ ε → Attempt ν ε
  | .done world => .done (look world)
  | .waits => .waits
  | .failed cause => .failed cause

-- ===================================================================== effects

/-- Every effect of a block is of a kind. -/
def Follower.Plans (f : Follower σ β ω ε) (planned : ω → Prop) : Prop :=
  ∀ {block todo}, f.plan block = .ok todo → ∀ effect ∈ todo, planned effect

/-- The effects that a tick has left to do are of a kind. -/
def Tick.Planned (planned : ω → Prop) : Tick ω ε → Prop
  | .act _ todo => ∀ effect ∈ todo, planned effect
  | _ => True

/-- If a tick is going, its effects are planned ones. -/
def Loop.Planned (planned : ω → Prop) : Loop ω ε → Prop
  | .ticking tick => tick.Planned planned
  | _ => True

/-- A step of a tick takes up planned effects only, if its blocks plan no others. -/
private theorem Tick.Planned.step (hplans : f.Plans planned) {tick : Tick ω ε}
    (h : tick.Planned planned) (now : Moment β) (world : σ) :
    (tick.step f now world).2.Planned planned := by
  cases tick with
  | ask =>
      rw [Tick.step]
      split <;> exact trivial
  | halt =>
      rw [Tick.step]
      split <;> exact trivial
  | measure reported =>
      rw [Tick.step]
      split
      · split <;> exact trivial
      · exact trivial
  | fetch span =>
      rw [Tick.step]
      split
      · exact trivial
      · split
        · next block _ =>
            unfold take
            split
            · split
              · -- only here effects are taken up
                next hplan => exact hplans hplan
              · exact trivial
            · exact trivial
        · exact trivial
        · exact trivial
  | act span todo =>
      cases todo with
      | nil =>
          rw [Tick.step]
          split
          · unfold goOn
            split <;> exact trivial
          · exact trivial
      | cons effect todo =>
          rw [Tick.step]
          split
          · exact trivial
          · split
            · exact fun e he => h e (List.mem_cons_of_mem effect he)
            · exact h
            · exact trivial
  | «over» outcome => exact trivial

/-- What a loop does in a step: its tick takes one, or the world is left alone and nothing is
planned. -/
theorem Loop.step_cases (f : Follower σ β ω ε) (now : Moment β) (loop : Loop ω ε) :
    (∃ tick, loop = .ticking tick ∧ ∀ world, loop.step f now world
        = ((tick.step f now world).1, .ticking (tick.step f now world).2))
      ∨ ∃ next : Loop ω ε, (∀ planned : ω → Prop, next.Planned planned)
        ∧ ∀ world, loop.step f now world = (world, next) := by
  cases loop with
  | resting =>
      refine Or.inr ⟨_, fun planned => ?_, fun world => rfl⟩
      split <;> exact trivial
  | stopped => exact Or.inr ⟨.stopped, fun _ => trivial, fun _ => rfl⟩
  | ticking tick =>
      cases tick with
      | «over» outcome =>
          refine Or.inr ⟨_, fun planned => ?_, fun world => rfl⟩
          split <;> exact trivial
      | _ => exact Or.inl ⟨_, rfl, fun _ => rfl⟩

/-- A step of the loop takes up planned effects only, if its blocks plan no others. -/
theorem Loop.Planned.step (hplans : f.Plans planned) {loop : Loop ω ε}
    (h : loop.Planned planned) (now : Moment β) (world : σ) :
    (loop.step f now world).2.Planned planned := by
  rcases loop.step_cases f now with ⟨tick, rfl, hstep⟩ | ⟨next, hnext, hstep⟩
  · rw [hstep]
    exact Tick.Planned.step hplans h now world
  · rw [hstep]
    exact hnext planned

-- ================================================================= part alone

/-- The calls of a follower come out on a part of the world as they do on all of it. -/
structure Follower.Within (f : Follower σ β ω ε) (planned : ω → Prop) (part : σ → σ) : Prop where
  cursor (height : UInt32) (world : σ) :
    f.cursor height (part world) = (f.cursor height world).map fun out => (out.1, part out.2)
  act {effect : ω} (h : planned effect) (world : σ) :
    f.act effect (part world) = (f.act effect world).map part

/-- A tick steps in a part of the world as it does in the world. -/
private theorem Follower.Within.tick (hf : f.Within planned part) {tick : Tick ω ε}
    (h : tick.Planned planned) (now : Moment β) (world : σ) :
    tick.step f now (part world)
      = (part (tick.step f now world).1, (tick.step f now world).2) := by
  cases tick with
  | ask =>
      rw [Tick.step, Tick.step]
      cases now.height <;> rfl
  | halt =>
      rw [Tick.step, Tick.step, hf.cursor]
      cases f.cursor 0 world <;> rfl
  | measure reported =>
      rw [Tick.step, Tick.step, hf.cursor]
      cases f.cursor 0 world with
      | ok out =>
          show (if reported ≤ out.1 then _ else _) = _
          dsimp only
          split <;> rfl
      | error cause => rfl
  | fetch span =>
      rw [Tick.step, Tick.step]
      split
      · rfl
      · cases now.block <;> rfl
  | act span todo =>
      cases todo with
      | nil =>
          rw [Tick.step, Tick.step, hf.cursor]
          cases f.cursor (span.current + 1) world <;> rfl
      | cons effect todo =>
          rw [Tick.step, Tick.step, hf.act (h effect List.mem_cons_self)]
          split
          · rfl
          · cases f.act effect world <;> rfl
  | «over» outcome => rfl

/-- The loop steps in a part of the world as it does in the world. -/
theorem Follower.Within.loop (hf : f.Within planned part) {loop : Loop ω ε}
    (h : loop.Planned planned) (now : Moment β) (world : σ) :
    loop.step f now (part world)
      = (part (loop.step f now world).1, (loop.step f now world).2) := by
  rcases loop.step_cases f now with ⟨tick, rfl, hstep⟩ | ⟨next, -, hstep⟩
  · rw [hstep, hstep, hf.tick h]
  · rw [hstep, hstep]

-- ================================================================= other parts

/-- No call of a follower shows in what is looked at. -/
structure Follower.Spares (f : Follower σ β ω ε) (planned : ω → Prop) (look : σ → ν) : Prop where
  cursor {height current : UInt32} {world after : σ}
    (h : f.cursor height world = .ok (current, after)) : look after = look world
  act {effect : ω} (hplanned : planned effect) {world after : σ}
    (h : f.act effect world = .done after) : look after = look world

variable {look : σ → ν}

/-- A step of a tick leaves what its effects and its cursor leave. -/
theorem Follower.Spares.tick (hf : f.Spares planned look) {tick : Tick ω ε}
    (h : tick.Planned planned) (now : Moment β) (world : σ) :
    look (tick.step f now world).1 = look world := by
  cases tick with
  | ask =>
      rw [Tick.step]
      split <;> rfl
  | halt =>
      rw [Tick.step]
      split
      · next hcursor => exact hf.cursor hcursor
      · rfl
  | measure reported =>
      rw [Tick.step]
      split
      · next hcursor =>
          split
          · exact hf.cursor hcursor
          · exact hf.cursor hcursor
      · rfl
  | fetch span =>
      rw [Tick.step]
      split
      · rfl
      · split <;> rfl
  | act span todo =>
      cases todo with
      | nil =>
          rw [Tick.step]
          split
          · next hcursor => exact hf.cursor hcursor
          · rfl
      | cons effect todo =>
          rw [Tick.step]
          split
          · rfl
          · split
            · next hact => exact hf.act (h effect List.mem_cons_self) hact
            · rfl
            · rfl
  | «over» outcome => rfl

/-- A step of the loop leaves what its effects and its cursor leave. -/
theorem Follower.Spares.loop (hf : f.Spares planned look) {loop : Loop ω ε}
    (h : loop.Planned planned) (now : Moment β) (world : σ) :
    look (loop.step f now world).1 = look world := by
  rcases loop.step_cases f now with ⟨tick, rfl, hstep⟩ | ⟨next, -, hstep⟩
  · rw [hstep]
    exact hf.tick h now world
  · rw [hstep]

end MergedMining.CatchUp
