/-
How far a tick gets, and that it comes to an end.

A tick that nobody disturbs takes the cursor past one block after the other. The height
behind a block is above the block's, so the cursor goes up, and as it stays within what
the node reported there is an end to it. This is so for every reported height but one:
behind the last block that can be there the next height is the one that sends a cursor
back. What can keep a tick from its end apart from that is an effect that the world is
not ready for.
-/
import MergedMining.CatchUp
import MergedMining.Proofs.Store.Calls

namespace MergedMining.CatchUp

open Store

variable {σ β ω ε : Type}

-- ======================================================================= runs

/-- The world and the tick after so many steps. Between two steps others change the world. -/
def run (f : Follower σ β ω ε) (now : Nat → Moment β) (others : Nat → σ → σ) (world : σ) :
    Nat → σ × Tick ω ε
  | 0 => (world, .ask)
  | n + 1 =>
      let (between, tick) := run f now others world n
      tick.step f (now n) (others n between)

/-- Whether a block is completed between one tick and the next: nothing is left of it to be
done, and the cursor was moved. -/
def Tick.completes : Tick ω ε → Tick ω ε → Bool
  | .act _ [], .over (.error _) => false
  | .act _ [], _ => true
  | _, _ => false

/-- How many blocks are completed in so many steps. -/
def blocks (r : Nat → σ × Tick ω ε) (n : Nat) : Nat :=
  (List.range n).countP fun k => (r k).2.completes (r (k + 1)).2

private theorem blocks_succ (r : Nat → σ × Tick ω ε) (n : Nat) :
    blocks r (n + 1) = blocks r n + if (r n).2.completes (r (n + 1)).2 then 1 else 0 := by
  rw [blocks, List.range_succ, List.countP_append, List.countP_singleton]
  rfl

/-- At this step a call has an effect at hand that the world is not ready for. -/
def Waits (f : Follower σ β ω ε) (others : Nat → σ → σ) (r : Nat → σ × Tick ω ε) (k : Nat) : Prop :=
  ∃ span effect todo,
    (r k).2 = .act span (effect :: todo) ∧ f.act effect (others k (r k).1) = .waits

/-- A follower whose cursor lies in its world and is moved as the stores move theirs. -/
structure Follower.Keeps (f : Follower σ β ω ε) (stored : σ → Except Store.Error UInt32) :
    Prop where
  cursor {height current : UInt32} {world after : σ}
    (h : f.cursor height world = .ok (current, after)) :
    ∃ before, stored world = .ok before ∧ current = Cursors.named before height
      ∧ stored after = .ok current
  act {effect : ω} {world after : σ} (h : f.act effect world = .done after) :
    stored after = stored world

-- ====================================================================== moves

/-- How a tick gets on at a cursor, when the node reported this height. -/
inductive Moves (f : Follower σ β ω ε) (reported : UInt32) (world : σ) (height : UInt32) :
    Tick ω ε → UInt32 → Tick ω ε → Prop where
  | asked : Moves f reported world height .ask height (.measure reported)
  | opened (behind : height < reported) :
      Moves f reported world height (.measure reported) height
        (.fetch ⟨height, height, reported, 0⟩)
  | begun {span : Span} {todo : List ω} :
      Moves f reported world height (.fetch span) height (.act span todo)
  | done {span : Span} {effect : ω} {todo : List ω} :
      Moves f reported world height (.act span (effect :: todo)) height
        (.act { span with effects := span.effects + 1 } todo)
  | waited {span : Span} {effect : ω} {todo : List ω} (waits : f.act effect world = .waits) :
      Moves f reported world height (.act span (effect :: todo)) height (.act span (effect :: todo))
  | passed {span : Span} :
      Moves f reported world height (.act span []) (height + 1)
        (.goOn { span with current := height + 1 })
  | ended {tick : Tick ω ε} {outcome : Except (Error ε) Progress}
      (incomplete : tick.completes (.over outcome) = false) :
      Moves f reported world height tick height (.over outcome)

/-- A tick that works on a block works on the one at the cursor, below what was reported. -/
def Tick.Fits (reported height : UInt32) : Tick ω ε → Prop
  | .ask => True
  | .measure reported' => reported' = reported
  | .fetch span => span.current = height ∧ height < reported ∧ span.target = reported
  | .act span _ => span.current = height ∧ height < reported ∧ span.target = reported
  | .over _ => True
  | .halt => False

variable {f : Follower σ β ω ε} {stored : σ → Except Store.Error UInt32} {reported height : UInt32}
  {world : σ} {tick : Tick ω ε} {now : Moment β}

namespace Follower.Keeps

/-- Naming zero reads the cursor. -/
theorem read (h : f.Keeps stored) (hstored : stored world = .ok height) {current : UInt32}
    {after : σ} (hcursor : f.cursor 0 world = .ok (current, after)) :
    current = height ∧ stored after = .ok height := by
  obtain ⟨before, hbefore, hcurrent, hafter⟩ := h.cursor hcursor
  obtain rfl : before = height := Except.ok.inj (hbefore.symm.trans hstored)
  have hnot : ¬before < 0 := UInt32.not_lt.2 UInt32.zero_le
  rw [Cursors.named, if_neg (by decide), if_neg hnot] at hcurrent
  exact ⟨hcurrent, hcurrent ▸ hafter⟩

/-- Naming the height behind the cursor moves it there, if it is within what was reported. -/
theorem pass (h : f.Keeps stored) (hreported : reported ≠ resetHeight) (hlt : height < reported)
    (hstored : stored world = .ok height) {current : UInt32} {after : σ}
    (hcursor : f.cursor (height + 1) world = .ok (current, after)) :
    current = height + 1 ∧ stored after = .ok (height + 1) := by
  obtain ⟨before, hbefore, hcurrent, hafter⟩ := h.cursor hcursor
  obtain rfl : before = height := Except.ok.inj (hbefore.symm.trans hstored)
  rw [Cursors.named, if_neg (succ_ne_reset hlt hreported), if_pos (lt_succ hlt)] at hcurrent
  exact ⟨hcurrent, hcurrent ▸ hafter⟩

/-- Every step is a move, if the node reports no height that would send the cursor back. -/
theorem moves (h : f.Keeps stored) (hreported : reported ≠ resetHeight)
    (hnow : tick = .ask → now.height = .arrived reported) (hstored : stored world = .ok height)
    (hfits : tick.Fits reported height) :
    ∃ height', Moves f reported world height tick height' (tick.step f now world).2
      ∧ stored (tick.step f now world).1 = .ok height' := by
  cases tick with
  | ask =>
      rw [Tick.step, hnow rfl]
      exact ⟨height, .asked, hstored⟩
  | halt => exact hfits.elim
  | measure reported' =>
      obtain rfl : reported' = reported := hfits
      rw [Tick.step]
      split
      · next start after hcursor =>
          obtain ⟨rfl, hafter⟩ := h.read hstored hcursor
          split
          · exact ⟨start, .ended rfl, hafter⟩
          · next hbehind => exact ⟨start, .opened (UInt32.not_le.1 hbehind), hafter⟩
      · exact ⟨height, .ended rfl, hstored⟩
  | fetch span =>
      rw [Tick.step]
      split
      · exact ⟨height, .ended rfl, hstored⟩
      · split
        · next block hblock =>
            unfold Tick.take
            split
            · split
              · exact ⟨height, .begun, hstored⟩
              · exact ⟨height, .ended rfl, hstored⟩
            · exact ⟨height, .ended rfl, hstored⟩
        · exact ⟨height, .ended rfl, hstored⟩
        · exact ⟨height, .ended rfl, hstored⟩
  | act span todo =>
      obtain ⟨hcurrent, hlt, htarget⟩ := hfits
      cases todo with
      | nil =>
          rw [Tick.step, hcurrent]
          split
          · next current after hcursor =>
              -- below the reported height the next one is not the reset height
              obtain ⟨rfl, hafter⟩ := h.pass hreported hlt hstored hcursor
              exact ⟨height + 1, .passed, hafter⟩
          · exact ⟨height, .ended rfl, hstored⟩
      | cons effect todo =>
          rw [Tick.step]
          split
          · exact ⟨height, .ended rfl, hstored⟩
          · split
            · next after hact => exact ⟨height, .done, (h.act hact).trans hstored⟩
            · next hwaits => exact ⟨height, .waited hwaits, hstored⟩
            · exact ⟨height, .ended rfl, hstored⟩
  | «over» outcome => exact ⟨height, .ended rfl, hstored⟩

end Follower.Keeps

variable {height' : UInt32} {tick' : Tick ω ε}

namespace Moves

/-- A move leaves a tick that fits the node's report. -/
private theorem fits (h : Moves f reported world height tick height' tick')
    (hfits : tick.Fits reported height) : tick'.Fits reported height' := by
  cases h with
  | asked => exact rfl
  | opened behind => exact ⟨rfl, behind, rfl⟩
  | begun => exact hfits
  | done => exact hfits
  | waited => exact hfits
  | passed =>
      obtain ⟨-, -, htarget⟩ := hfits
      unfold Tick.goOn
      split
      · next hnext => exact ⟨rfl, htarget ▸ hnext, htarget⟩
      · exact trivial
  | ended => exact trivial

/-- The cursor is moved exactly when a block is completed, and then by one. -/
theorem cursor (h : Moves f reported world height tick height' tick')
    (hfits : tick.Fits reported height) :
    tick.completes tick' = false ∧ height' = height
      ∨ tick.completes tick' = true ∧ height < reported ∧ height' = height + 1 := by
  cases h with
  | asked => exact Or.inl ⟨rfl, rfl⟩
  | opened => exact Or.inl ⟨rfl, rfl⟩
  | begun => exact Or.inl ⟨rfl, rfl⟩
  | done => exact Or.inl ⟨rfl, rfl⟩
  | waited => exact Or.inl ⟨rfl, rfl⟩
  | passed =>
      refine Or.inr ⟨?_, hfits.2.1, rfl⟩
      unfold Tick.goOn
      split <;> rfl
  | ended incomplete => exact Or.inl ⟨incomplete, rfl⟩

/-- A tick that moved does not ask again. -/
private theorem ne_ask (h : Moves f reported world height tick height' tick') : tick' ≠ .ask := by
  cases h with
  | passed =>
      unfold Tick.goOn
      split <;> exact fun h => nomatch h
  | _ => exact fun h => nomatch h

end Moves

-- ======================================================================== ranks

/-- How far a tick is from its end: twice the blocks that are left, one more before the block
at hand is there, and then what is left of this block to be done. -/
def Tick.rank : Tick ω ε → Nat × Nat
  | .ask => (2 * 2 ^ 32 + 2, 0)
  | .measure _ => (2 * 2 ^ 32 + 1, 0)
  | .fetch span => (2 * (span.target.toNat - span.current.toNat) + 1, 0)
  | .act span todo => (2 * (span.target.toNat - span.current.toNat), todo.length)
  | .halt => (1, 0)
  | .over _ => (0, 0)

/-- Ranks are compared by blocks first. -/
abbrev Lower : Nat × Nat → Nat × Nat → Prop := Prod.Lex (· < ·) (· < ·)

private theorem wellFounded_lower : WellFounded Lower :=
  (Prod.lex Nat.lt_wfRel Nat.lt_wfRel).wf

/-- A tick that is not over comes closer to its end, or waits for the world. -/
theorem Moves.lower (h : Moves f reported world height tick height' tick')
    (hfits : tick.Fits reported height) (hopen : ∀ outcome, tick ≠ .over outcome) :
    Lower tick'.rank tick.rank
      ∨ tick' = tick ∧ ∃ span effect todo, tick = .act span (effect :: todo)
        ∧ f.act effect world = .waits := by
  cases h with
  | asked => exact Or.inl (.left _ _ (by omega))
  | opened behind =>
      -- the rank counts each block below the reported height twice: to fetch it and to act on it
      refine Or.inl (.left _ _ ?_)
      have := reported.toNat_lt
      show 2 * (reported.toNat - height.toNat) + 1 < 2 * 2 ^ 32 + 1
      omega
  | begun => exact Or.inl (.left _ _ (Nat.lt_succ_self _))
  | done => exact Or.inl (.right _ (Nat.lt_succ_self _))
  | waited waits => exact Or.inr ⟨rfl, _, _, _, rfl, waits⟩
  | @passed span =>
      obtain ⟨hcurrent, hlt, htarget⟩ := hfits
      have hsucc := toNat_succ hlt
      have hbelow := UInt32.lt_iff_toNat_lt.1 hlt
      refine Or.inl (.left _ _ ?_)
      show _ < 2 * (span.target.toNat - span.current.toNat)
      rw [hcurrent, htarget]
      by_cases hnext : height + 1 < reported
      · rw [Tick.goOn, if_pos hnext]
        show 2 * (reported.toNat - (height + 1).toNat) + 1 < _
        omega
      · rw [Tick.goOn, if_neg hnext]
        show 0 < _
        omega
  | ended =>
      refine Or.inl ?_
      cases tick with
      | ask => exact .left _ _ (by decide)
      | halt => exact .left _ _ (by decide)
      | measure => exact .left _ _ (by decide)
      | fetch span => exact .left _ _ (Nat.succ_pos _)
      | act span todo =>
          obtain ⟨hcurrent, hlt, htarget⟩ := hfits
          have hbelow := UInt32.lt_iff_toNat_lt.1 hlt
          refine .left _ _ ?_
          show 0 < 2 * (span.target.toNat - span.current.toNat)
          rw [hcurrent, htarget]
          omega
      | «over» outcome => exact absurd rfl (hopen outcome)

-- ================================================================== one call

/-- A call that finds the cursor at one height and is told of another, while nobody else
touches the cursor. -/
structure Undisturbed (stored : σ → Except Store.Error UInt32) (start reported : UInt32)
    (now : Nat → Moment β) (others : Nat → σ → σ) (world : σ) : Prop where
  starts : stored world = .ok start
  answered : (now 0).height = .arrived reported
  untouched : ∀ n w, stored (others n w) = stored w

/-- A call that moves the cursor up, block by block, and not beyond what it was told of. -/
structure Forward (stored : σ → Except Store.Error UInt32) (start reported : UInt32)
    (r : Nat → σ × Tick ω ε) : Prop where
  /-- A block that is completed leaves the cursor higher. -/
  completed : ∀ n, (r n).2.completes (r (n + 1)).2 = true →
    ∃ before after, stored (r n).1 = .ok before ∧ stored (r (n + 1)).1 = .ok after ∧ before < after
  /-- Nothing else moves the cursor. -/
  between : ∀ n, (r n).2.completes (r (n + 1)).2 = false → stored (r (n + 1)).1 = stored (r n).1
  blocks_le : ∀ n, blocks r n ≤ reported.toNat - start.toNat

namespace Undisturbed

variable {start : UInt32} {moment : Nat → Moment β} {others : Nat → σ → σ}
  (h : Undisturbed stored start reported moment others world) (hkeeps : f.Keeps stored)
  (hreported : reported ≠ resetHeight)

include h hkeeps hreported

/-- Each step of a run is a move, and the cursor is read wherever it stands. -/
private theorem moves (n : Nat) :
    ∃ height height', stored (run f moment others world n).1 = .ok height
      ∧ (run f moment others world n).2.Fits reported height
      ∧ Moves f reported (others n (run f moment others world n).1) height
          (run f moment others world n).2 height' (run f moment others world (n + 1)).2
      ∧ stored (run f moment others world (n + 1)).1 = .ok height' := by
  induction n with
  | zero =>
      obtain ⟨height', hmoves, hstored⟩ := hkeeps.moves hreported (fun _ => h.answered)
        ((h.untouched 0 world).trans h.starts) (show Tick.ask.Fits reported start from trivial)
      exact ⟨start, height', h.starts, trivial, hmoves, hstored⟩
  | succ n ih =>
      obtain ⟨_, height, -, hfits, hmoves, hstored⟩ := ih
      have hnext := hmoves.fits hfits
      obtain ⟨height', hmoves', hstored'⟩ := hkeeps.moves hreported
        (fun hask => absurd hask hmoves.ne_ask) ((h.untouched (n + 1) _).trans hstored) hnext
      exact ⟨height, height', hstored, hnext, hmoves', hstored'⟩

/-- The cursor stands so many blocks above where it started, and not above what was reported. -/
theorem cursor_eq (n : Nat) :
    ∃ height, stored (run f moment others world n).1 = .ok height
      ∧ height.toNat = start.toNat + blocks (run f moment others world) n
      ∧ height.toNat ≤ max start.toNat reported.toNat := by
  induction n with
  | zero => exact ⟨start, h.starts, rfl, Nat.le_max_left _ _⟩
  | succ n ih =>
      obtain ⟨height, hstored, hheight, hle⟩ := ih
      obtain ⟨_, height', hstored', hfits, hmoves, hafter⟩ := h.moves hkeeps hreported n
      obtain rfl := Except.ok.inj (hstored'.symm.trans hstored)
      refine ⟨height', hafter, ?_⟩
      rw [blocks_succ]
      rcases hmoves.cursor hfits with ⟨hnot, rfl⟩ | ⟨hcompletes, hlt, rfl⟩
      · rw [hnot]
        exact ⟨hheight, hle⟩
      · have hsucc := toNat_succ hlt
        have hbelow := UInt32.lt_iff_toNat_lt.1 hlt
        rw [hcompletes, hsucc, hheight]
        exact ⟨rfl, by omega⟩

/-- A run goes forward: its cursor never falls, and stays below the reported height. -/
theorem forward : Forward stored start reported (run f moment others world) where
  completed := by
    intro n hcompletes
    obtain ⟨height, height', hstored, hfits, hmoves, hstored'⟩ := h.moves hkeeps hreported n
    rcases hmoves.cursor hfits with ⟨hnot, -⟩ | ⟨-, hlt, rfl⟩
    · rw [hnot] at hcompletes
      cases hcompletes
    · exact ⟨height, height + 1, hstored, hstored', lt_succ hlt⟩
  between := by
    intro n hnot
    obtain ⟨height, height', hstored, hfits, hmoves, hstored'⟩ := h.moves hkeeps hreported n
    rcases hmoves.cursor hfits with ⟨-, rfl⟩ | ⟨hcompletes, -⟩
    · rw [hstored, hstored']
    · rw [hnot] at hcompletes
      cases hcompletes
  blocks_le := by
    intro n
    obtain ⟨height, -, hheight, hle⟩ := h.cursor_eq hkeeps hreported n
    omega

/-- Sooner or later the call is over, or waits for good with an effect that the world is never
ready for. -/
theorem ends_or_waits :
    ∃ n, (∃ outcome, (run f moment others world n).2 = .over outcome)
      ∨ ∀ k, n ≤ k → Waits f others (run f moment others world) k := by
  suffices hall : ∀ rank n, (run f moment others world n).2.rank = rank →
      ∃ n, (∃ outcome, (run f moment others world n).2 = .over outcome)
        ∨ ∀ k, n ≤ k → Waits f others (run f moment others world) k from
    hall _ 0 rfl
  intro rank
  induction rank using wellFounded_lower.induction with
  | _ rank ih =>
  intro n hrank
  by_cases hover : ∃ k outcome, (run f moment others world k).2 = .over outcome
  · obtain ⟨k, hover⟩ := hover
    exact ⟨k, Or.inl hover⟩
  by_cases hlower : ∃ k, Lower (run f moment others world k).2.rank rank
  · obtain ⟨k, hlower⟩ := hlower
    exact ih _ hlower k rfl
  -- with no end and no lower rank to come, every step from here on is a wait
  have hwaits (k : Nat) (hk : (run f moment others world k).2.rank = rank) :
      (run f moment others world (k + 1)).2 = (run f moment others world k).2
        ∧ Waits f others (run f moment others world) k := by
    obtain ⟨_, _, -, hfits, hmoves, -⟩ := h.moves hkeeps hreported k
    rcases hmoves.lower hfits fun outcome hk => hover ⟨k, outcome, hk⟩ with hdown | hwait
    · exact absurd ⟨k + 1, hk ▸ hdown⟩ hlower
    · exact hwait
  refine ⟨n, Or.inr fun k hk => ?_⟩
  have hstays : (run f moment others world k).2.rank = rank := by
    induction hk with
    | refl => exact hrank
    | step _ ih => rw [(hwaits _ ih).1, ih]
  exact (hwaits k hstays).2

end Undisturbed

end MergedMining.CatchUp
