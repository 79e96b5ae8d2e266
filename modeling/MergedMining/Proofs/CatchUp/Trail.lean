/-
What a call does, told in order, and how it ends.

A call asks the node for a block, does the block's effects one by one and moves the cursor past
it. The trail of a call is all of this in the order in which it is done. At every step it is made
of whole blocks, those from where the call found the cursor up to where it stands, and behind
these of what was begun with the block at the cursor. So how a call is over says where the cursor
stands, and what is behind the whole blocks says how far the next one came: nowhere if the node
failed to give it, or gave another.
-/
import MergedMining.Proofs.CatchUp.Run

namespace MergedMining.CatchUp

open Store

variable {σ β ω ε : Type}

-- ====================================================================== trails

/-- Something that a tick did that can be seen from outside. -/
inductive Deed (β ω : Type) where
  /-- The node is asked for the block of a height. -/
  | asked (height : UInt32) (answer : Answer β)
  | did (effect : ω)
  /-- The cursor is moved past the block of a height. -/
  | passed (height : UInt32)
  deriving DecidableEq, Repr

/-- What a step does, apart from looking. -/
def Tick.deed? (f : Follower σ β ω ε) (now : Moment β) (world : σ) : Tick ω ε → Option (Deed β ω)
  | .fetch span => if now.cancelled then none else some (.asked span.current now.block)
  | .act span [] =>
      match f.cursor (span.current + 1) world with
      | .ok _ => some (.passed span.current)
      | .error _ => none
  | .act _ (effect :: _) =>
      if f.interruptible && now.cancelled then none
      else
        match f.act effect world with
        | .done _ => some (.did effect)
        | _ => none
  | _ => none

/-- What a call did in so many steps. -/
def trail (f : Follower σ β ω ε) (now : Nat → Moment β) (others : Nat → σ → σ) (world : σ) :
    Nat → List (Deed β ω)
  | 0 => []
  | n + 1 =>
      let (between, tick) := run f now others world n
      trail f now others world n ++ (tick.deed? f (now n) (others n between)).toList

/-- The height of which the node is asked for the block. -/
def Deed.askedFor? : Deed β ω → Option UInt32
  | .asked height _ => some height
  | _ => none

/-- The effect that a deed was, if it was one. -/
def Deed.effect? : Deed β ω → Option ω
  | .did effect => some effect
  | _ => none

/-- Heights without a gap or a repeat, from this one on. -/
def Consecutive (start : UInt32) (heights : List UInt32) : Prop :=
  heights.map UInt32.toNat = List.range' start.toNat heights.length

/-- One more height behind consecutive ones. -/
theorem Consecutive.concat {start height : UInt32} {heights : List UInt32}
    (h : Consecutive start heights) (hheight : height.toNat = start.toNat + heights.length) :
    Consecutive start (heights ++ [height]) := by
  unfold Consecutive at h ⊢
  rw [List.map_append, List.map_singleton, h, hheight, List.length_append, List.length_singleton,
    List.range'_concat, Nat.one_mul]

-- ====================================================================== blocks

namespace Follower

variable (f : Follower σ β ω ε)

/-- What is done with a block from first to last. -/
def whole (block : β) : List (Deed β ω) :=
  .asked (f.heightOf block) (.arrived block)
    :: ((f.plan block).toOption.getD []).map .did ++ [.passed (f.heightOf block)]

/-- What was done with the block of a height when the cursor was not moved past it. -/
inductive Begun (height : UInt32) : List (Deed β ω) → Prop where
  | nothing : Begun height []
  | cancelled : Begun height [.asked height .cancelled]
  | some {block : β} {done todo : List ω} (hheight : f.heightOf block = height)
      (hplan : f.plan block = .ok (done ++ todo)) :
      Begun height (.asked height (.arrived block) :: done.map .did)

/-- How a call is over that found the cursor at one height and left it at another, by what the
node answered to how many blocks there are. The list is what was done with the next block. -/
inductive Ends (answer : Answer UInt32) (start : UInt32) :
    UInt32 → List (Deed β ω) → Except (Error ε) Progress → Prop where
  | idle {reported : UInt32} (told : answer = .arrived reported) (le : reported ≤ start) :
      Ends answer start start [] (.ok (.idle start))
  | halted (told : answer = .cancelled) :
      Ends answer start start [] (.ok (.interrupted start start))
  | unanswered {cause : Node.Error} (told : answer = .failed cause) :
      Ends answer start start [] (.error (.rpc cause))
  | caughtUp {height : UInt32} {effects : Nat} (told : answer = .arrived height) :
      Ends answer start height [] (.ok (.caughtUp start height effects))
  | interrupted {height : UInt32} {rest : List (Deed β ω)} (begun : f.Begun height rest) :
      Ends answer start height rest (.ok (.interrupted start height))
  | lost {height : UInt32} {cause : Node.Error} :
      Ends answer start height [.asked height (.failed cause)] (.error (.rpc cause))
  | mismatched {height : UInt32} {block : β} (hheight : f.heightOf block ≠ height) :
      Ends answer start height [.asked height (.arrived block)]
        (.error (.wrongHeight height (f.heightOf block)))
  | refused {height : UInt32} {block : β} {cause : ε} (hplan : f.plan block = .error cause) :
      Ends answer start height [.asked height (.arrived block)] (.error (.handling cause))
  | unstored {height : UInt32} {rest : List (Deed β ω)} {cause : Store.Error}
      (begun : f.Begun height rest) : Ends answer start height rest (.error (.store cause))
  | broken {height : UInt32} {rest : List (Deed β ω)} {effect : ω} {world : σ} {cause : Error ε}
      (begun : f.Begun height rest) (hact : f.act effect world = .failed cause) :
      Ends answer start height rest (.error cause)

end Follower

-- ==================================================================== invariant

/-- A stretch to which the cursor and the answer of the node belong. -/
structure Span.Fits (answer : Answer UInt32) (start height : UInt32) (span : Span) : Prop where
  told : answer = .arrived span.target
  start_eq : span.start = start
  current_eq : span.current = height
  lt : height < span.target

/-- What a tick has done at the height of the cursor. -/
def Tick.Tells (f : Follower σ β ω ε) (answer : Answer UInt32) (start height : UInt32)
    (rest : List (Deed β ω)) : Tick ω ε → Prop
  | .ask => height = start ∧ rest = []
  | .halt => answer = .cancelled ∧ height = start ∧ rest = []
  | .measure reported => answer = .arrived reported ∧ height = start ∧ rest = []
  | .fetch span => span.Fits answer start height ∧ rest = []
  | .act span todo =>
      span.Fits answer start height
        ∧ ∃ block done, f.heightOf block = height ∧ f.plan block = .ok (done ++ todo)
          ∧ rest = .asked height (.arrived block) :: done.map .did
  | .over outcome => f.Ends answer start height rest outcome

/-- A trail of whole blocks up to a height, and something more. -/
structure Account (f : Follower σ β ω ε) (start height : UInt32) (blocks : List β)
    (rest trail : List (Deed β ω)) : Prop where
  heights : Consecutive start (blocks.map f.heightOf)
  height_eq : height.toNat = start.toNat + blocks.length
  trail_eq : trail = blocks.flatMap f.whole ++ rest

/-- A trail says how a call came to where it is. -/
def Told (f : Follower σ β ω ε) (stored : σ → Except Store.Error UInt32)
    (answer : Answer UInt32) (start : UInt32) (trail : List (Deed β ω)) (world : σ)
    (tick : Tick ω ε) : Prop :=
  ∃ height blocks rest, stored world = .ok height ∧ Account f start height blocks rest trail
    ∧ tick.Tells f answer start height rest

variable {f : Follower σ β ω ε} {stored : σ → Except Store.Error UInt32}
  {answer : Answer UInt32} {start height : UInt32} {blocks : List β} {rest told : List (Deed β ω)}
  {world : σ} {tick : Tick ω ε} {now : Moment β}

namespace Account

/-- One more deed at the same height. -/
theorem add (h : Account f start height blocks rest told) (deeds : List (Deed β ω)) :
    Account f start height blocks (rest ++ deeds) (told ++ deeds) where
  heights := h.heights
  height_eq := h.height_eq
  trail_eq := by rw [h.trail_eq, List.append_assoc]

/-- With the cursor where it was and nothing begun, nothing was done. -/
theorem told_eq_nil (h : Account f start start blocks [] told) : told = [] := by
  have hnone : blocks = [] := by
    refine List.length_eq_zero_iff.1 (Nat.add_left_cancel (n := start.toNat) ?_)
    exact h.height_eq.symm
  rw [h.trail_eq, hnone]
  rfl

/-- With the cursor behind it, a block is whole. -/
theorem pass {bound : UInt32} {block : β} {effects : List ω}
    (h : Account f start height blocks (.asked height (.arrived block) :: effects.map .did) told)
    (hheight : f.heightOf block = height) (hplan : f.plan block = .ok effects)
    (hlt : height < bound) :
    Account f start (height + 1) (blocks ++ [block]) [] (told ++ [.passed height]) where
  heights := by
    have hnext := h.height_eq
    rw [← List.length_map f.heightOf] at hnext
    rw [List.map_append, List.map_singleton, hheight]
    exact h.heights.concat hnext
  height_eq := by
    rw [toNat_succ hlt, h.height_eq, List.length_append, List.length_singleton, Nat.add_assoc]
  trail_eq := by
    have hwhole : f.whole block
        = .asked height (.arrived block) :: effects.map .did ++ [.passed height] := by
      rw [Follower.whole, hplan, hheight]
      rfl
    rw [List.append_nil, List.flatMap_append, List.flatMap_singleton, hwhole, h.trail_eq,
      List.append_assoc]

end Account

/-- Effects alone are no questions. -/
theorem askedFor_effects (effects : List ω) :
    (effects.map (Deed.did (β := β))).filterMap Deed.askedFor? = [] := by
  rw [List.filterMap_map]
  exact List.filterMap_eq_nil_iff.2 fun _ _ => rfl

private theorem askedFor_block (answer : Answer β) (effects : List ω) :
    (.asked height answer :: effects.map Deed.did).filterMap Deed.askedFor? = [height] := by
  show height :: (effects.map Deed.did).filterMap Deed.askedFor? = [height]
  rw [askedFor_effects]

private theorem askedFor_whole (f : Follower σ β ω ε) (block : β) :
    (f.whole block).filterMap Deed.askedFor? = [f.heightOf block] := by
  rw [Follower.whole, List.filterMap_append, askedFor_block]
  rfl

private theorem askedFor_blocks (f : Follower σ β ω ε) (blocks : List β) :
    (blocks.flatMap f.whole).filterMap Deed.askedFor? = blocks.map f.heightOf := by
  rw [List.filterMap_flatMap, List.map_eq_flatMap]
  simp only [askedFor_whole]

/-- At the most the block of this height was asked for, and effects of it were done. The cursor
was not moved past it. -/
def Unfinished (height : UInt32) (rest : List (Deed β ω)) : Prop :=
  rest = [] ∨ ∃ (given : Answer β) (done : List ω), rest = .asked height given :: done.map .did

/-- An unfinished block asks for its height or for nothing. -/
private theorem Unfinished.askedFor (h : Unfinished height rest) :
    rest.filterMap Deed.askedFor? = [] ∨ rest.filterMap Deed.askedFor? = [height] := by
  rcases h with rfl | ⟨given, done, rfl⟩
  · exact Or.inl rfl
  · exact Or.inr (askedFor_block _ _)

/-- A block that was begun is unfinished. -/
private theorem Follower.Begun.unfinished (h : f.Begun height rest) : Unfinished height rest := by
  cases h with
  | nothing => exact Or.inl rfl
  | cancelled => exact Or.inr ⟨_, [], rfl⟩
  | some => exact Or.inr ⟨_, _, rfl⟩

/-- What a tick ends with is unfinished, if it is anything. -/
theorem Follower.Ends.unfinished {outcome : Except (Error ε) Progress}
    (h : f.Ends answer start height rest outcome) : Unfinished height rest := by
  cases h with
  | idle => exact Or.inl rfl
  | halted => exact Or.inl rfl
  | unanswered => exact Or.inl rfl
  | caughtUp => exact Or.inl rfl
  | interrupted begun => exact begun.unfinished
  | lost => exact Or.inr ⟨_, [], rfl⟩
  | mismatched => exact Or.inr ⟨_, [], rfl⟩
  | refused => exact Or.inr ⟨_, [], rfl⟩
  | unstored begun => exact begun.unfinished
  | broken begun => exact begun.unfinished

/-- What a tick that goes on has at hand is unfinished, if it is anything. -/
private theorem Tick.Tells.unfinished (h : tick.Tells f answer start height rest) :
    Unfinished height rest := by
  cases tick with
  | ask => exact Or.inl h.2
  | halt => exact Or.inl h.2.2
  | measure reported => exact Or.inl h.2.2
  | fetch span => exact Or.inl h.2
  | act span todo =>
      obtain ⟨-, block, done, -, -, hrest⟩ := h
      exact Or.inr ⟨_, done, hrest⟩
  | «over» outcome => exact Follower.Ends.unfinished h

/-- A call asks for the blocks from where it found the cursor on, one after the other. -/
theorem Told.asked (h : Told f stored answer start told world tick) :
    Consecutive start (told.filterMap Deed.askedFor?) := by
  obtain ⟨height, blocks, rest, -, account, htells⟩ := h
  rw [account.trail_eq, List.filterMap_append, askedFor_blocks]
  rcases htells.unfinished.askedFor with hrest | hrest
  · rw [hrest, List.append_nil]
    exact account.heights
  · rw [hrest]
    refine account.heights.concat ?_
    rw [List.length_map]
    exact account.height_eq

-- ======================================================================= steps

/-- A step that does nothing but look. -/
theorem Told.look (hstored : stored world = .ok height)
    (account : Account f start height blocks rest told)
    (htells : tick.Tells f answer start height rest) :
    Told f stored answer start (told ++ []) world tick := by
  rw [List.append_nil]
  exact ⟨height, blocks, rest, hstored, account, htells⟩

/-- What a step leaves, and what there is then to tell. -/
abbrev Told.After (f : Follower σ β ω ε) (stored : σ → Except Store.Error UInt32)
    (answer : Answer UInt32) (start : UInt32) (told : List (Deed β ω)) (now : Moment β) (world : σ)
    (tick : Tick ω ε) : Prop :=
  Told f stored answer start (told ++ (tick.deed? f now world).toList) (tick.step f now world).1
    (tick.step f now world).2

section Step

variable (keeps : f.Keeps stored) (hstored : stored world = .ok height)
  (account : Account f start height blocks rest told)

include keeps hstored account

/-- A tick that knows the reported height looks where its cursor stands. -/
private theorem Told.step_measure {reported : UInt32}
    (htells : (Tick.measure reported : Tick ω ε).Tells f answer start height rest) :
    Told.After f stored answer start told now world (.measure reported) := by
  obtain ⟨hanswer, rfl, rfl⟩ := htells
  rw [After, Tick.step]
  cases hcursor : f.cursor 0 world with
  | ok out =>
      obtain ⟨current, after⟩ := out
      obtain ⟨rfl, hafter⟩ := keeps.read hstored hcursor
      dsimp only
      by_cases hle : reported ≤ current
      · rw [if_pos hle]
        exact .look hafter account (.idle hanswer hle)
      · rw [if_neg hle]
        exact .look hafter account ⟨⟨hanswer, rfl, rfl, UInt32.not_le.1 hle⟩, rfl⟩
  | error cause => exact .look hstored account (.unstored .nothing)

omit keeps in
/-- A tick that waits for a block takes it up, or ends. -/
private theorem Told.step_fetch {span : Span}
    (htells : (Tick.fetch span : Tick ω ε).Tells f answer start height rest) :
    Told.After f stored answer start told now world (.fetch span) := by
  obtain ⟨hfits, rfl⟩ := htells
  have hstart := hfits.start_eq
  have hcurrent := hfits.current_eq
  rw [After, Tick.step, Tick.deed?]
  by_cases hcancelled : now.cancelled = true
  · rw [if_pos hcancelled, if_pos hcancelled, Tick.interrupt, hstart, hcurrent]
    exact .look hstored account (.interrupted .nothing)
  · rw [if_neg hcancelled, if_neg hcancelled, hcurrent]
    refine ⟨height, blocks, _, ?_, account.add _, ?_⟩
    · cases now.block with
      | _ => exact hstored
    · cases hblock : now.block with
      | failed cause => exact .lost
      | cancelled =>
          show f.Ends _ _ _ _ (.ok (.interrupted span.start span.current))
          rw [hstart, hcurrent]
          exact .interrupted .cancelled
      | arrived block =>
          dsimp only
          rw [Tick.take, hcurrent]
          by_cases hheight : f.heightOf block = height
          · rw [if_pos hheight]
            cases hplan : f.plan block with
            | ok todo => exact ⟨hfits, block, [], hheight, hplan, rfl⟩
            | error cause => exact .refused hplan
          · rw [if_neg hheight]
            exact .mismatched hheight

/-- With nothing left to be done of it, the block at the cursor becomes whole. -/
theorem Told.step_pass {span : Span}
    (hreported : ∀ reported, answer = .arrived reported → reported ≠ resetHeight)
    (htells : (Tick.act span [] : Tick ω ε).Tells f answer start height rest) :
    Told.After f stored answer start told now world (.act span []) := by
  obtain ⟨hfits, block, done, hheight, hplan, rfl⟩ := htells
  have begun := Follower.Begun.some hheight hplan
  rw [List.append_nil] at hplan
  rw [After, Tick.step, Tick.deed?, hfits.current_eq]
  cases hcursor : f.cursor (height + 1) world with
  | ok out =>
      obtain ⟨current, after⟩ := out
      obtain ⟨rfl, hafter⟩ := keeps.pass (hreported _ hfits.told) hfits.lt hstored hcursor
      refine ⟨height + 1, blocks ++ [block], [], hafter, account.pass hheight hplan hfits.lt, ?_⟩
      dsimp only
      unfold Tick.goOn
      split
      · next hnext => exact ⟨⟨hfits.told, hfits.start_eq, rfl, hnext⟩, rfl⟩
      · next hend =>
          have htop : span.target = height + 1 := by
            refine UInt32.le_antisymm (UInt32.not_lt.1 hend) ?_
            rw [UInt32.le_iff_toNat_le, toNat_succ hfits.lt]
            exact UInt32.lt_iff_toNat_lt.1 hfits.lt
          show f.Ends _ _ _ _ (.ok (.caughtUp span.start (height + 1) span.effects))
          rw [hfits.start_eq]
          exact .caughtUp (htop ▸ hfits.told)
  | error cause =>
      exact .look hstored account (.unstored begun)

/-- A tick with effects to do does the first of them, or ends. -/
private theorem Told.step_effect {span : Span} {effect : ω} {todo : List ω}
    (htells : (Tick.act span (effect :: todo) : Tick ω ε).Tells f answer start height rest) :
    Told.After f stored answer start told now world (.act span (effect :: todo)) := by
  obtain ⟨hfits, block, done, hheight, hplan, rfl⟩ := htells
  have begun := Follower.Begun.some hheight hplan
  rw [After, Tick.step, Tick.deed?]
  split
  · rw [Tick.interrupt, hfits.start_eq, hfits.current_eq]
    exact .look hstored account (.interrupted begun)
  · cases hact : f.act effect world with
    | waits => exact .look hstored account ⟨hfits, block, done, hheight, hplan, rfl⟩
    | failed cause => exact .look hstored account (.broken begun hact)
    | done after =>
        refine ⟨height, blocks, _, (keeps.act hact).trans hstored, account.add _, ?_⟩
        refine ⟨⟨hfits.told, hfits.start_eq, hfits.current_eq, hfits.lt⟩, block, done ++ [effect],
          hheight, ?_, ?_⟩
        · rw [List.append_assoc]
          exact hplan
        · rw [List.map_append]
          rfl

end Step

/-- A step adds to the trail what it does, and what is told stays true. -/
theorem Told.step (keeps : f.Keeps stored)
    (hreported : ∀ reported, answer = .arrived reported → reported ≠ resetHeight)
    (hanswer : tick = .ask → now.height = answer) (h : Told f stored answer start told world tick) :
    Told.After f stored answer start told now world tick := by
  obtain ⟨height, blocks, rest, hstored, account, htells⟩ := h
  cases tick with
  | ask =>
      obtain ⟨rfl, rfl⟩ := htells
      rw [After, Tick.step, hanswer rfl]
      cases answer with
      | arrived reported => exact .look hstored account ⟨rfl, rfl, rfl⟩
      | failed cause => exact .look hstored account (.unanswered rfl)
      | cancelled => exact .look hstored account ⟨rfl, rfl, rfl⟩
  | halt =>
      obtain ⟨hcancelled, rfl, rfl⟩ := htells
      rw [After, Tick.step]
      cases hcursor : f.cursor 0 world with
      | ok out =>
          obtain ⟨current, after⟩ := out
          obtain ⟨rfl, hafter⟩ := keeps.read hstored hcursor
          exact .look hafter account (.halted hcancelled)
      | error cause => exact .look hstored account (.unstored .nothing)
  | measure reported => exact .step_measure keeps hstored account htells
  | fetch span => exact .step_fetch hstored account htells
  | act span todo =>
      cases todo with
      | nil => exact .step_pass keeps hstored account hreported htells
      | cons effect todo => exact .step_effect keeps hstored account htells
  | «over» outcome => exact .look hstored account htells

-- ======================================================================== runs

/-- A step never leads back to asking. -/
theorem Tick.step_ne_ask : (tick.step f now world).2 ≠ .ask := by
  unfold Tick.step Tick.take Tick.goOn Tick.interrupt
  grind

section Run

variable {moment : Nat → Moment β} {others : Nat → σ → σ}

/-- The trail of a call says how it came to where it is. -/
theorem told_run (keeps : f.Keeps stored)
    (hreported : ∀ reported, (moment 0).height = .arrived reported → reported ≠ resetHeight)
    (hstarts : stored world = .ok start) (huntouched : ∀ n w, stored (others n w) = stored w)
    (n : Nat) :
    Told f stored (moment 0).height start (trail f moment others world n)
      (run f moment others world n).1 (run f moment others world n).2 := by
  induction n with
  | zero =>
      exact ⟨start, [], [], hstarts, ⟨rfl, rfl, rfl⟩, rfl, rfl⟩
  | succ n ih =>
      obtain ⟨height, blocks, rest, hstored, account, htells⟩ := ih
      -- what others did in between leaves the cursor, so it is told of their world as well
      refine Told.step keeps hreported ?_
        ⟨height, blocks, rest, (huntouched n _).trans hstored, account, htells⟩
      cases n with
      | zero => exact fun _ => rfl
      | succ n => exact fun hask => absurd hask Tick.step_ne_ask

/-- A call that is over stays over. -/
theorem run_over {n : Nat} {outcome : Except (Error ε) Progress}
    (h : (run f moment others world n).2 = .over outcome) (k : Nat) :
    (run f moment others world (n + k)).2 = .over outcome := by
  induction k with
  | zero => exact h
  | succ k ih =>
      show ((run f moment others world (n + k)).2.step f _ _).2 = _
      rw [ih]
      rfl

/-- A call is over in one way. -/
theorem run_over_unique {n k : Nat} {outcome outcome' : Except (Error ε) Progress}
    (h : (run f moment others world n).2 = .over outcome)
    (h' : (run f moment others world k).2 = .over outcome') : outcome = outcome' := by
  have hlater := run_over h k
  rw [Nat.add_comm, run_over h' n] at hlater
  injection hlater with heq
  exact heq.symm

end Run

end MergedMining.CatchUp
