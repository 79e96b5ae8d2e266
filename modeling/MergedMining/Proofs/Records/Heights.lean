/-
Where the cursors of a store stand, by the calls that were made of it.

The cursor of a chain stands at the greatest height that was named to it since it was sent
back to zero, by the height that does so or by a reset of the store. One call moves it to the
greater of where it stands and what is named, or back; all else that is done with the store
leaves it alone, and so do heights that are named to other chains. What holds after any calls
follows from this by induction on them.
-/
import Mathlib.Data.List.DropRight
import Mathlib.Data.UInt
import MergedMining.Proofs.Records.Main
import MergedMining.Proofs.Records.Side
import MergedMining.Proofs.Store.Parts

namespace MergedMining

open Store

namespace Store

-- ====================================================================== marks

namespace Cursors

namespace Mark

/-- Whether the cursor of a chain is sent back to zero. -/
def sendsBack (chain : String) : Mark → Bool
  | .naming name height => name = chain ∧ height = resetHeight
  | .clear => true
  | .other => false

/-- The height that is named to the cursor of a chain. -/
def named? (chain : String) : Mark → Option UInt32
  | .naming name height => if name = chain then some height else none
  | .clear | .other => none

end Mark

/-- The heights that were named to the cursor of a chain since it was sent back last. -/
def since (chain : String) (marks : List Mark) : List UInt32 :=
  (marks.rtakeWhile fun m => !m.sendsBack chain).filterMap (Mark.named? chain)

/-- The greatest height that was named since, zero if there was none. -/
def top (chain : String) (marks : List Mark) : UInt32 := (since chain marks).foldl max 0

section Top

variable {chain : String} {m : Mark}

private theorem since_concat_of_sendsBack (h : m.sendsBack chain = true) (marks : List Mark) :
    since chain (marks ++ [m]) = [] := by
  have hstop : ¬(!m.sendsBack chain) = true := by simp [h]
  rw [since, List.rtakeWhile_concat, if_neg hstop, List.filterMap_nil]

/-- Any other call adds the height that it names, if it names one. -/
private theorem since_concat (h : m.sendsBack chain = false) (marks : List Mark) :
    since chain (marks ++ [m]) = since chain marks ++ (m.named? chain).toList := by
  have hgo : (!m.sendsBack chain) = true := by simp [h]
  rw [since, List.rtakeWhile_concat, if_pos hgo, List.filterMap_append, ← since]
  cases hnamed : m.named? chain with
  | none => rw [List.filterMap_cons_none hnamed, List.filterMap_nil, Option.toList_none]
  | some height => rw [List.filterMap_cons_some hnamed, List.filterMap_nil, Option.toList_some]

private theorem top_concat_of_sendsBack (h : m.sendsBack chain = true) (marks : List Mark) :
    top chain (marks ++ [m]) = 0 := by
  rw [top, since_concat_of_sendsBack h, List.foldl_nil]

/-- A mark that does not name a height to a cursor shows nowhere in the greatest height. -/
theorem top_concat_of_none (h : m.sendsBack chain = false) (hnamed : m.named? chain = none)
    (marks : List Mark) : top chain (marks ++ [m]) = top chain marks := by
  rw [top, since_concat h, hnamed, Option.toList_none, List.append_nil, ← top]

/-- A height that is not the reset one raises the cursor to it, or leaves it. -/
private theorem named_eq_max {height : UInt32} (hreset : height ≠ resetHeight) (before : UInt32) :
    named before height = max before height := by
  rw [named, if_neg hreset]
  show _ = if before ≤ height then height else before
  by_cases hlt : before < height
  · rw [if_pos hlt, if_pos (UInt32.le_of_lt hlt)]
  · rw [if_neg hlt]
    split
    · next hle => exact UInt32.le_antisymm hle (UInt32.not_lt.1 hlt)
    · rfl

/-- Naming a height to a cursor takes it from the greatest height to the next greatest. -/
theorem top_naming (chain : String) (height : UInt32) (marks : List Mark) :
    top chain (marks ++ [.naming chain height]) = named (top chain marks) height := by
  by_cases hreset : height = resetHeight
  · have hback : (Mark.naming chain height).sendsBack chain = true := by
      rw [Mark.sendsBack, decide_eq_true_eq]
      exact ⟨rfl, hreset⟩
    rw [top_concat_of_sendsBack hback, named, if_pos hreset]
  · have hstay : (Mark.naming chain height).sendsBack chain = false := by
      rw [Mark.sendsBack, decide_eq_false_iff_not]
      exact fun h => hreset h.2
    have hnamed : (Mark.naming chain height).named? chain = some height := if_pos rfl
    rw [top, since_concat hstay, hnamed, Option.toList_some, List.foldl_concat, ← top,
      named_eq_max hreset]

/-- The top of a chain does not depend on what is named for another. -/
private theorem top_naming_of_ne {other : String} (hne : other ≠ chain) (height : UInt32)
    (marks : List Mark) : top chain (marks ++ [.naming other height]) = top chain marks := by
  have hnamed : (Mark.naming other height).named? chain = none := if_neg hne
  refine top_concat_of_none ?_ hnamed marks
  rw [Mark.sendsBack, decide_eq_false_iff_not]
  exact fun h => hne h.1

end Top

-- =================================================================== one call

section Advance

variable {cursors : Cursors} {chain other : String} {before current height : UInt32}
  {moved : Option Cursors}

/-- A cursor that is stored can be advanced, and answers the height that was named of it. -/
private theorem advance_of_stored (hstored : cursors.stored chain = .ok before) (height : UInt32) :
    ∃ moved, cursors.advance chain height = .ok (named before height, moved) := by
  unfold named
  by_cases hreset : height = resetHeight
  · rw [if_pos hreset, hreset]
    exact ⟨_, advance_reset hstored⟩
  · rw [if_neg hreset]
    by_cases hlt : before < height
    · rw [if_pos hlt]
      exact ⟨_, advance_up hstored hlt hreset⟩
    · rw [if_neg hlt]
      refine ⟨none, Outcome.bind_eq_ok.2 ⟨before, hstored, ?_⟩⟩
      rw [if_neg hreset, if_neg hlt]
      rfl

/-- Advancing one cursor leaves the others as they are stored. -/
private theorem stored_of_advance_of_ne (hne : chain ≠ other)
    (h : cursors.advance chain height = .ok (current, moved)) :
    (moved.getD cursors).stored other = cursors.stored other := by
  cases moved with
  | none => rfl
  | some moved =>
      show moved.stored other = _
      rw [← stored_only other moved, only_of_advance_of_ne hne h, stored_only]

end Advance

/-- Every cursor stands at the greatest height that was named to it. -/
def Stand (marks : List Mark) (cursors : Cursors) : Prop :=
  ∀ chain, cursors.stored chain = .ok (top chain marks)

variable {marks : List Mark} {cursors : Cursors}

private theorem stand_nil : Stand [] [] := fun _ => rfl

/-- Whatever a call does to cursors, they stand at the greatest heights afterwards. -/
theorem Stand.concat (h : Stand marks cursors) (m : Mark) :
    Stand (marks ++ [m]) (m.onCursors cursors) := by
  intro chain
  cases m with
  | naming name height =>
      obtain ⟨moved, hadvance⟩ := advance_of_stored (h name) height
      rw [onCursors_of_advance hadvance]
      by_cases hname : name = chain
      · obtain ⟨-, -, -, hafter⟩ := of_advance hadvance
        rw [← hname, top_naming]
        exact hafter
      · rw [stored_of_advance_of_ne hname hadvance, top_naming_of_ne hname]
        exact h chain
  | clear =>
      rw [top_concat_of_sendsBack rfl]
      rfl
  | other =>
      rw [top_concat_of_none rfl rfl]
      exact h chain

/-- The same after one more of some calls, each of which has a mark. -/
theorem Stand.concat_map {ι : Type} {mark : ι → Mark} {calls : List ι}
    (h : Stand (calls.map mark) cursors) (c : ι) :
    Stand ((calls ++ [c]).map mark) ((mark c).onCursors cursors) := by
  rw [List.map_append, List.map_singleton]
  exact h.concat (mark c)

-- ============================================================ in a store

variable {τ : Type} [Tables τ] {part : Part τ Cursors} {t : τ} {chain : String}
  {current height : UInt32} {moved : Option Cursors}

/-- A move answers where the cursor then is, and stores it. -/
private theorem run_move (hpart : part.Lawful)
    (hadvance : (part.get t).advance chain height = .ok (current, moved)) :
    (⟨t, .steady⟩ : Store τ).run (move part chain height)
      = (.ok current, ⟨part.set t (moved.getD (part.get t)), .steady⟩) := by
  cases moved with
  | some moved => exact run_of_commit rfl (by simp only [hadvance, Option.getD_some])
  | none =>
      have hsame : part.set t ((none : Option Cursors).getD (part.get t)) = t := hpart.set_get t
      rw [hsame]
      exact run_of_abandon rfl (by simp only [hadvance])

/-- The answer to a height that is named, and the cursor afterwards. -/
theorem run_move_of_stand (hpart : part.Lawful) (h : Stand marks (part.get t)) (chain : String)
    (height : UInt32) :
    ∃ after, (⟨t, .steady⟩ : Store τ).run (move part chain height)
        = (.ok (named (top chain marks) height), ⟨after, .steady⟩)
      ∧ Stand (marks ++ [.naming chain height]) (part.get after)
      ∧ ∀ other, other ≠ chain → (part.get after).stored other = (part.get t).stored other := by
  obtain ⟨moved, hadvance⟩ := advance_of_stored (h chain) height
  refine ⟨_, run_move hpart hadvance, ?_⟩
  rw [hpart.get_set]
  constructor
  · rw [← onCursors_of_advance hadvance]
    exact h.concat _
  · intro other hne
    exact stored_of_advance_of_ne hne.symm hadvance

private theorem run_move_zero (h : Stand marks (part.get t)) (chain : String) :
    ((⟨t, .steady⟩ : Store τ).run (move part chain 0)).2 = ⟨t, .steady⟩ :=
  congrArg Prod.snd (run_of_attempt (attempt_move_zero rfl (h chain)))

-- ================================================================= histories

/-- A height that is named to the cursor of a chain in a store whose calls had these marks. -/
structure Tops [Callable τ] (look : τ → Cursors) (name : Op τ UInt32) (s : Store τ)
    (marks : List Mark) (chain : String) (height : UInt32) : Prop where
  answer : (s.run name).1
    = .ok (if height = resetHeight then 0 else max (top chain marks) height)
  stored : (look (s.run name).2.tables).stored chain = (s.run name).1
  others : ∀ other, other ≠ chain →
    (look (s.run name).2.tables).stored other = (look s.tables).stored other
  zero : height = 0 → Alike (s.run name).2 s

variable [Callable τ] {holds : List (Callable.Call τ) → τ → Prop}
  {mark : Callable.Call τ → Mark}

/-- Where each call keeps the cursors at their tops, a move answers with the top after any calls. -/
private theorem tops_of_keeps (hpart : part.Lawful)
    (hkeeps : Keeps fun calls t => holds calls t ∧ Stand (calls.map mark) (part.get t))
    (calls : List (Callable.Call τ)) (chain : String) (height : UInt32) :
    Tops part.get (move part chain height) (after (calls.map .call)) (calls.map mark) chain
      height := by
  obtain ⟨t, hafter, -, hstand⟩ := hkeeps.after_calls calls
  obtain ⟨t', hrun, hstand', hothers⟩ := run_move_of_stand hpart hstand chain height
  rw [hafter]
  refine ⟨?_, ?_, ?_, ?_⟩
  · rw [hrun]
    by_cases hreset : height = resetHeight
    · rw [named, if_pos hreset, if_pos hreset]
    · rw [named_eq_max hreset, if_neg hreset]
  · rw [hrun, hstand' chain, top_naming]
  · rw [hrun]
    exact hothers
  · rintro rfl
    rw [run_move_zero hstand]
    exact Alike.refl _

end Cursors

end Store

-- ================================================================= the stores

/-- The cursor of the main chain stands at the greatest height, beside the deposits. -/
theorem MainStore.keeps_cursors :
    @Keeps MainTables _ _ fun calls t =>
      Holds calls t ∧ Cursors.Stand (calls.map Call.mark) t.cursors := by
  refine Kind.keeps (fun calls => Cursors.Stand (calls.map Call.mark)) Call.kind table_of
    (fun _ _ => rfl) rfl ?_ ?_
  · exact Cursors.stand_nil
  · exact fun h c => h.concat_map c

/-- The cursors of the side chains stand at the greatest heights, beside the records. -/
theorem SideStore.keeps_cursors :
    @Keeps SideTables _ _ fun calls t =>
      Holds calls t ∧ Cursors.Stand (calls.map Call.mark) t.cursors :=
  keeps_marked (fun calls => Cursors.Stand (calls.map Call.mark)) Cursors.stand_nil
    fun h c => h.concat_map c

/-- After any calls of either store, a height that is named to a cursor is answered with the
greatest height that was named to it since it was sent back to zero, and the cursor then stands
there; the cursors of other chains are where they were, and no later answer tells whether zero
was named. -/
theorem cursors_top :
    (∀ (calls : List SideStore.Call) (chain : String) (height : UInt32),
        Cursors.Tops SideTables.cursors (SideStore.height chain height)
          (Store.after (calls.map .call)) (calls.map SideStore.Call.mark) chain height)
      ∧ ∀ (calls : List MainStore.Call) (height : UInt32),
        Cursors.Tops MainTables.cursors (MainStore.height height)
          (Store.after (calls.map .call)) (calls.map MainStore.Call.mark) MainStore.chain height :=
  ⟨fun calls chain height =>
      Cursors.tops_of_keeps SideStore.cursors_lawful SideStore.keeps_cursors calls chain height,
    fun calls height =>
      Cursors.tops_of_keeps MainStore.cursors_lawful MainStore.keeps_cursors calls
        MainStore.chain height⟩

example :
    Cursors.top "a" [.naming "a" 5, .clear, .naming "a" 3, .naming "b" 9, .naming "a" 2] = 3 := by
  decide

end MergedMining
