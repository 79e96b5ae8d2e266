/-
Readers that look no further than they take.

A payload has no length in front: where it ends is found by walking it inside whatever
it is part of. That this end does not depend on what stands behind the payload is what
being local says. The count in front of a sequence is the one thing that looks at all
that is left, to see whether so many items have room. What it decides is local all the
same, if each item takes at least what it is counted for: then items that were read had
room among themselves.
-/
import MergedMining.Proofs.Wire.Exact
import MergedMining.Proofs.Wire.Takes

namespace MergedMining.Wire.Reader

variable {α β : Type} {input rest : Bytes}

/-- What is read does not depend on what stands behind the bytes that are taken. -/
def Local (reader : Reader α) : Prop :=
  ∀ ⦃input value rest⦄, reader input = .ok value rest →
    ∃ taken, input = taken ++ rest ∧ ∀ after, reader (taken ++ after) = .ok value after

namespace Local

variable {reader : Reader α} {next : α → Reader β}

/-- An exact reader is local: it takes the spelling of what it gives. -/
theorem of_spells {admits : α → Prop} {spelling : α → Bytes} (h : reader.Spells admits spelling) :
    Local reader := by
  intro input value rest hread
  obtain ⟨hvalue, hinput⟩ := h.1 hread
  exact ⟨spelling value, hinput, fun after => h.2 ⟨hvalue, rfl⟩⟩

protected theorem pure (value : α) : Local (Pure.pure value : Reader α) := by
  intro input v rest hread
  obtain ⟨rfl, rfl⟩ := pure_eq_ok.1 hread
  exact ⟨[], rfl, fun _ => rfl⟩

protected theorem throw (cause : Error) : Local (throw cause : Reader α) :=
  fun _ _ _ hread => (throw_eq_ok.1 hread).elim

/-- Two local readers in turn are local. -/
protected theorem bind (h : Local reader) (hnext : ∀ a, Local (next a)) :
    Local (reader >>= next) := by
  intro input value rest hread
  obtain ⟨a, between, hfirst, hsecond⟩ := bind_eq_ok.1 hread
  obtain ⟨front, rfl, hfront⟩ := h hfirst
  obtain ⟨back, rfl, hback⟩ := hnext a hsecond
  refine ⟨front ++ back, (List.append_assoc ..).symm, fun after => ?_⟩
  rw [List.append_assoc]
  exact bind_eq_ok.2 ⟨a, back ++ after, hfront _, hback after⟩

protected theorem map (f : α → β) (h : Local reader) : Local (f <$> reader) := by
  intro input value rest hread
  obtain ⟨a, hfirst, rfl⟩ := map_eq_ok.1 hread
  obtain ⟨taken, rfl, htaken⟩ := h hfirst
  exact ⟨taken, rfl, fun after => map_ok (htaken after)⟩

protected theorem times (h : Local reader) (n : Nat) : Local (times n reader) := by
  induction n with
  | zero => exact .pure []
  | succ n ih => exact h.bind fun first => ih.bind fun others => .pure (first :: others)

/-- Local steps may be gone through in a list. -/
protected theorem forM {walk : β → Reader Unit} {steps : List β}
    (h : ∀ step ∈ steps, Local (walk step)) : Local (steps.forM walk) := by
  induction steps with
  | nil => exact .pure ()
  | cons step steps ih =>
      obtain ⟨hstep, hsteps⟩ := List.forall_mem_cons.1 h
      exact hstep.bind fun _ => ih hsteps

/-- Items that take what they are counted for have room among themselves. -/
theorem count_bind {leastSize : Nat} {next : Nat → Reader β} (hnext : ∀ n, Local (next n))
    (htakes : ∀ n, Takes (n * max leastSize 1) (next n)) : Local (count leastSize >>= next) := by
  intro input value rest hread
  obtain ⟨n, between, hcount, hsecond⟩ := bind_eq_ok.1 hread
  obtain ⟨hn, -, rfl⟩ := count_eq_ok.1 hcount
  have hlen := htakes n hsecond
  obtain ⟨items, rfl, hitems⟩ := hnext n hsecond
  refine ⟨writeVarUint (UInt64.ofNat n) ++ items, (List.append_assoc ..).symm, fun after => ?_⟩
  have hroom : n * max leastSize 1 ≤ (items ++ after).length := by
    rw [List.length_append] at hlen ⊢
    omega
  rw [List.append_assoc]
  exact bind_eq_ok.2 ⟨n, items ++ after, count_eq_ok.2 ⟨hn, hroom, rfl⟩, hitems after⟩

end Local

/-- What a walk goes over is captured. -/
theorem captured_append {walk : Reader Unit} {front back : Bytes}
    (h : walk (front ++ back) = .ok () back) :
    captured walk (front ++ back) = .ok front back := by
  unfold captured
  rw [h]
  show EStateM.Result.ok (List.take ((front ++ back).length - back.length) (front ++ back)) back = _
  rw [List.length_append, Nat.add_sub_cancel, List.take_left]

/-- What was captured is what a walk went over. -/
theorem walk_of_captured {walk : Reader Unit} {taken : Bytes}
    (h : captured walk input = .ok taken rest) : walk input = .ok () rest := by
  unfold captured at h
  split at h
  · next between hwalk =>
      injection h with _ hrest
      rw [hwalk, hrest]
  · cases h

/-- Capturing a local walk gives the bytes that the walk takes when it stands alone. -/
theorem captured_eq_ok {walk : Reader Unit} (h : Local walk) {taken : Bytes} :
    captured walk input = .ok taken rest
      ↔ captured walk taken = .ok taken [] ∧ input = taken ++ rest := by
  constructor
  · intro hread
    obtain ⟨front, rfl, hfront⟩ := h (walk_of_captured hread)
    rw [captured_append (hfront rest)] at hread
    cases hread
    have halone := captured_append (hfront [])
    rw [List.append_nil] at halone
    exact ⟨halone, rfl⟩
  · intro h
    obtain ⟨halone, rfl⟩ := h
    obtain ⟨front, hfront, hwalk⟩ := h (walk_of_captured halone)
    rw [List.append_nil] at hfront
    rw [hfront]
    exact captured_append (hwalk rest)

end MergedMining.Wire.Reader
