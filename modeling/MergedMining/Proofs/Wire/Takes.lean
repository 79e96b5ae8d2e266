/-
How much a reader takes at the least.

A reader that succeeds has taken what its parts took, so a bound for a format is
the sum of the bounds for its fields. What a length prefix announces is not
counted: it may be nothing.
-/
import MergedMining.Wire.Format

namespace MergedMining.Wire.Reader

variable {α β : Type}

/-- Where this reader succeeds, so many bytes at least are taken. -/
def Takes (least : Nat) (reader : Reader α) : Prop :=
  ∀ ⦃input value rest⦄, reader input = .ok value rest → rest.length + least ≤ input.length

namespace Takes

variable {least more : Nat} {reader : Reader α} {next : α → Reader β}

theorem mono (hle : least ≤ more) (h : Takes more reader) : Takes least reader := by
  intro input value rest hread
  have := h hread
  omega

protected theorem pure (value : α) : Takes 0 (Pure.pure value : Reader α) := by
  intro input value rest hread
  cases hread
  exact Nat.le_refl _

protected theorem throw (least : Nat) (cause : Error) :
    Takes least (throw cause : Reader α) := by
  intro input value rest hread
  cases hread

/-- What is taken by one reader and then another adds up. -/
protected theorem bind (h : Takes least reader) (hnext : ∀ a, Takes more (next a)) :
    Takes (least + more) (reader >>= next) := by
  intro input value rest hread
  simp only [Bind.bind, EStateM.bind] at hread
  split at hread
  · next a between hfirst =>
      have := h hfirst
      have := hnext a hread
      omega
  · cases hread

/-- What is read may be mapped. -/
protected theorem map (f : α → β) (h : Takes least reader) : Takes least (f <$> reader) := by
  intro input value rest hread
  simp only [Functor.map, EStateM.map] at hread
  split at hread
  · next a between hfirst =>
      cases hread
      exact h hfirst
  · cases hread

protected theorem ite {c : Prop} [Decidable c] {other : Reader α} (h : Takes least reader)
    (hother : Takes least other) : Takes least (if c then reader else other) := by
  split
  · exact h
  · exact hother

end Takes

-- ================================================================== readers

theorem takes_octets (n : Nat) : Takes n (octets n) := by
  intro input value rest hread
  unfold octets at hread
  split at hread
  · next hlen =>
      cases hread
      rw [List.length_drop]
      omega
  · cases hread

theorem takes_u8 : Takes 1 u8 := ((takes_octets 1).map _).map _

theorem takes_u16 : Takes 2 u16 := ((takes_octets 2).map _).map _

theorem takes_u32 : Takes 4 u32 := ((takes_octets 4).map _).map _

theorem takes_u64 : Takes 8 u64 := ((takes_octets 8).map _).map _

theorem takes_atLeast (least value : UInt64) : Takes 0 (atLeast least value) :=
  (Takes.throw 0 _).ite (Takes.pure _)

/-- Every form of a count has its first byte. -/
theorem takes_varUint : Takes 1 varUint := by
  show Takes (1 + 0) varUint
  refine takes_u8.bind fun tag => ?_
  refine Takes.ite ?_ (Takes.ite ?_ (Takes.ite ?_ (Takes.pure _)))
  · exact (takes_u16.bind fun v => takes_atLeast _ _).mono (Nat.zero_le _)
  · exact (takes_u32.bind fun v => takes_atLeast _ _).mono (Nat.zero_le _)
  · exact (takes_u64.bind fun v => takes_atLeast _ _).mono (Nat.zero_le _)

theorem takes_remaining : Takes 0 remaining := by
  intro input value rest hread
  cases hread
  exact Nat.le_refl _

theorem takes_count (leastSize : Nat) : Takes 1 (count leastSize) :=
  takes_varUint.bind fun _ => takes_remaining.bind fun _ =>
    (Takes.pure _).ite (Takes.throw 0 _)

theorem takes_finish : Takes 0 finish := by
  intro input value rest hread
  unfold finish at hread
  split at hread
  · cases hread
    exact Nat.le_refl _
  · cases hread

theorem takes_varBytes : Takes 1 varBytes :=
  (takes_count 1).bind fun n => ((takes_octets n).map _).mono (Nat.zero_le n)

theorem takes_times {least : Nat} {item : Reader α} (h : Takes least item) (n : Nat) :
    Takes (n * least) (times n item) := by
  induction n with
  | zero => exact (Takes.pure []).mono (Nat.le_of_eq (Nat.zero_mul least))
  | succ n ih =>
      rw [Nat.succ_mul, Nat.add_comm]
      exact h.bind fun first => ih.bind fun others => Takes.pure (first :: others)

end Reader

-- ========================================================== complete values

/-- What decodes to a value is no shorter than its reader takes. -/
theorem le_length_of_decode_eq_ok {α : Type} [Wire α] {least : Nat} {input : Bytes} {value : α}
    (h : Reader.Takes least (read : Reader α)) (hdecode : decode input = .ok value) :
    least ≤ input.length := by
  have htakes : Reader.Takes (least + (0 + 0))
      (do let value ← read; Reader.finish; pure value : Reader α) :=
    h.bind fun value => Reader.takes_finish.bind fun _ => Reader.Takes.pure value
  unfold decode at hdecode
  split at hdecode
  · next v rest hread =>
      have := htakes hread
      omega
  · cases hdecode

end MergedMining.Wire
