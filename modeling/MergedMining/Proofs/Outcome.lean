/-
Outcomes of checks that are made one after the other.

A check lets the ones behind it have their say or fails on the spot. So a chain
of them ends well exactly if every one of them does, and each of these laws peels
one off.
-/
namespace MergedMining.Outcome

variable {ε ε' α β : Type} {b : β}

theorem throw_eq (e : ε) : (throw e : Except ε β) = .error e := rfl

theorem error_bind (e : ε) (next : α → Except ε β) : (.error e >>= next) = .error e := rfl

theorem ok_bind (a : α) (next : α → Except ε β) : (.ok a >>= next) = next a := rfl

theorem pure_eq_ok {a : β} : (pure a : Except ε β) = .ok b ↔ a = b :=
  ⟨fun h => by cases h; rfl, fun h => by rw [h]; rfl⟩

/-- A step ends well if what it goes on with does. -/
theorem bind_eq_ok {first : Except ε α} {next : α → Except ε β} :
    (first >>= next) = .ok b ↔ ∃ a, first = .ok a ∧ next a = .ok b := by
  cases first with
  | ok a => exact ⟨fun h => ⟨a, rfl, h⟩, fun ⟨_, ha, h⟩ => by cases ha; exact h⟩
  | error e => exact ⟨fun h => (nomatch h), fun ⟨_, ha, _⟩ => nomatch ha⟩

/-- A check that lets pass what holds. -/
theorem ite_eq_ok {c : Prop} [Decidable c] {e : ε} {next : Except ε β} :
    (if c then next else .error e) = .ok b ↔ c ∧ next = .ok b := by
  split
  · next hc => exact ⟨fun h => ⟨hc, h⟩, fun h => h.2⟩
  · next hc => exact ⟨fun h => (nomatch h), fun h => absurd h.1 hc⟩

/-- A check that stops what holds. -/
theorem ite_error_eq_ok {c : Prop} [Decidable c] {e : ε} {next : Except ε β} :
    (if c then .error e else next) = .ok b ↔ ¬c ∧ next = .ok b := by
  split
  · next hc => exact ⟨fun h => (nomatch h), fun h => absurd hc h.1⟩
  · next hc => exact ⟨fun h => ⟨hc, h⟩, fun h => h.2⟩

/-- Taking one failure for another makes no success. -/
theorem mapError_eq_ok {f : ε → ε'} {outcome : Except ε β} :
    outcome.mapError f = .ok b ↔ outcome = .ok b := by
  cases outcome with
  | ok a => exact ⟨fun h => by cases h; rfl, fun h => by cases h; rfl⟩
  | error e => exact ⟨fun h => (nomatch h), fun h => (nomatch h)⟩

/-- Whatever it fails with has the property. -/
def FailsWith (P : ε → Prop) (outcome : Except ε β) : Prop :=
  ∀ cause, outcome = .error cause → P cause

namespace FailsWith

variable {P : ε → Prop}

/-- A failure with such a cause fails with such a cause. -/
theorem error {cause : ε} (h : P cause) : FailsWith P (.error cause : Except ε β) := by
  intro e he
  cases he
  exact h

protected theorem pure (a : β) : FailsWith P (pure a : Except ε β) := by
  intro e he
  cases he

/-- A step fails with what it begins with or with what it goes on with from there. -/
theorem bind_of_ok {first : Except ε α} {next : α → Except ε β} (h : FailsWith P first)
    (hnext : ∀ a, first = .ok a → FailsWith P (next a)) : FailsWith P (first >>= next) := by
  intro e he
  cases first with
  | ok a => exact hnext a rfl e he
  | error cause =>
      cases he
      exact h _ rfl

protected theorem bind {first : Except ε α} {next : α → Except ε β} (h : FailsWith P first)
    (hnext : ∀ a, FailsWith P (next a)) : FailsWith P (first >>= next) :=
  h.bind_of_ok fun a _ => hnext a

/-- Causes that are mapped are such as the map makes them. -/
theorem mapError {f : ε' → ε} (h : ∀ cause, P (f cause)) (outcome : Except ε' β) :
    FailsWith P (outcome.mapError f) := by
  intro e he
  cases outcome with
  | ok a => cases he
  | error cause =>
      cases he
      exact h _

end FailsWith

/-- A step in a world hands on to the next, in the world that it leaves, if it ends well. -/
theorem run_bind {σ : Type} (act : ExceptT ε (StateM σ) α) (next : α → ExceptT ε (StateM σ) β)
    (world : σ) :
    (act >>= next).run.run world =
      match act.run.run world with
      | (.ok a, between) => (next a).run.run between
      | (.error cause, between) => (.error cause, between) := by
  rw [ExceptT.run_bind, StateT.run_bind]
  rcases act.run.run world with ⟨cause | a, between⟩ <;> rfl

/-- An outcome that has this value is the value. -/
theorem eq_ok_of_toOption {outcome : Except ε β} (h : outcome.toOption = some b) :
    outcome = .ok b := by
  cases outcome with
  | ok a => cases h; rfl
  | error e => cases h

/-- An outcome that counts as a success has a value. -/
theorem exists_ok_of_isOk {outcome : Except ε β} (h : outcome.isOk = true) :
    ∃ b, outcome = .ok b := by
  cases outcome with
  | ok a => exact ⟨a, rfl⟩
  | error e => cases h

end MergedMining.Outcome
