/-
Computing with numbers of so many bits.

A machine's numbers have a width, and its lists have an end. An operation whose result does
not fit, that shifts by the width or more, or that reaches beyond the end traps: the program
stops on the spot. So a computation ends in one of three ways: it traps, it fails for a reason
of its own, or it has a value. Of one that does not trap it can be said which of the other
two it comes to, and that is how two tellings of one computation are compared, of which one
can trap and the other cannot.
-/
import MergedMining.Proofs.Outcome

namespace MergedMining.Machine

-- ====================================================================== traps

/-- Why a machine stops. -/
inductive Trap where
  /-- A result does not fit into the bits that there are for it. -/
  | overflow
  /-- A number is shifted by as many bits as it has, or more. -/
  | shift
  | divideByZero
  /-- A place beyond the end of a list. -/
  | outOfRange
  /-- Windows of no bytes. -/
  | emptyWindow
  /-- Room is asked for more bytes than can be addressed. -/
  | capacity
  /-- A node beyond the end of its level. -/
  | offLevel
  deriving DecidableEq, Repr

/-- A computation that can trap. -/
abbrev Run := Except Trap

variable {α β : Type}

theorem ok_bind (a : α) (f : α → Run β) : ((.ok a : Run α) >>= f) = f a := rfl

/-- Of addresses and lengths. -/
def wordBits : Nat := 64

section Words

variable (bits a b n : Nat)

/-- Adds, and traps where the sum does not fit. -/
def plus : Run Nat := if a + b < 2 ^ bits then .ok (a + b) else .error .overflow

/-- Multiplies, and traps where the product does not fit. -/
def times : Run Nat := if a * b < 2 ^ bits then .ok (a * b) else .error .overflow

/-- Subtracts, and traps where nothing is left to take from. -/
def minus : Run Nat := if b ≤ a then .ok (a - b) else .error .overflow

/-- The remainder of a division. -/
def modulo : Run Nat := if b = 0 then .error .divideByZero else .ok (a % b)

/-- Shifts to the left; what leaves the width is lost. -/
def shiftLeft : Run Nat := if n < bits then .ok (a * 2 ^ n % 2 ^ bits) else .error .shift

/-- Shifts to the right, and traps where the word is not that wide. -/
def shiftRight : Run Nat := if n < bits then .ok (a / 2 ^ n) else .error .shift

/-- The quotient of a division, the next number if it does not come out even. -/
def divideUp : Run Nat :=
  if b = 0 then .error .divideByZero
  else if a % b = 0 then .ok (a / b)
  else plus bits (a / b) 1

/-- A product, if it fits; this one does not trap. -/
def times? : Option Nat := if a * b < 2 ^ bits then some (a * b) else none

/-- The power of two, if it fits; this one does not trap. -/
def powerOfTwo? : Option Nat := if n < bits then some (2 ^ n) else none

variable {bits a b n}

theorem plus_eq (h : a + b < 2 ^ bits) : plus bits a b = .ok (a + b) := if_pos h

theorem times_eq (h : a * b < 2 ^ bits) : times bits a b = .ok (a * b) := if_pos h

theorem minus_eq (h : b ≤ a) : minus a b = .ok (a - b) := if_pos h

theorem modulo_eq (h : b ≠ 0) : modulo a b = .ok (a % b) := if_neg h

/-- The rounded quotient is computed by an addition, which must fit. -/
theorem divideUp_eq (hb : b ≠ 0) (h : a + b < 2 ^ bits) :
    divideUp bits a b = .ok ((a + b - 1) / b) := by
  have hpos : 0 < b := Nat.pos_of_ne_zero hb
  have hsplit : b * (a / b) + a % b = a := Nat.div_add_mod a b
  rw [divideUp, if_neg hb]
  by_cases heven : a % b = 0
  · rw [if_pos heven, show a + b - 1 = b * (a / b) + (b - 1) by omega, Nat.mul_add_div hpos,
      Nat.div_eq_of_lt (show b - 1 < b by omega), Nat.add_zero]
  · have hle : a / b ≤ a := Nat.div_le_self a b
    have hlt : a % b < b := Nat.mod_lt a hpos
    have hnext : a + b - 1 = b * (a / b + 1) + (a % b - 1) := by
      rw [Nat.mul_add, Nat.mul_one]
      omega
    rw [if_neg heven, plus_eq (by omega), hnext, Nat.mul_add_div hpos,
      Nat.div_eq_of_lt (show a % b - 1 < b by omega), Nat.add_zero]

/-- A shift to the left multiplies, if it is by less than the width and the product fits. -/
theorem shiftLeft_eq (hn : n < bits) (h : a * 2 ^ n < 2 ^ bits) :
    shiftLeft bits a n = .ok (a * 2 ^ n) := by
  rw [shiftLeft, if_pos hn, Nat.mod_eq_of_lt h]

theorem shiftRight_eq (h : n < bits) : shiftRight bits a n = .ok (a / 2 ^ n) := if_pos h

example : plus 32 (2 ^ 32 - 1) 1 = .error .overflow ∧ shiftLeft 32 1 32 = .error .shift :=
  ⟨rfl, rfl⟩

end Words

section Lists

variable (items : List α) (i : Nat)

/-- Takes an item, and traps where there is none. -/
def item : Run α :=
  match items[i]? with
  | some x => .ok x
  | none => .error .outOfRange

/-- The stretches of so many items, from the front on. -/
def stretches (size : Nat) : List α → List (List α)
  | [] => []
  | x :: rest =>
      if size ≤ (x :: rest).length then (x :: rest).take size :: stretches size rest else []

/-- The stretches of so many items, of which there has to be one at least. -/
def windows (size : Nat) : Run (List (List α)) :=
  if size = 0 then .error .emptyWindow else .ok (stretches size items)

/-- The items from a place on. -/
def sliceFrom : Run (List α) := if i ≤ items.length then .ok (items.drop i) else .error .outOfRange

/-- The items in front of a place. -/
def sliceTo : Run (List α) := if i ≤ items.length then .ok (items.take i) else .error .outOfRange

variable {items i}

theorem item_eq {x : α} (h : items[i]? = some x) : item items i = .ok x := by
  rw [item, h]

/-- A list that is too short has no stretches. -/
theorem stretches_of_short {size : Nat} (h : items.length < size) : stretches size items = [] := by
  cases items with
  | nil => rfl
  | cons x rest => exact if_neg (Nat.not_le.2 h)

theorem windows_eq {size : Nat} (h : size ≠ 0) : windows items size = .ok (stretches size items) :=
  if_neg h

theorem sliceFrom_eq (h : i ≤ items.length) : sliceFrom items i = .ok (items.drop i) := if_pos h

theorem sliceTo_eq (h : i ≤ items.length) : sliceTo items i = .ok (items.take i) := if_pos h

/-- A list that fits into the addresses of a machine: of 64 bits, at most 56 tell the bytes of
a program. -/
def Addressable (items : List α) : Prop := items.length < 2 ^ 56

instance (items : List α) : Decidable (Addressable items) := inferInstanceAs (Decidable (_ < _))

/-- Room for so many items, each of which takes 128 bytes at the most. -/
def reserve (count : Nat) : Run Unit :=
  if count * 128 < 2 ^ 63 then .ok () else .error .capacity

theorem reserve_eq {count : Nat} (h : count < 2 ^ 56) : reserve count = .ok () :=
  if_pos (by omega)

end Lists

-- =================================================================== outcomes

section Yields

variable {ε : Type}

/-- The computation does not trap, and comes to this outcome. -/
def Yields (x : ExceptT ε Run α) (y : Except ε α) : Prop := x.run = .ok y

theorem pure_yields (a : α) : Yields (pure a : ExceptT ε Run α) (pure a) := rfl

theorem throw_yields (e : ε) : Yields (throw e : ExceptT ε Run α) (throw e) := rfl

variable {x x' : ExceptT ε Run α} {y y' : Except ε α} {f : α → ExceptT ε Run β} {g : α → Except ε β}

/-- A computation that goes on does not trap if neither part does. -/
theorem Yields.bind (hx : Yields x y) (hf : ∀ a, y = .ok a → Yields (f a) (g a)) :
    Yields (x >>= f) (y >>= g) := by
  unfold Yields at hx ⊢
  rw [ExceptT.run_bind, hx]
  cases y with
  | ok a => exact hf a rfl
  | error e => rfl

/-- Both sides may branch on conditions that say the same. -/
theorem Yields.ite_of_iff {c c' : Prop} [Decidable c] [Decidable c'] (hc : c ↔ c')
    (h : c → Yields x y) (h' : ¬c → Yields x' y') :
    Yields (if c then x else x') (if c' then y else y') := by
  by_cases hcond : c
  · rw [if_pos hcond, if_pos (hc.1 hcond)]
    exact h hcond
  · rw [if_neg hcond, if_neg (mt hc.2 hcond)]
    exact h' hcond

theorem Yields.ite {c : Prop} [Decidable c] (h : c → Yields x y) (h' : ¬c → Yields x' y') :
    Yields (if c then x else x') (if c then y else y') := .ite_of_iff Iff.rfl h h'

/-- An operation that does not trap hands its result on. -/
theorem Yields.lift {a : α} {m : Run α} (hm : m = .ok a) {z : Except ε β} (h : Yields (f a) z) :
    Yields ((liftM m : ExceptT ε Run α) >>= f) z := by
  subst hm
  exact h

/-- Failures are told in other words. -/
theorem Yields.adapt {ε' : Type} (h : Yields x y) (f : ε → ε') :
    Yields (ExceptT.adapt f x) (y.mapError f) := by
  show Except.mapError f <$> x.run = _
  rw [show x.run = .ok y from h]
  rfl

end Yields

end MergedMining.Machine
