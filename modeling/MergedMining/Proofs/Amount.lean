/-
What texts are amounts, and that an amount is read to the unit.

The grammar is said on its own: digits, or digits, a point and at most eight more digits. The
number that such a text denotes is a fraction, by the places of its digits. Reading drops the
point and fills up with zeros, which is to multiply by the hundred million units of a whole. So
no digit is lost, and however many zeros stand in front, what counts against the limit is the
number alone.
-/
import Mathlib.Algebra.Order.Field.Rat
import Mathlib.Data.List.Induction
import Mathlib.Data.List.TakeWhile
import Mathlib.Data.Nat.Digits.Defs
import Mathlib.Tactic.FieldSimp
import Mathlib.Tactic.Ring
import MergedMining.Amount
import MergedMining.Proofs.Outcome

namespace MergedMining

-- ====================================================================== digits

namespace Digits

/-- The number of digits by their places, of which the last counts once. -/
def number (digits : List Char) : Nat :=
  Nat.ofDigits 10 (digits.reverse.map fun c => c.toNat - '0'.toNat)

/-- The digits in front weigh as much more as there are digits behind them. -/
private theorem number_append (front back : List Char) :
    number (front ++ back) = number back + 10 ^ back.length * number front := by
  unfold number
  rw [List.reverse_append, List.map_append, Nat.ofDigits_append, List.length_map,
    List.length_reverse]

private theorem number_nil : number [] = 0 := rfl

private theorem number_zeros (count : Nat) : number (List.replicate count '0') = 0 := by
  unfold number
  rw [List.reverse_replicate, List.map_replicate]
  exact Nat.ofDigits_replicate_zero

/-- Reading digits from the front comes to their number. -/
theorem value_eq_number (digits : List Char) : value digits = number digits := by
  induction digits using List.reverseRecOn with
  | nil => rfl
  | append_singleton digits c ih =>
      have hlast : number [c] = c.toNat - 48 := Nat.ofDigits_singleton
      have hread : value (digits ++ [c]) = 10 * value digits + (c.toNat - 48) := by
        unfold value
        rw [List.foldl_append, List.foldl_cons, List.foldl_nil]
      rw [hread, ih, number_append, hlast, List.length_singleton, pow_one, Nat.add_comm]

end Digits

namespace Amount

open Digits (number)

-- ===================================================================== grammar

/-- The texts that are amounts, and the number that each denotes. -/
inductive Denotes : List Char → ℚ → Prop where
  | whole {digits : List Char} (nonempty : digits ≠ []) (isDigit : ∀ c ∈ digits, c.isDigit = true) :
      Denotes digits (number digits)
  | point {whole fraction : List Char} (nonempty : whole ≠ [])
      (isDigit : ∀ c ∈ whole, c.isDigit = true) (length_le : fraction.length ≤ 8)
      (isDigit' : ∀ c ∈ fraction, c.isDigit = true) :
      Denotes (whole ++ '.' :: fraction)
        (number whole + number fraction / 10 ^ fraction.length)

-- ======================================================================= units

/-- Filling up to eight places and dropping the point is counting in units. -/
theorem value_filled {whole fraction : List Char} (hlength : fraction.length ≤ places) :
    (Digits.value (whole ++ fraction ++ List.replicate (places - fraction.length) '0') : ℚ)
      = (number whole + number fraction / 10 ^ fraction.length) * 10 ^ 8 := by
  have hplaces : fraction.length + (places - fraction.length) = 8 := Nat.add_sub_of_le hlength
  have hpow : (10 : ℚ) ^ 8 = 10 ^ fraction.length * 10 ^ (places - fraction.length) := by
    rw [← pow_add, hplaces]
  rw [Digits.value_eq_number, Digits.number_append, Digits.number_append, Digits.number_zeros,
    List.length_replicate, hpow]
  push_cast
  field_simp
  ring

private theorem value_filled_nil (whole : List Char) :
    (Digits.value (whole ++ [] ++ List.replicate (places - ([] : List Char).length) '0') : ℚ)
      = number whole * 10 ^ 8 := by
  rw [value_filled (Nat.zero_le _), Digits.number_nil, Nat.cast_zero, zero_div, add_zero]

/-- What a text denotes is a whole number of units. -/
theorem Denotes.exists_units {text : List Char} {q : ℚ} (h : Denotes text q) :
    ∃ n : Nat, q * 10 ^ 8 = n := by
  cases h with
  | whole nonempty isDigit => exact ⟨_, (value_filled_nil text).symm⟩
  | point nonempty isDigit length_le isDigit' => exact ⟨_, (value_filled length_le).symm⟩

-- ===================================================================== reading

section Reading

variable {text whole fraction : List Char} {n : Nat} {q : ℚ}

/-- These stand in front of the first point of a text and behind it. -/
def Splits (text whole fraction : List Char) : Prop :=
  text.takeWhile (· ≠ '.') = whole ∧ (text.dropWhile (· ≠ '.')).drop 1 = fraction

/-- A text has no point and is all in front of it, or the point stands between the parts. -/
theorem exists_splits (text : List Char) :
    ∃ whole fraction, Splits text whole fraction
      ∧ (text = whole ∧ fraction = [] ∨ text = whole ++ '.' :: fraction) := by
  refine ⟨_, _, ⟨rfl, rfl⟩, ?_⟩
  have happend : text.takeWhile (· ≠ '.') ++ text.dropWhile (· ≠ '.') = text :=
    List.takeWhile_append_dropWhile
  cases htail : text.dropWhile (· ≠ '.') with
  | nil =>
      rw [htail, List.append_nil] at happend
      exact Or.inl ⟨happend.symm, rfl⟩
  | cons c tail =>
      have hfirst := List.head_dropWhile_not (· ≠ '.') (l := text) (by rw [htail]; simp)
      simp only [htail, List.head_cons, decide_eq_false_iff_not, not_not] at hfirst
      rw [htail, hfirst] at happend
      exact Or.inr happend.symm

/-- There is no point among digits. -/
theorem ne_point_of_isDigit (h : ∀ c ∈ whole, c.isDigit = true) :
    ∀ c ∈ whole, decide (c ≠ '.') = true := by
  intro c hc
  refine decide_eq_true fun hpoint => ?_
  have hdigit := h c hc
  rw [hpoint] at hdigit
  revert hdigit
  decide

/-- Digits without a point are all in front of it. -/
private theorem splits_digits (h : ∀ c ∈ whole, c.isDigit = true) : Splits whole whole [] := by
  have hpoint := ne_point_of_isDigit h
  constructor
  · exact List.takeWhile_eq_self_iff.2 hpoint
  · rw [List.dropWhile_eq_nil_iff.2 hpoint, List.drop_nil]

/-- The first point is where a text is split. -/
private theorem splits_point (h : ∀ c ∈ whole, c.isDigit = true) :
    Splits (whole ++ '.' :: fraction) whole fraction := by
  have hpoint := ne_point_of_isDigit h
  constructor
  · rw [List.takeWhile_append_of_pos hpoint, List.takeWhile_cons_of_neg (by decide),
      List.append_nil]
  · rw [List.dropWhile_append_of_pos hpoint, List.dropWhile_cons_of_neg (by decide), List.drop_one,
      List.tail_cons]

/-- A text spells a number of units as its two parts do. -/
private theorem units?_eq_some (h : Splits text whole fraction) :
    units? text = some n ↔
      whole ≠ [] ∧ (∀ c ∈ whole, c.isDigit = true) ∧ fraction.length ≤ places
        ∧ (∀ c ∈ fraction, c.isDigit = true)
        ∧ Digits.value (whole ++ fraction ++ List.replicate (places - fraction.length) '0')
          = n := by
  obtain ⟨rfl, rfl⟩ := h
  show (if _ then some _ else none) = some n ↔ _
  rw [Option.ite_none_right_eq_some, Option.some_inj]
  simp only [Bool.and_eq_true, Bool.not_eq_true', List.isEmpty_eq_false_iff, List.all_eq_true,
    decide_eq_true_eq, and_assoc]

/-- What a text spells in units is the number that it denotes. -/
theorem units?_eq_some_iff_denotes :
    units? text = some n ↔ ∃ q, Denotes text q ∧ q * 10 ^ 8 = n := by
  constructor
  · intro h
    obtain ⟨whole, fraction, hsplits, hparts⟩ := exists_splits text
    obtain ⟨hne, hwhole, hlength, hfraction, rfl⟩ := (units?_eq_some hsplits).1 h
    rcases hparts with ⟨rfl, rfl⟩ | rfl
    · exact ⟨_, .whole hne hwhole, (value_filled_nil text).symm⟩
    · exact ⟨_, .point hne hwhole hlength hfraction, (value_filled hlength).symm⟩
  · intro h
    obtain ⟨q, hdenotes, hq⟩ := h
    cases hdenotes with
    | whole nonempty isDigit =>
        refine (units?_eq_some (splits_digits isDigit)).2
          ⟨nonempty, isDigit, Nat.zero_le _, List.forall_mem_nil _, ?_⟩
        exact_mod_cast (value_filled_nil text).trans hq
    | point nonempty isDigit length_le isDigit' =>
        refine (units?_eq_some (splits_point isDigit)).2
          ⟨nonempty, isDigit, length_le, isDigit', ?_⟩
        exact_mod_cast (value_filled length_le).trans hq

end Reading

-- ====================================================================== amounts

section Parse

variable {text : String} {n : Nat}

private theorem le_largest_iff : n ≤ largest ↔ (n : ℚ) ≤ 2 ^ 63 - 1 := by
  have hlargest : ((largest : Nat) : ℚ) = 2 ^ 63 - 1 := by
    norm_num [largest]
  rw [← hlargest, Nat.cast_le]

/-- What is parsed is a number of units that is not too large. -/
private theorem parse_eq_ok {amount : Int64} :
    parse text = .ok amount ↔
      ∃ n, units? text.toList = some n ∧ n ≤ largest ∧ amount.toInt = n := by
  unfold parse
  cases units? text.toList with
  | none => exact ⟨fun h => (nomatch h), fun ⟨_, h, _⟩ => nomatch h⟩
  | some n =>
      dsimp only
      rw [Outcome.ite_eq_ok]
      constructor
      · intro h
        obtain ⟨hle, rfl⟩ : n ≤ largest ∧ Int64.ofNat n = amount := h.imp_right Except.ok.inj
        exact ⟨n, rfl, hle, Int64.toInt_ofNat_of_lt (Nat.lt_of_le_of_lt hle (by decide))⟩
      · rintro ⟨_, ⟨⟩, hle, hamount⟩
        refine ⟨hle, congrArg _ (Int64.toInt_inj.1 ?_)⟩
        rw [hamount, Int64.toInt_ofNat_of_lt (Nat.lt_of_le_of_lt hle (by decide))]

/-- A text that is not read is refused as a whole. -/
theorem parse_eq_error : parse text = .error ⟨text⟩ ↔ ∀ amount, parse text ≠ .ok amount := by
  unfold parse
  split
  · split
    · next n _ _ => exact ⟨fun h => (nomatch h), fun h => absurd rfl (h (Int64.ofNat n))⟩
    · exact ⟨fun _ _ h => (nomatch h), fun _ => rfl⟩
  · exact ⟨fun _ _ h => (nomatch h), fun _ => rfl⟩

/-- What is parsed is the number that the text denotes, counted in units of the eighth place. -/
private theorem parse_eq_ok_iff_denotes {amount : Int64} :
    parse text = .ok amount ↔
      ∃ q, Denotes text.toList q ∧ q * 10 ^ 8 ≤ 2 ^ 63 - 1 ∧ (amount.toInt : ℚ) = q * 10 ^ 8 := by
  rw [parse_eq_ok]
  constructor
  · rintro ⟨n, hunits, hle, hamount⟩
    obtain ⟨q, hdenotes, hq⟩ := units?_eq_some_iff_denotes.1 hunits
    refine ⟨q, hdenotes, hq ▸ le_largest_iff.1 hle, ?_⟩
    rw [hamount, hq, Int.cast_natCast]
  · rintro ⟨q, hdenotes, hle, hamount⟩
    obtain ⟨n, hq⟩ := hdenotes.exists_units
    refine ⟨n, units?_eq_some_iff_denotes.2 ⟨q, hdenotes, hq⟩, le_largest_iff.2 (hq ▸ hle), ?_⟩
    exact_mod_cast hamount.trans hq

/-- A text is read as the units of the number that it denotes, if it denotes one that is not
beyond the largest amount. Every other text is refused, and named in full. -/
theorem parse_exact (text : String) :
    (∀ amount, parse text = .ok amount ↔
        ∃ q, Denotes text.toList q ∧ q * 10 ^ 8 ≤ 2 ^ 63 - 1 ∧ (amount.toInt : ℚ) = q * 10 ^ 8)
      ∧ (parse text = .error ⟨text⟩ ↔
        ¬∃ q, Denotes text.toList q ∧ q * 10 ^ 8 ≤ 2 ^ 63 - 1) := by
  refine ⟨fun amount => parse_eq_ok_iff_denotes, parse_eq_error.trans ?_⟩
  constructor
  · rintro hnone ⟨q, hdenotes, hle⟩
    obtain ⟨n, hq⟩ := hdenotes.exists_units
    have hlargest : n ≤ largest := le_largest_iff.2 (hq ▸ hle)
    refine hnone (Int64.ofNat n) (parse_eq_ok.2
      ⟨n, units?_eq_some_iff_denotes.2 ⟨q, hdenotes, hq⟩, hlargest, ?_⟩)
    exact Int64.toInt_ofNat_of_lt (Nat.lt_of_le_of_lt hlargest (by decide))
  · intro hnone amount hparse
    obtain ⟨q, hdenotes, hle, -⟩ := parse_eq_ok_iff_denotes.1 hparse
    exact hnone ⟨q, hdenotes, hle⟩

/-- The largest amount, with zeros in front, and one unit more. -/
example :
    ((parse "000092233720368.54775807").toOption = some 9223372036854775807
      ∧ parse "92233720368.54775808" = .error ⟨"92233720368.54775808"⟩) := by
  decide

end Parse

end Amount

end MergedMining
