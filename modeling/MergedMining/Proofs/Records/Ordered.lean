/-
In which order records are answered.

Records that are asked for by a number come in ascending order of it, and those of one
number in the order in which they were added. Outputs come in the order of their
transactions, and names of transactions are compared byte by byte. Texts compare by their
characters, which is the same. In UTF-8 the first byte says how many follow, more if it is
higher, and the bytes hold the digits of the character's code; so of two characters that
take as many bytes the digits decide, and otherwise the first byte does.

Rows are put in order before it is read what they mean, so the order of rows has to be that
of the records.
-/
import MergedMining.Proofs.Hex
import MergedMining.Proofs.Outcome
import MergedMining.Store.Table

namespace MergedMining

-- ============================================================= bytes of a text

namespace Text

/-- The bytes of a text. -/
def bytes (text : String) : List UInt8 := text.toUTF8.toList

private theorem bytes_eq (text : String) :
    bytes text = text.toList.flatMap String.utf8EncodeChar := by
  have h := Hex.toList_toUTF8_ofList text.toList
  rwa [String.ofList_toList] at h

/-- The bytes behind the first, as many as there are: the lower digits of a code. -/
def trail (code : Nat) : Nat → List UInt8
  | 0 => []
  | rest + 1 => UInt8.ofNat (code / 64 ^ rest % 64 + 128) :: trail code rest

/-- What the first byte is that so many follow, but for the digits that it holds. -/
def lead : Nat → Nat
  | 0 => 0
  | 1 => 0xc0
  | 2 => 0xe0
  | _ => 0xf0

/-- The lowest code that takes so many bytes behind the first. -/
def least : Nat → Nat
  | 0 => 0
  | 1 => 0x80
  | 2 => 0x800
  | 3 => 0x10000
  | _ => 0x110000

/-- A character is encoded as a leading byte, which tells how many follow, and the trailing ones. -/
private theorem utf8EncodeChar_eq (c : Char) :
    ∃ rest ≤ 3, least rest ≤ c.toNat ∧ c.toNat < least (rest + 1)
      ∧ String.utf8EncodeChar c
        = UInt8.ofNat (lead rest + c.toNat / 64 ^ rest) :: trail c.toNat rest := by
  have hlast : c.toNat < 0x110000 := by
    have := c.valid
    simp only [UInt32.isValidChar, Nat.isValidChar] at this
    simp only [Char.toNat]
    omega
  unfold String.utf8EncodeChar
  rw [show c.val.toNat = c.toNat from rfl]
  generalize c.toNat = code at hlast
  dsimp only
  -- one case for each number of trailing bytes
  split
  · next hone =>
      have hfirst : lead 0 + code / 64 ^ 0 = code := by simp only [lead]; omega
      refine ⟨0, by decide, Nat.zero_le code, Nat.lt_succ_of_le hone, ?_⟩
      rw [hfirst, trail]
  · next hone =>
      split
      · next htwo =>
          have hfirst : lead 1 + code / 64 ^ 1 = code / 64 % 0x20 + 0xc0 := by
            simp only [lead]; omega
          refine ⟨1, by decide, Nat.lt_of_not_le hone, Nat.lt_succ_of_le htwo, ?_⟩
          rw [hfirst, trail, trail, Nat.pow_zero, Nat.div_one]
      · next htwo =>
          split
          · next hthree =>
              have hfirst : lead 2 + code / 64 ^ 2 = code / 4096 % 0x10 + 0xe0 := by
                simp only [lead]; omega
              refine ⟨2, by decide, Nat.lt_of_not_le htwo, Nat.lt_succ_of_le hthree, ?_⟩
              rw [hfirst, trail, trail, trail, Nat.pow_zero, Nat.div_one]
          · next hthree =>
              have hfirst : lead 3 + code / 64 ^ 3 = code / 262144 % 0x08 + 0xf0 := by
                simp only [lead]; omega
              refine ⟨3, by decide, Nat.lt_of_not_le hthree, hlast, ?_⟩
              rw [hfirst, trail, trail, trail, trail, Nat.pow_zero, Nat.div_one]

-- ========================================================= order of characters

/-- Of two codes with the same higher digits the lower one has the lower bytes. -/
theorem trail_lt {m n rest : Nat} (hhigher : m / 64 ^ rest = n / 64 ^ rest) (hlt : m < n)
    (ms ns : List UInt8) : trail m rest ++ ms < trail n rest ++ ns := by
  induction rest with
  | zero =>
      rw [Nat.pow_zero, Nat.div_one, Nat.div_one] at hhigher
      omega
  | succ rest ih =>
      have hle : m / 64 ^ rest ≤ n / 64 ^ rest := Nat.div_le_div_right (Nat.le_of_lt hlt)
      rw [Nat.pow_succ, ← Nat.div_div_eq_div_mul, ← Nat.div_div_eq_div_mul] at hhigher
      rw [trail, trail, List.cons_append, List.cons_append, List.cons_lt_cons_iff]
      rcases Nat.eq_or_lt_of_le hle with hdigit | hdigit
      · exact Or.inr ⟨by rw [hdigit], ih hdigit⟩
      · refine Or.inl ?_
        rw [UInt8.lt_iff_toNat_lt, UInt8.toNat_ofNat', UInt8.toNat_ofNat']
        omega

/-- The first byte is the higher, the more follow, and of those that as many follow the one
with the higher digits. -/
theorem first_lt {m n rest rest' : Nat} (hm : m < least (rest + 1)) (hn : n < least (rest' + 1))
    (hrest' : rest' ≤ 3) (h : rest < rest' ∨ rest = rest' ∧ m / 64 ^ rest < n / 64 ^ rest) :
    UInt8.ofNat (lead rest + m / 64 ^ rest) < UInt8.ofNat (lead rest' + n / 64 ^ rest') := by
  have hcases : (rest = 0 ∨ rest = 1 ∨ rest = 2 ∨ rest = 3)
      ∧ (rest' = 0 ∨ rest' = 1 ∨ rest' = 2 ∨ rest' = 3) := by omega
  rw [UInt8.lt_iff_toNat_lt, UInt8.toNat_ofNat', UInt8.toNat_ofNat']
  obtain ⟨rfl | rfl | rfl | rfl, rfl | rfl | rfl | rfl⟩ := hcases
  all_goals
    simp only [lead, least] at hm hn ⊢
    omega

/-- Of two characters the lower has the lower bytes, whatever follows. -/
theorem utf8EncodeChar_lt {c d : Char} (h : c < d) (cs ds : List UInt8) :
    String.utf8EncodeChar c ++ cs < String.utf8EncodeChar d ++ ds := by
  have hcode : c.toNat < d.toNat := h
  obtain ⟨rest, hrest, hc, hc', hbytes⟩ := utf8EncodeChar_eq c
  obtain ⟨rest', hrest', hd, hd', hbytes'⟩ := utf8EncodeChar_eq d
  have hle : rest ≤ rest' := by
    refine Nat.le_of_not_lt fun hlt => ?_
    have hmono : least (rest' + 1) ≤ least rest := by
      have hcases : rest = 1 ∨ rest = 2 ∨ rest = 3 := by omega
      have hcases' : rest' = 0 ∨ rest' = 1 ∨ rest' = 2 := by omega
      obtain rfl | rfl | rfl := hcases <;> obtain rfl | rfl | rfl := hcases' <;>
        simp only [least] <;> omega
    omega
  rw [hbytes, hbytes', List.cons_append, List.cons_append, List.cons_lt_cons_iff]
  rcases Nat.eq_or_lt_of_le hle with rfl | hlt
  · have hdigits : c.toNat / 64 ^ rest ≤ d.toNat / 64 ^ rest :=
      Nat.div_le_div_right (Nat.le_of_lt hcode)
    rcases Nat.eq_or_lt_of_le hdigits with hsame | hless
    · exact Or.inr ⟨by rw [hsame], trail_lt hsame hcode cs ds⟩
    · exact Or.inl (first_lt hc' hd' hrest' (Or.inr ⟨rfl, hless⟩))
  · exact Or.inl (first_lt hc' hd' hrest' (Or.inl hlt))

/-- What stands in front of two lists does not change their order. -/
private theorem append_lt_append_left (front : List UInt8) {xs ys : List UInt8} (h : xs < ys) :
    front ++ xs < front ++ ys := by
  induction front with
  | nil => exact h
  | cons byte front ih =>
      rw [List.cons_append, List.cons_append, List.cons_lt_cons_iff]
      exact Or.inr ⟨rfl, ih⟩

/-- Encoding keeps the order of texts. -/
private theorem flatMap_utf8EncodeChar_lt {cs ds : List Char} (h : cs < ds) :
    cs.flatMap String.utf8EncodeChar < ds.flatMap String.utf8EncodeChar := by
  induction h with
  | @nil d ds =>
      obtain ⟨rest, -, -, -, hbytes⟩ := utf8EncodeChar_eq d
      rw [List.flatMap_cons, hbytes]
      exact List.nil_lt_cons _ _
  | rel h =>
      rw [List.flatMap_cons, List.flatMap_cons]
      exact utf8EncodeChar_lt h _ _
  | cons h ih =>
      rw [List.flatMap_cons, List.flatMap_cons]
      exact append_lt_append_left _ ih

/-- Texts are in the order of their bytes. -/
theorem bytes_lt_bytes_iff {a b : String} : bytes a < bytes b ↔ a < b := by
  rw [bytes_eq, bytes_eq]
  constructor
  · intro h
    refine Decidable.byContradiction fun hnot => ?_
    have hle : b ≤ a := String.not_lt.1 hnot
    by_cases hsame : a ≤ b
    · rw [String.le_antisymm hsame hle] at h
      exact List.lt_irrefl _ h
    · exact List.lt_asymm h (flatMap_utf8EncodeChar_lt (String.not_le.1 hsame))
  · exact flatMap_utf8EncodeChar_lt

end Text

-- ============================================================ ascending order

namespace Store

variable {ρ τ : Type}

/-- The same records in ascending order of a number, those of one number in the order in which
they were. -/
structure Ascending (number : ρ → Nat) (records sorted : List ρ) : Prop where
  ascending : sorted.Pairwise fun a b => number a ≤ number b
  inOrder : ∀ n, sorted.filter (number · = n) = records.filter (number · = n)

/-- A sorted listing has the records that it was made of. -/
theorem Ascending.mem_iff {number : ρ → Nat} {records sorted : List ρ}
    (h : Ascending number records sorted) {r : ρ} : r ∈ sorted ↔ r ∈ records := by
  have hsame := h.inOrder (number r)
  constructor
  · intro hmem
    have hfilter : r ∈ sorted.filter (number · = number r) :=
      List.mem_filter.2 ⟨hmem, decide_eq_true rfl⟩
    rw [hsame] at hfilter
    exact (List.mem_filter.1 hfilter).1
  · intro hmem
    have hfilter : r ∈ records.filter (number · = number r) :=
      List.mem_filter.2 ⟨hmem, decide_eq_true rfl⟩
    rw [← hsame] at hfilter
    exact (List.mem_filter.1 hfilter).1

private theorem byNumber_trans (number : ρ → Nat) (a b c : ρ)
    (hab : decide (number a ≤ number b) = true) (hbc : decide (number b ≤ number c) = true) :
    decide (number a ≤ number c) = true :=
  decide_eq_true (Nat.le_trans (of_decide_eq_true hab) (of_decide_eq_true hbc))

private theorem byNumber_total (number : ρ → Nat) (a b : ρ) :
    (decide (number a ≤ number b) || decide (number b ≤ number a)) = true := by
  rw [Bool.or_eq_true, decide_eq_true_iff, decide_eq_true_iff]
  exact Nat.le_total _ _

/-- Sorting by a number leaves those of one number in their order. -/
theorem ascending_mergeSort (number : ρ → Nat) (records : List ρ) :
    Ascending number records (records.mergeSort (number · ≤ number ·)) where
  ascending :=
    (List.pairwise_mergeSort (byNumber_trans number) (byNumber_total number) records).imp
      of_decide_eq_true
  inOrder n := by
    let le := fun a b => decide (number a ≤ number b)
    let same := records.filter (number · = n)
    have hperm := (List.mergeSort_perm records le).filter (number · = n)
    have hsame : same.Pairwise fun a b => le a b = true := by
      refine List.pairwise_of_forall_mem_list fun a ha b hb => decide_eq_true ?_
      have hna := of_decide_eq_true (List.mem_filter.1 ha).2
      have hnb := of_decide_eq_true (List.mem_filter.1 hb).2
      omega
    have hsub : same.Sublist (records.mergeSort le) :=
      List.sublist_mergeSort (byNumber_trans number) (byNumber_total number) hsame
        List.filter_sublist
    have hfilter := hsub.filter (number · = n)
    rw [List.filter_filter] at hfilter
    simp only [Bool.and_self] at hfilter
    exact (hfilter.eq_of_length hperm.length_eq.symm).symm

-- =============================================================== reading rows

variable {ε : Type} {row : ρ → τ} {read : τ → Except ε ρ}

/-- Rows that mean records are read as these. -/
theorem mapM_row (hread : ∀ r, read (row r) = .ok r) (records : List ρ) :
    (records.map row).mapM read = .ok records := by
  induction records with
  | nil => rfl
  | cons r records ih =>
      rw [List.map_cons, List.mapM_cons, hread, ih]
      rfl

/-- Rows are put in order as the records are that they mean. -/
theorem sorted_map (before : τ → τ → Bool) (row : ρ → τ) (records : List ρ) :
    Table.sorted before (records.map row)
      = (records.mergeSort fun a b => before (row a) (row b)).map row := by
  have hsame : ∀ a ∈ records, ∀ b ∈ records,
      (fun a b => before (row a) (row b)) a b = before (row a) (row b) := fun _ _ _ _ => rfl
  exact (List.map_mergeSort hsame).symm

/-- Rows of a kind are read in order as the records that they mean. -/
theorem mapM_sorted (hread : ∀ r, read (row r) = .ok r) (before : τ → τ → Bool)
    (kind : τ → Bool) (records : List ρ) :
    (Table.sorted before ((records.map row).filter kind)).mapM read
      = .ok ((records.filter fun r => kind (row r)).mergeSort
          fun a b => before (row a) (row b)) := by
  rw [List.filter_map, sorted_map, mapM_row hread]
  rfl

end Store

end MergedMining
