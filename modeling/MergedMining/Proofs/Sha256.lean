/-
The hash, computed on plain numbers with a schedule that slides.

A block's schedule is written down in full before the rounds begin. But each round reads one
word of it, in order, and each word behind the block is mixed from the sixteen before it. So
sixteen words are enough that slide along with the rounds. What they show at each step is the
schedule's next word, by the recurrence alone, and both computations come to one hash.

The second one never writes into the middle of a vector, and it computes with the numbers that
the words are, which has no bound to carry along. The digests of concrete messages are evaluated
with it. Each operation on words is one on numbers, so the steps of the two agree one by one.
-/
import Mathlib.Tactic.IntervalCases
import MergedMining.Digest

namespace MergedMining.Sha256

-- ========================================================== words as numbers

-- These two are met at every turn of an evaluation. They name the functions that the kernel
-- has built in, so that it need not look through a notation first.

/-- The sum of two words, as numbers. -/
def plus (a b : Nat) : Nat := Nat.mod (Nat.add a b) 4294967296

/-- A word turned right by `k` places, as a number. -/
def turned (x k : Nat) : Nat :=
  Nat.lor (Nat.shiftRight x k) (Nat.mod (Nat.shiftLeft x (Nat.sub 32 k)) 4294967296)

private theorem toNat_plus (a b : UInt32) : (a + b).toNat = plus a.toNat b.toNat :=
  UInt32.toNat_add a b

/-- A word is turned as its number is, by fewer places than it has. -/
private theorem toNat_turn (x : UInt32) {k : UInt32} (hpos : 0 < k.toNat) (hlt : k.toNat < 32) :
    (turn x k).toNat = turned x.toNat k.toNat := by
  have hleft : (32 - k).toNat = 32 - k.toNat := UInt32.toNat_sub_of_le _ _ (Nat.le_of_lt hlt)
  have hwithin : 32 - k.toNat < 32 := Nat.sub_lt (by decide) hpos
  rw [turn, UInt32.toNat_or, UInt32.toNat_shiftRight, UInt32.toNat_shiftLeft, hleft,
    Nat.mod_eq_of_lt hlt, Nat.mod_eq_of_lt hwithin]
  rfl

-- ====================================================== words and their bytes

/-- A byte that is shifted into its place in a word, as a number. -/
private theorem toNat_placed (b : UInt8) {k : UInt32} (hk : k.toNat ≤ 24) :
    (b.toUInt32 <<< k).toNat = b.toNat * 2 ^ k.toNat := by
  have hfits : b.toNat * 2 ^ k.toNat < 2 ^ 8 * 2 ^ 24 :=
    Nat.mul_lt_mul_of_lt_of_le b.toNat_lt (Nat.pow_le_pow_right (by decide) hk) (by decide)
  rw [UInt32.toNat_shiftLeft, UInt8.toNat_toUInt32, Nat.mod_eq_of_lt (by omega : k.toNat < 32),
    Nat.shiftLeft_eq, Nat.mod_eq_of_lt hfits]

/-- What is below a place in a word is added to what stands there. -/
private theorem or_eq_add {a b : Nat} (k : Nat) (ha : 2 ^ k ∣ a) (hb : b < 2 ^ k) :
    a ||| b = a + b := by
  obtain ⟨high, rfl⟩ := ha
  rw [Nat.mul_comm, ← Nat.shiftLeft_eq, Nat.shiftLeft_add_eq_or_of_lt hb]

/-- The number of a big-endian word. -/
private theorem toNat_word (b₀ b₁ b₂ b₃ : UInt8) :
    (b₀.toUInt32 <<< 24 ||| b₁.toUInt32 <<< 16 ||| b₂.toUInt32 <<< 8 ||| b₃.toUInt32).toNat
      = b₀.toNat * 2 ^ 24 + b₁.toNat * 2 ^ 16 + b₂.toNat * 2 ^ 8 + b₃.toNat := by
  have h₁ := b₁.toNat_lt
  have h₂ := b₂.toNat_lt
  have h₃ := b₃.toNat_lt
  have htwo : b₀.toNat * 2 ^ 24 ||| b₁.toNat * 2 ^ 16 = b₀.toNat * 2 ^ 24 + b₁.toNat * 2 ^ 16 :=
    or_eq_add 24 (by omega) (by omega)
  have hthree : b₀.toNat * 2 ^ 24 + b₁.toNat * 2 ^ 16 ||| b₂.toNat * 2 ^ 8
      = b₀.toNat * 2 ^ 24 + b₁.toNat * 2 ^ 16 + b₂.toNat * 2 ^ 8 :=
    or_eq_add 16 (by omega) (by omega)
  simp (disch := decide) only [UInt32.toNat_or, toNat_placed, UInt8.toNat_toUInt32]
  show b₀.toNat * 2 ^ 24 ||| b₁.toNat * 2 ^ 16 ||| b₂.toNat * 2 ^ 8 ||| b₃.toNat = _
  rw [htwo, hthree, or_eq_add 8 (by omega) (by omega)]

/-- The big-endian words of a byte string, as numbers. -/
def wordNumbers : Bytes → List Nat
  | b₀ :: b₁ :: b₂ :: b₃ :: rest =>
      (b₀.toNat * 16777216 + b₁.toNat * 65536 + b₂.toNat * 256 + b₃.toNat) :: wordNumbers rest
  | _ => []

/-- Bytes are cut into words as into numbers. -/
private theorem words_eq (bytes : Bytes) :
    words bytes = (wordNumbers bytes).map UInt32.ofNat := by
  fun_induction words bytes with
  | case1 b₀ b₁ b₂ b₃ rest ih =>
      rw [wordNumbers, List.map_cons, ← ih, ← toNat_word, UInt32.ofNat_toNat]
  | case2 bytes hshort => rw [wordNumbers, List.map_nil]; exact hshort

/-- The four big-endian bytes of a number. -/
def numberBytes (n : Nat) : Bytes :=
  [.ofNat (n / 16777216), .ofNat (n / 65536), .ofNat (n / 256), .ofNat n]

/-- A word has the bytes of its number. -/
private theorem wordBytes_eq (w : UInt32) : wordBytes w = numberBytes w.toNat := by
  have hbyte (k : UInt32) (hk : k.toNat < 32) :
      (w >>> k).toUInt8 = UInt8.ofNat (w.toNat / 2 ^ k.toNat) := by
    apply UInt8.toNat_inj.1
    rw [UInt32.toNat_toUInt8, UInt32.toNat_shiftRight, UInt8.toNat_ofNat', Nat.mod_eq_of_lt hk,
      Nat.shiftRight_eq_div_pow]
  have hlast : w.toUInt8 = UInt8.ofNat w.toNat := by
    apply UInt8.toNat_inj.1
    rw [UInt32.toNat_toUInt8, UInt8.toNat_ofNat']
  rw [wordBytes, hbyte 24 (by decide), hbyte 16 (by decide), hbyte 8 (by decide), hlast]
  rfl

-- =============================================================== the window

/-- Sixteen consecutive words of a schedule, as numbers. -/
structure Window where
  w₀ : Nat
  w₁ : Nat
  w₂ : Nat
  w₃ : Nat
  w₄ : Nat
  w₅ : Nat
  w₆ : Nat
  w₇ : Nat
  w₈ : Nat
  w₉ : Nat
  w₁₀ : Nat
  w₁₁ : Nat
  w₁₂ : Nat
  w₁₃ : Nat
  w₁₄ : Nat
  w₁₅ : Nat

/-- The word that follows those of which these four are the first, the second, the tenth and
the fifteenth. -/
def mixed (a b c d : Nat) : Nat :=
  let s₀ := turned b 7 ^^^ turned b 18 ^^^ (b >>> 3)
  let s₁ := turned d 17 ^^^ turned d 19 ^^^ (d >>> 10)
  plus (plus (plus a s₀) c) s₁

/-- Words are mixed as their numbers are. -/
private theorem toNat_mixed (a b c d : UInt32) :
    (a + (turn b 7 ^^^ turn b 18 ^^^ (b >>> 3)) + c
        + (turn d 17 ^^^ turn d 19 ^^^ (d >>> 10))).toNat
      = mixed a.toNat b.toNat c.toNat d.toNat := by
  simp (disch := decide) only [toNat_plus, UInt32.toNat_xor, toNat_turn, UInt32.toNat_shiftRight]
  rfl

namespace Window

/-- The words of a block, with which its schedule begins. -/
def ofBlock (block : Vector UInt32 16) : Window :=
  ⟨block[0].toNat, block[1].toNat, block[2].toNat, block[3].toNat, block[4].toNat,
    block[5].toNat, block[6].toNat, block[7].toNat, block[8].toNat, block[9].toNat,
    block[10].toNat, block[11].toNat, block[12].toNat, block[13].toNat, block[14].toNat,
    block[15].toNat⟩

/-- The window one word further on. -/
def next (w : Window) : Window :=
  ⟨w.w₁, w.w₂, w.w₃, w.w₄, w.w₅, w.w₆, w.w₇, w.w₈, w.w₉, w.w₁₀, w.w₁₁, w.w₁₂, w.w₁₃, w.w₁₄,
    w.w₁₅, mixed w.w₀ w.w₁ w.w₉ w.w₁₄⟩

/-- The word that stands first when the window has moved on this far. -/
def word : Window → Nat → Nat
  | w, 0 => w.w₀
  | w, i + 1 => w.next.word i

/-- Words are mixed from the ones before them. -/
theorem word_add_sixteen (w : Window) (i : Nat) :
    w.word (i + 16) = mixed (w.word i) (w.word (i + 1)) (w.word (i + 9)) (w.word (i + 14)) := by
  induction i generalizing w with
  | zero => rfl
  | succ i ih => exact ih w.next

/-- The first sixteen words are the block. -/
theorem word_ofBlock (block : Vector UInt32 16) {i : Nat} (h : i < 16) :
    (ofBlock block).word i = block[i].toNat := by
  interval_cases i <;> rfl

end Window

-- ============================================================== the schedule

/-- Writes one more word behind those that a schedule has already. -/
private def extend (w : Vector UInt32 64) (i : Nat) (h : i < 48) : Vector UInt32 64 :=
  w.set (i + 16) (w[i] + (turn w[i + 1] 7 ^^^ turn w[i + 1] 18 ^^^ (w[i + 1] >>> 3)) + w[i + 9]
    + (turn w[i + 14] 17 ^^^ turn w[i + 14] 19 ^^^ (w[i + 14] >>> 10)))

/-- The words that are written so far are those that the window shows. -/
private theorem getElem_foldl_extend (block : Vector UInt32 16) {n : Nat} (hn : n ≤ 48)
    {i : Nat} (hi : i < 16 + n) :
    ((Fin.foldl n (fun w (j : Fin n) => extend w j (by omega))
        (block ++ Vector.replicate 48 (0 : UInt32)))[i]).toNat
      = (Window.ofBlock block).word i := by
  induction n generalizing i with
  | zero =>
      rw [Fin.foldl_zero, Window.word_ofBlock block hi, Vector.getElem_append_left hi]
  | succ n ih =>
      simp only [Fin.foldl_succ_last]
      show ((extend (Fin.foldl n (fun w (j : Fin n) => extend w j _) _) n _)[i]).toNat = _
      rw [extend]
      by_cases hlast : i = n + 16
      · subst hlast
        rw [Vector.getElem_set_self, toNat_mixed, Window.word_add_sixteen]
        rw [ih (by omega) (by omega), ih (by omega) (by omega), ih (by omega) (by omega),
          ih (by omega) (by omega)]
      · rw [Vector.getElem_set_ne _ _ (by omega)]
        exact ih (by omega) (by omega)

/-- A schedule is what a window over its block shows as it moves on. -/
theorem getElem_schedule (block : Vector UInt32 16) {i : Nat} (h : i < 64) :
    ((schedule block)[i]).toNat = (Window.ofBlock block).word i :=
  getElem_foldl_extend block (Nat.le_refl 48) h

-- ================================================================ the rounds

/-- The eight words of a state, as numbers. -/
structure Numbers where
  a : Nat
  b : Nat
  c : Nat
  d : Nat
  e : Nat
  f : Nat
  g : Nat
  h : Nat

/-- The numbers that the words of a state are. -/
def State.numbers (s : State) : Numbers :=
  ⟨s.a.toNat, s.b.toNat, s.c.toNat, s.d.toNat, s.e.toNat, s.f.toNat, s.g.toNat, s.h.toNat⟩

namespace Numbers

/-- One round, on numbers. -/
def round (s : Numbers) (kw : Nat) : Numbers :=
  let s₁ := turned s.e 6 ^^^ turned s.e 11 ^^^ turned s.e 25
  let choice := (s.e &&& s.f) ^^^ ((2 ^ 32 - 1 - s.e) &&& s.g)
  let t₁ := plus (plus (plus s.h s₁) choice) kw
  let s₀ := turned s.a 2 ^^^ turned s.a 13 ^^^ turned s.a 22
  let majority := (s.a &&& s.b) ^^^ (s.a &&& s.c) ^^^ (s.b &&& s.c)
  ⟨plus t₁ (plus s₀ majority), s.a, s.b, s.c, plus s.d t₁, s.e, s.f, s.g⟩

/-- One round for each constant, with a window that moves on. -/
def rounds : List UInt32 → Numbers → Window → Numbers
  | [], s, _ => s
  | k :: ks, s, w => rounds ks (s.round (plus k.toNat w.w₀)) w.next

/-- The numbers after one more block, which a window moves over. -/
def take (s : Numbers) (w : Window) : Numbers :=
  let t := rounds roundConstants.toList s w
  ⟨plus s.a t.a, plus s.b t.b, plus s.c t.c, plus s.d t.d, plus s.e t.e, plus s.f t.f,
    plus s.g t.g, plus s.h t.h⟩

/-- The numbers after all whole blocks, each of which a window moves over. -/
def takeAll (s : Numbers) : List UInt32 → Numbers
  | w₀ :: w₁ :: w₂ :: w₃ :: w₄ :: w₅ :: w₆ :: w₇ :: w₈ :: w₉ :: w₁₀ :: w₁₁ :: w₁₂ :: w₁₃
      :: w₁₄ :: w₁₅ :: rest =>
      (s.take ⟨w₀.toNat, w₁.toNat, w₂.toNat, w₃.toNat, w₄.toNat, w₅.toNat, w₆.toNat, w₇.toNat,
        w₈.toNat, w₉.toNat, w₁₀.toNat, w₁₁.toNat, w₁₂.toNat, w₁₃.toNat, w₁₄.toNat,
        w₁₅.toNat⟩).takeAll rest
  | _ => s

/-- The bytes of a state, by the numbers of its words. -/
def bytes (s : Numbers) : Bytes :=
  numberBytes s.a ++ numberBytes s.b ++ numberBytes s.c ++ numberBytes s.d
    ++ numberBytes s.e ++ numberBytes s.f ++ numberBytes s.g ++ numberBytes s.h

end Numbers

namespace State

private theorem bytes_numbers (s : State) : s.numbers.bytes = s.bytes := by
  simp only [numbers, Numbers.bytes, bytes, wordBytes_eq]

/-- A round does to the words what it does to their numbers. -/
private theorem numbers_round (s : State) (kw : UInt32) :
    (s.round kw).numbers = s.numbers.round kw.toNat := by
  simp (disch := decide) only [numbers, round, Numbers.round, toNat_plus, UInt32.toNat_xor,
    UInt32.toNat_and, UInt32.toNat_not, toNat_turn]
  rfl

/-- Rounds agree if their words do. -/
private theorem numbers_foldl {n : Nat} (k f : Fin n → UInt32) (s : State) {w : Window}
    (hword : ∀ i, (f i).toNat = w.word i) :
    (Fin.foldl n (fun t i => t.round (k i + f i)) s).numbers
      = s.numbers.rounds (List.ofFn k) w := by
  induction n generalizing s w with
  | zero => simp [Numbers.rounds]
  | succ n ih =>
      have hfirst : (f 0).toNat = w.w₀ := hword 0
      rw [Fin.foldl_succ, ih (fun i => k i.succ) (fun i => f i.succ) _ (w := w.next)
        fun i => hword i.succ]
      rw [List.ofFn_succ, Numbers.rounds, numbers_round, toNat_plus, hfirst]

/-- A block is absorbed as a window over it is taken. -/
private theorem numbers_absorb (s : State) (block : Vector UInt32 16) :
    (s.absorb block).numbers = s.numbers.take (Window.ofBlock block) := by
  have hconstants : roundConstants.toList = List.ofFn fun i : Fin 64 => roundConstants[i] := rfl
  have hrounds := numbers_foldl (fun i : Fin 64 => roundConstants[i])
    (fun i => (schedule block)[i]) s fun i => getElem_schedule block i.isLt
  rw [Numbers.take, hconstants, ← hrounds]
  simp only [absorb, numbers, toNat_plus]

/-- Blocks are absorbed as windows over them are taken. -/
private theorem numbers_absorbAll (s : State) (words : List UInt32) :
    (s.absorbAll words).numbers = s.numbers.takeAll words := by
  fun_induction s.absorbAll words with
  | case1 s w₀ w₁ w₂ w₃ w₄ w₅ w₆ w₇ w₈ w₉ w₁₀ w₁₁ w₁₂ w₁₃ w₁₄ w₁₅ rest ih =>
      rw [Numbers.takeAll, ih, numbers_absorb]
      rfl
  | case2 s words hshort => rw [Numbers.takeAll]; exact hshort

end State

/-- The hash of a message, by windows of numbers. -/
def slidingHash (message : Bytes) : Octets 32 :=
  ⟨(start.numbers.takeAll ((wordNumbers (padded message)).map .ofNat)).bytes, rfl⟩

/-- Both ways come to one hash. -/
theorem hash_eq_slidingHash (message : Bytes) : hash message = slidingHash message := by
  apply Octets.ext
  show (start.absorbAll _).bytes = (start.numbers.takeAll _).bytes
  rw [← State.bytes_numbers, State.numbers_absorbAll, words_eq]

end MergedMining.Sha256

namespace MergedMining.Digest

open Sha256

/-- The name of a message, to be evaluated. -/
theorem ofBytes_eq_sliding (message : Bytes) :
    ofBytes message = slidingHash (slidingHash message).bytes := by
  rw [ofBytes, hash_eq_slidingHash, hash_eq_slidingHash]

/-- The name of a tree node, computed by windows. -/
def slidingPair (left right : Digest) : Digest :=
  slidingHash (slidingHash (left.bytes ++ right.bytes)).bytes

/-- The name of a tree node, to be evaluated. -/
theorem pair_eq_sliding (left right : Digest) : pair left right = slidingPair left right :=
  ofBytes_eq_sliding _

end MergedMining.Digest
