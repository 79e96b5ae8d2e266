/-
A node's answer with a block in hexadecimal text is understood.

Such a text is plain: it holds no quote, no backslash and nothing that is not seen. So a reader
of JSON takes it character by character up to the quote behind it, and the codes that it
collects spell the same text again. The bytes that are had from it are those that it was written
for.
-/
import MergedMining.Node.Client
import MergedMining.Proofs.Hex
import MergedMining.Proofs.Outcome

namespace MergedMining

namespace Json

/-- A character that stands for itself within quotes, and is no half of a pair. -/
def Plain (c : Char) : Prop := c ≠ '"' ∧ c ≠ '\\' ∧ 0x20 ≤ c.toNat ∧ c.toNat < 0xd800

instance (c : Char) : Decidable (Plain c) := inferInstanceAs (Decidable (_ ∧ _ ∧ _ ∧ _))

variable {chars : List Char}

/-- Characters outside the surrogates are joined back from their numbers as they are. -/
private theorem joinPairs_toNat (h : ∀ c ∈ chars, Plain c) :
    joinPairs (chars.map Char.toNat) = some chars := by
  induction chars with
  | nil => rfl
  | cons c chars ih =>
      obtain ⟨⟨-, -, -, hc⟩, hchars⟩ := List.forall_mem_cons.1 h
      have hhigh : isHigh c.toNat = false := by simp [isHigh]; omega
      have hlow : isLow c.toNat = false := by simp [isLow]; omega
      have hrest := ih hchars
      cases chars with
      | nil => simp [joinPairs, hhigh, hlow]
      | cons d chars =>
          rw [List.map_cons, List.map_cons, joinPairs, hhigh, hlow, ← List.map_cons, hrest]
          simp

/-- Within quotes plain characters are collected as they stand. -/
theorem foldlM_step_plain (h : ∀ c ∈ chars, Plain c) (codes : List Nat) (tokens : List Token) :
    chars.foldlM Scanner.step ⟨.string codes, tokens⟩
      = some ⟨.string ((chars.map Char.toNat).reverse ++ codes), tokens⟩ := by
  induction chars generalizing codes with
  | nil => rfl
  | cons c chars ih =>
      obtain ⟨⟨hquote, hslash, hseen, -⟩, hchars⟩ := List.forall_mem_cons.1 h
      have hstep : Scanner.step ⟨.string codes, tokens⟩ c
          = some ⟨.string (c.toNat :: codes), tokens⟩ := by
        show (if _ then _ else _) = _
        rw [if_neg hquote, if_neg hslash, if_neg (Nat.not_lt.2 hseen)]
      rw [List.foldlM_cons, hstep, Option.bind_eq_bind, Option.bind_some, ih hchars, List.map_cons,
        List.reverse_cons, List.append_assoc, List.singleton_append]

/-- An envelope with a plain text for its result and no error, as a list. -/
def envelope (chars : List Char) : String :=
  String.ofList (['[', '"'] ++ chars ++ ['"', ',', 'n', 'u', 'l', 'l', ']'])

/-- An envelope around a plain text is read as five tokens. -/
private theorem tokens_envelope (h : ∀ c ∈ chars, Plain c) :
    Token.ofText? (envelope chars) = some
      [.arrayStart, .scalar (.text (String.ofList chars)), .comma, .scalar .null, .arrayEnd] := by
  have hopened : ['[', '"'].foldlM Scanner.step .start = some ⟨.string [], [.arrayStart]⟩ := rfl
  have hclosed : ['"', ',', 'n', 'u', 'l', 'l', ']'].foldlM Scanner.step
        ⟨.string (chars.map Char.toNat).reverse, [.arrayStart]⟩
      = some ⟨.between, [.arrayEnd, .scalar .null, .comma,
          .scalar (.string (String.ofList <$> joinPairs (chars.map Char.toNat).reverse.reverse)),
          .arrayStart]⟩ := rfl
  unfold Token.ofText? envelope
  simp only [String.toList_ofList, List.foldlM_append, hopened, Option.bind_eq_bind,
    Option.bind_some, foldlM_step_plain h, List.append_nil, hclosed]
  rw [List.reverse_reverse, joinPairs_toNat h]
  rfl

/-- An envelope around a plain text is the document that has this text in its array. -/
private theorem parse?_envelope (h : ∀ c ∈ chars, Plain c) :
    JsonValue.parse? (envelope chars)
      = some (.array [.text (String.ofList chars), .null]) := by
  unfold JsonValue.parse?
  rw [tokens_envelope h]
  rfl

end Json

namespace Node

private theorem plain_digit {half : UInt8} (h : half < 16) : Json.Plain (Hex.digit half) := by
  have hall : ∀ n : Fin 16, Json.Plain (Hex.digit (.ofNat n)) := by decide
  have hhalf := hall ⟨half.toNat, UInt8.lt_iff_toNat_lt.1 h⟩
  rwa [UInt8.ofNat_toNat] at hhalf

/-- Neither of the two digits of a byte needs an escape. -/
private theorem plain_digits (byte : UInt8) : ∀ c ∈ Hex.digits byte, Json.Plain c := by
  have hhigh : byte >>> 4 < 16 := by
    have hbyte := byte.toNat_lt
    rw [UInt8.lt_iff_toNat_lt, UInt8.toNat_shiftRight]
    show byte.toNat >>> 4 < 16
    rw [Nat.shiftRight_eq_div_pow]
    omega
  have hlow : byte &&& 15 < 16 := by
    rw [UInt8.lt_iff_toNat_lt, UInt8.toNat_and]
    exact Nat.lt_succ_of_le Nat.and_le_right
  intro c hc
  rcases List.mem_cons.1 hc with rfl | hc
  · exact plain_digit hhigh
  · rw [List.mem_singleton.1 hc]
    exact plain_digit hlow

/-- The reply with a block that was asked for. -/
def blockReply (raw : Bytes) : Reply := ⟨200, Json.envelope (raw.flatMap Hex.digits)⟩

/-- The result in the reply for a block is the block in hexadecimal. -/
private theorem resultOf_blockReply (method : String) (raw : Bytes) :
    resultOf method (blockReply raw) = .ok (Hex.encode raw) := by
  have hplain : ∀ c ∈ raw.flatMap Hex.digits, Json.Plain c := by
    intro c hc
    obtain ⟨byte, -, hc⟩ := List.mem_flatMap.1 hc
    exact plain_digits byte c hc
  unfold resultOf blockReply
  dsimp only
  rw [Json.parse?_envelope hplain]
  rfl

section Run

variable {σ α : Type} [JsonForm α] {t : Transport (StateM σ)} {world between : σ} {method : String}
  {params : List (String × JsonValue)} {reply : Reply}

/-- A reply is had as its result. -/
theorem run_call (hpost : (t.post (request method params)).run world = (.ok reply, between)) :
    (call t method params : ExceptT Error (StateM σ) α).run.run world
      = (resultOf method reply, between) := by
  unfold call
  rw [Outcome.run_bind]
  have hlift : (liftM (t.post (request method params)) :
      ExceptT Error (StateM σ) _).run.run world = (.ok (.ok reply), between) := by
    show (Except.ok ((t.post (request method params)).run world).1,
      ((t.post (request method params)).run world).2) = _
    rw [hpost]
  rw [hlift]
  dsimp only
  generalize (resultOf method reply : Except Error α) = outcome
  cases outcome with
  | ok a => rfl
  | error cause => rfl

end Run

/-- A block that a node replies with is had as it is. -/
theorem run_rawBlock {σ : Type} {t : Transport (StateM σ)} {world between : σ} {hash : String}
    {raw : Bytes}
    (hpost : (t.post (request "getblock"
        [("blockhash", .text hash), ("verbosity", .integer 0)])).run world
      = (.ok (blockReply raw), between)) :
    (rawBlock t hash).run.run world = (.ok raw, between) := by
  have hcall : (call t "getblock" [("blockhash", .text hash), ("verbosity", .integer 0)] :
      ExceptT Error (StateM σ) String).run.run world = (.ok (Hex.encode raw), between) := by
    rw [run_call hpost, resultOf_blockReply]
  unfold rawBlock
  rw [Outcome.run_bind, hcall]
  dsimp only
  rw [Hex.decode_encode]
  rfl

end Node

end MergedMining
