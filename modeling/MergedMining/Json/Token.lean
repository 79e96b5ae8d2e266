/-
The tokens of a JSON text.

A small machine takes the text one character at a time. Its state is what the
last characters began: nothing, a word, or a string, perhaps in the middle of an
escape. A word goes up to the next blank, quote or bracket and is then a number,
`null`, `true` or `false`, or nothing at all. Strings are collected as codes,
and surrogates are joined when the string ends: only then is it known whether
they pair up.
-/
import MergedMining.Digits
import MergedMining.Json.Value

namespace MergedMining.Json

-- ================================================================ numbers

/-- The digits in front of the point, and what follows them. A zero stands alone. -/
def whole? : List Char → Option (List Char × List Char)
  | '0' :: rest => some (['0'], rest)
  | cs =>
      match cs.span Char.isDigit with
      | ([], _) => none
      | digits => some digits

/-- What follows digits of which there is one at least. -/
def pastDigits? (cs : List Char) : Option (List Char) :=
  match cs.span Char.isDigit with
  | ([], _) => none
  | (_, rest) => some rest

/-- What follows a fraction, if there is one. -/
def pastFraction? : List Char → Option (List Char)
  | '.' :: rest => pastDigits? rest
  | cs => some cs

/-- What follows an exponent, if there is one. -/
def pastExponent? : List Char → Option (List Char)
  | 'e' :: rest | 'E' :: rest =>
      match rest with
      | '+' :: rest => pastDigits? rest
      | '-' :: rest => pastDigits? rest
      | _ => pastDigits? rest
  | cs => some cs

/-- The number that a word spells, if it spells one. -/
def numberOf? (word : List Char) : Option JsonValue := do
  let (negative, unsigned) :=
    match word with
    | '-' :: rest => (true, rest)
    | _ => (false, word)
  let (digits, rest) ← whole? unsigned
  let [] ← pastExponent? (← pastFraction? rest) | none
  if rest.isEmpty && !(negative && digits = ['0']) then
    let n : Int := Digits.value digits
    return .integer (if negative then -n else n)
  else return .decimal (String.ofList word)

/-- The value that a word spells: one of the three names, or a number. -/
def wordOf? (word : List Char) : Option JsonValue :=
  match String.ofList word with
  | "null" => some .null
  | "true" => some (.bool true)
  | "false" => some (.bool false)
  | _ => numberOf? word

-- ================================================================ strings

/-- Whether a code is the first half of a surrogate pair. -/
def isHigh (code : Nat) : Bool := 0xd800 ≤ code && code < 0xdc00

/-- Whether a code is the second half of a surrogate pair. -/
def isLow (code : Nat) : Bool := 0xdc00 ≤ code && code < 0xe000

/-- The characters that codes spell, if no half of a pair stands alone. -/
def joinPairs : List Nat → Option (List Char)
  | [] => some []
  | [code] => if isHigh code || isLow code then none else some [Char.ofNat code]
  | code :: next :: rest =>
      if isHigh code && isLow next then
        (Char.ofNat (0x10000 + (code - 0xd800) * 0x400 + (next - 0xdc00)) :: ·) <$> joinPairs rest
      else if isHigh code || isLow code then none
      else (Char.ofNat code :: ·) <$> joinPairs (next :: rest)

/-- The code that a letter stands for behind a backslash. -/
def escapeOf? : Char → Option Nat
  | '"' => some 0x22
  | '\\' => some 0x5c
  | '/' => some 0x2f
  | 'b' => some 0x08
  | 'f' => some 0x0c
  | 'n' => some 0x0a
  | 'r' => some 0x0d
  | 't' => some 0x09
  | _ => none

/-- The number that a hexadecimal digit stands for. -/
def hexDigitOf? (c : Char) : Option Nat :=
  if c.isDigit then some (c.toNat - 48)
  else if 'a' ≤ c ∧ c ≤ 'f' then some (c.toNat - 87)
  else if 'A' ≤ c ∧ c ≤ 'F' then some (c.toNat - 55)
  else none

-- ================================================================= tokens

/-- A token of a document. -/
inductive Token where
  | arrayStart
  | arrayEnd
  | objectStart
  | objectEnd
  | comma
  | colon
  | scalar (value : JsonValue)
  deriving Repr

/-- What the last characters began. -/
inductive Scan where
  /-- Nothing. -/
  | between
  /-- A word with these characters, the last one first. -/
  | word (read : List Char)
  /-- A string with these codes, the last one first. -/
  | string (codes : List Nat)
  | escape (codes : List Nat)
  /-- An escaped code, of which so many digits are missing. -/
  | code (codes : List Nat) (missing : Nat) (read : Nat)
  deriving Repr

/-- The machine: what was begun, and the tokens before it, the last one first. -/
structure Scanner where
  state : Scan
  tokens : List Token
  deriving Repr

/-- The token that a character is by itself. -/
def punctuation? : Char → Option Token
  | '[' => some .arrayStart
  | ']' => some .arrayEnd
  | '{' => some .objectStart
  | '}' => some .objectEnd
  | ',' => some .comma
  | ':' => some .colon
  | _ => none

namespace Scanner

/-- Nothing was read. -/
def start : Scanner := ⟨.between, []⟩

/-- Takes the first character behind a token. -/
def between (tokens : List Token) (c : Char) : Scanner :=
  match punctuation? c with
  | some token => ⟨.between, token :: tokens⟩
  | none =>
      if c = ' ' ∨ c = '\t' ∨ c = '\n' ∨ c = '\r' then ⟨.between, tokens⟩
      else if c = '"' then ⟨.string [], tokens⟩
      else ⟨.word [c], tokens⟩

/-- Reads one character. -/
def step (s : Scanner) (c : Char) : Option Scanner :=
  match s.state with
  | .between => some (between s.tokens c)
  | .word read =>
      match (between [] c).state with
      | .word _ => some { s with state := .word (c :: read) }
      | _ => do return between (.scalar (← wordOf? read.reverse) :: s.tokens) c
  | .string codes =>
      if c = '"' then
        some ⟨.between, .scalar (.string (String.ofList <$> joinPairs codes.reverse)) :: s.tokens⟩
      else if c = '\\' then some { s with state := .escape codes }
      else if c.toNat < 0x20 then none
      else some { s with state := .string (c.toNat :: codes) }
  | .escape codes =>
      if c = 'u' then some { s with state := .code codes 4 0 }
      else do return { s with state := .string ((← escapeOf? c) :: codes) }
  | .code codes missing read => do
      let read := 16 * read + (← hexDigitOf? c)
      if missing ≤ 1 then return { s with state := .string (read :: codes) }
      else return { s with state := .code codes (missing - 1) read }

/-- The tokens in order, if the text may end here. -/
def finish (s : Scanner) : Option (List Token) :=
  match s.state with
  | .between => some s.tokens.reverse
  | .word read => do return (.scalar (← wordOf? read.reverse) :: s.tokens).reverse
  | _ => none

end Scanner

/-- The tokens of a text. -/
def Token.ofText? (text : String) : Option (List Token) := do
  (← text.toList.foldlM Scanner.step .start).finish

end MergedMining.Json
