import Mathlib

/-! # The JSON grammar of RFC 8259, read over bytes

The productions of the JSON grammar as relations between a byte string and what it denotes.
Nothing here refers to a particular program: `Text s v` says that the byte string `s` is a
complete JSON text denoting the value `v`.

* **Alphabet.** Texts are lists of bytes.  Inside a string every byte from `0x80` up is taken
  as it is, so the grammar does not depend on the text being valid UTF-8.
* **Numbers** denote rationals, computed from the digit strings of the three parts
  (`numberVal`), so no precision is lost.
* **Strings** denote byte strings.  A `\uXXXX` escape denotes the UTF-8 encoding of its code
  point; two escapes that form a surrogate pair denote the code point of the pair, and a lone
  surrogate is encoded on its own (`decode`).
* **White space** stands where the RFC puts it: around the six structural characters
  (`Structural`) and around the whole text.

`Derives` is a single family indexed by the phrase derived, so an induction over a
derivation has one case for each production. -/

namespace OrderbookClient.Json

/-- A byte string. -/
abbrev Bytes := List UInt8

/-- What a JSON text denotes.  Members keep their order and may repeat a name. -/
inductive Value where
  | null
  | bool (b : Bool)
  | number (q : ℚ)
  | string (s : Bytes)
  | array (vs : List Value)
  | object (ms : List (Bytes × Value))

/-! ### White space and structural characters -/

/-- Space, horizontal tab, line feed, carriage return. -/
def isWs (b : UInt8) : Bool := b == 0x20 || b == 0x09 || b == 0x0A || b == 0x0D

/-- `ws = *( %x20 / %x09 / %x0A / %x0D )`. -/
def Ws (s : Bytes) : Prop := ∀ b ∈ s, isWs b = true

/-- A structural character with the white space the RFC allows on both sides of it. -/
inductive Structural (c : UInt8) : Bytes → Prop
  | mk (w₁ w₂ : Bytes) : Ws w₁ → Ws w₂ → Structural c (w₁ ++ c :: w₂)

theorem ws_nil : Ws [] := by simp [Ws]

theorem Structural.single (c : UInt8) : Structural c [c] := .mk [] [] ws_nil ws_nil

theorem Structural.length_pos {c : UInt8} {s : Bytes} (h : Structural c s) : 0 < s.length := by
  cases h with
  | mk _ _ _ _ => simp

/-! ### Numbers -/

def isDigit (b : UInt8) : Bool := 0x30 ≤ b && b ≤ 0x39

/-- The value of a digit string, most significant digit first. -/
def digitsVal (ds : Bytes) : ℕ := ds.foldl (fun n b => 10 * n + (b.toNat - 0x30)) 0

/-- `int = zero / ( digit1-9 *DIGIT )`. -/
inductive IntPart : Bytes → Prop
  | zero : IntPart [0x30]
  | pos {d : UInt8} {ds : Bytes} :
      isDigit d = true → d ≠ 0x30 → (∀ b ∈ ds, isDigit b = true) → IntPart (d :: ds)

/-- `[ frac ]` with `frac = decimal-point 1*DIGIT`; the second index is the digit string. -/
inductive FracPart : Bytes → Bytes → Prop
  | absent : FracPart [] []
  | present {ds : Bytes} : ds ≠ [] → (∀ b ∈ ds, isDigit b = true) → FracPart (0x2E :: ds) ds

/-- The optional sign of an exponent; the second index says whether it is a minus. -/
inductive Sign : Bytes → Bool → Prop
  | absent : Sign [] false
  | plus : Sign [0x2B] false
  | minus : Sign [0x2D] true

/-- `[ exp ]` with `exp = e [ minus / plus ] 1*DIGIT`. -/
inductive ExpPart : Bytes → Bool → Bytes → Prop
  | absent : ExpPart [] false []
  | present {e : UInt8} {sg ds : Bytes} {neg : Bool} :
      e = 0x65 ∨ e = 0x45 → Sign sg neg → ds ≠ [] → (∀ b ∈ ds, isDigit b = true) →
      ExpPart (e :: (sg ++ ds)) neg ds

/-- The rational denoted by a sign, an integer part, a fraction and an exponent. -/
def numberVal (neg : Bool) (i f : Bytes) (eneg : Bool) (e : Bytes) : ℚ :=
  (if neg then -1 else 1) * (digitsVal i + digitsVal f / 10 ^ f.length) *
    (if eneg then (10 ^ digitsVal e)⁻¹ else 10 ^ digitsVal e)

/-- `number = [ minus ] int [ frac ] [ exp ]`. -/
inductive Number : Bytes → ℚ → Prop
  | nonneg {i f fd e ed : Bytes} {eneg : Bool} : IntPart i → FracPart f fd → ExpPart e eneg ed →
      Number (i ++ f ++ e) (numberVal false i fd eneg ed)
  | neg {i f fd e ed : Bytes} {eneg : Bool} : IntPart i → FracPart f fd → ExpPart e eneg ed →
      Number (0x2D :: (i ++ f ++ e)) (numberVal true i fd eneg ed)

theorem Number.ofInt {i : Bytes} (h : IntPart i) : Number i (digitsVal i : ℚ) := by
  have := Number.nonneg h .absent .absent
  simpa [numberVal, digitsVal] using this

theorem Number.ofNegInt {i : Bytes} (h : IntPart i) : Number (0x2D :: i) (-(digitsVal i : ℚ)) := by
  have := Number.neg h .absent .absent
  simpa [numberVal, digitsVal] using this

/-! ### Strings -/

/-- What one `char` of a string denotes: a byte, or the code unit of a `\uXXXX` escape. -/
inductive Piece where
  | byte (b : UInt8)
  | code (c : ℕ)
deriving DecidableEq

/-- `unescaped = %x20-21 / %x23-5B / %x5D-10FFFF`, at byte level. -/
def isUnescaped (b : UInt8) : Bool := 0x20 ≤ b && b != 0x22 && b != 0x5C

/-- The two-character escapes: `\"`, `\\`, `\/`, `\b`, `\f`, `\n`, `\r`, `\t`. -/
def simpleEscape (e : UInt8) : Option UInt8 :=
  if e = 0x22 then some 0x22
  else if e = 0x5C then some 0x5C
  else if e = 0x2F then some 0x2F
  else if e = 0x62 then some 0x08
  else if e = 0x66 then some 0x0C
  else if e = 0x6E then some 0x0A
  else if e = 0x72 then some 0x0D
  else if e = 0x74 then some 0x09
  else none

/-- `HEXDIG`, in either case. -/
def hexVal (b : UInt8) : Option ℕ :=
  if 0x30 ≤ b ∧ b ≤ 0x39 then some (b.toNat - 0x30)
  else if 0x41 ≤ b ∧ b ≤ 0x46 then some (b.toNat - 0x41 + 10)
  else if 0x61 ≤ b ∧ b ≤ 0x66 then some (b.toNat - 0x61 + 10)
  else none

/-- `char = unescaped / escape ( ... / %x75 4HEXDIG )`. -/
inductive StrChar : Bytes → Piece → Prop
  | unescaped {b : UInt8} : isUnescaped b = true → StrChar [b] (.byte b)
  | simple {e b : UInt8} : simpleEscape e = some b → StrChar [0x5C, e] (.byte b)
  | unicode {b₁ b₂ b₃ b₄ : UInt8} {h₁ h₂ h₃ h₄ : ℕ} :
      hexVal b₁ = some h₁ → hexVal b₂ = some h₂ → hexVal b₃ = some h₃ → hexVal b₄ = some h₄ →
      StrChar [0x5C, 0x75, b₁, b₂, b₃, b₄] (.code (((h₁ * 16 + h₂) * 16 + h₃) * 16 + h₄))

/-- `*char`. -/
inductive StrChars : Bytes → List Piece → Prop
  | nil : StrChars [] []
  | cons {s t : Bytes} {p : Piece} {ps : List Piece} :
      StrChar s p → StrChars t ps → StrChars (s ++ t) (p :: ps)

/-- The UTF-8 encoding of a code point. -/
def utf8 (c : ℕ) : Bytes :=
  if c < 0x80 then [c.toUInt8]
  else if c < 0x800 then [(0xC0 + c / 0x40).toUInt8, (0x80 + c % 0x40).toUInt8]
  else if c < 0x10000 then
    [(0xE0 + c / 0x1000).toUInt8, (0x80 + c / 0x40 % 0x40).toUInt8, (0x80 + c % 0x40).toUInt8]
  else
    [(0xF0 + c / 0x40000).toUInt8, (0x80 + c / 0x1000 % 0x40).toUInt8,
      (0x80 + c / 0x40 % 0x40).toUInt8, (0x80 + c % 0x40).toUInt8]

/-- The code point of a surrogate pair, if the two code units are one. -/
def surrogatePair (hi lo : ℕ) : Option ℕ :=
  if 0xD800 ≤ hi ∧ hi < 0xDC00 ∧ 0xDC00 ≤ lo ∧ lo < 0xE000 then
    some (0x10000 + (hi - 0xD800) * 0x400 + (lo - 0xDC00))
  else none

/-- The byte string a list of pieces denotes. -/
def decode : List Piece → Bytes
  | [] => []
  | .byte b :: ps => b :: decode ps
  | .code hi :: .code lo :: ps =>
      match surrogatePair hi lo with
      | some c => utf8 c ++ decode ps
      | none => utf8 hi ++ decode (.code lo :: ps)
  | .code c :: ps => utf8 c ++ decode ps

/-- `string = quotation-mark *char quotation-mark`. -/
inductive StringLit : Bytes → Bytes → Prop
  | mk {s : Bytes} {ps : List Piece} : StrChars s ps → StringLit (0x22 :: (s ++ [0x22])) (decode ps)

/-- A code unit below the surrogates is decoded on its own. -/
theorem decode_code_cons {c : ℕ} (hc : c < 0xD800) (ps : List Piece) :
    decode (.code c :: ps) = utf8 c ++ decode ps := by
  cases ps with
  | nil => rfl
  | cons p ps =>
      cases p with
      | byte b => rfl
      | code lo =>
          have h : surrogatePair c lo = none := by
            unfold surrogatePair
            rw [if_neg (by omega)]
          simp only [decode, h]

/-! ### Values -/

/-- The phrases of the grammar that derive values: a value, a non-empty member list, a
non-empty element list. -/
inductive Phrase where
  | value (v : Value)
  | members (ms : List (Bytes × Value))
  | elements (vs : List Value)

/-- `Derives p s`: the byte string `s` derives the phrase `p`. -/
inductive Derives : Phrase → Bytes → Prop
  | null : Derives (.value .null) [0x6E, 0x75, 0x6C, 0x6C]
  | true : Derives (.value (.bool true)) [0x74, 0x72, 0x75, 0x65]
  | false : Derives (.value (.bool false)) [0x66, 0x61, 0x6C, 0x73, 0x65]
  | number {s : Bytes} {q : ℚ} : Number s q → Derives (.value (.number q)) s
  | string {s v : Bytes} : StringLit s v → Derives (.value (.string v)) s
  | emptyArray {o c : Bytes} : Structural 0x5B o → Structural 0x5D c →
      Derives (.value (.array [])) (o ++ c)
  | array {o s c : Bytes} {vs : List Value} : Structural 0x5B o → Derives (.elements vs) s →
      Structural 0x5D c → Derives (.value (.array vs)) (o ++ s ++ c)
  | emptyObject {o c : Bytes} : Structural 0x7B o → Structural 0x7D c →
      Derives (.value (.object [])) (o ++ c)
  | object {o s c : Bytes} {ms : List (Bytes × Value)} : Structural 0x7B o →
      Derives (.members ms) s → Structural 0x7D c → Derives (.value (.object ms)) (o ++ s ++ c)
  | element {s : Bytes} {v : Value} : Derives (.value v) s → Derives (.elements [v]) s
  | elements {s c t : Bytes} {v : Value} {vs : List Value} : Derives (.value v) s →
      Structural 0x2C c → Derives (.elements vs) t → Derives (.elements (v :: vs)) (s ++ c ++ t)
  | member {s c t k : Bytes} {v : Value} : StringLit s k → Structural 0x3A c →
      Derives (.value v) t → Derives (.members [(k, v)]) (s ++ c ++ t)
  | members {s c t d u k : Bytes} {v : Value} {ms : List (Bytes × Value)} : StringLit s k →
      Structural 0x3A c → Derives (.value v) t → Structural 0x2C d → Derives (.members ms) u →
      Derives (.members ((k, v) :: ms)) (s ++ c ++ t ++ d ++ u)

/-- `JSON-text = ws value ws`. -/
def Text (s : Bytes) (v : Value) : Prop :=
  ∃ w₁ t w₂ : Bytes, Ws w₁ ∧ Derives (.value v) t ∧ Ws w₂ ∧ s = w₁ ++ t ++ w₂

/-- A derivation of a value is a JSON text without surrounding white space. -/
theorem Text.ofDerives {s : Bytes} {v : Value} (h : Derives (.value v) s) : Text s v :=
  ⟨[], s, [], ws_nil, h, ws_nil, by simp⟩

end OrderbookClient.Json
