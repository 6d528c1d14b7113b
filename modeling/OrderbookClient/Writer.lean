import OrderbookClient.StringBuffer
import OrderbookClient.Itoa

/-! # The JSON writer: `writer.h`

`Writer<StringBuffer>` with its default flags: UTF-8 in and out, no validation, no SIMD.  The
model has the output buffer, the level stack (top first) and `hasRoot_`.  Every call returns
`true` in the source, so a call is modelled by the writer it leaves; a failed
`RAPIDJSON_ASSERT` (in `Prefix`, `EndObject`, `EndArray` or in the buffer below) is `none`.

Every call that writes a value runs `Prefix`, which reads the top level and decides three
things at once: whether the call is allowed (`Accepts`), which separator precedes the value
(`separator`) and the new count (`bump`).  `AfterValue w text w'` is the effect such a call has
in any context, and the spec of each call is one instance of it. -/

namespace OrderbookClient.RapidJson

open OrderbookClient.Json

/-- `rapidjson::Type`. -/
inductive JsonType where
  | null | false | true | object | array | string | number
deriving DecidableEq, Repr

/-- `Writer::Level`. -/
structure Level where
  valueCount : ℕ
  inArray : Bool
deriving DecidableEq, Repr

structure Writer where
  os : StringBuffer
  /-- `level_stack_`, top first. -/
  levels : List Level
  hasRoot : Bool

/-! ### Strings -/

/-- `hexDigits`. -/
def hexDigits : Bytes :=
  [0x30, 0x31, 0x32, 0x33, 0x34, 0x35, 0x36, 0x37, 0x38, 0x39, 0x41, 0x42, 0x43, 0x44, 0x45, 0x46]

/-- The table `escape` of `WriteString`: `0` for a byte that needs no escape, `'u'` for one
written as `\u00XX`, and otherwise the letter of its two-character escape. -/
def escapeTable : Bytes :=
  [0x75, 0x75, 0x75, 0x75, 0x75, 0x75, 0x75, 0x75, 0x62, 0x74, 0x6E, 0x75, 0x66, 0x72, 0x75, 0x75] ++
  List.replicate 16 0x75 ++
  [0, 0, 0x22, 0, 0, 0, 0, 0, 0, 0, 0, 0, 0, 0, 0, 0] ++
  List.replicate 32 0 ++
  [0, 0, 0, 0, 0, 0, 0, 0, 0, 0, 0, 0, 0x5C, 0, 0, 0] ++
  List.replicate 160 0

def escape (c : UInt8) : UInt8 := escapeTable.getD c.toNat 0

def hexDigit (i : ℕ) : UInt8 := hexDigits.getD i 0

namespace Writer

/-- The loop of `WriteString` over the characters left in `is`. -/
def writeChars : StringBuffer → Bytes → Option StringBuffer
  | os, [] => some os
  | os, c :: is =>
      if escape c ≠ 0 then do
        let os ← StringBuffer.putUnsafe os 0x5C
        let os ← StringBuffer.putUnsafe os (escape c)
        if escape c = 0x75 then do
          let os ← StringBuffer.putUnsafe os 0x30
          let os ← StringBuffer.putUnsafe os 0x30
          let os ← StringBuffer.putUnsafe os (hexDigit (c.toNat >>> 4))
          let os ← StringBuffer.putUnsafe os (hexDigit (c.toNat &&& 0xF))
          writeChars os is
        else writeChars os is
      else do
        let os ← StringBuffer.putUnsafe os c
        writeChars os is

/-- `WriteString`: the reservation is computed in the 32-bit `SizeType`. -/
def writeString (os : StringBuffer) (str : Bytes) (length : ℕ) : Option StringBuffer := do
  let os := os.reserve ((2 + length * 6) % 2 ^ 32)
  let os ← StringBuffer.putUnsafe os 0x22
  let os ← writeChars os (str.take length)
  StringBuffer.putUnsafe os 0x22

/-- `WriteInt`, specialised to `StringBuffer`: eleven bytes are pushed, `i32toa` fills some of
them and the rest is popped. -/
def writeInt (os : StringBuffer) (i : ℤ) : Option StringBuffer := do
  let digits := i32toa i
  let os ← os.push (digits ++ List.replicate (11 - digits.length) 0)
  os.pop (11 - digits.length)

/-- `WriteNull`, `WriteBool`: a literal, with room reserved for it. -/
def writeLit (os : StringBuffer) (lit : Bytes) : Option StringBuffer :=
  (os.reserve lit.length).pushUnsafe lit

/-! ### Calls -/

/-- The constructor. -/
def new (os : StringBuffer) : Writer := ⟨os, [], false⟩

/-- `IsComplete`. -/
def isComplete (w : Writer) : Bool := w.hasRoot && w.levels.isEmpty

/-- `Prefix(type)`. -/
def prefixValue (w : Writer) (type : JsonType) : Option Writer :=
  match w.levels with
  | level :: rest => do
      let os ←
        if level.valueCount > 0 then
          if level.inArray then StringBuffer.put w.os 0x2C
          else StringBuffer.put w.os (if level.valueCount % 2 = 0 then 0x2C else 0x3A)
        else some w.os
      if !level.inArray && level.valueCount % 2 == 0 && type != .string then none
      else some { w with os := os, levels := { level with valueCount := level.valueCount + 1 } :: rest }
  | [] => if w.hasRoot then none else some { w with hasRoot := true }

def null (w : Writer) : Option Writer := do
  let w ← w.prefixValue .null
  let os ← writeLit w.os [0x6E, 0x75, 0x6C, 0x6C]
  return { w with os := os }

def bool (w : Writer) (b : Bool) : Option Writer := do
  let w ← w.prefixValue (if b then .true else .false)
  let os ← writeLit w.os (if b then [0x74, 0x72, 0x75, 0x65] else [0x66, 0x61, 0x6C, 0x73, 0x65])
  return { w with os := os }

def int (w : Writer) (i : ℤ) : Option Writer := do
  let w ← w.prefixValue .number
  let os ← writeInt w.os i
  return { w with os := os }

/-- `String(str, length)`. -/
def stringN (w : Writer) (str : Bytes) (length : ℕ) : Option Writer := do
  let w ← w.prefixValue .string
  let os ← writeString w.os str length
  return { w with os := os }

/-- `internal::StrLen`, in the 32-bit `SizeType`. -/
def strLen (str : Bytes) : ℕ := (cString str).length % 2 ^ 32

/-- `String(str)`, for a C string. -/
def string (w : Writer) (str : Bytes) : Option Writer := w.stringN str (strLen str)

/-- `Key(str, length)`. -/
def keyN (w : Writer) (str : Bytes) (length : ℕ) : Option Writer := w.stringN str length

/-- `Key(str)`, for a C string. -/
def key (w : Writer) (str : Bytes) : Option Writer := w.keyN str (strLen str)

def startObject (w : Writer) : Option Writer := do
  let w ← w.prefixValue .object
  let os ← StringBuffer.put w.os 0x7B
  return { w with os := os, levels := ⟨0, false⟩ :: w.levels }

def startArray (w : Writer) : Option Writer := do
  let w ← w.prefixValue .array
  let os ← StringBuffer.put w.os 0x5B
  return { w with os := os, levels := ⟨0, true⟩ :: w.levels }

def endObject (w : Writer) : Option Writer :=
  match w.levels with
  | [] => none
  | level :: rest =>
      if level.inArray || level.valueCount % 2 != 0 then none
      else do
        let os ← StringBuffer.put w.os 0x7D
        return { w with os := os, levels := rest }

def endArray (w : Writer) : Option Writer :=
  match w.levels with
  | [] => none
  | level :: rest =>
      if !level.inArray then none
      else do
        let os ← StringBuffer.put w.os 0x5D
        return { w with os := os, levels := rest }

end Writer

/-! ### The text of a string -/

/-- What `WriteString` writes for one character. -/
def escapeByte (c : UInt8) : Bytes :=
  if escape c = 0 then [c]
  else if escape c = 0x75 then
    [0x5C, 0x75, 0x30, 0x30, hexDigit (c.toNat >>> 4), hexDigit (c.toNat &&& 0xF)]
  else [0x5C, escape c]

/-- What `WriteString` writes between the quotation marks. -/
def escapeText (s : Bytes) : Bytes := s.flatMap escapeByte

/-- What the escape of a character denotes, in the grammar's terms. -/
def escapePiece (c : UInt8) : Piece := if escape c = 0x75 then .code c.toNat else .byte c

/-- The table has an escape for exactly the bytes the grammar excludes, each denoting its
byte. -/
theorem escape_cases : ∀ c : UInt8,
    (escape c = 0 ∧ isUnescaped c = true) ∨
    (escape c = 0x75 ∧ c.toNat < 0x20 ∧
      hexVal (hexDigit (c.toNat >>> 4)) = some (c.toNat / 16) ∧
      hexVal (hexDigit (c.toNat &&& 0xF)) = some (c.toNat % 16)) ∨
    (escape c ≠ 0 ∧ escape c ≠ 0x75 ∧ simpleEscape (escape c) = some c) := by
  have h : ∀ n < 256,
      (escape n.toUInt8 = 0 ∧ isUnescaped n.toUInt8 = true) ∨
      (escape n.toUInt8 = 0x75 ∧ n < 0x20 ∧
        hexVal (hexDigit (n >>> 4)) = some (n / 16) ∧
        hexVal (hexDigit (n &&& 0xF)) = some (n % 16)) ∨
      (escape n.toUInt8 ≠ 0 ∧ escape n.toUInt8 ≠ 0x75 ∧
        simpleEscape (escape n.toUInt8) = some n.toUInt8) := by decide +kernel
  intro c
  simpa using h c.toNat c.toNat_lt

theorem escapeByte_strChar (c : UInt8) : StrChar (escapeByte c) (escapePiece c) := by
  unfold escapeByte escapePiece
  rcases escape_cases c with ⟨h0, hu⟩ | ⟨hu, -, h1, h2⟩ | ⟨h0, hu, hs⟩
  · rw [if_pos h0, if_neg (by rw [h0]; decide)]
    exact .unescaped hu
  · rw [if_neg (by rw [hu]; decide), if_pos hu, if_pos hu]
    have hz : hexVal 0x30 = some 0 := by decide
    have := StrChar.unicode hz hz h1 h2
    rwa [show ((0 * 16 + 0) * 16 + c.toNat / 16) * 16 + c.toNat % 16 = c.toNat by omega] at this
  · rw [if_neg h0, if_neg hu, if_neg hu]
    exact .simple hs

theorem escapeText_strChars (s : Bytes) : StrChars (escapeText s) (s.map escapePiece) := by
  induction s with
  | nil => exact .nil
  | cons c s ih => exact .cons (escapeByte_strChar c) ih

/-- Decoding undoes the escapes: they denote the bytes they stand for. -/
theorem decode_escapePieces (s : Bytes) : decode (s.map escapePiece) = s := by
  induction s with
  | nil => rfl
  | cons c s ih =>
      rw [List.map_cons]
      rcases escape_cases c with ⟨h0, -⟩ | ⟨hu, hlt, -⟩ | ⟨-, hu, -⟩
      · rw [escapePiece, if_neg (by rw [h0]; decide), decode, ih]
      · rw [escapePiece, if_pos hu, decode_code_cons (by omega), ih, utf8, if_pos (by omega)]
        simp
      · rw [escapePiece, if_neg hu, decode, ih]

/-- **A written string is a JSON string denoting the bytes passed in.** -/
theorem escapeText_stringLit (s : Bytes) : StringLit (0x22 :: (escapeText s ++ [0x22])) s := by
  have := StringLit.mk (escapeText_strChars s)
  rwa [decode_escapePieces] at this

/-- The escaped text of a string without NUL has none, and neither has one with: NUL is
escaped. -/
theorem escapeText_ne_zero (s : Bytes) : ∀ b ∈ escapeText s, b ≠ 0 := by
  have hbyte : ∀ c : UInt8, (0 : UInt8) ∉ escapeByte c := by
    have h : ∀ n < 256, (0 : UInt8) ∉ escapeByte n.toUInt8 := by decide +kernel
    intro c
    simpa using h c.toNat c.toNat_lt
  rintro b hb rfl
  obtain ⟨c, -, hc⟩ := List.mem_flatMap.mp hb
  exact hbyte c hc

/-! ### Writing into reserved room -/

namespace Writer

/-- Six bytes of room for each character are enough. -/
theorem writeChars_of_room : ∀ (is : Bytes) {os : StringBuffer} {n : ℕ},
    os.Room (6 * is.length + n) → ∃ os', writeChars os is = some os' ∧
      os'.bytes = os.bytes ++ escapeText is ∧ os'.Room n
  | [], os, n, h => ⟨os, rfl, by simp [escapeText], by simpa using h⟩
  | c :: is, os, n, h => by
      have hput : ∀ {os : StringBuffer} {m : ℕ} (b : UInt8), os.Room (m + 1) →
          ∃ os', StringBuffer.putUnsafe os b = some os' ∧ os'.bytes = os.bytes ++ [b] ∧ os'.Room m :=
        fun b h => StringBuffer.putUnsafe_of_room (by rwa [Nat.add_comm])
      have hmono : ∀ {os : StringBuffer} {m : ℕ} (k : ℕ), os.Room (m + k) → os.Room m := by
        rintro os m k ⟨c, hb, hc⟩
        exact ⟨c, hb, by omega⟩
      rw [List.length_cons, show 6 * (is.length + 1) + n = 6 * is.length + n + 1 + 1 + 1 + 1 + 1 + 1 by
        omega] at h
      rw [writeChars]
      by_cases h0 : escape c = 0
      · obtain ⟨o1, e1, b1, r1⟩ := hput c h
        obtain ⟨o2, e2, b2, r2⟩ := writeChars_of_room is (n := n) (hmono 5 r1)
        refine ⟨o2, by simp [h0, e1, e2], ?_, r2⟩
        simp [b2, b1, escapeText, escapeByte, h0]
      obtain ⟨o1, e1, b1, r1⟩ := hput 0x5C h
      obtain ⟨o2, e2, b2, r2⟩ := hput (escape c) r1
      by_cases hu : escape c = 0x75
      · obtain ⟨o3, e3, b3, r3⟩ := hput 0x30 r2
        obtain ⟨o4, e4, b4, r4⟩ := hput 0x30 r3
        obtain ⟨o5, e5, b5, r5⟩ := hput (hexDigit (c.toNat >>> 4)) r4
        obtain ⟨o6, e6, b6, r6⟩ := hput (hexDigit (c.toNat &&& 0xF)) r5
        obtain ⟨o7, e7, b7, r7⟩ := writeChars_of_room is (n := n) r6
        rw [hu] at e2 b2
        refine ⟨o7, ?_, ?_, r7⟩
        · simp [hu, e1, e2, e3, e4, e5, e6, e7]
        · simp [b7, b6, b5, b4, b3, b2, b1, escapeText, escapeByte, hu]
      · obtain ⟨o3, e3, b3, r3⟩ := writeChars_of_room is (n := n) (hmono 4 r2)
        refine ⟨o3, by simp [h0, hu, e1, e2, e3], ?_, r3⟩
        simp [b3, b2, b1, escapeText, escapeByte, h0, hu]

/-- `WriteString` of a string whose reservation fits in `SizeType`. -/
theorem writeString_eq (os : StringBuffer) {str : Bytes} {length : ℕ}
    (hlen : length ≤ str.length) (hsize : 2 + 6 * length < 2 ^ 32) :
    ∃ os', writeString os str length = some os' ∧
      os'.bytes = os.bytes ++ 0x22 :: (escapeText (str.take length) ++ [0x22]) := by
  have hmod : (2 + length * 6) % 2 ^ 32 = 2 + length * 6 := Nat.mod_eq_of_lt (by omega)
  have hroom : (os.reserve (2 + length * 6)).Room (1 + (6 * (str.take length).length + (1 + 0))) := by
    have := os.reserve_room (n := 2 + length * 6) (by omega)
    rwa [show 1 + (6 * (str.take length).length + (1 + 0)) = 2 + length * 6 by
      rw [List.length_take, Nat.min_eq_left hlen]; omega]
  obtain ⟨o1, e1, b1, r1⟩ := StringBuffer.putUnsafe_of_room (c := 0x22) hroom
  obtain ⟨o2, e2, b2, r2⟩ := writeChars_of_room _ r1
  obtain ⟨o3, e3, b3, -⟩ := StringBuffer.putUnsafe_of_room (c := 0x22) r2
  refine ⟨o3, ?_, ?_⟩
  · rw [writeString, hmod]
    simp [e1, e2, e3]
  · rw [b3, b2, b1]
    simp

theorem writeInt_eq (os : StringBuffer) {i : ℤ} (hi : IsInt32 i) :
    ∃ os', writeInt os i = some os' ∧ os'.bytes = os.bytes ++ i32toa i := by
  have hlen := i32toa_length hi
  have hne : i32toa i ++ List.replicate (11 - (i32toa i).length) 0 ≠ [] := by
    intro h
    have := congrArg List.length h
    simp only [List.length_append, List.length_replicate, List.length_nil] at this
    omega
  obtain ⟨o1, e1, b1⟩ := os.push_eq _ hne
  rw [← List.append_assoc] at b1
  obtain ⟨o2, e2, b2⟩ := Stack.pop_append b1
  rw [List.length_replicate] at e2
  exact ⟨o2, by simp [writeInt, e1, e2], b2⟩

theorem writeLit_eq (os : StringBuffer) (lit : Bytes) (h : lit ≠ []) :
    ∃ os', writeLit os lit = some os' ∧ os'.bytes = os.bytes ++ lit :=
  os.push_eq lit h

/-! ### What a call does in its context -/

/-- The levels after one more value. -/
def bump : List Level → List Level
  | [] => []
  | level :: rest => { level with valueCount := level.valueCount + 1 } :: rest

/-- The separator `Prefix` writes. -/
def separator (w : Writer) : Bytes :=
  match w.levels with
  | [] => []
  | level :: _ =>
      if level.valueCount = 0 then []
      else if level.inArray || level.valueCount % 2 == 0 then [0x2C] else [0x3A]

/-- `Prefix` accepts a value of this type here. -/
def Accepts (w : Writer) (type : JsonType) : Prop :=
  match w.levels with
  | [] => w.hasRoot = false
  | level :: _ => level.inArray = true ∨ level.valueCount % 2 = 1 ∨ type = .string

/-- The effect of writing one value with text `text`. -/
structure AfterValue (w : Writer) (text : Bytes) (w' : Writer) : Prop where
  bytes : w'.os.bytes = w.os.bytes ++ w.separator ++ text
  levels : w'.levels = bump w.levels
  hasRoot : w'.hasRoot = (w.hasRoot || w.levels.isEmpty)

theorem prefixValue_eq {w : Writer} {type : JsonType} (h : w.Accepts type) :
    ∃ w', w.prefixValue type = some w' ∧ w.AfterValue [] w' := by
  obtain ⟨os, levels, hasRoot⟩ := w
  cases levels with
  | nil =>
      have hr : hasRoot = false := h
      subst hr
      exact ⟨⟨os, [], true⟩, by simp [prefixValue], ⟨by simp [separator], rfl, rfl⟩⟩
  | cons level rest =>
      obtain ⟨count, inArray⟩ := level
      have htype : (!inArray && count % 2 == 0 && type != .string) = false := by
        rcases h with h | h | h
        · simp only at h
          simp [h]
        · simp only at h
          simp [h]
        · simp [h]
      by_cases hc : count = 0
      · refine ⟨⟨os, ⟨count + 1, inArray⟩ :: rest, hasRoot⟩, ?_, ⟨?_, rfl, by simp⟩⟩
        · simp [prefixValue, hc] at htype ⊢
          exact htype
        · simp [separator, hc]
      · have hpos : count > 0 := Nat.pos_of_ne_zero hc
        obtain ⟨os', e, b⟩ := StringBuffer.put_eq os
          (if inArray || count % 2 == 0 then 0x2C else 0x3A)
        refine ⟨⟨os', ⟨count + 1, inArray⟩ :: rest, hasRoot⟩, ?_, ⟨?_, rfl, by simp⟩⟩
        · rw [prefixValue]
          simp only [hpos, if_true, htype]
          cases inArray with
          | true => simp at e ⊢; simp [e]
          | false => simp at e ⊢; simp [e]
        · rw [b]
          simp only [separator, hc, if_false, List.append_nil]
          split_ifs <;> rfl

/-- A value call is `Prefix` and then a write of its text. -/
theorem AfterValue.ofWrite {w w₁ : Writer} (h : w.AfterValue [] w₁) {os : StringBuffer}
    {text : Bytes} (hb : os.bytes = w₁.os.bytes ++ text) :
    w.AfterValue text { w₁ with os := os } :=
  ⟨by rw [hb, h.bytes]; simp, h.levels, h.hasRoot⟩

theorem null_eq {w : Writer} (h : w.Accepts .null) :
    ∃ w', w.null = some w' ∧ w.AfterValue [0x6E, 0x75, 0x6C, 0x6C] w' := by
  obtain ⟨w₁, e₁, hw₁⟩ := prefixValue_eq h
  obtain ⟨os, e₂, hb⟩ := writeLit_eq w₁.os [0x6E, 0x75, 0x6C, 0x6C] (by simp)
  exact ⟨_, by simp [null, e₁, e₂], hw₁.ofWrite hb⟩

theorem bool_eq {w : Writer} (b : Bool) (h : w.Accepts (if b then .true else .false)) :
    ∃ w', w.bool b = some w' ∧ w.AfterValue
      (if b then [0x74, 0x72, 0x75, 0x65] else [0x66, 0x61, 0x6C, 0x73, 0x65]) w' := by
  obtain ⟨w₁, e₁, hw₁⟩ := prefixValue_eq h
  obtain ⟨os, e₂, hb⟩ := writeLit_eq w₁.os
    (if b then [0x74, 0x72, 0x75, 0x65] else [0x66, 0x61, 0x6C, 0x73, 0x65])
    (by cases b <;> simp)
  exact ⟨_, by simp [bool, e₁, e₂], hw₁.ofWrite hb⟩

theorem int_eq {w : Writer} {i : ℤ} (hi : IsInt32 i) (h : w.Accepts .number) :
    ∃ w', w.int i = some w' ∧ w.AfterValue (i32toa i) w' := by
  obtain ⟨w₁, e₁, hw₁⟩ := prefixValue_eq h
  obtain ⟨os, e₂, hb⟩ := writeInt_eq w₁.os hi
  exact ⟨_, by simp [int, e₁, e₂], hw₁.ofWrite hb⟩

theorem stringN_eq {w : Writer} (str : Bytes) {length : ℕ} (hlen : length ≤ str.length)
    (hsize : 2 + 6 * length < 2 ^ 32) (h : w.Accepts .string) :
    ∃ w', w.stringN str length = some w' ∧
      w.AfterValue (0x22 :: (escapeText (str.take length) ++ [0x22])) w' := by
  obtain ⟨w₁, e₁, hw₁⟩ := prefixValue_eq h
  obtain ⟨os, e₂, hb⟩ := writeString_eq w₁.os hlen hsize
  exact ⟨_, by simp [stringN, e₁, e₂], hw₁.ofWrite hb⟩

theorem stringN_take (w : Writer) (str : Bytes) (length : ℕ) :
    w.stringN (str.take length) length = w.stringN str length := by
  simp only [stringN, writeString, List.take_take, Nat.min_self]

theorem strLen_eq {str : Bytes} (h : 2 + 6 * (cString str).length < 2 ^ 32) :
    strLen str = (cString str).length := Nat.mod_eq_of_lt (by omega)

/-- Strings passed as C strings are the strings of explicit length without the terminator. -/
theorem string_eq_stringN {w : Writer} {str : Bytes} (h : 2 + 6 * (cString str).length < 2 ^ 32) :
    w.string str = w.stringN str (cString str).length := by
  rw [string, strLen_eq h]

theorem startObject_eq {w : Writer} (h : w.Accepts .object) :
    ∃ w', w.startObject = some w' ∧ w'.os.bytes = w.os.bytes ++ w.separator ++ [0x7B] ∧
      w'.levels = ⟨0, false⟩ :: bump w.levels ∧ w'.hasRoot = (w.hasRoot || w.levels.isEmpty) := by
  obtain ⟨w₁, e₁, hw₁⟩ := prefixValue_eq h
  obtain ⟨os, e₂, hb⟩ := StringBuffer.put_eq w₁.os 0x7B
  refine ⟨{ w₁ with os := os, levels := ⟨0, false⟩ :: w₁.levels }, by simp [startObject, e₁, e₂],
    ?_, ?_, hw₁.hasRoot⟩
  · exact (hw₁.ofWrite hb).bytes
  · rw [hw₁.levels]

theorem startArray_eq {w : Writer} (h : w.Accepts .array) :
    ∃ w', w.startArray = some w' ∧ w'.os.bytes = w.os.bytes ++ w.separator ++ [0x5B] ∧
      w'.levels = ⟨0, true⟩ :: bump w.levels ∧ w'.hasRoot = (w.hasRoot || w.levels.isEmpty) := by
  obtain ⟨w₁, e₁, hw₁⟩ := prefixValue_eq h
  obtain ⟨os, e₂, hb⟩ := StringBuffer.put_eq w₁.os 0x5B
  refine ⟨{ w₁ with os := os, levels := ⟨0, true⟩ :: w₁.levels }, by simp [startArray, e₁, e₂],
    ?_, ?_, hw₁.hasRoot⟩
  · exact (hw₁.ofWrite hb).bytes
  · rw [hw₁.levels]

theorem endObject_eq {w : Writer} {count : ℕ} {rest : List Level} (h : w.levels = ⟨count, false⟩ :: rest)
    (hc : count % 2 = 0) :
    ∃ w', w.endObject = some w' ∧ w'.os.bytes = w.os.bytes ++ [0x7D] ∧ w'.levels = rest ∧
      w'.hasRoot = w.hasRoot := by
  obtain ⟨os, e, hb⟩ := StringBuffer.put_eq w.os 0x7D
  exact ⟨{ w with os := os, levels := rest }, by simp [endObject, h, hc, e], hb, rfl, rfl⟩

theorem endArray_eq {w : Writer} {count : ℕ} {rest : List Level} (h : w.levels = ⟨count, true⟩ :: rest) :
    ∃ w', w.endArray = some w' ∧ w'.os.bytes = w.os.bytes ++ [0x5D] ∧ w'.levels = rest ∧
      w'.hasRoot = w.hasRoot := by
  obtain ⟨os, e, hb⟩ := StringBuffer.put_eq w.os 0x5D
  exact ⟨{ w with os := os, levels := rest }, by simp [endArray, h, e], hb, rfl, rfl⟩

end Writer

end OrderbookClient.RapidJson
