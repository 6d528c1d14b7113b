import OrderbookClient.Writer

/-! # Writing a whole document

The writer as the target of a document: `Doc` is the tree of a JSON document without
fractional numbers and `Doc.accept` issues the writer calls for it in the order of
`GenericValue::Accept` (`document.h`).  `Doc.text` says what such a document looks like, with
one comma between neighbours and one colon after each name, and `Doc.value` what it denotes.

* `accept_eq`: in any context that accepts the document, the calls fail no assertion and leave
  the separator and `Doc.text` in the buffer.  The level stack is back where it was, with one
  more value counted.
* `derives_text`: `Doc.text` derives `Doc.value` in the JSON grammar.

Together (`write_document`): a document written to a fresh writer leaves it complete, and its
buffer is a JSON text denoting the document.  All proofs follow the mutual recursion over
documents, element lists and member lists. -/

namespace OrderbookClient.RapidJson

open OrderbookClient.Json

/-- A JSON document with `int` numbers. -/
inductive Doc where
  | null
  | bool (b : Bool)
  | int (i : ℤ)
  | str (s : Bytes)
  | arr (ds : List Doc)
  | obj (ms : List (Bytes × Doc))

namespace Doc

/-- `GetType`. -/
def type : Doc → JsonType
  | .null => .null
  | .bool b => if b then .true else .false
  | .int _ => .number
  | .str _ => .string
  | .arr _ => .array
  | .obj _ => .object

mutual

/-- `Accept`: the writer calls for a document. -/
def accept : Doc → Writer → Option Writer
  | .null, w => w.null
  | .bool b, w => w.bool b
  | .int i, w => w.int i
  | .str s, w => w.stringN s s.length
  | .arr ds, w => do
      let w ← w.startArray
      let w ← acceptElements ds w
      w.endArray
  | .obj ms, w => do
      let w ← w.startObject
      let w ← acceptMembers ms w
      w.endObject

def acceptElements : List Doc → Writer → Option Writer
  | [], w => some w
  | d :: ds, w => do
      let w ← accept d w
      acceptElements ds w

def acceptMembers : List (Bytes × Doc) → Writer → Option Writer
  | [], w => some w
  | (k, d) :: ms, w => do
      let w ← w.keyN k k.length
      let w ← accept d w
      acceptMembers ms w

end

/-- The text of a string. -/
def strText (s : Bytes) : Bytes := 0x22 :: (escapeText s ++ [0x22])

/-- The comma before every neighbour but the first. -/
def comma (first : Bool) : Bytes := if first then [] else [0x2C]

mutual

/-- The text of a document. -/
def text : Doc → Bytes
  | .null => [0x6E, 0x75, 0x6C, 0x6C]
  | .bool b => if b then [0x74, 0x72, 0x75, 0x65] else [0x66, 0x61, 0x6C, 0x73, 0x65]
  | .int i => i32toa i
  | .str s => strText s
  | .arr ds => 0x5B :: (elementsText true ds ++ [0x5D])
  | .obj ms => 0x7B :: (membersText true ms ++ [0x7D])

def elementsText : Bool → List Doc → Bytes
  | _, [] => []
  | first, d :: ds => comma first ++ text d ++ elementsText false ds

def membersText : Bool → List (Bytes × Doc) → Bytes
  | _, [] => []
  | first, (k, d) :: ms => comma first ++ strText k ++ 0x3A :: (text d ++ membersText false ms)

end

mutual

/-- What a document denotes. -/
def value : Doc → Value
  | .null => .null
  | .bool b => .bool b
  | .int i => .number i
  | .str s => .string s
  | .arr ds => .array (values ds)
  | .obj ms => .object (memberValues ms)

def values : List Doc → List Value
  | [] => []
  | d :: ds => value d :: values ds

def memberValues : List (Bytes × Doc) → List (Bytes × Value)
  | [] => []
  | (k, d) :: ms => (k, value d) :: memberValues ms

end

/-- The reservation `WriteString` makes for a string fits in `SizeType`. -/
def FitsSizeType (s : Bytes) : Prop := 2 + 6 * s.length < 2 ^ 32

mutual

/-- Every number is an `int` and every string fits in `SizeType`. -/
def Fits : Doc → Prop
  | .null => True
  | .bool _ => True
  | .int i => IsInt32 i
  | .str s => FitsSizeType s
  | .arr ds => FitsElements ds
  | .obj ms => FitsMembers ms

def FitsElements : List Doc → Prop
  | [] => True
  | d :: ds => Fits d ∧ FitsElements ds

def FitsMembers : List (Bytes × Doc) → Prop
  | [] => True
  | (k, d) :: ms => FitsSizeType k ∧ Fits d ∧ FitsMembers ms

end

/-! ### The calls leave the text -/

theorem stringN_text {w : Writer} {s : Bytes} (hs : FitsSizeType s) (h : w.Accepts .string) :
    ∃ w', w.stringN s s.length = some w' ∧ w.AfterValue (strText s) w' := by
  have := Writer.stringN_eq (w := w) s le_rfl hs h
  rwa [List.take_length] at this

mutual

/-- **A document is written whole**, in any context that accepts it. -/
theorem accept_eq : ∀ (d : Doc) {w : Writer}, d.Fits → w.Accepts d.type →
    ∃ w', d.accept w = some w' ∧ w.AfterValue d.text w'
  | .null, w, _, h => Writer.null_eq h
  | .bool b, w, _, h => Writer.bool_eq b h
  | .int i, w, hf, h => Writer.int_eq hf h
  | .str s, w, hf, h => stringN_text hf h
  | .arr ds, w, hf, h => by
      obtain ⟨w₁, e₁, b₁, l₁, r₁⟩ := Writer.startArray_eq h
      obtain ⟨w₂, e₂, b₂, ⟨n, l₂⟩, r₂⟩ := acceptElements_eq ds (n := 0) hf l₁
      obtain ⟨w₃, e₃, b₃, l₃, r₃⟩ := Writer.endArray_eq l₂
      refine ⟨w₃, by simp [accept, e₁, e₂, e₃], ?_, l₃, by rw [r₃, r₂, r₁]⟩
      rw [b₃, b₂, b₁]
      simp [text]
  | .obj ms, w, hf, h => by
      obtain ⟨w₁, e₁, b₁, l₁, r₁⟩ := Writer.startObject_eq h
      obtain ⟨w₂, e₂, b₂, ⟨n, l₂⟩, r₂⟩ := acceptMembers_eq ms (n := 0) hf l₁
      obtain ⟨w₃, e₃, b₃, l₃, r₃⟩ := Writer.endObject_eq l₂ (by omega)
      refine ⟨w₃, by simp [accept, e₁, e₂, e₃], ?_, l₃, by rw [r₃, r₂, r₁]⟩
      rw [b₃, b₂, b₁]
      simp [text]

/-- Elements: the count of the array level decides the commas. -/
theorem acceptElements_eq : ∀ (ds : List Doc) {w : Writer} {n : ℕ} {rest : List Level},
    FitsElements ds → w.levels = ⟨n, true⟩ :: rest →
    ∃ w', acceptElements ds w = some w' ∧
      w'.os.bytes = w.os.bytes ++ elementsText (n == 0) ds ∧
      (∃ m, w'.levels = ⟨m, true⟩ :: rest) ∧ w'.hasRoot = w.hasRoot
  | [], w, n, rest, _, hl => ⟨w, rfl, by simp [elementsText], ⟨n, hl⟩, rfl⟩
  | d :: ds, w, n, rest, hf, hl => by
      obtain ⟨w₁, e₁, h₁⟩ := accept_eq d (w := w) hf.1 (by simp [Writer.Accepts, hl])
      have l₁ : w₁.levels = ⟨n + 1, true⟩ :: rest := by rw [h₁.levels, hl]; rfl
      have hsep : w.separator = comma (n == 0) := by
        simp only [Writer.separator, hl, comma]
        by_cases hn : n = 0 <;> simp [hn]
      obtain ⟨w₂, e₂, b₂, l₂, r₂⟩ := acceptElements_eq ds hf.2 l₁
      refine ⟨w₂, by simp [acceptElements, e₁, e₂], ?_, l₂, by rw [r₂, h₁.hasRoot, hl]; simp⟩
      rw [b₂, h₁.bytes, hsep]
      simp [elementsText]

/-- Members: the count of the object level is even before a name and odd before its value. -/
theorem acceptMembers_eq : ∀ (ms : List (Bytes × Doc)) {w : Writer} {n : ℕ} {rest : List Level},
    FitsMembers ms → w.levels = ⟨2 * n, false⟩ :: rest →
    ∃ w', acceptMembers ms w = some w' ∧
      w'.os.bytes = w.os.bytes ++ membersText (n == 0) ms ∧
      (∃ m, w'.levels = ⟨2 * m, false⟩ :: rest) ∧ w'.hasRoot = w.hasRoot
  | [], w, n, rest, _, hl => ⟨w, rfl, by simp [membersText], ⟨n, hl⟩, rfl⟩
  | (k, d) :: ms, w, n, rest, hf, hl => by
      obtain ⟨w₁, e₁, h₁⟩ := stringN_text (w := w) hf.1 (by simp [Writer.Accepts, hl])
      have l₁ : w₁.levels = ⟨2 * n + 1, false⟩ :: rest := by rw [h₁.levels, hl]; rfl
      obtain ⟨w₂, e₂, h₂⟩ := accept_eq d (w := w₁) hf.2.1 (by
        simp only [Writer.Accepts, l₁]
        omega)
      have l₂ : w₂.levels = ⟨2 * (n + 1), false⟩ :: rest := by rw [h₂.levels, l₁]; rfl
      have hsep₁ : w.separator = comma (n == 0) := by
        simp only [Writer.separator, hl, comma]
        by_cases hn : n = 0 <;> simp [hn]
      have hsep₂ : w₁.separator = [0x3A] := by
        have hodd : (2 * n + 1) % 2 = 1 := by omega
        simp [Writer.separator, l₁, hodd]
      obtain ⟨w₃, e₃, b₃, l₃, r₃⟩ := acceptMembers_eq ms hf.2.2 l₂
      refine ⟨w₃, by simp [acceptMembers, Writer.keyN, e₁, e₂, e₃], ?_, l₃, ?_⟩
      · rw [b₃, h₂.bytes, h₁.bytes, hsep₁, hsep₂]
        simp [membersText]
      · rw [r₃, h₂.hasRoot, h₁.hasRoot, hl, l₁]
        simp

end

/-! ### The text derives the value -/

theorem strText_stringLit (s : Bytes) : StringLit (strText s) s := escapeText_stringLit s

mutual

/-- **The text of a document derives its value.** -/
theorem derives_text : ∀ (d : Doc), d.Fits → Derives (.value d.value) d.text
  | .null, _ => by
      rw [value, text]
      exact .null
  | .bool b, _ => by
      rw [value, text]
      cases b with
      | true => exact .true
      | false => exact .false
  | .int i, hf => by
      rw [value, text]
      exact .number (i32toa_number hf)
  | .str s, _ => by
      rw [value, text]
      exact .string (strText_stringLit s)
  | .arr [], _ => by
      rw [value, text]
      exact .emptyArray (.single _) (.single _)
  | .arr (d :: ds), hf => by
      rw [value, text]
      exact .array (.single _) (derives_elementsText (d :: ds) (by simp) hf) (.single _)
  | .obj [], _ => by
      rw [value, text]
      exact .emptyObject (.single _) (.single _)
  | .obj (m :: ms), hf => by
      rw [value, text]
      exact .object (.single _) (derives_membersText (m :: ms) (by simp) hf) (.single _)

theorem derives_elementsText : ∀ (ds : List Doc), ds ≠ [] → FitsElements ds →
    Derives (.elements (values ds)) (elementsText true ds)
  | [], hne, _ => absurd rfl hne
  | [d], _, hf => by
      simp only [values, elementsText, comma, if_true, List.nil_append, List.append_nil]
      exact .element (derives_text d hf.1)
  | d :: e :: ds, _, hf => by
      have h := Derives.elements (derives_text d hf.1) (.single 0x2C)
        (derives_elementsText (e :: ds) (by simp) hf.2)
      simpa [values, elementsText, comma] using h

theorem derives_membersText : ∀ (ms : List (Bytes × Doc)), ms ≠ [] → FitsMembers ms →
    Derives (.members (memberValues ms)) (membersText true ms)
  | [], hne, _ => absurd rfl hne
  | [(k, d)], _, hf => by
      have h := Derives.member (strText_stringLit k) (.single 0x3A) (derives_text d hf.2.1)
      simpa [memberValues, membersText, comma] using h
  | (k, d) :: m :: ms, _, hf => by
      have h := Derives.members (strText_stringLit k) (.single 0x3A) (derives_text d hf.2.1)
        (.single 0x2C) (derives_membersText (m :: ms) (by simp) hf.2.2)
      simpa [memberValues, membersText, comma] using h

end

/-! ### No NUL in the text -/

theorem strText_ne_zero (s : Bytes) : (0 : UInt8) ∉ strText s := by
  have h := escapeText_ne_zero s
  simp only [strText, List.mem_cons, List.mem_append, List.not_mem_nil, or_false, not_or]
  exact ⟨by decide, fun h0 => h 0 h0 rfl, by decide⟩

theorem comma_ne_zero (first : Bool) : (0 : UInt8) ∉ comma first := by
  cases first <;> decide

mutual

/-- The text of a document has no NUL, so it survives being passed as a C string. -/
theorem text_ne_zero : ∀ (d : Doc), d.Fits → (0 : UInt8) ∉ d.text
  | .null, _ => by
      rw [text]
      decide
  | .bool b, _ => by
      rw [text]
      cases b <;> decide
  | .int i, hf => by
      rw [text]
      exact fun h => i32toa_ne_zero hf 0 h rfl
  | .str s, _ => by
      rw [text]
      exact strText_ne_zero s
  | .arr ds, hf => by
      have h := elementsText_ne_zero true ds hf
      simp [text, h]
  | .obj ms, hf => by
      have h := membersText_ne_zero true ms hf
      simp [text, h]

theorem elementsText_ne_zero : ∀ (first : Bool) (ds : List Doc), FitsElements ds →
    (0 : UInt8) ∉ elementsText first ds
  | _, [], _ => by simp [elementsText]
  | first, d :: ds, hf => by
      have h₁ := text_ne_zero d hf.1
      have h₂ := elementsText_ne_zero false ds hf.2
      simp [elementsText, comma_ne_zero, h₁, h₂]

theorem membersText_ne_zero : ∀ (first : Bool) (ms : List (Bytes × Doc)), FitsMembers ms →
    (0 : UInt8) ∉ membersText first ms
  | _, [], _ => by simp [membersText]
  | first, (k, d) :: ms, hf => by
      have h₁ := text_ne_zero d hf.2.1
      have h₂ := membersText_ne_zero false ms hf.2.2
      simp [membersText, comma_ne_zero, strText_ne_zero, h₁, h₂]

end

/-- **A document written to a fresh writer**: no assertion fails, the writer is complete, and
what `GetString` returns, read as a C string, is a JSON text denoting the document. -/
theorem write_document (d : Doc) (hf : d.Fits) :
    ∃ w, d.accept (Writer.new StringBuffer.new) = some w ∧ w.isComplete = true ∧
      w.os.bytes = d.text ∧ Text d.text d.value := by
  obtain ⟨w, e, h⟩ := accept_eq d (w := Writer.new StringBuffer.new) hf (by
    simp [Writer.Accepts, Writer.new])
  refine ⟨w, e, ?_, ?_, .ofDerives (derives_text d hf)⟩
  · simp [Writer.isComplete, h.hasRoot, h.levels, Writer.new, Writer.bump]
  · rw [h.bytes]
    simp [Writer.new, Writer.separator, StringBuffer.new, Stack.new]

end Doc

end OrderbookClient.RapidJson
