import OrderbookClient.JsonGrammar

/-! # A reader for the JSON grammar, and its unambiguity

`readText` is an executable recursive-descent reader for the grammar of `JsonGrammar.lean`.
Every function expects its input without leading white space and leaves its remainder the
same way; `readValue` and the two list readers recurse on a fuel argument bounded by the
length of the input.

The reader accepts every text the grammar derives and returns the value it denotes
(`readText_of_text`).  The proof is one induction over the derivation: `Reads p s` is what
the reader does on a phrase followed by arbitrary bytes, and each production preserves it.
Since the reader is a function, the grammar is unambiguous (`Text.unique`). -/

namespace OrderbookClient.Json

/-! ### Executable definitions -/

def skipWs (s : Bytes) : Bytes := s.dropWhile isWs

/-- Read the byte `c` and the white space after it. -/
def readToken (c : UInt8) : Bytes → Option Bytes
  | [] => none
  | b :: s => if b = c then some (skipWs s) else none

/-- Read a literal and the white space after it. -/
def readLit (lit : Bytes) (v : Value) (s : Bytes) : Option (Value × Bytes) :=
  if lit <+: s then some (v, skipWs (s.drop lit.length)) else none

def readInt : Bytes → Option (Bytes × Bytes)
  | [] => none
  | d :: t =>
      if d = 0x30 then some ([0x30], t)
      else if isDigit d then some (d :: t.takeWhile isDigit, t.dropWhile isDigit)
      else none

def readFrac : Bytes → Option (Bytes × Bytes)
  | [] => some ([], [])
  | b :: t =>
      if b = 0x2E then
        if t.takeWhile isDigit = [] then none
        else some (t.takeWhile isDigit, t.dropWhile isDigit)
      else some ([], b :: t)

def readSign : Bytes → Bool × Bytes
  | [] => (false, [])
  | b :: t => if b = 0x2B then (false, t) else if b = 0x2D then (true, t) else (false, b :: t)

def readExp : Bytes → Option (Bool × Bytes × Bytes)
  | [] => some (false, [], [])
  | b :: t =>
      if b = 0x65 ∨ b = 0x45 then
        if (readSign t).2.takeWhile isDigit = [] then none
        else some ((readSign t).1, (readSign t).2.takeWhile isDigit, (readSign t).2.dropWhile isDigit)
      else some (false, [], b :: t)

/-- The part of a number after its optional minus sign. -/
def readUnsigned (neg : Bool) (s : Bytes) : Option (ℚ × Bytes) := do
  let (i, s) ← readInt s
  let (f, s) ← readFrac s
  let (eneg, e, s) ← readExp s
  return (numberVal neg i f eneg e, s)

def readNumber : Bytes → Option (ℚ × Bytes)
  | [] => none
  | b :: t => if b = 0x2D then readUnsigned true t else readUnsigned false (b :: t)

/-- The code unit of four hexadecimal digits. -/
def readHex4 (b₁ b₂ b₃ b₄ : UInt8) : Option ℕ := do
  let h₁ ← hexVal b₁
  let h₂ ← hexVal b₂
  let h₃ ← hexVal b₃
  let h₄ ← hexVal b₄
  return ((h₁ * 16 + h₂) * 16 + h₃) * 16 + h₄

/-- One character of a string. -/
def readChar : Bytes → Option (Piece × Bytes)
  | [] => none
  | b :: t =>
      if b = 0x5C then
        match t with
        | [] => none
        | e :: u =>
            match simpleEscape e with
            | some c => some (.byte c, u)
            | none =>
                match e, u with
                | 0x75, b₁ :: b₂ :: b₃ :: b₄ :: r =>
                    (readHex4 b₁ b₂ b₃ b₄).map (fun c => (.code c, r))
                | _, _ => none
      else if isUnescaped b then some (.byte b, t)
      else none

/-- The characters of a string up to and including the closing quotation mark. -/
def readChars : ℕ → Bytes → Option (List Piece × Bytes)
  | 0, _ => none
  | _ + 1, [] => none
  | n + 1, b :: t =>
      if b = 0x22 then some ([], t)
      else do
        let (p, u) ← readChar (b :: t)
        let (ps, r) ← readChars n u
        return (p :: ps, r)

def readString : Bytes → Option (Bytes × Bytes)
  | [] => none
  | b :: s =>
      if b = 0x22 then (readChars s.length s).map (fun p => (decode p.1, skipWs p.2)) else none

mutual

def readValue : ℕ → Bytes → Option (Value × Bytes)
  | 0, _ => none
  | _ + 1, [] => none
  | n + 1, b :: t =>
      if b = 0x6E then readLit [0x6E, 0x75, 0x6C, 0x6C] .null (b :: t)
      else if b = 0x74 then readLit [0x74, 0x72, 0x75, 0x65] (.bool true) (b :: t)
      else if b = 0x66 then readLit [0x66, 0x61, 0x6C, 0x73, 0x65] (.bool false) (b :: t)
      else if b = 0x22 then (readString (b :: t)).map (fun p => (.string p.1, p.2))
      else if b = 0x5B then
        match readToken 0x5D (skipWs t) with
        | some r => some (.array [], r)
        | none => (readElements n (skipWs t)).map (fun p => (.array p.1, p.2))
      else if b = 0x7B then
        match readToken 0x7D (skipWs t) with
        | some r => some (.object [], r)
        | none => (readMembers n (skipWs t)).map (fun p => (.object p.1, p.2))
      else (readNumber (b :: t)).map (fun p => (.number p.1, skipWs p.2))

/-- One or more elements and the closing bracket. -/
def readElements : ℕ → Bytes → Option (List Value × Bytes)
  | 0, _ => none
  | n + 1, s => do
      let (v, s) ← readValue n s
      match readToken 0x2C s with
      | some s => do
          let (vs, s) ← readElements n s
          return (v :: vs, s)
      | none => do
          let s ← readToken 0x5D s
          return ([v], s)

/-- One or more members and the closing brace. -/
def readMembers : ℕ → Bytes → Option (List (Bytes × Value) × Bytes)
  | 0, _ => none
  | n + 1, s => do
      let (k, s) ← readString s
      let s ← readToken 0x3A s
      let (v, s) ← readValue n s
      match readToken 0x2C s with
      | some s => do
          let (ms, s) ← readMembers n s
          return ((k, v) :: ms, s)
      | none => do
          let s ← readToken 0x7D s
          return ([(k, v)], s)

end

/-- **The reader**: the value of a complete JSON text. -/
def readText (s : Bytes) : Option Value :=
  match readValue s.length (skipWs s) with
  | some (v, []) => some v
  | _ => none

/-! ### White space and tokens -/

theorem skipWs_append {w : Bytes} (h : Ws w) (s : Bytes) : skipWs (w ++ s) = skipWs s := by
  unfold skipWs
  rw [List.dropWhile_append_of_pos h]

theorem skipWs_cons {b : UInt8} (h : isWs b = false) (s : Bytes) : skipWs (b :: s) = b :: s := by
  simp [skipWs, h]

theorem skipWs_structural {c : UInt8} {t : Bytes} (h : Structural c t) (hc : isWs c = false)
    (s : Bytes) : ∃ u, skipWs (t ++ s) = c :: u ∧ skipWs u = skipWs s := by
  cases h with
  | @mk w₁ w₂ h₁ h₂ =>
      refine ⟨w₂ ++ s, ?_, skipWs_append h₂ s⟩
      rw [List.append_assoc, skipWs_append h₁, List.cons_append, skipWs_cons hc]

theorem readToken_structural {c : UInt8} {t : Bytes} (h : Structural c t) (hc : isWs c = false)
    (s : Bytes) : readToken c (skipWs (t ++ s)) = some (skipWs s) := by
  obtain ⟨u, hu, hs⟩ := skipWs_structural h hc s
  rw [hu, readToken, if_pos rfl, hs]

theorem readToken_structural_ne {c d : UInt8} {t : Bytes} (h : Structural c t)
    (hc : isWs c = false) (hd : c ≠ d) (s : Bytes) : readToken d (skipWs (t ++ s)) = none := by
  obtain ⟨u, hu, -⟩ := skipWs_structural h hc s
  rw [hu, readToken, if_neg hd]

/-! ### Numbers -/

/-- `s` does not begin with a byte satisfying `p`. -/
def HeadNot (p : UInt8 → Bool) (s : Bytes) : Prop := ∀ b ∈ s.head?, p b = false

/-- The bytes that could continue a number. -/
def continuesNumber (b : UInt8) : Bool := isDigit b || b == 0x2E || b == 0x65 || b == 0x45

theorem headNot_cons {p : UInt8 → Bool} {b : UInt8} {s : Bytes} : HeadNot p (b :: s) ↔ p b = false := by
  simp [HeadNot]

theorem HeadNot.isDigit {s : Bytes} (h : HeadNot continuesNumber s) : HeadNot isDigit s := by
  intro b hb
  have := h b hb
  simp only [continuesNumber, Bool.or_eq_false_iff] at this
  exact this.1.1.1

theorem takeWhile_digits {ds : Bytes} (hd : ∀ b ∈ ds, isDigit b = true) {s : Bytes}
    (hs : HeadNot isDigit s) : (ds ++ s).takeWhile isDigit = ds ∧ (ds ++ s).dropWhile isDigit = s := by
  rw [List.takeWhile_append_of_pos hd, List.dropWhile_append_of_pos hd]
  cases s with
  | nil => simp
  | cons b s =>
      have := headNot_cons.mp hs
      simp [this]

theorem readInt_append {i : Bytes} (h : IntPart i) {s : Bytes} (hs : HeadNot isDigit s) :
    readInt (i ++ s) = some (i, s) := by
  cases h with
  | zero => simp [readInt]
  | pos hd hz hds =>
      obtain ⟨h1, h2⟩ := takeWhile_digits hds hs
      simp only [List.cons_append, readInt, if_neg hz, hd, if_true, h1, h2]

theorem readFrac_append {f fd : Bytes} (h : FracPart f fd) {s : Bytes}
    (hs : HeadNot isDigit s) (hdot : HeadNot (· == 0x2E) s) : readFrac (f ++ s) = some (fd, s) := by
  cases h with
  | absent =>
      cases s with
      | nil => rfl
      | cons b s =>
          have hb : b ≠ 0x2E := by simpa using headNot_cons.mp hdot
          simp [readFrac, hb]
  | present hne hds =>
      obtain ⟨h1, h2⟩ := takeWhile_digits hds hs
      simp only [List.cons_append, readFrac, if_true, h1, h2, if_neg hne]

theorem readSign_append {sg : Bytes} {neg : Bool} (h : Sign sg neg) {s : Bytes} {d : UInt8}
    (hd : isDigit d = true) : readSign (sg ++ d :: s) = (neg, d :: s) := by
  cases h with
  | absent =>
      have h1 : d ≠ 0x2B := by rintro rfl; exact absurd hd (by decide)
      have h2 : d ≠ 0x2D := by rintro rfl; exact absurd hd (by decide)
      simp [readSign, h1, h2]
  | plus => simp [readSign]
  | minus => simp [readSign]

theorem readExp_append {e ed : Bytes} {eneg : Bool} (h : ExpPart e eneg ed) {s : Bytes}
    (hs : HeadNot continuesNumber s) : readExp (e ++ s) = some (eneg, ed, s) := by
  cases h with
  | absent =>
      cases s with
      | nil => rfl
      | cons b s =>
          have hb := headNot_cons.mp hs
          simp only [continuesNumber, Bool.or_eq_false_iff, beq_eq_false_iff_ne] at hb
          simp [readExp, hb.1.2, hb.2]
  | @present c sg _ _ hc hsg hne hds =>
      obtain ⟨h1, h2⟩ := takeWhile_digits hds hs.isDigit
      have hsign : readSign (sg ++ (ed ++ s)) = (eneg, ed ++ s) := by
        cases ed with
        | nil => exact absurd rfl hne
        | cons d ds => exact readSign_append hsg (hds d (by simp))
      simp only [List.cons_append, List.append_assoc, readExp, if_pos hc, hsign, h1, h2, if_neg hne]

theorem ExpPart.headNot {e ed : Bytes} {eneg : Bool} (h : ExpPart e eneg ed) {s : Bytes}
    (hs : HeadNot continuesNumber s) {p : UInt8 → Bool}
    (hp : ∀ b, continuesNumber b = false → p b = false) (he : p 0x65 = false) (hE : p 0x45 = false) :
    HeadNot p (e ++ s) := by
  cases h with
  | absent => exact fun b hb => hp b (hs b hb)
  | present hc =>
      rw [List.cons_append, headNot_cons]
      rcases hc with rfl | rfl
      · exact he
      · exact hE

theorem readUnsigned_append {i f fd e ed : Bytes} {eneg : Bool} (neg : Bool) (hi : IntPart i)
    (hf : FracPart f fd) (he : ExpPart e eneg ed) {s : Bytes} (hs : HeadNot continuesNumber s) :
    readUnsigned neg (i ++ f ++ e ++ s) = some (numberVal neg i fd eneg ed, s) := by
  have hdig : HeadNot isDigit (e ++ s) := by
    refine he.headNot hs ?_ (by decide) (by decide)
    intro b hb
    simp only [continuesNumber, Bool.or_eq_false_iff] at hb
    exact hb.1.1.1
  have hdot : HeadNot (· == 0x2E) (e ++ s) := by
    refine he.headNot hs ?_ (by decide) (by decide)
    intro b hb
    simp only [continuesNumber, Bool.or_eq_false_iff] at hb
    exact hb.1.1.2
  have hint : HeadNot isDigit (f ++ (e ++ s)) := by
    cases hf with
    | absent => exact hdig
    | present _ _ => rw [List.cons_append, headNot_cons]; decide
  have h1 := readInt_append hi hint
  have h2 := readFrac_append hf hdig hdot
  have h3 := readExp_append he hs
  simp only [List.append_assoc]
  simp [readUnsigned, h1, h2, h3]

theorem IntPart.head {i : Bytes} (h : IntPart i) :
    ∃ d ds, i = d :: ds ∧ isDigit d = true := by
  cases h with
  | zero => exact ⟨0x30, [], rfl, by decide⟩
  | pos hd _ _ => exact ⟨_, _, rfl, hd⟩

theorem readNumber_append {t : Bytes} {q : ℚ} (h : Number t q) {s : Bytes}
    (hs : HeadNot continuesNumber s) : readNumber (t ++ s) = some (q, s) := by
  cases h with
  | nonneg hi hf he =>
      obtain ⟨d, ds, rfl, hd⟩ := hi.head
      have hne : d ≠ 0x2D := by rintro rfl; exact absurd hd (by decide)
      have := readUnsigned_append false hi hf he hs
      simp only [List.cons_append] at this ⊢
      rw [readNumber, if_neg hne, this]
  | neg hi hf he =>
      have := readUnsigned_append true hi hf he hs
      rw [List.cons_append, readNumber, if_pos rfl, this]

/-- The first byte of a number: a minus sign or a digit. -/
theorem Number.head {t : Bytes} {q : ℚ} (h : Number t q) :
    ∃ b u, t = b :: u ∧ (b = 0x2D ∨ isDigit b = true) := by
  cases h with
  | nonneg hi _ _ =>
      obtain ⟨d, ds, rfl, hd⟩ := hi.head
      exact ⟨d, _, rfl, Or.inr hd⟩
  | neg _ _ _ => exact ⟨0x2D, _, rfl, Or.inl rfl⟩

/-! ### Strings -/

theorem readHex4_eq {b₁ b₂ b₃ b₄ : UInt8} {h₁ h₂ h₃ h₄ : ℕ} (e₁ : hexVal b₁ = some h₁)
    (e₂ : hexVal b₂ = some h₂) (e₃ : hexVal b₃ = some h₃) (e₄ : hexVal b₄ = some h₄) :
    readHex4 b₁ b₂ b₃ b₄ = some (((h₁ * 16 + h₂) * 16 + h₃) * 16 + h₄) := by
  simp [readHex4, e₁, e₂, e₃, e₄]

theorem readChar_append {t : Bytes} {p : Piece} (h : StrChar t p) (s : Bytes) :
    readChar (t ++ s) = some (p, s) := by
  cases h with
  | @unescaped b hb =>
      have hne : b ≠ 0x5C := by rintro rfl; exact absurd hb (by decide)
      simp only [List.cons_append, List.nil_append, readChar, if_neg hne, if_pos hb]
  | simple he => simp only [List.cons_append, List.nil_append, readChar, if_true, he]
  | unicode e₁ e₂ e₃ e₄ =>
      have hu : simpleEscape 0x75 = none := by decide
      simp only [List.cons_append, List.nil_append, readChar, if_true, hu, readHex4_eq e₁ e₂ e₃ e₄,
        Option.map_some]

/-- No character of a string is a bare quotation mark. -/
theorem StrChar.head {t : Bytes} {p : Piece} (h : StrChar t p) : ∃ b u, t = b :: u ∧ b ≠ 0x22 := by
  cases h with
  | @unescaped b hb => exact ⟨b, [], rfl, by rintro rfl; exact absurd hb (by decide)⟩
  | simple _ => exact ⟨0x5C, _, rfl, by decide⟩
  | unicode _ _ _ _ => exact ⟨0x5C, _, rfl, by decide⟩

theorem readChars_append {t : Bytes} {ps : List Piece} (h : StrChars t ps) (s : Bytes) :
    ∀ n, t.length < n → readChars n (t ++ 0x22 :: s) = some (ps, s) := by
  induction h with
  | nil =>
      intro n hn
      obtain ⟨n, rfl⟩ : ∃ m, n = m + 1 := ⟨n - 1, by omega⟩
      simp [readChars]
  | @cons u t p ps hc _ ih =>
      intro n hn
      have hread := readChar_append hc (t ++ 0x22 :: s)
      obtain ⟨b, u, rfl, hb⟩ := hc.head
      simp only [List.length_append, List.length_cons] at hn
      obtain ⟨n, rfl⟩ : ∃ m, n = m + 1 := ⟨n - 1, by omega⟩
      rw [List.append_assoc]
      simp only [List.cons_append] at hread ⊢
      simp [readChars, hb, hread, ih n (by omega)]

theorem readString_append {t v : Bytes} (h : StringLit t v) (s : Bytes) :
    readString (t ++ s) = some (v, skipWs s) := by
  cases h with
  | @mk t ps hc =>
      have := readChars_append hc s (t ++ 0x22 :: s).length (by simp)
      simp only [List.cons_append, List.append_assoc, List.nil_append, readString, if_true, this,
        Option.map_some]

theorem StringLit.head {t v : Bytes} (h : StringLit t v) : ∃ u, t = 0x22 :: u := by
  cases h with
  | mk _ => exact ⟨_, rfl⟩

/-! ### Values -/

/-- What the reader does on a phrase: with fuel for its length it reads it off the front of the
input, up to the white space after it; the list readers take the closing token as well. -/
def Reads : Phrase → Bytes → Prop
  | .value v, s => ∀ rest n, HeadNot continuesNumber rest → s.length ≤ n →
      readValue n (skipWs (s ++ rest)) = some (v, skipWs rest)
  | .elements vs, s => ∀ c rest n, Structural 0x5D c → s.length < n →
      readElements n (skipWs (s ++ (c ++ rest))) = some (vs, skipWs rest)
  | .members ms, s => ∀ c rest n, Structural 0x7D c → s.length < n →
      readMembers n (skipWs (s ++ (c ++ rest))) = some (ms, skipWs rest)

/-- A value, element list or member list has at least one byte. -/
theorem Derives.length_pos {p : Phrase} {s : Bytes} (h : Derives p s) : 0 < s.length := by
  induction h with
  | null | true | false => simp
  | number h =>
      obtain ⟨b, u, rfl, -⟩ := h.head
      simp
  | string h =>
      obtain ⟨u, rfl⟩ := h.head
      simp
  | emptyArray ho _ | emptyObject ho _ | array ho _ _ _ | object ho _ _ _ =>
      have := ho.length_pos
      simp only [List.length_append]
      omega
  | element _ ih => exact ih
  | elements _ _ _ ih _ => simp only [List.length_append]; omega
  | member hk _ _ _ | members hk _ _ _ _ _ _ =>
      obtain ⟨u, rfl⟩ := hk.head
      simp only [List.length_append, List.length_cons]
      omega

theorem headNot_structural {c : UInt8} {t : Bytes} (h : Structural c t)
    (hc : continuesNumber c = false) (s : Bytes) : HeadNot continuesNumber (t ++ s) := by
  cases h with
  | @mk w₁ w₂ h₁ _ =>
      cases w₁ with
      | nil => simpa [headNot_cons] using hc
      | cons b w₁ =>
          have hb : isWs b = true := h₁ b (by simp)
          simp only [isWs, Bool.or_eq_true, beq_iff_eq] at hb
          simp only [List.cons_append, headNot_cons]
          rcases hb with ((rfl | rfl) | rfl) | rfl <;> decide

/-- No value begins with a closing bracket. -/
theorem readValue_bracket (n : ℕ) (s : Bytes) : readValue n (0x5D :: s) = none := by
  cases n with
  | zero => simp [readValue]
  | succ n => simp [readValue, readNumber, readUnsigned, readInt, isDigit]

theorem readToken_none_of_elements {n : ℕ} {s r : Bytes} {vs : List Value}
    (h : readElements n s = some (vs, r)) : readToken 0x5D s = none := by
  cases s with
  | nil => rfl
  | cons b s =>
      rw [readToken, if_neg]
      rintro rfl
      cases n with
      | zero => simp [readElements] at h
      | succ n => simp [readElements, readValue_bracket] at h

theorem readToken_none_of_members {n : ℕ} {s r : Bytes} {ms : List (Bytes × Value)}
    (h : readMembers n s = some (ms, r)) : readToken 0x7D s = none := by
  cases s with
  | nil => rfl
  | cons b s =>
      rw [readToken, if_neg]
      rintro rfl
      cases n with
      | zero => simp [readMembers] at h
      | succ n => simp [readMembers, readString] at h

theorem readValue_number {n : ℕ} {s : Bytes} {b : UInt8} (hb : b = 0x2D ∨ isDigit b = true) :
    readValue (n + 1) (b :: s) = (readNumber (b :: s)).map (fun p => (.number p.1, skipWs p.2)) := by
  have hne : ∀ c : UInt8, c ≠ 0x2D → isDigit c = false → b ≠ c := by
    rintro c h1 h2 rfl
    rcases hb with hb | hb
    · exact h1 hb
    · exact absurd (h2.symm.trans hb) (by decide)
  rw [readValue, if_neg (hne _ (by decide) (by decide)), if_neg (hne _ (by decide) (by decide)),
    if_neg (hne _ (by decide) (by decide)), if_neg (hne _ (by decide) (by decide)),
    if_neg (hne _ (by decide) (by decide)), if_neg (hne _ (by decide) (by decide))]

theorem isWs_number {b : UInt8} (hb : b = 0x2D ∨ isDigit b = true) : isWs b = false := by
  rcases hb with rfl | hb
  · decide
  · by_contra hw
    simp only [Bool.not_eq_false, isWs, Bool.or_eq_true, beq_iff_eq] at hw
    rcases hw with ((rfl | rfl) | rfl) | rfl <;> exact absurd hb (by decide)

/-- **Every production is read back.**  Induction over the derivation. -/
theorem Derives.reads {p : Phrase} {s : Bytes} (h : Derives p s) : Reads p s := by
  induction h with
  | null | true | false =>
      intro rest n _ hn
      obtain ⟨n, rfl⟩ : ∃ m, n = m + 1 := ⟨n - 1, by simp at hn; omega⟩
      rw [List.cons_append, skipWs_cons (by decide)]
      simp [readValue, readLit]
  | number hq =>
      intro rest n hr hn
      obtain ⟨b, u, rfl, hb⟩ := hq.head
      obtain ⟨n, rfl⟩ : ∃ m, n = m + 1 := ⟨n - 1, by simp at hn; omega⟩
      rw [List.cons_append, skipWs_cons (isWs_number hb), readValue_number hb, ← List.cons_append,
        readNumber_append hq hr]
      rfl
  | string hs =>
      intro rest n _ hn
      have hread := readString_append hs rest
      obtain ⟨u, rfl⟩ := hs.head
      obtain ⟨n, rfl⟩ : ∃ m, n = m + 1 := ⟨n - 1, by simp at hn; omega⟩
      rw [List.cons_append] at hread ⊢
      rw [skipWs_cons (by decide)]
      simp [readValue, hread]
  | @emptyArray o c ho hc =>
      intro rest n _ hn
      obtain ⟨u, hu, hs⟩ := skipWs_structural ho (by decide) (c ++ rest)
      have := ho.length_pos
      obtain ⟨n, rfl⟩ : ∃ m, n = m + 1 := ⟨n - 1, by simp at hn; omega⟩
      rw [List.append_assoc, hu]
      simp [readValue, hs, readToken_structural hc (by decide)]
  | @array o s c vs ho _ hc ih =>
      intro rest n _ hn
      obtain ⟨u, hu, hs⟩ := skipWs_structural ho (by decide) (s ++ (c ++ rest))
      have ho' := ho.length_pos
      have hc' := hc.length_pos
      simp only [List.length_append] at hn
      obtain ⟨n, rfl⟩ : ∃ m, n = m + 1 := ⟨n - 1, by omega⟩
      have helems := ih c rest n hc (by omega)
      have hnone := readToken_none_of_elements helems
      rw [List.append_assoc, List.append_assoc, hu]
      simp [readValue, hs, hnone, helems]
  | @emptyObject o c ho hc =>
      intro rest n _ hn
      obtain ⟨u, hu, hs⟩ := skipWs_structural ho (by decide) (c ++ rest)
      have := ho.length_pos
      obtain ⟨n, rfl⟩ : ∃ m, n = m + 1 := ⟨n - 1, by simp at hn; omega⟩
      rw [List.append_assoc, hu]
      simp [readValue, hs, readToken_structural hc (by decide)]
  | @object o s c ms ho _ hc ih =>
      intro rest n _ hn
      obtain ⟨u, hu, hs⟩ := skipWs_structural ho (by decide) (s ++ (c ++ rest))
      have ho' := ho.length_pos
      have hc' := hc.length_pos
      simp only [List.length_append] at hn
      obtain ⟨n, rfl⟩ : ∃ m, n = m + 1 := ⟨n - 1, by omega⟩
      have hmems := ih c rest n hc (by omega)
      have hnone := readToken_none_of_members hmems
      rw [List.append_assoc, List.append_assoc, hu]
      simp [readValue, hs, hnone, hmems]
  | @element s v _ ih =>
      intro c rest n hc hn
      obtain ⟨n, rfl⟩ : ∃ m, n = m + 1 := ⟨n - 1, by omega⟩
      have hv := ih (c ++ rest) n (headNot_structural hc (by decide) rest) (by omega)
      simp [readElements, hv, readToken_structural_ne hc (by decide) (by decide : (0x5D : UInt8) ≠ 0x2C),
        readToken_structural hc (by decide)]
  | @elements s d t v vs _ hd ht ih₁ ih₂ =>
      intro c rest n hc hn
      have hd' := hd.length_pos
      simp only [List.length_append] at hn
      obtain ⟨n, rfl⟩ : ∃ m, n = m + 1 := ⟨n - 1, by omega⟩
      have hv := ih₁ (d ++ (t ++ (c ++ rest))) n (headNot_structural hd (by decide) _) (by omega)
      have hvs := ih₂ c rest n hc (by omega)
      simp only [List.append_assoc]
      simp [readElements, hv, readToken_structural hd (by decide), hvs]
  | @member s d t k v hk hd _ ih =>
      intro c rest n hc hn
      have hkey := readString_append hk (d ++ (t ++ (c ++ rest)))
      obtain ⟨u, rfl⟩ := hk.head
      simp only [List.length_append] at hn
      obtain ⟨n, rfl⟩ : ∃ m, n = m + 1 := ⟨n - 1, by omega⟩
      have hv := ih (c ++ rest) n (headNot_structural hc (by decide) rest) (by omega)
      simp only [List.append_assoc]
      rw [List.cons_append] at hkey ⊢
      rw [skipWs_cons (by decide)]
      simp [readMembers, hkey, readToken_structural hd (by decide), hv,
        readToken_structural_ne hc (by decide) (by decide : (0x7D : UInt8) ≠ 0x2C),
        readToken_structural hc (by decide)]
  | @members s d t d' t' k v ms hk hd _ hd' _ ih₁ ih₂ =>
      intro c rest n hc hn
      have hkey := readString_append hk (d ++ (t ++ (d' ++ (t' ++ (c ++ rest)))))
      obtain ⟨u, rfl⟩ := hk.head
      simp only [List.length_append, List.length_cons] at hn
      obtain ⟨n, rfl⟩ : ∃ m, n = m + 1 := ⟨n - 1, by omega⟩
      have hv := ih₁ (d' ++ (t' ++ (c ++ rest))) n (headNot_structural hd' (by decide) _) (by omega)
      have hms := ih₂ c rest n hc (by omega)
      simp only [List.append_assoc]
      rw [List.cons_append] at hkey ⊢
      rw [skipWs_cons (by decide)]
      simp [readMembers, hkey, readToken_structural hd (by decide), hv,
        readToken_structural hd' (by decide), hms]

/-- **The reader is complete**: it returns the value of every text the grammar derives. -/
theorem readText_of_text {s : Bytes} {v : Value} (h : Text s v) : readText s = some v := by
  obtain ⟨w₁, t, w₂, hw₁, ht, hw₂, rfl⟩ := h
  have hend : HeadNot continuesNumber w₂ := by
    intro b hb
    have hw := hw₂ b (List.mem_of_mem_head? hb)
    simp only [isWs, Bool.or_eq_true, beq_iff_eq] at hw
    rcases hw with ((rfl | rfl) | rfl) | rfl <;> decide
  have hread := ht.reads w₂ (w₁ ++ t ++ w₂).length hend (by simp only [List.length_append]; omega)
  have hnil : skipWs w₂ = [] := by
    have := skipWs_append hw₂ []
    simpa [skipWs] using this
  have hskip : skipWs (w₁ ++ t ++ w₂) = skipWs (t ++ w₂) := by
    rw [List.append_assoc, skipWs_append hw₁]
  rw [hnil] at hread
  simp only [readText, hskip, hread]

/-- **The grammar is unambiguous.** -/
theorem Text.unique {s : Bytes} {v w : Value} (hv : Text s v) (hw : Text s w) : v = w :=
  Option.some.inj ((readText_of_text hv).symm.trans (readText_of_text hw))

end OrderbookClient.Json
