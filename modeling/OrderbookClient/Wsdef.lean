import OrderbookClient.Base64
import OrderbookClient.HvSha1

/-! # The accept key: `base64.c` and `wsdef.c`

* `base64Encode_eq`, `base64Decode_eq`: the loops of `base64.c` are the standard's encoding.  An
  empty input is not encoded: the loop behind it steps back in front of the input.
* `wsEncodeKey_eq`: so the key of a request is answered as the protocol says. -/

namespace OrderbookClient.Hv

open Json (Bytes)

/-! ### Encoding -/

/-- `base64en`. -/
def base64en : Bytes := ascii "ABCDEFGHIJKLMNOPQRSTUVWXYZabcdefghijklmnopqrstuvwxyz0123456789+/"

/-- `BASE64_PAD`. -/
def base64Pad : UInt8 := 61

/-- The byte at `i`, behind `prev`. -/
def base64EncodeByte (i : ℕ) (prev x : UInt8) : Bytes :=
  match i % 3 with
  | 0 => [base64en.getD ((x.toNat >>> 2) &&& 0x3F) 0]
  | 1 => [base64en.getD (((prev.toNat &&& 0x3) <<< 4) + ((x.toNat >>> 4) &&& 0xF)) 0]
  | _ => [base64en.getD (((prev.toNat &&& 0xF) <<< 2) + ((x.toNat >>> 6) &&& 0x3)) 0,
      base64en.getD (x.toNat &&& 0x3F) 0]

/-- The last byte again, at `i`: what is left of it, and the pads. -/
def base64EncodeLast (i : ℕ) (last : UInt8) : Bytes :=
  if i % 3 = 0 then [base64en.getD ((last.toNat &&& 0x3) <<< 4) 0, base64Pad, base64Pad]
  else if i % 3 = 1 then [base64en.getD ((last.toNat &&& 0xF) <<< 2) 0, base64Pad]
  else []

/-- The loop from `i` on. -/
def base64EncodeFrom : ℕ → UInt8 → Bytes → Bytes
  | i, prev, [] => base64EncodeLast (i - 1) prev
  | i, prev, x :: rest => base64EncodeByte i prev x ++ base64EncodeFrom (i + 1) x rest

/-- `unsigned int j`, returned as an `int`. -/
def base64Return (j : ℕ) : ℤ := Int.bmod j (2 ^ 32)

/-- `hv_base64_encode`: the characters written and the value returned.  For an empty input `i -= 1`
wraps, and the byte read then is outside; where `j` wraps the text is written over. -/
def base64Encode (input : Bytes) : Option (Bytes × ℤ) :=
  let out := base64EncodeFrom 0 0 input
  if input = [] ∨ 2 ^ 32 ≤ out.length then none else some (out, base64Return out.length)

/-! ### Decoding -/

/-- `base64de`, for the characters from `BASE64DE_FIRST` on. -/
def base64de : List ℤ := [
  62, -1, -1, -1, 63, 52, 53, 54, 55, 56, 57, 58, 59, 60, 61, -1,
  -1, -1, -1, -1, -1, -1, 0, 1, 2, 3, 4, 5, 6, 7, 8, 9,
  10, 11, 12, 13, 14, 15, 16, 17, 18, 19, 20, 21, 22, 23, 24, 25,
  -1, -1, -1, -1, -1, -1, 26, 27, 28, 29, 30, 31, 32, 33, 34, 35,
  36, 37, 38, 39, 40, 41, 42, 43, 44, 45, 46, 47, 48, 49, 50, 51]

/-- The value of a character, which is in range and not `-1`. -/
def base64Value (c : UInt8) : Option ℕ :=
  if c < 43 ∨ 122 < c then none
  else
    let v := base64de.getD (c.toNat - 43) (-1)
    if v = -1 then none else some v.toNat

/-- Whether a byte follows that begins at `i`: `d` characters from the end stands no pad.  The
subtraction is one of `unsigned int`. -/
def base64Begins (input : Bytes) (i d : ℕ) : Bool :=
  input.length < d || i < input.length - d || input.getD (input.length - (d - 1)) 0 != base64Pad

/-- The loop from `i` on: `out` is written, and `cur` stored behind it, zero where nothing is. -/
def base64DecodeFrom (input : Bytes) : ℕ → Bytes → Bytes → UInt8 → Option Bytes
  | _, [], out, _ => some out
  | i, ch :: rest, out, cur =>
      if ch = base64Pad then some out
      else
        match base64Value ch with
        | none => none
        | some c =>
            match i % 4 with
            | 0 => base64DecodeFrom input (i + 1) rest out (.ofNat ((c <<< 2) &&& 0xFF))
            | 1 => base64DecodeFrom input (i + 1) rest (out ++ [cur + .ofNat ((c >>> 4) &&& 0x3)])
                (if base64Begins input i 3 then .ofNat ((c &&& 0xF) <<< 4) else 0)
            | 2 => base64DecodeFrom input (i + 1) rest (out ++ [cur + .ofNat ((c >>> 2) &&& 0xF)])
                (if base64Begins input i 2 then .ofNat ((c &&& 0x3) <<< 6) else 0)
            | _ => base64DecodeFrom input (i + 1) rest (out ++ [cur + .ofNat c]) 0

/-- `hv_base64_decode`: the bytes written and the value returned, or `-1`.  It writes less than it
reads, so `j` does not wrap. -/
def base64Decode (input : Bytes) : Option (Bytes × ℤ) :=
  (base64DecodeFrom input 0 input [] 0).map (fun out => (out, base64Return out.length))

/-! ### The accept key -/

/-- `magic`. -/
def wsMagic : Bytes := ascii "258EAFA5-E914-47DA-95CA-C5AB0DC85B11"

/-- `ws_encode_key`, where the buffer of the context holds anything. -/
def wsEncodeKey (key buffer : Bytes) : Option Bytes := do
  let ctx ← sha1Update (sha1Init buffer) (key.take (key.length % 2 ^ 32))
  let ctx ← sha1Update ctx wsMagic
  let digest ← sha1Final ctx
  let (accept, _) ← base64Encode digest
  return accept

/-! ### The standard's encoding -/

theorem base64en_eq : base64en = Base64.alphabet := by decide +kernel

theorem base64Value_eq : ∀ c : UInt8, base64Value c = Base64.value c := by decide +kernel

theorem base64Value_lt : ∀ c : UInt8, ∀ n ∈ base64Value c, n < 64 := by decide +kernel

theorem base64en_getD (n : ℕ) : base64en.getD n 0 = Base64.digit n := by
  rw [base64en_eq]
  rfl

theorem base64EncodeByte_eq (i : ℕ) (prev x : UInt8) : base64EncodeByte i prev x =
    match i % 3 with
    | 0 => [Base64.digit (x.toNat / 4)]
    | 1 => [Base64.digit (prev.toNat % 4 * 16 + x.toNat / 16)]
    | _ => [Base64.digit (prev.toNat % 16 * 4 + x.toNat / 64), Base64.digit (x.toNat % 64)] := by
  have hx := x.toNat_lt
  have hand (m : ℕ) : m &&& 0x3 = m % 4 ∧ m &&& 0xF = m % 16 ∧ m &&& 0x3F = m % 64 :=
    ⟨Nat.and_two_pow_sub_one_eq_mod m 2, Nat.and_two_pow_sub_one_eq_mod m 4,
      Nat.and_two_pow_sub_one_eq_mod m 6⟩
  unfold base64EncodeByte
  simp only [base64en_getD, hand, Nat.shiftRight_eq_div_pow, Nat.shiftLeft_eq]
  norm_num only
  have h₂ : x.toNat / 4 % 64 = x.toNat / 4 := Nat.mod_eq_of_lt (by omega)
  have h₄ : x.toNat / 16 % 16 = x.toNat / 16 := Nat.mod_eq_of_lt (by omega)
  have h₆ : x.toNat / 64 % 4 = x.toNat / 64 := Nat.mod_eq_of_lt (by omega)
  rw [h₂, h₄, h₆]

theorem base64EncodeLast_eq (i : ℕ) (last : UInt8) : base64EncodeLast i last =
    if i % 3 = 0 then [Base64.digit (last.toNat % 4 * 16), base64Pad, base64Pad]
    else if i % 3 = 1 then [Base64.digit (last.toNat % 16 * 4), base64Pad]
    else [] := by
  have h₃ : last.toNat &&& 0x3 = last.toNat % 4 := Nat.and_two_pow_sub_one_eq_mod _ 2
  have h₁₅ : last.toNat &&& 0xF = last.toNat % 16 := Nat.and_two_pow_sub_one_eq_mod _ 4
  unfold base64EncodeLast
  simp only [base64en_getD, h₃, h₁₅, Nat.shiftLeft_eq]

theorem base64EncodeFrom_eq : ∀ {input : Bytes} {i : ℕ} (prev : UInt8), i % 3 = 0 →
    (input = [] → 0 < i) → base64EncodeFrom i prev input = Base64.encode input
  | [], i, prev, hi, hpos => by
      have hlast : (i - 1) % 3 = 2 := by
        have := hpos rfl
        omega
      rw [base64EncodeFrom, base64EncodeLast_eq, hlast]
      rfl
  | [a], i, prev, hi, _ => by
      rw [base64EncodeFrom, base64EncodeFrom, base64EncodeByte_eq, base64EncodeLast_eq, hi,
        Nat.add_sub_cancel, hi]
      rfl
  | [a, b], i, prev, hi, _ => by
      have h₁ : (i + 1) % 3 = 1 := by omega
      rw [base64EncodeFrom, base64EncodeFrom, base64EncodeFrom, base64EncodeByte_eq,
        base64EncodeByte_eq, base64EncodeLast_eq, hi, Nat.add_sub_cancel, h₁]
      rfl
  | a :: b :: c :: rest, i, prev, hi, _ => by
      have h₁ : (i + 1) % 3 = 1 := by omega
      have h₂ : (i + 1 + 1) % 3 = 2 := by omega
      have ih := @base64EncodeFrom_eq rest (i + 1 + 1 + 1) c (by omega) (fun _ => by omega)
      rw [base64EncodeFrom, base64EncodeFrom, base64EncodeFrom, ih, base64EncodeByte_eq,
        base64EncodeByte_eq, base64EncodeByte_eq, hi, h₁, h₂, Base64.encode_cons]
      rfl

theorem base64Return_of_lt {j : ℕ} (h : j < 2 ^ 31) : base64Return j = j := bmod_of_lt h

/-- **`hv_base64_encode` is the encoding**, but for the empty input. -/
theorem base64Encode_eq {input : Bytes} (h : input ≠ [])
    (hlen : (Base64.encode input).length < 2 ^ 31) :
    base64Encode input = some (Base64.encode input, ((Base64.encode input).length : ℤ)) := by
  have hout : base64EncodeFrom 0 0 input = Base64.encode input :=
    base64EncodeFrom_eq 0 rfl (fun hnil => absurd hnil h)
  unfold base64Encode
  dsimp only
  rw [hout, if_neg (not_or.mpr ⟨h, by omega⟩), base64Return_of_lt hlen]

/-! ### Decoding -/

/-- A byte that is not begun is followed by a pad, or by nothing. -/
theorem takeWhile_of_not_begins {pre rest : Bytes} {ch : UInt8} {d : ℕ} (hd : d = 2 ∨ d = 3)
    (hch : ch ≠ base64Pad) (h : base64Begins (pre ++ ch :: rest) pre.length d = false) :
    rest.takeWhile (· ≠ base64Pad) = [] := by
  unfold base64Begins at h
  simp only [Bool.or_eq_false_iff, decide_eq_false_iff_not, not_lt, bne_eq_false_iff_eq,
    List.length_append, List.length_cons] at h
  obtain ⟨⟨hlong, hnear⟩, hpad⟩ := h
  cases rest with
  | nil => rfl
  | cons x xs =>
      rw [List.length_cons] at hlong hnear hpad
      have hxs : xs.length = d - 2 := by
        by_contra hne
        -- then the character itself is the one that is looked at
        have hself : pre.length + (xs.length + 1 + 1) - (d - 1) = pre.length := by omega
        rw [hself] at hpad
        exact hch (by simpa using hpad)
      have hnext : pre.length + (xs.length + 1 + 1) - (d - 1) = pre.length + 1 := by omega
      rw [hnext] at hpad
      have hx : x = base64Pad := by
        simpa [List.getD_eq_getElem?_getD] using hpad
      simp [hx]

/-- The bits of a digit, as the masks of `hv_base64_decode` take them. -/
theorem digit_bits {c : ℕ} (h : c < 64) : (c <<< 2) &&& 0xFF = c * 4 ∧ (c >>> 4) &&& 0x3 = c / 16 ∧
    (c &&& 0xF) <<< 4 = c % 16 * 16 ∧ (c >>> 2) &&& 0xF = c / 4 ∧ (c &&& 0x3) <<< 6 = c % 4 * 64 := by
  have : ∀ c < 64, (c <<< 2) &&& 0xFF = c * 4 ∧ (c >>> 4) &&& 0x3 = c / 16 ∧
      (c &&& 0xF) <<< 4 = c % 16 * 16 ∧ (c >>> 2) &&& 0xF = c / 4 ∧ (c &&& 0x3) <<< 6 = c % 4 * 64 := by
    decide +kernel
  exact this c h

/-- From any digit on.  What the lookahead leaves out is not read again. -/
theorem base64DecodeFrom_eq (text : Bytes) : ∀ (pre out : Bytes) (cur : UInt8),
    base64DecodeFrom (pre ++ text) pre.length text out cur =
      ((text.takeWhile (· ≠ base64Pad)).mapM Base64.value).map
        (fun cs => out ++ Base64.unpackFrom pre.length cur cs) := by
  induction text with
  | nil =>
      intro pre out cur
      simp [base64DecodeFrom, Base64.unpackFrom]
  | cons ch rest ih =>
      intro pre out cur
      by_cases hch : ch = base64Pad
      · rw [base64DecodeFrom, if_pos hch, List.takeWhile_cons_of_neg (by simpa using hch)]
        simp [Base64.unpackFrom]
      · rw [base64DecodeFrom, if_neg hch, List.takeWhile_cons_of_pos (by simpa using hch),
          List.mapM_cons, ← base64Value_eq]
        cases hvalue : base64Value ch with
        | none => simp
        | some c =>
            have hlt : c < 64 := base64Value_lt ch c hvalue
            obtain ⟨h₀, h₁, h₁', h₂, h₂'⟩ := digit_bits hlt
            have hnext := ih (pre ++ [ch])
            simp only [List.append_assoc, List.cons_append, List.nil_append, List.length_append,
              List.length_cons, List.length_nil, Nat.zero_add] at hnext
            have hskip (d : ℕ) (hd : d = 2 ∨ d = 3)
                (h : base64Begins (pre ++ ch :: rest) pre.length d = false) :
                rest.takeWhile (· ≠ base64Pad) = [] := takeWhile_of_not_begins hd hch h
            have htail : (do
                let c' ← some c
                let cs ← (rest.takeWhile (· ≠ base64Pad)).mapM Base64.value
                pure (c' :: cs)) =
                ((rest.takeWhile (· ≠ base64Pad)).mapM Base64.value).map (fun cs => c :: cs) := by
              cases (rest.takeWhile (· ≠ base64Pad)).mapM Base64.value <;> rfl
            rw [htail, Option.map_map]
            have hmod : pre.length % 4 < 4 := Nat.mod_lt _ (by omega)
            generalize hr : pre.length % 4 = r at hmod
            interval_cases r
            · simp only [hnext, h₀]
              simp [Function.comp_def, Base64.unpackFrom, hr]
            · simp only [hnext, h₁, h₁']
              cases hbegins : base64Begins (pre ++ ch :: rest) pre.length 3 with
              | true => simp [Function.comp_def, Base64.unpackFrom, hr]
              | false =>
                  rw [hskip 3 (.inr rfl) hbegins]
                  simp [Base64.unpackFrom, hr]
            · simp only [hnext, h₂, h₂']
              cases hbegins : base64Begins (pre ++ ch :: rest) pre.length 2 with
              | true => simp [Function.comp_def, Base64.unpackFrom, hr]
              | false =>
                  rw [hskip 2 (.inl rfl) hbegins]
                  simp [Base64.unpackFrom, hr]
            · simp only [hnext]
              simp [Function.comp_def, Base64.unpackFrom, hr]

/-- **`hv_base64_decode` is the decoding**, up to the first pad. -/
theorem base64Decode_eq (input : Bytes) :
    base64Decode input = (Base64.decode input).map (fun out => (out, base64Return out.length)) := by
  have h := base64DecodeFrom_eq input [] [] 0
  simp only [List.nil_append, List.length_nil] at h
  unfold base64Decode Base64.decode
  rw [h]
  congr 2
  funext cs
  exact Base64.unpackFrom_eq 0 rfl

/-- **What `hv_base64_encode` writes, `hv_base64_decode` reads back**, as long as its length is an
`int`. -/
theorem base64_roundTrip {input : Bytes} (h : input ≠ [])
    (hlen : (input.length + 2) / 3 * 4 < 2 ^ 31) :
    ∃ text, base64Encode input = some (text, (text.length : ℤ)) ∧
      text.length = (input.length + 2) / 3 * 4 ∧
      base64Decode text = some (input, (input.length : ℤ)) := by
  have htext := Base64.length_encode input
  refine ⟨_, base64Encode_eq h (htext ▸ hlen), htext, ?_⟩
  rw [base64Decode_eq, Base64.decode_encode, Option.map_some, base64Return_of_lt (by omega)]

theorem base64_roundTrip_text :
    ∃ text, base64Encode (ascii "the sample nonce") = some (text, (text.length : ℤ)) ∧
      text.length = 24 ∧ base64Decode text = some (ascii "the sample nonce", 16) :=
  base64_roundTrip (by decide) (by decide)

/-! ### The key -/

/-- The accept key of the protocol. -/
def acceptKey (key : Bytes) : Bytes := Base64.encode (Sha1.hash (key ++ wsMagic))

@[simp] theorem length_acceptKey (key : Bytes) : (acceptKey key).length = 28 := by
  rw [acceptKey, Base64.length_encode, Sha1.length_hash]

/-- **`ws_encode_key` is the accept key.** -/
theorem wsEncodeKey_eq {key buffer : Bytes} (hbuffer : buffer.length = 64)
    (hkey : key.length + 64 ≤ 2 ^ 32) : wsEncodeKey key buffer = some (acceptKey key) := by
  have hmagic : wsMagic.length = 36 := by decide
  have htake : key.take (key.length % 2 ^ 32) = key := by
    rw [Nat.mod_eq_of_lt (by omega), List.take_length]
  have hfits : ∀ data ∈ [key, wsMagic], data.length + 64 ≤ 2 ^ 32 := by
    simp only [List.mem_cons, List.not_mem_nil, or_false, forall_eq_or_imp, forall_eq]
    omega
  obtain ⟨ctx, hchunks, habsorbed⟩ := absorbed_chunks (absorbed_init buffer hbuffer) hfits
  have hdigest : sha1Final ctx = some (Sha1.hash (key ++ wsMagic)) := by
    have := sha1Final_absorbed habsorbed
    simpa using this
  have hne : Sha1.hash (key ++ wsMagic) ≠ [] := by
    apply List.ne_nil_of_length_pos
    simp
  simp only [List.foldlM_cons, List.foldlM_nil, Option.bind_eq_bind, Option.pure_def] at hchunks
  unfold wsEncodeKey
  rw [htake]
  cases hfirst : sha1Update (sha1Init buffer) key with
  | none => simp [hfirst] at hchunks
  | some ctx₁ =>
      rw [hfirst, Option.bind_some] at hchunks
      cases hsecond : sha1Update ctx₁ wsMagic with
      | none => simp [hsecond] at hchunks
      | some ctx₂ =>
          obtain rfl : ctx₂ = ctx := by simpa [hsecond] using hchunks
          have hencode := base64Encode_eq hne (by rw [Base64.length_encode, Sha1.length_hash]; norm_num)
          simp only [Option.bind_eq_bind, Option.bind_some, hsecond, hdigest, hencode]
          rfl

example : (wsEncodeKey (ascii "dGhlIHNhbXBsZSBub25jZQ==") (List.replicate 64 0)) =
    some (ascii "s3pPLMBiTxaQ9kYGzzhZRbK+xOo=") := by
  decide +kernel

end OrderbookClient.Hv
