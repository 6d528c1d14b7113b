import Mathlib.Data.UInt
import Mathlib.Data.List.Basic
import Mathlib.Tactic.Cases

/-! # Base64, as the standard has it

Three bytes are four digits of six bits each.  Behind the digits of an incomplete group stand pads.

`decode_encode`: what is encoded is decoded again. -/

namespace OrderbookClient.Base64

/-- The digits of the alphabet, in order. -/
def alphabet : List UInt8 :=
  "ABCDEFGHIJKLMNOPQRSTUVWXYZabcdefghijklmnopqrstuvwxyz0123456789+/".toList.map
    (fun c => UInt8.ofNat c.toNat)

def pad : UInt8 := 61

def digit (n : ℕ) : UInt8 := alphabet.getD n 0

/-- The value of a digit. -/
def value (c : UInt8) : Option ℕ := alphabet.findIdx? (· == c)

/-- Bytes as digits. -/
def pack : List UInt8 → List ℕ
  | [] => []
  | [a] => [a.toNat / 4, a.toNat % 4 * 16]
  | [a, b] => [a.toNat / 4, a.toNat % 4 * 16 + b.toNat / 16, b.toNat % 16 * 4]
  | a :: b :: c :: rest =>
      a.toNat / 4 :: (a.toNat % 4 * 16 + b.toNat / 16) :: (b.toNat % 16 * 4 + c.toNat / 64) ::
        c.toNat % 64 :: pack rest

/-- Digits as bytes; a digit alone gives none. -/
def unpack : List ℕ → List UInt8
  | a :: b :: c :: d :: rest =>
      .ofNat (a * 4 + b / 16) :: .ofNat (b % 16 * 16 + c / 4) :: .ofNat (c % 4 * 64 + d) :: unpack rest
  | [a, b, c] => [.ofNat (a * 4 + b / 16), .ofNat (b % 16 * 16 + c / 4)]
  | [a, b] => [.ofNat (a * 4 + b / 16)]
  | _ => []

def encode (bytes : List UInt8) : List UInt8 :=
  (pack bytes).map digit ++ List.replicate ((3 - bytes.length % 3) % 3) pad

/-- The digits up to the first pad. -/
def decode (text : List UInt8) : Option (List UInt8) :=
  ((text.takeWhile (· ≠ pad)).mapM value).map unpack

/-! ### Groups -/

theorem encode_cons (a b c : UInt8) (rest : List UInt8) : encode (a :: b :: c :: rest) =
    digit (a.toNat / 4) :: digit (a.toNat % 4 * 16 + b.toNat / 16) ::
      digit (b.toNat % 16 * 4 + c.toNat / 64) :: digit (c.toNat % 64) :: encode rest := by
  have hlen : (a :: b :: c :: rest).length % 3 = rest.length % 3 := by
    simp only [List.length_cons]
    omega
  unfold encode
  rw [hlen]
  simp [pack]

/-- Digit by digit: `cur` are the bits of the byte that is not complete, with `i` digits read. -/
def unpackFrom : ℕ → UInt8 → List ℕ → List UInt8
  | _, _, [] => []
  | i, cur, c :: cs =>
      match i % 4 with
      | 0 => unpackFrom (i + 1) (.ofNat (c * 4)) cs
      | 1 => (cur + .ofNat (c / 16)) :: unpackFrom (i + 1) (.ofNat (c % 16 * 16)) cs
      | 2 => (cur + .ofNat (c / 4)) :: unpackFrom (i + 1) (.ofNat (c % 4 * 64)) cs
      | _ => (cur + .ofNat c) :: unpackFrom (i + 1) 0 cs

theorem unpackFrom_eq : ∀ {cs : List ℕ} {i : ℕ} (cur : UInt8), i % 4 = 0 →
    unpackFrom i cur cs = unpack cs
  | [], i, cur, _ => rfl
  | [a], i, cur, hi => by simp [unpackFrom, unpack, hi]
  | [a, b], i, cur, hi => by
      have h₁ : (i + 1) % 4 = 1 := by omega
      simp [unpackFrom, unpack, hi, h₁, UInt8.ofNat_add]
  | [a, b, c], i, cur, hi => by
      have h₁ : (i + 1) % 4 = 1 := by omega
      have h₂ : (i + 1 + 1) % 4 = 2 := by omega
      simp [unpackFrom, unpack, hi, h₁, h₂, UInt8.ofNat_add]
  | a :: b :: c :: d :: rest, i, cur, hi => by
      have h₁ : (i + 1) % 4 = 1 := by omega
      have h₂ : (i + 1 + 1) % 4 = 2 := by omega
      have h₃ : (i + 1 + 1 + 1) % 4 = 3 := by omega
      have ih := @unpackFrom_eq rest (i + 1 + 1 + 1 + 1) 0 (by omega)
      simp only [unpackFrom, unpack, hi, h₁, h₂, h₃, UInt8.ofNat_add, ih]

/-! ### Round trip -/

theorem value_digit {n : ℕ} (h : n < 64) : value (digit n) = some n := by
  have : ∀ n < 64, value (digit n) = some n := by decide +kernel
  exact this n h

theorem digit_ne_pad {n : ℕ} (h : n < 64) : digit n ≠ pad := by
  have : ∀ n < 64, digit n ≠ pad := by decide +kernel
  exact this n h

theorem pack_lt : ∀ {bytes : List UInt8}, ∀ n ∈ pack bytes, n < 64
  | [], n, h => by simp [pack] at h
  | [a], n, h => by
      have := a.toNat_lt
      simp only [pack, List.mem_cons, List.not_mem_nil, or_false] at h
      omega
  | [a, b], n, h => by
      have := a.toNat_lt
      have := b.toNat_lt
      simp only [pack, List.mem_cons, List.not_mem_nil, or_false] at h
      omega
  | a :: b :: c :: rest, n, h => by
      have := a.toNat_lt
      have := b.toNat_lt
      have := c.toNat_lt
      simp only [pack, List.mem_cons] at h
      obtain rfl | rfl | rfl | rfl | h := h
      · omega
      · omega
      · omega
      · omega
      · exact pack_lt n h

theorem ofNat_eq {n : ℕ} {a : UInt8} (h : n = a.toNat) : UInt8.ofNat n = a := by
  rw [h, UInt8.ofNat_toNat]

theorem unpack_pack : ∀ bytes : List UInt8, unpack (pack bytes) = bytes
  | [] => rfl
  | [a] => by
      have := a.toNat_lt
      simp only [pack, unpack]
      rw [ofNat_eq (a := a) (by omega)]
  | [a, b] => by
      have := a.toNat_lt
      have := b.toNat_lt
      simp only [pack, unpack]
      rw [ofNat_eq (a := a) (by omega), ofNat_eq (a := b) (by omega)]
  | a :: b :: c :: rest => by
      have := a.toNat_lt
      have := b.toNat_lt
      have := c.toNat_lt
      simp only [pack, unpack]
      rw [ofNat_eq (a := a) (by omega), ofNat_eq (a := b) (by omega), ofNat_eq (a := c) (by omega),
        unpack_pack rest]

theorem mapM_value : ∀ {ns : List ℕ}, (∀ n ∈ ns, n < 64) → (ns.map digit).mapM value = some ns
  | [], _ => rfl
  | n :: ns, h => by
      have h' : n < 64 ∧ ∀ m ∈ ns, m < 64 := by simpa using h
      simp [value_digit h'.1, mapM_value h'.2]

/-- **What is encoded is decoded again.** -/
theorem decode_encode (bytes : List UInt8) : decode (encode bytes) = some bytes := by
  have htake : (encode bytes).takeWhile (· ≠ pad) = (pack bytes).map digit := by
    unfold encode
    rw [List.takeWhile_append_of_pos, List.takeWhile_replicate]
    · simp
    · intro c hc
      obtain ⟨n, hn, rfl⟩ := List.mem_map.mp hc
      simpa using digit_ne_pad (pack_lt n hn)
  unfold decode
  rw [htake, mapM_value pack_lt, Option.map_some, unpack_pack]

theorem encode_ne_zero (bytes : List UInt8) : ∀ c ∈ encode bytes, c ≠ 0 := by
  have hdigit : ∀ n < 64, digit n ≠ 0 := by decide +kernel
  intro c hc
  obtain hc | hc := List.mem_append.mp hc
  · obtain ⟨n, hn, rfl⟩ := List.mem_map.mp hc
    exact hdigit n (pack_lt n hn)
  · rw [List.eq_of_mem_replicate hc]
    decide

theorem length_pack : ∀ bytes : List UInt8, (pack bytes).length = (4 * bytes.length + 2) / 3
  | [] => rfl
  | [a] => by simp [pack]
  | [a, b] => by simp [pack]
  | a :: b :: c :: rest => by
      simp only [pack, List.length_cons, length_pack rest]
      omega

/-- The pads fill the last group. -/
theorem length_encode (bytes : List UInt8) :
    (encode bytes).length = (bytes.length + 2) / 3 * 4 := by
  simp only [encode, List.length_append, List.length_map, List.length_replicate, length_pack]
  omega

end OrderbookClient.Base64
