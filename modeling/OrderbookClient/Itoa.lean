import OrderbookClient.JsonGrammar

/-! # Decimal printing: `internal/itoa.h`

`u32toa` and `i32toa` print through a table of two-digit pairs, with one branch for numbers of
at most four, at most eight and up to ten digits.  An output buffer is modelled by the list of
bytes written to it.

Every branch is first rewritten as a list of digit values (`map digit`), and one lemma about
such lists (`decimal_of_digits`) gives both facts that matter: the text is an integer part of
the JSON grammar, without a leading zero, and it denotes the number printed
(`u32toa_decimal`, `i32toa_number`). -/

namespace OrderbookClient.RapidJson

open OrderbookClient.Json

/-! ### Executable definitions -/

/-- `cDigitsLut`: the digit pairs `00` to `99`. -/
def digitsLut : Bytes :=
  [
    0x30, 0x30, 0x30, 0x31, 0x30, 0x32, 0x30, 0x33, 0x30, 0x34, 0x30, 0x35, 0x30, 0x36, 0x30, 0x37, 0x30, 0x38, 0x30, 0x39,
    0x31, 0x30, 0x31, 0x31, 0x31, 0x32, 0x31, 0x33, 0x31, 0x34, 0x31, 0x35, 0x31, 0x36, 0x31, 0x37, 0x31, 0x38, 0x31, 0x39,
    0x32, 0x30, 0x32, 0x31, 0x32, 0x32, 0x32, 0x33, 0x32, 0x34, 0x32, 0x35, 0x32, 0x36, 0x32, 0x37, 0x32, 0x38, 0x32, 0x39,
    0x33, 0x30, 0x33, 0x31, 0x33, 0x32, 0x33, 0x33, 0x33, 0x34, 0x33, 0x35, 0x33, 0x36, 0x33, 0x37, 0x33, 0x38, 0x33, 0x39,
    0x34, 0x30, 0x34, 0x31, 0x34, 0x32, 0x34, 0x33, 0x34, 0x34, 0x34, 0x35, 0x34, 0x36, 0x34, 0x37, 0x34, 0x38, 0x34, 0x39,
    0x35, 0x30, 0x35, 0x31, 0x35, 0x32, 0x35, 0x33, 0x35, 0x34, 0x35, 0x35, 0x35, 0x36, 0x35, 0x37, 0x35, 0x38, 0x35, 0x39,
    0x36, 0x30, 0x36, 0x31, 0x36, 0x32, 0x36, 0x33, 0x36, 0x34, 0x36, 0x35, 0x36, 0x36, 0x36, 0x37, 0x36, 0x38, 0x36, 0x39,
    0x37, 0x30, 0x37, 0x31, 0x37, 0x32, 0x37, 0x33, 0x37, 0x34, 0x37, 0x35, 0x37, 0x36, 0x37, 0x37, 0x37, 0x38, 0x37, 0x39,
    0x38, 0x30, 0x38, 0x31, 0x38, 0x32, 0x38, 0x33, 0x38, 0x34, 0x38, 0x35, 0x38, 0x36, 0x38, 0x37, 0x38, 0x38, 0x38, 0x39,
    0x39, 0x30, 0x39, 0x31, 0x39, 0x32, 0x39, 0x33, 0x39, 0x34, 0x39, 0x35, 0x39, 0x36, 0x39, 0x37, 0x39, 0x38, 0x39, 0x39]

def lut (i : ℕ) : UInt8 := digitsLut.getD i 0

/-- `u32toa`: the bytes written for an unsigned 32-bit value. -/
def u32toa (value : ℕ) : Bytes :=
  if value < 10000 then
    let d1 := (value / 100) <<< 1
    let d2 := (value % 100) <<< 1
    (if value ≥ 1000 then [lut d1] else []) ++
    (if value ≥ 100 then [lut (d1 + 1)] else []) ++
    (if value ≥ 10 then [lut d2] else []) ++
    [lut (d2 + 1)]
  else if value < 100000000 then
    -- value = bbbbcccc
    let b := value / 10000
    let c := value % 10000
    let d1 := (b / 100) <<< 1
    let d2 := (b % 100) <<< 1
    let d3 := (c / 100) <<< 1
    let d4 := (c % 100) <<< 1
    (if value ≥ 10000000 then [lut d1] else []) ++
    (if value ≥ 1000000 then [lut (d1 + 1)] else []) ++
    (if value ≥ 100000 then [lut d2] else []) ++
    [lut (d2 + 1), lut d3, lut (d3 + 1), lut d4, lut (d4 + 1)]
  else
    -- value = aabbbbcccc
    let a := value / 100000000
    let value := value % 100000000
    let b := value / 10000
    let c := value % 10000
    let d1 := (b / 100) <<< 1
    let d2 := (b % 100) <<< 1
    let d3 := (c / 100) <<< 1
    let d4 := (c % 100) <<< 1
    (if a ≥ 10 then [lut (a <<< 1), lut (a <<< 1 + 1)] else [(0x30 + a).toUInt8]) ++
    [lut d1, lut (d1 + 1), lut d2, lut (d2 + 1), lut d3, lut (d3 + 1), lut d4, lut (d4 + 1)]

/-- `i32toa`: a minus sign and the magnitude `~u + 1` for a negative value. -/
def i32toa (value : ℤ) : Bytes :=
  let u := (value % 2 ^ 32).toNat
  if value < 0 then 0x2D :: u32toa ((2 ^ 32 - 1 - u + 1) % 2 ^ 32) else u32toa u

/-! ### Digit lists -/

/-- The byte of a digit value. -/
def digit (k : ℕ) : UInt8 := (0x30 + k).toUInt8

theorem isDigit_digit : ∀ k < 10, isDigit (digit k) = true := by decide

theorem digit_sub : ∀ k < 10, (digit k).toNat - 0x30 = k := by decide

theorem digit_ne_zero : ∀ k < 10, k ≠ 0 → digit k ≠ 0x30 := by decide

theorem lut_even : ∀ i < 100, lut (i <<< 1) = digit (i / 10) := by decide

theorem lut_odd : ∀ i < 100, lut (i <<< 1 + 1) = digit (i % 10) := by decide

/-- `s` is the decimal text of `v`. -/
def Decimal (s : Bytes) (v : ℕ) : Prop := IntPart s ∧ digitsVal s = v

theorem digitsVal_map (ks : List ℕ) (hk : ∀ k ∈ ks, k < 10) :
    digitsVal (ks.map digit) = ks.foldl (fun n k => 10 * n + k) 0 := by
  unfold digitsVal
  rw [List.foldl_map]
  refine List.foldl_ext _ _ 0 ?_
  intro n k hmem
  rw [digit_sub k (hk k hmem)]

/-- A digit list without leading zero is the decimal text of its value. -/
theorem decimal_of_digits (k : ℕ) (ks : List ℕ) (hk : ∀ i ∈ k :: ks, i < 10)
    (hz : k ≠ 0 ∨ ks = []) {v : ℕ} (hv : (k :: ks).foldl (fun n i => 10 * n + i) 0 = v) :
    Decimal ((k :: ks).map digit) v := by
  refine ⟨?_, (digitsVal_map _ hk).trans hv⟩
  rcases Nat.eq_zero_or_pos k with rfl | hpos
  · have hnil : ks = [] := by
      rcases hz with h | h
      · exact absurd rfl h
      · exact h
    subst hnil
    exact .zero
  · have hk' := hk k (by simp)
    refine .pos (isDigit_digit k hk') (digit_ne_zero k hk' (by omega)) ?_
    intro b hb
    obtain ⟨i, hi, rfl⟩ := List.mem_map.mp hb
    exact isDigit_digit i (hk i (by simp [hi]))

/-! ### The printers -/

theorem u32toa_decimal_small {v : ℕ} (hv : v < 10000) : Decimal (u32toa v) v := by
  have h1 : v / 100 < 100 := by omega
  have h2 : v % 100 < 100 := by omega
  unfold u32toa
  simp only [if_pos hv, lut_even _ h1, lut_odd _ h1, lut_even _ h2, lut_odd _ h2]
  rcases Nat.lt_or_ge v 10 with h | h
  · rw [if_neg (by omega), if_neg (by omega), if_neg (by omega)]
    exact decimal_of_digits (v % 100 % 10) [] (by simp; omega) (Or.inr rfl)
      (by simp; omega)
  rcases Nat.lt_or_ge v 100 with h' | h'
  · rw [if_neg (by omega), if_neg (by omega), if_pos h]
    exact decimal_of_digits (v % 100 / 10) [v % 100 % 10] (by simp; omega)
      (Or.inl (by omega)) (by simp; omega)
  rcases Nat.lt_or_ge v 1000 with h'' | h''
  · rw [if_neg (by omega), if_pos h', if_pos h]
    exact decimal_of_digits (v / 100 % 10) [v % 100 / 10, v % 100 % 10]
      (by simp; omega) (Or.inl (by omega)) (by simp; omega)
  · rw [if_pos h'', if_pos h', if_pos h]
    exact decimal_of_digits (v / 100 / 10) [v / 100 % 10, v % 100 / 10, v % 100 % 10]
      (by simp; omega) (Or.inl (by omega)) (by simp; omega)

theorem Decimal.append {s : Bytes} {v : ℕ} (h : Decimal s v) (hv : v ≠ 0) {ks : List ℕ}
    (hk : ∀ k ∈ ks, k < 10) :
    Decimal (s ++ ks.map digit) (ks.foldl (fun n k => 10 * n + k) v) := by
  obtain ⟨hi, hd⟩ := h
  have hval : digitsVal (s ++ ks.map digit) = ks.foldl (fun n k => 10 * n + k) v := by
    rw [digitsVal, List.foldl_append, ← digitsVal, hd, List.foldl_map]
    refine List.foldl_ext _ _ v ?_
    intro n k hmem
    rw [digit_sub k (hk k hmem)]
  refine ⟨?_, hval⟩
  cases hi with
  | zero => exact absurd hd.symm hv
  | pos hdig hne hds =>
      refine .pos hdig hne ?_
      intro b hb
      rcases List.mem_append.mp hb with hb | hb
      · exact hds b hb
      · obtain ⟨i, hi, rfl⟩ := List.mem_map.mp hb
        exact isDigit_digit i (hk i hi)

/-- The four digits of a number below 10000, leading zeros included. -/
def four (c : ℕ) : List ℕ := [c / 100 / 10, c / 100 % 10, c % 100 / 10, c % 100 % 10]

theorem four_lt {c : ℕ} (hc : c < 10000) : ∀ k ∈ four c, k < 10 := by
  simp [four]
  omega

theorem lut_four {c : ℕ} (hc : c < 10000) :
    [lut ((c / 100) <<< 1), lut ((c / 100) <<< 1 + 1), lut ((c % 100) <<< 1),
      lut ((c % 100) <<< 1 + 1)] = (four c).map digit := by
  rw [lut_even _ (by omega), lut_odd _ (by omega), lut_even _ (by omega), lut_odd _ (by omega)]
  rfl

theorem Decimal.append_four {s : Bytes} {v : ℕ} (h : Decimal s v) (hv : v ≠ 0) {c : ℕ}
    (hc : c < 10000) : Decimal (s ++ (four c).map digit) (10000 * v + c) := by
  have := h.append hv (four_lt hc)
  have hval : (four c).foldl (fun n k => 10 * n + k) v = 10000 * v + c := by
    simp only [four, List.foldl_cons, List.foldl_nil]
    omega
  rwa [hval] at this

/-- The branch for five to eight digits: the upper half, then four digits. -/
theorem u32toa_mid {v : ℕ} (h1 : 10000 ≤ v) (h2 : v < 100000000) :
    u32toa v = u32toa (v / 10000) ++ (four (v % 10000)).map digit := by
  rw [u32toa, if_neg (by omega), if_pos h2, u32toa, if_pos (show v / 10000 < 10000 by omega),
    ← lut_four (by omega)]
  have e1 : (v ≥ 10000000) = (v / 10000 ≥ 1000) := propext (by omega)
  have e2 : (v ≥ 1000000) = (v / 10000 ≥ 100) := propext (by omega)
  have e3 : (v ≥ 100000) = (v / 10000 ≥ 10) := propext (by omega)
  simp only [e1, e2, e3, List.append_assoc, List.cons_append, List.nil_append]

/-- The branch for nine and ten digits: one or two digits, then twice four. -/
theorem u32toa_large {v : ℕ} (h1 : 100000000 ≤ v) (h2 : v < 2 ^ 32) :
    u32toa v = u32toa (v / 100000000) ++ (four (v % 100000000 / 10000)).map digit ++
      (four (v % 100000000 % 10000)).map digit := by
  have ha : v / 100000000 < 100 := by omega
  rw [u32toa, if_neg (by omega), if_neg (by omega), u32toa,
    if_pos (show v / 100000000 < 10000 by omega), ← lut_four (by omega), ← lut_four (by omega)]
  have e1 : v / 100000000 % 100 = v / 100000000 := Nat.mod_eq_of_lt ha
  have e2 : ¬ v / 100000000 ≥ 1000 := by omega
  have e3 : ¬ v / 100000000 ≥ 100 := by omega
  simp only [e1, if_neg e2, if_neg e3, List.append_assoc, List.cons_append, List.nil_append]
  rcases Nat.lt_or_ge (v / 100000000) 10 with h | h
  · have hdig : (0x30 + v / 100000000).toUInt8 = lut ((v / 100000000) <<< 1 + 1) := by
      rw [lut_odd _ ha, Nat.mod_eq_of_lt h, digit]
    simp only [if_neg (Nat.not_le.mpr h), hdig, List.cons_append, List.nil_append]
  · simp only [if_pos h, List.cons_append, List.nil_append]

/-- **`u32toa` prints the decimal text of every 32-bit value.** -/
theorem u32toa_decimal {v : ℕ} (hv : v < 2 ^ 32) : Decimal (u32toa v) v := by
  rcases Nat.lt_or_ge v 10000 with h | h
  · exact u32toa_decimal_small h
  rcases Nat.lt_or_ge v 100000000 with h' | h'
  · rw [u32toa_mid h h']
    have := (u32toa_decimal_small (v := v / 10000) (by omega)).append_four (by omega)
      (c := v % 10000) (by omega)
    rwa [show 10000 * (v / 10000) + v % 10000 = v by omega] at this
  · rw [u32toa_large h' hv]
    have h1 := (u32toa_decimal_small (v := v / 100000000) (by omega)).append_four (by omega)
      (c := v % 100000000 / 10000) (by omega)
    have h2 := h1.append_four (by omega) (c := v % 100000000 % 10000) (by omega)
    rwa [show 10000 * (10000 * (v / 100000000) + v % 100000000 / 10000) + v % 100000000 % 10000
      = v by omega] at h2

theorem u32toa_length {v : ℕ} (hv : v < 2 ^ 32) : (u32toa v).length ≤ 10 := by
  have small : ∀ w < 10000, (u32toa w).length ≤ 4 := by
    intro w hw
    simp only [u32toa, if_pos hw, List.length_append, List.length_singleton]
    split_ifs <;> simp
  rcases Nat.lt_or_ge v 10000 with h | h
  · exact (small v h).trans (by omega)
  rcases Nat.lt_or_ge v 100000000 with h' | h'
  · have := small (v / 10000) (by omega)
    simp only [u32toa_mid h h', List.length_append, List.length_map, four, List.length_cons,
      List.length_nil]
    omega
  · have h2 : (u32toa (v / 100000000)).length ≤ 2 := by
      have ha : v / 100000000 < 100 := by omega
      simp only [u32toa, if_pos (show v / 100000000 < 10000 by omega),
        if_neg (show ¬ v / 100000000 ≥ 1000 by omega),
        if_neg (show ¬ v / 100000000 ≥ 100 by omega), List.length_append, List.length_singleton]
      split_ifs <;> simp
    simp only [u32toa_large h' hv, List.length_append, List.length_map, four, List.length_cons,
      List.length_nil]
    omega

/-- The values of a 32-bit `int`. -/
def IsInt32 (i : ℤ) : Prop := -2 ^ 31 ≤ i ∧ i < 2 ^ 31

/-- **`i32toa` prints a JSON number denoting its argument**, for every `int`. -/
theorem i32toa_number {i : ℤ} (hi : IsInt32 i) : Number (i32toa i) (i : ℚ) := by
  obtain ⟨h1, h2⟩ := hi
  unfold i32toa
  by_cases hneg : i < 0
  · have hm : (2 ^ 32 - 1 - (i % 2 ^ 32).toNat + 1) % 2 ^ 32 = i.natAbs := by omega
    obtain ⟨hint, hval⟩ := u32toa_decimal (v := i.natAbs) (by omega)
    have hnum := Number.ofNegInt hint
    have hcast : (i : ℚ) = -(i.natAbs : ℚ) := by
      have : i = -(i.natAbs : ℤ) := by omega
      exact_mod_cast this
    simp only [if_pos hneg, hm]
    rwa [hval, ← hcast] at hnum
  · have hm : (i % 2 ^ 32).toNat = i.toNat := by omega
    obtain ⟨hint, hval⟩ := u32toa_decimal (v := i.toNat) (by omega)
    have hnum := Number.ofInt hint
    have hcast : (i : ℚ) = (i.toNat : ℚ) := by
      have : i = (i.toNat : ℤ) := by omega
      exact_mod_cast this
    simp only [if_neg hneg, hm]
    rwa [hval, ← hcast] at hnum

/-- The buffer of eleven bytes `WriteInt` provides is long enough. -/
theorem i32toa_length {i : ℤ} (hi : IsInt32 i) : (i32toa i).length ≤ 11 := by
  obtain ⟨h1, h2⟩ := hi
  unfold i32toa
  by_cases hneg : i < 0
  · have hm : (2 ^ 32 - 1 - (i % 2 ^ 32).toNat + 1) % 2 ^ 32 = i.natAbs := by omega
    have := u32toa_length (v := i.natAbs) (by omega)
    simp only [if_pos hneg, hm, List.length_cons]
    omega
  · have hm : (i % 2 ^ 32).toNat = i.toNat := by omega
    have := u32toa_length (v := i.toNat) (by omega)
    simp only [if_neg hneg, hm]
    omega

theorem i32toa_ne_zero {i : ℤ} (hi : IsInt32 i) : ∀ b ∈ i32toa i, b ≠ 0 := by
  rintro b hb rfl
  have hint : ∀ {s : Bytes}, IntPart s → (0 : UInt8) ∉ s := by
    intro s hs hmem
    cases hs with
    | zero => simp at hmem
    | pos hd _ hds =>
        rcases List.mem_cons.mp hmem with h | h
        · exact absurd (h ▸ hd) (by decide)
        · exact absurd (hds 0 h) (by decide)
  have hu : ∀ v < 2 ^ 32, (0 : UInt8) ∉ u32toa v := fun v hv => hint (u32toa_decimal hv).1
  unfold i32toa at hb
  split_ifs at hb
  · rcases List.mem_cons.mp hb with h | h
    · exact absurd h (by decide)
    · exact hu _ (Nat.mod_lt _ (by norm_num)) h
  · obtain ⟨h1, h2⟩ := hi
    exact hu _ (by omega) hb

end OrderbookClient.RapidJson
