import Mathlib.Tactic.IntervalCases
import OrderbookClient.CString
import OrderbookClient.Sha1

/-! # SHA-1, as it is written: `sha1.c`

`HV_SHA1Transform` keeps the schedule in sixteen words that it overwrites round by round, and
`HV_SHA1Update` a buffer of 64 bytes and a count of bits in two words.

* `transform_eq`: a block is compressed as the standard says.
* `sha1Final_absorbed`: so is every message, in whatever chunks it comes.
* `hvSha1_eq`, `hvSHA1_eq`: the whole message and byte after byte give the same digest. -/

namespace OrderbookClient.Hv

open Json (Bytes)

/-! ### One block -/

/-- `rol`. -/
def rol (value bits : UInt32) : UInt32 := value <<< bits ||| value >>> (32 - bits)

/-- A word of memory, as a little-endian machine loads it. -/
def loadWord (b₀ b₁ b₂ b₃ : UInt8) : UInt32 :=
  b₀.toUInt32 ||| b₁.toUInt32 <<< 8 ||| b₂.toUInt32 <<< 16 ||| b₃.toUInt32 <<< 24

/-- `blk0`: the word, and the block with it stored. -/
def blk0 (block : List UInt32) (i : ℕ) : UInt32 × List UInt32 :=
  let x := block.getD i 0
  let w := rol x 24 &&& (0xFF00FF00 : UInt32) ||| rol x 8 &&& (0x00FF00FF : UInt32)
  (w, block.set i w)

/-- `blk`. -/
def blk (block : List UInt32) (i : ℕ) : UInt32 × List UInt32 :=
  let w := rol (block.getD ((i + 13) &&& 15) 0 ^^^ block.getD ((i + 8) &&& 15) 0 ^^^
    block.getD ((i + 2) &&& 15) 0 ^^^ block.getD (i &&& 15) 0) 1
  (w, block.set (i &&& 15) w)

/-- The variables of `HV_SHA1Transform`, under the names `v` to `z` that the next round gives
them, as `a` to `e`. -/
structure Sha1Vars where
  vars : Sha1.State
  block : List UInt32

/-- A round: it changes `z` and `w`, and the next one has `z` in the place of `v`. -/
def sha1Round (f : UInt32 → UInt32 → UInt32 → UInt32) (k : UInt32)
    (blk : List UInt32 → ℕ → UInt32 × List UInt32) (s : Sha1Vars) (i : ℕ) : Sha1Vars :=
  let ⟨v, w, x, y, z⟩ := s.vars
  let b := blk s.block i
  ⟨⟨z + (f w x y + b.1 + k + rol v 5), v, rol w 30, x, y⟩, b.2⟩

def R0 : Sha1Vars → ℕ → Sha1Vars :=
  sha1Round (fun w x y => (w &&& (x ^^^ y)) ^^^ y) 0x5A827999 blk0

def R1 : Sha1Vars → ℕ → Sha1Vars :=
  sha1Round (fun w x y => (w &&& (x ^^^ y)) ^^^ y) 0x5A827999 blk

def R2 : Sha1Vars → ℕ → Sha1Vars := sha1Round (fun w x y => w ^^^ x ^^^ y) 0x6ED9EBA1 blk

def R3 : Sha1Vars → ℕ → Sha1Vars :=
  sha1Round (fun w x y => ((w ||| x) &&& y) ||| (w &&& x)) 0x8F1BBCDC blk

def R4 : Sha1Vars → ℕ → Sha1Vars := sha1Round (fun w x y => w ^^^ x ^^^ y) 0xCA62C1D6 blk

/-- `block->l`. -/
def blockWords (buffer : Bytes) : List UInt32 :=
  (List.range 16).map (fun i => Sha1.at4 buffer (4 * i) loadWord)

/-- `HV_SHA1Transform`.  Behind eighty rounds the variables have their own names again. -/
def sha1Transform (state : Sha1.State) (buffer : Bytes) : Sha1.State :=
  let s : Sha1Vars := ⟨state, blockWords buffer⟩
  let s := (List.range' 0 16).foldl R0 s
  let s := (List.range' 16 4).foldl R1 s
  let s := (List.range' 20 20).foldl R2 s
  let s := (List.range' 40 20).foldl R3 s
  let s := (List.range' 60 20).foldl R4 s
  state.add s.vars

/-! ### A message -/

/-- `HV_SHA1_CTX`: `count[0]` are the lower bits. -/
structure Sha1Ctx where
  state : Sha1.State
  count0 : UInt32
  count1 : UInt32
  buffer : Bytes

/-- `HV_SHA1Init`.  The buffer holds anything. -/
def sha1Init (buffer : Bytes) : Sha1Ctx :=
  ⟨⟨0x67452301, 0xEFCDAB89, 0x98BADCFE, 0x10325476, 0xC3D2E1F0⟩, 0, 0, buffer⟩

/-- `memcpy(&buffer[j], data, size)`; past the end of the buffer it has no result. -/
def memcpy (buffer : Bytes) (j : ℕ) (data : Bytes) : Option Bytes :=
  if j + data.length ≤ buffer.length then
    some (buffer.take j ++ data ++ buffer.drop (j + data.length))
  else none

/-- `HV_SHA1Update`.  The sum `j + len` is one of 32 bits. -/
def sha1Update (context : Sha1Ctx) (data : Bytes) : Option Sha1Ctx :=
  let len := UInt32.ofNat data.length
  let j := context.count0
  let count0 := j + (len <<< 3)
  let count1 := (if count0 < j then context.count1 + 1 else context.count1) + (len >>> 29)
  let j := (j >>> 3) &&& 63
  if 63 < j + len then do
    let i := 64 - j.toNat
    let buffer ← memcpy context.buffer j.toNat (data.take i)
    let s := Blocks.steps 64 sha1Transform ((data.length - i) / 64) (sha1Transform context.state buffer)
      (data.drop i)
    let buffer ← memcpy buffer 0 s.2
    some ⟨s.1, count0, count1, buffer⟩
  else do
    let buffer ← memcpy context.buffer j.toNat data
    some ⟨context.state, count0, count1, buffer⟩

/-- The zeros of `HV_SHA1Final`; 64 turns of its loop are enough. -/
def sha1Zeros : ℕ → Sha1Ctx → Option Sha1Ctx
  | 0, _ => none
  | fuel + 1, context =>
      if context.count0 &&& 504 ≠ 448 then (sha1Update context [0]).bind (sha1Zeros fuel)
      else some context

/-- `HV_SHA1Final`. -/
def sha1Final (context : Sha1Ctx) : Option Bytes := do
  let finalcount := Sha1.wordBytes context.count1 ++ Sha1.wordBytes context.count0
  let context ← sha1Update context [0x80]
  let context ← sha1Zeros 64 context
  let context ← sha1Update context finalcount
  some context.state.digest

/-- `hv_sha1`. -/
def hvSha1 (input : Bytes) (buffer : Bytes) : Option Bytes := do
  let ctx ← sha1Update (sha1Init buffer) input
  sha1Final ctx

/-- `HV_SHA1`: byte by byte. -/
def hvSHA1 (str : Bytes) (buffer : Bytes) : Option Bytes := do
  let ctx ← str.foldlM (fun ctx c => sha1Update ctx [c]) (sha1Init buffer)
  sha1Final ctx

/-! ### The standard's functions -/

theorem ch_eq (w x y : UInt32) : (w &&& (x ^^^ y)) ^^^ y = Sha1.ch w x y := by
  apply UInt32.toBitVec_inj.mp
  ext i hi
  simp only [Sha1.ch, UInt32.toBitVec_and, UInt32.toBitVec_xor, UInt32.toBitVec_not,
    BitVec.getElem_and, BitVec.getElem_xor, BitVec.getElem_not]
  cases w.toBitVec[i] <;> cases x.toBitVec[i] <;> cases y.toBitVec[i] <;> rfl

theorem maj_eq (w x y : UInt32) : ((w ||| x) &&& y) ||| (w &&& x) = Sha1.maj w x y := by
  apply UInt32.toBitVec_inj.mp
  ext i hi
  simp only [Sha1.maj, UInt32.toBitVec_and, UInt32.toBitVec_xor, UInt32.toBitVec_or,
    BitVec.getElem_and, BitVec.getElem_xor, BitVec.getElem_or]
  cases w.toBitVec[i] <;> cases x.toBitVec[i] <;> cases y.toBitVec[i] <;> rfl

/-- `blk0` swaps the bytes of the loaded word. -/
theorem swap_loadWord (b₀ b₁ b₂ b₃ : UInt8) :
    rol (loadWord b₀ b₁ b₂ b₃) 24 &&& (0xFF00FF00 : UInt32) |||
      rol (loadWord b₀ b₁ b₂ b₃) 8 &&& (0x00FF00FF : UInt32) = Sha1.word b₀ b₁ b₂ b₃ := by
  unfold rol loadWord Sha1.word
  apply UInt32.toBitVec_inj.mp
  ext i hi
  simp
  interval_cases i <;> simp

/-! ### The schedule -/

variable {buffer : Bytes}

/-- In the first sixteen rounds: the words up to `t` are swapped. -/
def Swapped (buffer : Bytes) (t : ℕ) (block : List UInt32) : Prop :=
  block.length = 16 ∧ ∀ j < 16, block.getD j 0 =
    if j < t then Sha1.schedule buffer j else Sha1.at4 buffer (4 * j) loadWord

/-- In the others: the last sixteen words of the schedule, each in its place. -/
def Scheduled (buffer : Bytes) (t : ℕ) (block : List UInt32) : Prop :=
  block.length = 16 ∧ ∀ u < t, t ≤ u + 16 → block.getD (u % 16) 0 = Sha1.schedule buffer u

theorem swapped_blockWords (buffer : Bytes) : Swapped buffer 0 (blockWords buffer) := by
  refine ⟨by simp [blockWords], fun j hj => ?_⟩
  simp [blockWords, List.getD_eq_getElem?_getD, hj]

theorem getD_set (block : List UInt32) {i j : ℕ} (hi : i < block.length) (w : UInt32) :
    (block.set i w).getD j 0 = if j = i then w else block.getD j 0 := by
  simp only [List.getD_eq_getElem?_getD, List.getElem?_set]
  by_cases h : i = j
  · subst h
    simp [hi]
  · rw [if_neg h, if_neg (Ne.symm h)]

theorem Swapped.blk0 {t : ℕ} {block : List UInt32} (h : Swapped buffer t block) (ht : t < 16) :
    (blk0 block t).1 = Sha1.schedule buffer t ∧ Swapped buffer (t + 1) (blk0 block t).2 := by
  have hword : (Hv.blk0 block t).1 = Sha1.schedule buffer t := by
    have hraw := h.2 t ht
    rw [if_neg (lt_irrefl t)] at hraw
    unfold Hv.blk0 Sha1.schedule
    rw [if_pos ht]
    dsimp only
    rw [hraw]
    exact swap_loadWord _ _ _ _
  refine ⟨hword, by simp [Hv.blk0, h.1], fun j hj => ?_⟩
  show (block.set t (Hv.blk0 block t).1).getD j 0 = _
  rw [getD_set block (by rw [h.1]; exact ht), hword, h.2 j hj]
  by_cases hjt : j = t
  · subst hjt
    simp
  · have : j < t ↔ j < t + 1 := by omega
    simp only [if_neg hjt, this]

theorem Swapped.scheduled {block : List UInt32} (h : Swapped buffer 16 block) :
    Scheduled buffer 16 block := by
  refine ⟨h.1, fun u hu _ => ?_⟩
  rw [Nat.mod_eq_of_lt hu, h.2 u hu, if_pos hu]

theorem and_15 (n : ℕ) : n &&& 15 = n % 16 := Nat.and_two_pow_sub_one_eq_mod n 4

theorem Scheduled.blk {t : ℕ} {block : List UInt32} (h : Scheduled buffer t block) (ht : 16 ≤ t) :
    (blk block t).1 = Sha1.schedule buffer t ∧ Scheduled buffer (t + 1) (blk block t).2 := by
  have hat : ∀ d, 0 < d → d ≤ 16 → ∀ i, i % 16 = (t - d) % 16 →
      block.getD (i &&& 15) 0 = Sha1.schedule buffer (t - d) := by
    intro d hpos hd i hi
    rw [and_15, hi]
    exact h.2 _ (by omega) (by omega)
  have hword : (Hv.blk block t).1 = Sha1.schedule buffer t := by
    unfold Hv.blk
    dsimp only
    rw [hat 3 (by omega) (by omega) (t + 13) (by omega), hat 8 (by omega) (by omega) (t + 8) (by omega),
      hat 14 (by omega) (by omega) (t + 2) (by omega), hat 16 (by omega) (by omega) t (by omega)]
    conv_rhs => rw [Sha1.schedule, if_neg (by omega)]
    rfl
  refine ⟨hword, by simp [Hv.blk, h.1], fun u hu hle => ?_⟩
  show (block.set (t &&& 15) (Hv.blk block t).1).getD (u % 16) 0 = _
  rw [and_15, getD_set block (by rw [h.1]; omega), hword]
  by_cases hut : u = t
  · subst hut
    simp
  · rw [if_neg (by omega)]
    exact h.2 u (by omega) (by omega)

/-! ### The rounds -/

theorem sha1Round_vars {f : UInt32 → UInt32 → UInt32 → UInt32} {k : UInt32}
    {g : List UInt32 → ℕ → UInt32 × List UInt32} {s : Sha1Vars} {i : ℕ} (hf : ∀ w x y, f w x y = Sha1.f i w x y)
    (hk : k = Sha1.k i) (hw : (g s.block i).1 = Sha1.schedule buffer i) :
    (sha1Round f k g s i).vars = Sha1.round buffer s.vars i := by
  unfold sha1Round Sha1.round
  dsimp only
  rw [hf, hk, hw]
  congr 1
  show _ = rol s.vars.a 5 + _ + _ + _ + _
  ac_rfl

theorem foldl_range' {σ τ : Type} {P : ℕ → σ → τ → Prop} {g : σ → ℕ → σ} {h : τ → ℕ → τ} :
    ∀ {n a : ℕ} {s : σ} {r : τ}, (∀ i s r, a ≤ i → i < a + n → P i s r → P (i + 1) (g s i) (h r i)) →
    P a s r → P (a + n) ((List.range' a n).foldl g s) ((List.range' a n).foldl h r)
  | 0, a, s, r, _, hP => hP
  | n + 1, a, s, r, hstep, hP => by
      rw [List.range'_succ, List.foldl_cons, List.foldl_cons, show a + (n + 1) = a + 1 + n by omega]
      apply foldl_range' (a := a + 1)
      · intro i s r hle hlt
        exact hstep i s r (by omega) (by omega)
      · exact hstep a s r le_rfl (by omega) hP

/-- In front of round `t`. -/
def Simulates (words : ℕ → List UInt32 → Prop) (t : ℕ) (s : Sha1Vars) (r : Sha1.State) : Prop :=
  s.vars = r ∧ words t s.block

theorem simulates_blk {f : UInt32 → UInt32 → UInt32 → UInt32} {k : UInt32} {a n : ℕ} (ha : 16 ≤ a)
    (hf : ∀ i, a ≤ i → i < a + n → ∀ w x y, f w x y = Sha1.f i w x y)
    (hk : ∀ i, a ≤ i → i < a + n → k = Sha1.k i) {s : Sha1Vars} {r : Sha1.State}
    (hs : Simulates (Scheduled buffer) a s r) :
    Simulates (Scheduled buffer) (a + n) ((List.range' a n).foldl (sha1Round f k blk) s)
      ((List.range' a n).foldl (Sha1.round buffer) r) := by
  apply foldl_range' _ hs
  rintro i s r hle hlt ⟨rfl, hwords⟩
  obtain ⟨hw, hwords'⟩ := hwords.blk (by omega)
  exact ⟨sha1Round_vars (hf i hle hlt) (hk i hle hlt) hw, hwords'⟩

/-- **A block is compressed as the standard says.** -/
theorem transform_eq (state : Sha1.State) (buffer : Bytes) :
    sha1Transform state buffer = Sha1.compress state buffer := by
  have h₀ : Simulates (Swapped buffer) 16 ((List.range' 0 16).foldl R0 ⟨state, blockWords buffer⟩)
      ((List.range' 0 16).foldl (Sha1.round buffer) state) := by
    apply foldl_range' (n := 16) (a := 0) _ ⟨rfl, swapped_blockWords buffer⟩
    rintro i s r - hlt ⟨rfl, hwords⟩
    obtain ⟨hw, hwords'⟩ := hwords.blk0 (by omega)
    refine ⟨sha1Round_vars (fun w x y => ?_) ?_ hw, hwords'⟩
    · rw [ch_eq, Sha1.f, if_pos (by omega)]
    · rw [Sha1.k, if_pos (by omega)]
  have h₁ := simulates_blk (f := fun w x y => (w &&& (x ^^^ y)) ^^^ y) (k := 0x5A827999) (n := 4) le_rfl
    (fun i _ hlt w x y => by rw [ch_eq, Sha1.f, if_pos (by omega)])
    (fun i _ hlt => by rw [Sha1.k, if_pos (by omega)]) ⟨h₀.1, h₀.2.scheduled⟩
  have h₂ := simulates_blk (f := fun w x y => w ^^^ x ^^^ y) (k := 0x6ED9EBA1) (n := 20) (by omega)
    (fun i hle hlt w x y => by rw [Sha1.f, if_neg (by omega), if_pos (by omega)]; rfl)
    (fun i hle hlt => by rw [Sha1.k, if_neg (by omega), if_pos (by omega)]) h₁
  have h₃ := simulates_blk (f := fun w x y => ((w ||| x) &&& y) ||| (w &&& x)) (k := 0x8F1BBCDC) (n := 20)
    (by omega)
    (fun i hle hlt w x y => by
      rw [maj_eq, Sha1.f, if_neg (by omega), if_neg (by omega), if_pos (by omega)])
    (fun i hle hlt => by rw [Sha1.k, if_neg (by omega), if_neg (by omega), if_pos (by omega)]) h₂
  have h₄ := simulates_blk (f := fun w x y => w ^^^ x ^^^ y) (k := 0xCA62C1D6) (n := 20) (by omega)
    (fun i hle hlt w x y => by
      rw [Sha1.f, if_neg (by omega), if_neg (by omega), if_neg (by omega)]
      rfl)
    (fun i hle hlt => by rw [Sha1.k, if_neg (by omega), if_neg (by omega), if_neg (by omega)]) h₃
  have hrange : List.range 80 = List.range' 0 16 ++ List.range' 16 4 ++ List.range' 20 20 ++
      List.range' 40 20 ++ List.range' 60 20 := by decide
  unfold sha1Transform Sha1.compress
  rw [hrange, List.foldl_append, List.foldl_append, List.foldl_append, List.foldl_append]
  exact congrArg state.add h₄.1

/-! ### Chunks -/

/-- The context holds what the standard makes of `m`, up to its last whole block. -/
structure Absorbed (context : Sha1Ctx) (m : Bytes) : Prop where
  room : context.buffer.length = 64
  count : context.count1.toNat * 2 ^ 32 + context.count0.toNat = 8 * m.length % 2 ^ 64
  hashed : (context.state, context.buffer.take (m.length % 64)) =
    Blocks.absorb 64 Sha1.compress (Sha1.initial, []) m

theorem absorbed_init (buffer : Bytes) (h : buffer.length = 64) : Absorbed (sha1Init buffer) [] where
  room := h
  count := by simp [sha1Init]
  hashed := by simp [sha1Init, Sha1.initial, Blocks.absorb]

namespace Absorbed

variable {context : Sha1Ctx} {m : Bytes}

theorem count0 (h : Absorbed context m) : context.count0.toNat = 8 * m.length % 2 ^ 32 := by
  have hcount := h.count
  have := context.count0.toNat_lt
  omega

theorem count1 (h : Absorbed context m) : context.count1.toNat = 8 * m.length / 2 ^ 32 % 2 ^ 32 := by
  have hcount := h.count
  have := context.count0.toNat_lt
  omega

theorem filled (h : Absorbed context m) :
    ((context.count0 >>> 3) &&& 63).toNat = m.length % 64 := by
  have hj : ((context.count0 >>> 3) &&& 63).toNat = context.count0.toNat / 8 % 64 := by
    rw [UInt32.toNat_and, UInt32.toNat_shiftRight]
    show context.count0.toNat >>> 3 &&& 2 ^ 6 - 1 = _
    rw [Nat.and_two_pow_sub_one_eq_mod, Nat.shiftRight_eq_div_pow]
  rw [hj, h.count0]
  omega

theorem count_add (h : Absorbed context m) {n : ℕ} (hn : n < 2 ^ 32) :
    let len := UInt32.ofNat n
    let count0 := context.count0 + (len <<< 3)
    let count1 := (if count0 < context.count0 then context.count1 + 1 else context.count1) +
      (len >>> 29)
    count1.toNat * 2 ^ 32 + count0.toNat = 8 * (m.length + n) % 2 ^ 64 := by
  have hlen : (UInt32.ofNat n).toNat = n := UInt32.toNat_ofNat_of_lt' hn
  have hshl : (UInt32.ofNat n <<< 3).toNat = 8 * n % 2 ^ 32 := by
    rw [UInt32.toNat_shiftLeft, hlen, Nat.shiftLeft_eq]
    show n * 2 ^ 3 % 2 ^ 32 = _
    omega
  have hshr : (UInt32.ofNat n >>> 29).toNat = n / 2 ^ 29 := by
    rw [UInt32.toNat_shiftRight, hlen, Nat.shiftRight_eq_div_pow]
    rfl
  have hc0 := h.count0
  have hc1 := h.count1
  have hlt := context.count0.toNat_lt
  have hsum : (context.count0 + (UInt32.ofNat n <<< 3)).toNat =
      (context.count0.toNat + 8 * n % 2 ^ 32) % 2 ^ 32 := by
    rw [UInt32.toNat_add, hshl]
  dsimp only
  split_ifs with hcarry
  · rw [UInt32.lt_iff_toNat_lt, hsum] at hcarry
    rw [UInt32.toNat_add, UInt32.toNat_add, hshr, hsum, hc1, hc0]
    rw [hc0] at hcarry
    show ((_ + 1) % 2 ^ 32 + _) % 2 ^ 32 * 2 ^ 32 + _ = _
    omega
  · rw [UInt32.lt_iff_toNat_lt, hsum] at hcarry
    rw [UInt32.toNat_add, hshr, hsum, hc1, hc0]
    rw [hc0] at hcarry
    omega

/-- `j + len` is past the end of the buffer. -/
theorem overfills (h : Absorbed context m) {n : ℕ} (hn : n + 64 ≤ 2 ^ 32) :
    (63 : UInt32) < ((context.count0 >>> 3) &&& 63) + UInt32.ofNat n ↔ 63 < m.length % 64 + n := by
  rw [UInt32.lt_iff_toNat_lt, UInt32.toNat_add, h.filled, UInt32.toNat_ofNat_of_lt' (show n < 2 ^ 32 by omega)]
  show 63 < _ ↔ _
  omega

theorem length_take (h : Absorbed context m) :
    (context.buffer.take (m.length % 64)).length = m.length % 64 := by
  have hroom := h.room
  rw [List.length_take]
  omega

/-- The buffer is filled, compressed, and the other blocks are compressed where they lie. -/
theorem absorb_full (h : Absorbed context m) (data : Bytes)
    (hfull : 63 < m.length % 64 + data.length) :
    Blocks.absorb 64 Sha1.compress (Sha1.initial, []) (m ++ data) =
      Blocks.steps 64 sha1Transform ((data.length - (64 - m.length % 64)) / 64)
        (sha1Transform context.state
          (context.buffer.take (m.length % 64) ++ data.take (64 - m.length % 64)))
        (data.drop (64 - m.length % 64)) := by
  have htransform : sha1Transform = Sha1.compress := by
    funext state buffer
    exact transform_eq state buffer
  have hlen := h.length_take
  have hupdate := Blocks.absorb_update Sha1.compress (by omega : 0 < 64) context.state
    (context.buffer.take (m.length % 64)) data (by omega) (by omega)
  rw [hlen] at hupdate
  rw [Blocks.absorb_append, ← h.hashed, htransform, hupdate]

end Absorbed

theorem memcpy_eq (buffer data : Bytes) {j : ℕ} (h : j + data.length ≤ buffer.length) :
    ∃ buffer', memcpy buffer j data = some buffer' ∧ buffer'.length = buffer.length ∧
      buffer'.take (j + data.length) = buffer.take j ++ data := by
  refine ⟨_, if_pos h, by simp; omega, ?_⟩
  rw [List.take_append_of_le_length (by simp; omega), List.take_of_length_le (by simp)]

/-- **A chunk**, if its length is one that `j + len` can hold. -/
theorem sha1Update_absorbed {context : Sha1Ctx} {m : Bytes} (h : Absorbed context m) (data : Bytes)
    (hdata : data.length + 64 ≤ 2 ^ 32) :
    ∃ context', sha1Update context data = some context' ∧ Absorbed context' (m ++ data) := by
  have hcount := h.count_add (n := data.length) (by omega)
  have hfull := h.absorb_full data
  have hroom := h.room
  have hoverfills := h.overfills hdata
  have hlen : (m ++ data).length = m.length + data.length := List.length_append
  set j := m.length % 64 with hj
  have hjlt : j < 64 := Nat.mod_lt _ (by omega)
  unfold sha1Update
  dsimp only
  by_cases hlong : 63 < j + data.length
  · rw [if_pos (hoverfills.mpr hlong), h.filled, ← hj]
    set i := 64 - j with hi
    obtain ⟨buffer₁, hcopy₁, hlen₁, htake₁⟩ := memcpy_eq context.buffer (data.take i) (j := j)
      (by simp; omega)
    have hblock : buffer₁ = context.buffer.take j ++ data.take i := by
      rw [← htake₁, List.take_of_length_le]
      simp
      omega
    rw [← hblock] at hfull
    set s := Blocks.steps 64 sha1Transform ((data.length - i) / 64)
      (sha1Transform context.state buffer₁) (data.drop i) with hs
    have hrest : s.2.length = (m ++ data).length % 64 := by
      rw [hs, Blocks.steps_snd, List.length_drop, List.length_drop, hlen]
      omega
    obtain ⟨buffer₂, hcopy₂, hlen₂, htake₂⟩ := memcpy_eq buffer₁ s.2 (j := 0) (by omega)
    rw [Nat.zero_add, List.take_zero, List.nil_append, hrest] at htake₂
    simp only [hcopy₁, Option.bind_eq_bind, Option.bind_some, ← hs, hcopy₂]
    refine ⟨_, rfl, hlen₂.trans (hlen₁.trans hroom), ?_, ?_⟩
    · rw [hlen]
      exact hcount
    · dsimp only
      rw [hfull hlong, htake₂]
  · rw [if_neg (mt hoverfills.mp hlong), h.filled, ← hj]
    obtain ⟨buffer₁, hcopy₁, hlen₁, htake₁⟩ := memcpy_eq context.buffer data (j := j) (by omega)
    simp only [hcopy₁, Option.bind_eq_bind, Option.bind_some]
    refine ⟨_, rfl, hlen₁.trans hroom, ?_, ?_⟩
    · rw [hlen]
      exact hcount
    · have htake := h.length_take
      have hfilled : (m ++ data).length % 64 = j + data.length := by
        rw [hlen]
        omega
      dsimp only
      rw [Blocks.absorb_append, ← h.hashed, Blocks.absorb_short (by omega), hfilled, htake₁]

theorem absorbed_chunks {chunks : List Bytes} : ∀ {context : Sha1Ctx} {m : Bytes},
    Absorbed context m → (∀ data ∈ chunks, data.length + 64 ≤ 2 ^ 32) →
    ∃ context', chunks.foldlM sha1Update context = some context' ∧
      Absorbed context' (m ++ chunks.flatten) := by
  induction chunks with
  | nil =>
      intro context m h _
      exact ⟨context, rfl, by simpa using h⟩
  | cons data chunks ih =>
      intro context m h hlen
      have hlen' : data.length + 64 ≤ 2 ^ 32 ∧ ∀ x ∈ chunks, x.length + 64 ≤ 2 ^ 32 := by
        simpa using hlen
      obtain ⟨context₁, hupdate, h₁⟩ := sha1Update_absorbed h data hlen'.1
      obtain ⟨context₂, hchunks, h₂⟩ := ih h₁ hlen'.2
      refine ⟨context₂, ?_, by simpa using h₂⟩
      rw [List.foldlM_cons, hupdate]
      exact hchunks

/-! ### The digest -/

theorem and_504 (x : UInt32) : x &&& (504 : UInt32) = ((x >>> 3) &&& 63) <<< 3 := by
  apply UInt32.toBitVec_inj.mp
  ext i hi
  simp
  interval_cases i <;> simp

/-- The loop ends where eight bytes are left of the block. -/
theorem Absorbed.zeros_end {context : Sha1Ctx} {m : Bytes} (h : Absorbed context m) :
    context.count0 &&& (504 : UInt32) = 448 ↔ m.length % 64 = 56 := by
  have hnat : (context.count0 &&& (504 : UInt32)).toNat = m.length % 64 * 8 := by
    rw [and_504, UInt32.toNat_shiftLeft, h.filled, Nat.shiftLeft_eq]
    show _ * 2 ^ 3 % 2 ^ 32 = _
    omega
  rw [← UInt32.toNat_inj, hnat]
  show _ = 448 ↔ _
  omega

theorem sha1Zeros_absorbed {fuel : ℕ} : ∀ {context : Sha1Ctx} {m : Bytes}, Absorbed context m →
    (120 - m.length % 64) % 64 < fuel → ∃ context', sha1Zeros fuel context = some context' ∧
      Absorbed context' (m ++ List.replicate ((120 - m.length % 64) % 64) 0) := by
  induction fuel with
  | zero =>
      intro context m _ hfuel
      omega
  | succ fuel ih =>
      intro context m h hfuel
      unfold sha1Zeros
      by_cases hend : context.count0 &&& (504 : UInt32) = 448
      · have hmod := h.zeros_end.mp hend
        rw [if_neg (not_not.mpr hend), hmod]
        exact ⟨context, rfl, by simpa using h⟩
      · have hmod := mt h.zeros_end.mpr hend
        obtain ⟨context₁, hupdate, h₁⟩ := sha1Update_absorbed h [0] (by simp)
        have hlen : (m ++ [(0 : UInt8)]).length = m.length + 1 := by simp
        have hone : (120 - m.length % 64) % 64 = (120 - (m ++ [(0 : UInt8)]).length % 64) % 64 + 1 := by
          rw [hlen]
          omega
        obtain ⟨context₂, hzeros, h₂⟩ := ih h₁ (by omega)
        rw [if_pos hend, hupdate, Option.bind_some]
        refine ⟨context₂, hzeros, ?_⟩
        rw [hone, List.replicate_succ]
        simpa using h₂

/-- The digest is the hash value of what was given to the context. -/
theorem sha1Final_absorbed {context : Sha1Ctx} {m : Bytes} (h : Absorbed context m) :
    sha1Final context = some (Sha1.hash m) := by
  have hcount : Sha1.wordBytes context.count1 ++ Sha1.wordBytes context.count0 =
      Sha1.lengthBytes m.length := by
    have h0 : context.count0 = .ofNat (8 * m.length) := by
      rw [← UInt32.toNat_inj, h.count0, UInt32.toNat_ofNat']
    have h1 : context.count1 = .ofNat (8 * m.length / 2 ^ 32) := by
      rw [← UInt32.toNat_inj, h.count1, UInt32.toNat_ofNat']
    rw [h0, h1]
    rfl
  obtain ⟨context₁, hbit, h₁⟩ := sha1Update_absorbed h [0x80] (by simp)
  obtain ⟨context₂, hzeros, h₂⟩ := sha1Zeros_absorbed h₁ (Nat.mod_lt _ (by omega))
  obtain ⟨context₃, hlength, h₃⟩ := sha1Update_absorbed h₂ (Sha1.lengthBytes m.length)
    (by simp [Sha1.lengthBytes, Sha1.wordBytes])
  have hpad : m ++ [(0x80 : UInt8)] ++
      List.replicate ((120 - (m ++ [(0x80 : UInt8)]).length % 64) % 64) 0 ++
      Sha1.lengthBytes m.length = Sha1.pad m := by
    have hlen : (m ++ [(0x80 : UInt8)]).length = m.length + 1 := by simp
    have hzero : (120 - (m ++ [(0x80 : UInt8)]).length % 64) % 64 = (119 - m.length % 64) % 64 := by
      rw [hlen]
      omega
    rw [hzero]
    simp [Sha1.pad]
  rw [hpad] at h₃
  have hstate : context₃.state = (Blocks.split 64 (Sha1.pad m)).foldl Sha1.compress Sha1.initial := by
    have := h₃.hashed
    rw [Blocks.absorb_eq (by omega)] at this
    exact congrArg Prod.fst this
  unfold sha1Final
  rw [hcount]
  simp only [hbit, hzeros, hlength, Option.bind_eq_bind, Option.bind_some, hstate]
  rfl

/-- **The digest is the hash value of the whole message**, in whatever chunks it came. -/
theorem sha1_chunks {chunks : List Bytes} {buffer : Bytes} (hbuffer : buffer.length = 64)
    (hlen : ∀ data ∈ chunks, data.length + 64 ≤ 2 ^ 32) :
    (chunks.foldlM sha1Update (sha1Init buffer)).bind sha1Final = some (Sha1.hash chunks.flatten) := by
  obtain ⟨context, hchunks, h⟩ := absorbed_chunks (absorbed_init buffer hbuffer) hlen
  rw [hchunks, Option.bind_some, sha1Final_absorbed h]
  rfl

/-- Chunks over more than one block. -/
def someChunks : List Bytes :=
  [ascii "a", [], List.replicate 150 98, List.replicate 40 99]

theorem sha1_chunks_someChunks :
    (someChunks.foldlM sha1Update (sha1Init (List.replicate 64 0))).bind sha1Final =
      some (Sha1.hash someChunks.flatten) :=
  sha1_chunks (by simp) (by simp [someChunks, ascii])

/-- `hv_sha1`: the message as one chunk. -/
theorem hvSha1_eq {input buffer : Bytes} (hbuffer : buffer.length = 64)
    (hlen : input.length + 64 ≤ 2 ^ 32) : hvSha1 input buffer = some (Sha1.hash input) := by
  obtain ⟨context, hupdate, h⟩ := sha1Update_absorbed (absorbed_init buffer hbuffer) input hlen
  rw [hvSha1, hupdate]
  exact sha1Final_absorbed h

/-- `HV_SHA1`: a message of any length, byte after byte. -/
theorem hvSHA1_eq (str : Bytes) {buffer : Bytes} (hbuffer : buffer.length = 64) :
    hvSHA1 str buffer = some (Sha1.hash str) := by
  have hbytes : (str.map (fun c => [c])).flatten = str := by
    induction str with
    | nil => rfl
    | cons c str ih => simp [ih]
  have hone : ∀ data ∈ str.map (fun c => [c]), data.length + 64 ≤ 2 ^ 32 := by
    intro data hdata
    obtain ⟨c, -, rfl⟩ := List.mem_map.mp hdata
    simp
  obtain ⟨context, hchunks, h⟩ := absorbed_chunks (absorbed_init buffer hbuffer) hone
  rw [List.foldlM_map] at hchunks
  rw [hbytes, List.nil_append] at h
  rw [hvSHA1, hchunks]
  exact sha1Final_absorbed h

example : hvSha1 (ascii "abc") (List.replicate 64 0) = some [0xa9, 0x99, 0x3e, 0x36, 0x47, 0x06,
    0x81, 0x6a, 0xba, 0x3e, 0x25, 0x71, 0x78, 0x50, 0xc2, 0x6c, 0x9c, 0xd0, 0xd8, 0x9d] := by
  decide +kernel

end OrderbookClient.Hv
