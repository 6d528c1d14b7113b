import Mathlib.Data.UInt
import OrderbookClient.Blocks

/-! # SHA-1, as the standard has it

The secure hash algorithm by its message schedule of eighty words.  A message is padded to whole
blocks of 64 bytes with its length in bits behind it, and the blocks are folded. -/

namespace OrderbookClient.Sha1

/-- The five words of the hash value. -/
structure State where
  a : UInt32
  b : UInt32
  c : UInt32
  d : UInt32
  e : UInt32
  deriving DecidableEq, Repr

def initial : State := ⟨0x67452301, 0xEFCDAB89, 0x98BADCFE, 0x10325476, 0xC3D2E1F0⟩

def State.add (s r : State) : State := ⟨s.a + r.a, s.b + r.b, s.c + r.c, s.d + r.d, s.e + r.e⟩

/-! ### One block -/

def rotl (x n : UInt32) : UInt32 := x <<< n ||| x >>> (32 - n)

def ch (x y z : UInt32) : UInt32 := (x &&& y) ^^^ (~~~x &&& z)

def parity (x y z : UInt32) : UInt32 := x ^^^ y ^^^ z

def maj (x y z : UInt32) : UInt32 := (x &&& y) ^^^ (x &&& z) ^^^ (y &&& z)

/-- The function of round `t`. -/
def f (t : ℕ) : UInt32 → UInt32 → UInt32 → UInt32 :=
  if t < 20 then ch else if t < 40 then parity else if t < 60 then maj else parity

/-- The constant of round `t`. -/
def k (t : ℕ) : UInt32 :=
  if t < 20 then 0x5A827999 else if t < 40 then 0x6ED9EBA1 else if t < 60 then 0x8F1BBCDC
  else 0xCA62C1D6

/-- Four bytes as a word, the first the highest. -/
def word (b₀ b₁ b₂ b₃ : UInt8) : UInt32 :=
  ((b₀.toUInt32 <<< 8 ||| b₁.toUInt32) <<< 8 ||| b₂.toUInt32) <<< 8 ||| b₃.toUInt32

/-- The bytes of a block at `i`. -/
def at4 (block : List UInt8) (i : ℕ) (g : UInt8 → UInt8 → UInt8 → UInt8 → UInt32) : UInt32 :=
  g (block.getD i 0) (block.getD (i + 1) 0) (block.getD (i + 2) 0) (block.getD (i + 3) 0)

/-- The message schedule. -/
def schedule (block : List UInt8) (t : ℕ) : UInt32 :=
  if t < 16 then at4 block (4 * t) word
  else rotl (schedule block (t - 3) ^^^ schedule block (t - 8) ^^^ schedule block (t - 14) ^^^
    schedule block (t - 16)) 1
  termination_by t

def round (block : List UInt8) (s : State) (t : ℕ) : State :=
  ⟨rotl s.a 5 + f t s.b s.c s.d + s.e + k t + schedule block t, s.a, rotl s.b 30, s.c, s.d⟩

def compress (s : State) (block : List UInt8) : State :=
  s.add ((List.range 80).foldl (round block) s)

/-! ### A message -/

def wordBytes (w : UInt32) : List UInt8 :=
  [(w >>> 24).toUInt8, (w >>> 16).toUInt8, (w >>> 8).toUInt8, w.toUInt8]

/-- The length in bits, in eight bytes. -/
def lengthBytes (n : ℕ) : List UInt8 :=
  wordBytes (.ofNat (8 * n / 2 ^ 32)) ++ wordBytes (.ofNat (8 * n))

def pad (m : List UInt8) : List UInt8 :=
  m ++ 0x80 :: List.replicate ((119 - m.length % 64) % 64) 0 ++ lengthBytes m.length

def State.digest (s : State) : List UInt8 := [s.a, s.b, s.c, s.d, s.e].flatMap wordBytes

def hash (m : List UInt8) : List UInt8 :=
  ((Blocks.split 64 (pad m)).foldl compress initial).digest

/-- The padding fills the last block. -/
@[simp] theorem length_hash (m : List UInt8) : (hash m).length = 20 := by
  simp [hash, State.digest, wordBytes]

end OrderbookClient.Sha1
