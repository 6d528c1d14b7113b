import OrderbookClient.JsonGrammar

/-! # C strings and `int`s

Byte strings as the sources pass them around: literals, `c_str()` and what a reader of a
`const char*` sees of a memory region.  A size that is passed on as an `int` is taken modulo
`2 ^ 32`. -/

namespace OrderbookClient

open Json (Bytes)

/-- The bytes of a string literal of the source. -/
def ascii (s : String) : Bytes := s.toList.map (fun c => c.toNat.toUInt8)

/-- The C string at the start of a memory region: the bytes before the first NUL. -/
def cString (memory : Bytes) : Bytes := memory.takeWhile (· != 0)

/-- `std::string::c_str()`: the bytes of the string and a terminator. -/
def cStr (s : Bytes) : Bytes := s ++ [0]

theorem cString_cStr {s : Bytes} (h : ∀ b ∈ s, b ≠ 0) : cString (cStr s) = s := by
  unfold cString cStr
  rw [List.takeWhile_append_of_pos (by simpa using h)]
  simp

/-- Copying a C string out of a region and back changes nothing. -/
theorem cString_prefix (memory : Bytes) : memory.take (cString memory).length = cString memory := by
  have h := List.takeWhile_prefix (l := memory) (· != 0)
  exact (List.prefix_iff_eq_take.mp h).symm

/-- A size that fits is passed on as it is. -/
theorem bmod_of_lt {n : ℕ} (h : n < 2 ^ 31) : Int.bmod n (2 ^ 32) = n := by
  apply Int.bmod_eq_of_le <;> omega

end OrderbookClient
