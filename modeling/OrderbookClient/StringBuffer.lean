import OrderbookClient.CString

/-! # The output buffer: `internal/stack.h` and `stringbuffer.h`

`internal::Stack` is a growable memory block with three pointers.  The model keeps the bytes
between `stack_` and `stackTop_` and the size of the block; `fits` says that the used part
lies inside the block, so no value of the type overruns it.  A failed `RAPIDJSON_ASSERT` is
`none`.

`Reserve` makes room and `PushUnsafe` relies on it.  `Room s n` is what connects them: the
block exists and has `n` free bytes.  A caller that reserves enough for everything it then
puts never fails an assertion (`reserve_room`, `pushUnsafe_of_room`). -/

namespace OrderbookClient.RapidJson

open OrderbookClient.Json

/-- `internal::Stack<CrtAllocator>` holding characters. -/
structure Stack where
  /-- The bytes from `stack_` to `stackTop_`. -/
  bytes : Bytes
  /-- The size of the block, `none` while `stack_` is null. -/
  block : Option ℕ
  initialCapacity : ℕ
  fits : bytes.length ≤ block.getD 0

namespace Stack

/-! ### Executable definitions -/

/-- The constructor: no memory is allocated yet. -/
def new (initialCapacity : ℕ) : Stack := ⟨[], none, initialCapacity, by simp⟩

/-- `GetCapacity`. -/
def capacity (s : Stack) : ℕ := s.block.getD 0

/-- The block size `Expand(count)` asks for. -/
def newCapacity (s : Stack) (count : ℕ) : ℕ :=
  let newCapacity := match s.block with
    | none => s.initialCapacity
    | some c => c + (c + 1) / 2
  let newSize := s.bytes.length + count
  if newCapacity < newSize then newSize else newCapacity

theorem le_newCapacity (s : Stack) (count : ℕ) : s.bytes.length + count ≤ s.newCapacity count := by
  unfold newCapacity
  dsimp only
  split_ifs <;> omega

/-- `Expand`, with `Resize`: the contents move to the new block. -/
def expand (s : Stack) (count : ℕ) : Stack :=
  { s with
    block := some (s.newCapacity count)
    fits := le_trans (Nat.le_add_right _ _) (s.le_newCapacity count) }

/-- `Reserve`. -/
def reserve (s : Stack) (count : ℕ) : Stack :=
  if s.capacity - s.bytes.length < count then s.expand count else s

/-- `PushUnsafe` of a region the caller fills with `region`. -/
def pushUnsafe (s : Stack) (region : Bytes) : Option Stack :=
  match h : s.block with
  | none => none
  | some c =>
      if hc : s.bytes.length + region.length ≤ c then
        some { s with bytes := s.bytes ++ region, fits := by simpa [h] using hc }
      else none

/-- `Push` of a region the caller fills with `region`. -/
def push (s : Stack) (region : Bytes) : Option Stack := (s.reserve region.length).pushUnsafe region

/-- `Pop`. -/
def pop (s : Stack) (count : ℕ) : Option Stack :=
  if count ≤ s.bytes.length then
    some { s with
      bytes := s.bytes.take (s.bytes.length - count)
      fits := le_trans (by simp) s.fits }
  else none

/-! ### Reserving and filling -/

/-- The block exists and has `n` free bytes. -/
def Room (s : Stack) (n : ℕ) : Prop := ∃ c, s.block = some c ∧ s.bytes.length + n ≤ c

@[simp] theorem reserve_bytes (s : Stack) (n : ℕ) : (s.reserve n).bytes = s.bytes := by
  unfold reserve
  split_ifs <;> rfl

theorem reserve_room (s : Stack) {n : ℕ} (hn : 0 < n) : (s.reserve n).Room n := by
  unfold reserve
  split_ifs with h
  · exact ⟨_, rfl, s.le_newCapacity n⟩
  · unfold capacity at h
    cases hb : s.block with
    | none =>
        rw [hb] at h
        simp at h
        omega
    | some c =>
        have hfits := s.fits
        rw [hb] at h hfits
        simp only [Option.getD_some, not_lt] at h hfits
        exact ⟨c, hb, by omega⟩

theorem pushUnsafe_of_room {s : Stack} (region : Bytes) {n : ℕ} (h : s.Room (region.length + n)) :
    ∃ s', s.pushUnsafe region = some s' ∧ s'.bytes = s.bytes ++ region ∧ s'.Room n := by
  obtain ⟨c, hb, hc⟩ := h
  have hlen : s.bytes.length + region.length ≤ c := by omega
  refine ⟨⟨s.bytes ++ region, s.block, s.initialCapacity, by simpa [hb] using hlen⟩, ?_, rfl, c, hb, ?_⟩
  · unfold pushUnsafe
    split
    · next h => rw [hb] at h; cases h
    · next c' h =>
        obtain rfl : c = c' := Option.some.inj (hb.symm.trans h)
        rw [dif_pos hlen]
  · simp only [List.length_append]
    omega

theorem push_eq (s : Stack) (region : Bytes) (h : region ≠ []) :
    ∃ s', s.push region = some s' ∧ s'.bytes = s.bytes ++ region := by
  have hroom := s.reserve_room (List.length_pos_iff.mpr h)
  obtain ⟨s', hs', hbytes, -⟩ := pushUnsafe_of_room region (n := 0) hroom
  exact ⟨s', hs', by simpa using hbytes⟩

theorem pop_append {s : Stack} {bs junk : Bytes} (h : s.bytes = bs ++ junk) :
    ∃ s', s.pop junk.length = some s' ∧ s'.bytes = bs := by
  unfold pop
  rw [if_pos (by simp [h])]
  exact ⟨_, rfl, by simp [h]⟩

end Stack

/-! ### `GenericStringBuffer` -/

/-- `StringBuffer`: its only field is the stack. -/
abbrev StringBuffer := Stack

namespace StringBuffer

/-- The constructor, with `kDefaultCapacity`. -/
def new : StringBuffer := Stack.new 256

def put (os : StringBuffer) (c : UInt8) : Option StringBuffer := os.push [c]

def putUnsafe (os : StringBuffer) (c : UInt8) : Option StringBuffer := os.pushUnsafe [c]

/-- `GetString`: push and pop a terminator; the memory from `Bottom()` on still holds it. -/
def getString (os : StringBuffer) : Option (StringBuffer × Bytes) := do
  let pushed ← os.push [0]
  let popped ← pushed.pop 1
  return (popped, pushed.bytes)

theorem put_eq (os : StringBuffer) (c : UInt8) :
    ∃ os', put os c = some os' ∧ os'.bytes = os.bytes ++ [c] :=
  Stack.push_eq os [c] (by simp)

theorem putUnsafe_of_room {os : StringBuffer} {c : UInt8} {n : ℕ} (h : os.Room (1 + n)) :
    ∃ os', putUnsafe os c = some os' ∧ os'.bytes = os.bytes ++ [c] ∧ os'.Room n :=
  Stack.pushUnsafe_of_room [c] h

theorem getString_eq (os : StringBuffer) :
    ∃ os', getString os = some (os', os.bytes ++ [0]) ∧ os'.bytes = os.bytes := by
  obtain ⟨pushed, h1, hb⟩ := Stack.push_eq os [0] (by simp)
  obtain ⟨popped, h2, hp⟩ := Stack.pop_append hb
  refine ⟨popped, ?_, hp⟩
  simp only [List.length_singleton] at h2
  simp [getString, h1, h2, hb]

end StringBuffer

end OrderbookClient.RapidJson
