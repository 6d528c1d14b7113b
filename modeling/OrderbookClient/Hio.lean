import Mathlib.Tactic
import OrderbookClient.JsonGrammar

/-! # The socket under a channel: `nio.c` and `hevent.c`

A `Hio` is one `hio_t` from `hio_ready` on.  The kernel answers every `connect`, `write` and TLS
call, so the functions take the answer as an argument.  The bytes the kernel has accepted are
kept in `sent`, which the program does not store.

Three facts are used above this module.

* A write leaves the link as it is (`hioWrite_kept`): even a failed one only asks for a close.
* Whether a write is taken depends on the backlog, the length and the kernel's answer alone
  (`hioWrite_takes`).
* What is taken is neither lost nor reordered while the socket lives (`hioWrite_stream`,
  `nioWrite_stream`). -/

namespace OrderbookClient.Hv

open Json (Bytes)

/-! ### Answers of the kernel -/

/-- `write(2)`, `hssl_write`: a count, `EAGAIN`, or another error. -/
inductive Nwrite
  | wrote (n : ℕ) | again | failed
  deriving DecidableEq, Repr

/-- `connect(2)` on the non-blocking socket: an error, `EINPROGRESS`, or success. -/
inductive Nconnect
  | failed | inProgress | ok
  deriving DecidableEq, Repr

/-- `getpeername` and, over TLS, `hssl_connect` once the socket is writable. -/
inductive Ndial
  | failed | wantRead | ok
  deriving DecidableEq, Repr

/-! ### The state -/

/-- What stands between `hio_connect` and the connect callback: nothing, a posted
`nio_connect_event_cb`, the flag `connect` waiting for `HV_WRITE`, or the TLS handshake. -/
inductive Dial
  | idle | posted | waiting | handshake
  deriving DecidableEq, Repr

/-- `hio_t`. -/
structure Hio where
  id : ℕ
  ready : Bool
  connected : Bool
  closed : Bool
  /-- The bit `close`: close once the write queue is empty, with `close_timer` running. -/
  close : Bool
  /-- Whether `error` is set. -/
  error : Bool
  /-- Whether `io_type` is `HIO_TYPE_SSL`. -/
  ssl : Bool
  dial : Dial
  connectTimer : Bool
  /-- Whether `HV_READ` is among `events`. -/
  reading : Bool
  /-- Whether `heartbeat_timer` runs. -/
  heartbeat : Bool
  /-- What is left of each `offset_buf_t`. -/
  writeQueue : List Bytes
  writeBufsize : ℕ
  /-- The posted `hio_close_event_cb`s. -/
  closeEvents : ℕ
  sent : Bytes

/-- `MAX_WRITE_BUFSIZE`. -/
def maxWriteBufsize : ℕ := 2 ^ 24

namespace Hio

/-- `hio_ready`. -/
def new (id : ℕ) : Hio where
  id := id
  ready := true
  connected := false
  closed := false
  close := false
  error := false
  ssl := false
  dial := .idle
  connectTimer := false
  reading := false
  heartbeat := false
  writeQueue := []
  writeBufsize := 0
  closeEvents := 0
  sent := []

/-- `hio_is_opened`. -/
def isOpened (io : Hio) : Bool := io.ready && !io.closed

/-- `hio_close_async`: post a close to the loop. -/
def hioCloseAsync (io : Hio) : Hio := { io with closeEvents := io.closeEvents + 1 }

/-- An error is stored in `error`. -/
def setError (io : Hio) : Hio := { io with error := true }

/-- A posted `hio_close_event_cb` is taken from the queue. -/
def takeCloseEvent (io : Hio) : Hio := { io with closeEvents := io.closeEvents - 1 }

/-! ### Connecting -/

/-- `hio_connect`. -/
def hioConnect (io : Hio) : Nconnect → Hio × ℤ
  | .failed => (io.setError.hioCloseAsync, -1)
  | .ok => ({ io with dial := .posted }, 0)
  | .inProgress => ({ io with dial := .waiting, connectTimer := true }, 0)

/-- `__connect_cb` up to the callback, with the `hio_del` that ends a TLS handshake. -/
def connectCb (io : Hio) : Hio :=
  { io with dial := .idle, connectTimer := false, reading := false, connected := true }

/-! ### Writing -/

/-- The end of `hio_write`, from `if (nwrite < len)` on. -/
def enqueue (io : Hio) (remain : Bytes) (nwrite : ℕ) : Hio × ℤ :=
  if remain = [] then (io, nwrite)
  else if maxWriteBufsize < io.writeBufsize + remain.length then
    (io.setError.hioCloseAsync, -1)
  else
    ({ io with
      writeQueue := io.writeQueue ++ [remain]
      writeBufsize := io.writeBufsize + remain.length }, nwrite)

/-- `hio_write`. -/
def hioWrite (io : Hio) (buf : Bytes) (answer : Nwrite) : Hio × ℤ :=
  if io.closed then (io, -1)
  else if io.writeQueue = [] then
    match answer with
    | .failed => (io.setError.hioCloseAsync, -1)
    | .again => io.enqueue buf 0
    | .wrote n =>
        if min n buf.length = 0 then (hioCloseAsync io, -1)
        else enqueue { io with sent := io.sent ++ buf.take n } (buf.drop n) (min n buf.length)
  else io.enqueue buf 0

/-- The loop of `nio_write` over the write queue, with an answer for each turn.  The flag says
whether `hio_close` follows. -/
def nioWriteQueue (io : Hio) : List Bytes → (ℕ → Nwrite) → Hio × Bool
  | [], _ => ({ io with writeQueue := [], close := false }, io.close)
  | buf :: queue, answer =>
      match answer 0 with
      | .failed => (setError { io with writeQueue := buf :: queue }, true)
      | .again => ({ io with writeQueue := buf :: queue }, false)
      | .wrote n =>
          if min n buf.length = 0 then ({ io with writeQueue := buf :: queue }, true)
          else
            let io := { io with
              sent := io.sent ++ buf.take n
              writeBufsize := io.writeBufsize - min n buf.length }
            if buf.length ≤ n then nioWriteQueue io queue (fun i => answer (i + 1))
            else ({ io with writeQueue := buf.drop n :: queue }, false)

/-- `nio_write`. -/
def nioWrite (io : Hio) (answer : ℕ → Nwrite) : Hio × Bool := io.nioWriteQueue io.writeQueue answer

/-! ### Closing -/

/-- `hio_close` on the loop's thread, with `hio_done` and `__close_cb`.  The flag says whether
the close callback runs. -/
def hioClose (io : Hio) : Hio × Bool :=
  if io.closed then (io, false)
  else if io.writeQueue ≠ [] ∧ io.error = false ∧ io.close = false then
    ({ io with close := true }, false)
  else
    ({ io with
      closed := true
      ready := false
      connected := false
      dial := .idle
      connectTimer := false
      reading := false
      heartbeat := false
      writeQueue := [] }, true)

/-! ### What a write leaves alone -/

/-- The two states agree on everything but the write side. -/
structure Kept (io io' : Hio) : Prop where
  id : io'.id = io.id
  ready : io'.ready = io.ready
  closed : io'.closed = io.closed
  dial : io'.dial = io.dial

theorem Kept.refl (io : Hio) : Kept io io := ⟨rfl, rfl, rfl, rfl⟩

theorem Kept.trans {io₁ io₂ io₃ : Hio} (h : Kept io₁ io₂) (h' : Kept io₂ io₃) : Kept io₁ io₃ :=
  ⟨h'.id.trans h.id, h'.ready.trans h.ready, h'.closed.trans h.closed, h'.dial.trans h.dial⟩

theorem Kept.isOpened {io io' : Hio} (h : Kept io io') : io'.isOpened = io.isOpened := by
  simp [Hio.isOpened, h.ready, h.closed]

theorem enqueue_kept (io : Hio) (remain : Bytes) (nwrite : ℕ) :
    Kept io (io.enqueue remain nwrite).1 := by
  unfold enqueue
  split_ifs <;> constructor <;> rfl

theorem hioWrite_kept (io : Hio) (buf : Bytes) (answer : Nwrite) :
    Kept io (io.hioWrite buf answer).1 := by
  unfold hioWrite
  split_ifs
  · exact .refl io
  · cases answer with
    | failed => constructor <;> rfl
    | again => exact io.enqueue_kept buf 0
    | wrote n =>
        dsimp only
        split_ifs
        · constructor <;> rfl
        · have h : Kept io { io with sent := io.sent ++ buf.take n } := ⟨rfl, rfl, rfl, rfl⟩
          exact h.trans (enqueue_kept _ _ _)
  · exact io.enqueue_kept buf 0

theorem nioWriteQueue_kept (io : Hio) (queue : List Bytes) (answer : ℕ → Nwrite) :
    Kept io (io.nioWriteQueue queue answer).1 := by
  induction queue generalizing io answer with
  | nil => constructor <;> rfl
  | cons buf queue ih =>
      unfold nioWriteQueue
      cases answer 0 with
      | failed => constructor <;> rfl
      | again => constructor <;> rfl
      | wrote n =>
          dsimp only
          split_ifs
          · constructor <;> rfl
          · have h : Kept io { io with
                sent := io.sent ++ buf.take n
                writeBufsize := io.writeBufsize - min n buf.length } := ⟨rfl, rfl, rfl, rfl⟩
            exact h.trans (ih _ _)
          · constructor <;> rfl

theorem nioWrite_kept (io : Hio) (answer : ℕ → Nwrite) : Kept io (io.nioWrite answer).1 :=
  nioWriteQueue_kept _ _ _

/-- What `hio_close` does: nothing to a closed socket, otherwise it is put off or done. -/
theorem hioClose_cases (io : Hio) :
    ((io.hioClose).2 = false ∧ Kept io (io.hioClose).1) ∨
      ((io.hioClose).2 = true ∧ io.closed = false ∧ (io.hioClose).1.id = io.id ∧
        (io.hioClose).1.closed = true ∧ (io.hioClose).1.dial = .idle) := by
  unfold hioClose
  split_ifs with h1 h2
  · exact .inl ⟨rfl, .refl io⟩
  · exact .inl ⟨rfl, rfl, rfl, rfl, rfl⟩
  · exact .inr ⟨rfl, by simpa using h1, rfl, rfl, rfl⟩

/-! ### When a write is taken -/

/-- What decides about a write: whether the write queue is empty, and `write_bufsize`. -/
structure Backlog where
  empty : Bool
  size : ℕ
  deriving DecidableEq, Repr

/-- Queue `n` more bytes, unless they exceed the limit. -/
def Backlog.queue (b : Backlog) (n : ℕ) : Option Backlog :=
  if n = 0 then some b
  else if maxWriteBufsize < b.size + n then none
  else some ⟨false, b.size + n⟩

/-- The backlog after a write of `len` bytes that the kernel answers so, `none` if the write is
refused. -/
def Backlog.take (b : Backlog) (len : ℕ) (answer : Nwrite) : Option Backlog :=
  if b.empty then
    match answer with
    | .failed => none
    | .again => b.queue len
    | .wrote n => if min n len = 0 then none else b.queue (len - n)
  else b.queue len

/-- All writes of the given lengths are taken, one after the other. -/
def Backlog.takesAll (b : Backlog) : List ℕ → (ℕ → Nwrite) → Bool
  | [], _ => true
  | len :: lens, answer =>
      match b.take len (answer 0) with
      | none => false
      | some b' => b'.takesAll lens (fun i => answer (i + 1))

def backlog (io : Hio) : Backlog := ⟨io.writeQueue.isEmpty, io.writeBufsize⟩

/-- `r` is the result of a write that leaves `backlog?`, or of a refused one. -/
def Agrees (r : Hio × ℤ) (backlog? : Option Backlog) : Prop :=
  match backlog? with
  | none => r.2 < 0
  | some b => 0 ≤ r.2 ∧ r.1.backlog = b

theorem enqueue_agrees (io : Hio) (remain : Bytes) (nwrite : ℕ) :
    Agrees (io.enqueue remain nwrite) (io.backlog.queue remain.length) := by
  unfold enqueue Backlog.queue backlog
  by_cases h : remain = []
  · subst h
    simp [Agrees, backlog]
  · rw [if_neg h, if_neg (mt List.length_eq_zero_iff.mp h)]
    split_ifs
    · simp [Agrees]
    · simp [Agrees, backlog]

theorem hioWrite_agrees {io : Hio} (h : io.closed = false) (buf : Bytes) (answer : Nwrite) :
    Agrees (io.hioWrite buf answer) (io.backlog.take buf.length answer) := by
  unfold hioWrite Backlog.take
  rw [if_neg (by simp [h])]
  by_cases hq : io.writeQueue = []
  · have he : io.backlog.empty = true := by simp [backlog, hq]
    rw [if_pos hq, if_pos he]
    cases answer with
    | failed => simp [Agrees]
    | again => exact io.enqueue_agrees buf 0
    | wrote n =>
        dsimp only
        split_ifs
        · simp [Agrees]
        · rw [← List.length_drop]
          exact enqueue_agrees { io with sent := io.sent ++ buf.take n } _ _
  · have he : ¬ io.backlog.empty = true := by simp [backlog, hq]
    rw [if_neg hq, if_neg he]
    exact io.enqueue_agrees buf 0

/-- **When a write is taken.** -/
theorem hioWrite_takes {io : Hio} (h : io.closed = false) (buf : Bytes) (answer : Nwrite) :
    0 ≤ (io.hioWrite buf answer).2 ↔ (io.backlog.take buf.length answer).isSome := by
  have ha := hioWrite_agrees h buf answer
  unfold Agrees at ha
  cases hb : io.backlog.take buf.length answer with
  | none =>
      rw [hb] at ha
      simpa using ha
  | some b =>
      rw [hb] at ha
      simpa using ha.1

/-! ### What is written arrives in order -/

/-- Everything written so far that is not given up: sent, or waiting to be sent. -/
def stream (io : Hio) : Bytes := io.sent ++ io.writeQueue.flatten

theorem enqueue_stream {io : Hio} {remain : Bytes} {nwrite : ℕ}
    (h : 0 ≤ (io.enqueue remain nwrite).2) :
    (io.enqueue remain nwrite).1.stream = io.stream ++ remain := by
  unfold enqueue at h ⊢
  split_ifs at h ⊢ with h1 h2
  · simp [h1]
  · simp at h
  · simp [stream]

/-- A write that is taken goes behind everything written before. -/
theorem hioWrite_stream {io : Hio} {buf : Bytes} {answer : Nwrite}
    (h : 0 ≤ (io.hioWrite buf answer).2) :
    (io.hioWrite buf answer).1.stream = io.stream ++ buf := by
  unfold hioWrite at h ⊢
  split_ifs at h ⊢ with hc hq
  · simp at h
  · cases answer with
    | failed => simp at h
    | again => exact enqueue_stream h
    | wrote n =>
        dsimp only at h ⊢
        split_ifs at h ⊢ with hn
        · simp at h
        · rw [enqueue_stream h]
          simp [stream, hq]
  · exact enqueue_stream h

/-- Draining the queue changes nothing in what was written. -/
theorem nioWriteQueue_stream (io : Hio) (queue : List Bytes) (answer : ℕ → Nwrite) :
    (io.nioWriteQueue queue answer).1.stream = io.sent ++ queue.flatten := by
  induction queue generalizing io answer with
  | nil => simp [nioWriteQueue, stream]
  | cons buf queue ih =>
      unfold nioWriteQueue
      cases answer 0 with
      | failed => rfl
      | again => rfl
      | wrote n =>
          dsimp only
          split_ifs with hn hl
          · rfl
          · rw [ih]
            simp [List.take_of_length_le hl]
          · simp only [stream, List.flatten_cons, List.append_assoc]
            rw [← List.append_assoc (buf.take n), List.take_append_drop]

theorem nioWrite_stream (io : Hio) (answer : ℕ → Nwrite) :
    (io.nioWrite answer).1.stream = io.stream := nioWriteQueue_stream _ _ _

/-! ### The backlog is bounded -/

/-- `write_bufsize` is the size of the write queue and within the limit. -/
structure Bounded (io : Hio) : Prop where
  sized : io.closed = false → io.writeBufsize = io.writeQueue.flatten.length
  bounded : io.writeBufsize ≤ maxWriteBufsize

theorem new_bounded (id : ℕ) : Bounded (new id) := ⟨fun _ => rfl, Nat.zero_le _⟩

theorem enqueue_bounded {io : Hio} (h : Bounded io) (remain : Bytes) (nwrite : ℕ) :
    Bounded (io.enqueue remain nwrite).1 := by
  unfold enqueue
  split_ifs with h1 h2
  · exact h
  · exact ⟨h.sized, h.bounded⟩
  · constructor
    · intro hc
      simp [h.sized hc]
    · simpa using h2

theorem hioWrite_bounded {io : Hio} (h : Bounded io) (buf : Bytes) (answer : Nwrite) :
    Bounded (io.hioWrite buf answer).1 := by
  unfold hioWrite
  split_ifs
  · exact h
  · cases answer with
    | failed => exact ⟨h.sized, h.bounded⟩
    | again => exact enqueue_bounded h buf 0
    | wrote n =>
        dsimp only
        split_ifs
        · exact ⟨h.sized, h.bounded⟩
        · have h' : Bounded { io with sent := io.sent ++ buf.take n } := ⟨h.sized, h.bounded⟩
          exact enqueue_bounded h' _ _
  · exact enqueue_bounded h buf 0

theorem nioWriteQueue_bounded {io : Hio} {queue : List Bytes}
    (hs : io.closed = false → io.writeBufsize = queue.flatten.length)
    (hb : io.writeBufsize ≤ maxWriteBufsize) (answer : ℕ → Nwrite) :
    Bounded (io.nioWriteQueue queue answer).1 := by
  induction queue generalizing io answer with
  | nil => exact ⟨hs, hb⟩
  | cons buf queue ih =>
      unfold nioWriteQueue
      cases answer 0 with
      | failed => exact ⟨hs, hb⟩
      | again => exact ⟨hs, hb⟩
      | wrote n =>
          have hb' : io.writeBufsize - min n buf.length ≤ maxWriteBufsize := le_trans (Nat.sub_le _ _) hb
          dsimp only
          split_ifs with hn hl
          · exact ⟨hs, hb⟩
          · refine ih ?_ hb' _
            intro hc
            have := hs hc
            simp only [List.flatten_cons, List.length_append] at this
            simp only [this, Nat.min_eq_right hl]
            omega
          · refine ⟨fun hc => ?_, hb'⟩
            have := hs hc
            simp only [List.flatten_cons, List.length_append] at this
            simp only [this, List.flatten_cons, List.length_append, List.length_drop]
            omega

theorem nioWrite_bounded {io : Hio} (h : Bounded io) (answer : ℕ → Nwrite) :
    Bounded (io.nioWrite answer).1 := nioWriteQueue_bounded h.sized h.bounded answer

theorem hioClose_bounded {io : Hio} (h : Bounded io) : Bounded (io.hioClose).1 := by
  unfold hioClose
  split_ifs
  · exact h
  · exact ⟨h.sized, h.bounded⟩
  · exact ⟨fun hc => by simp at hc, h.bounded⟩

/-- A buffer that fits in the backlog is queued. -/
theorem enqueue_of_fits {io : Hio} {remain : Bytes} (h : io.writeBufsize + remain.length ≤ maxWriteBufsize)
    (nwrite : ℕ) : 0 ≤ (io.enqueue remain nwrite).2 := by
  unfold enqueue
  rw [if_neg (not_lt.mpr h)]
  split_ifs <;> simp

theorem enqueue_refused_stream {io : Hio} {remain : Bytes} {nwrite : ℕ}
    (h : (io.enqueue remain nwrite).2 < 0) : (io.enqueue remain nwrite).1.stream = io.stream := by
  unfold enqueue at h ⊢
  split_ifs at h ⊢
  · rfl
  · rfl
  · exact absurd h (not_lt.mpr (Int.natCast_nonneg nwrite))

/-- **A short write is all or nothing**: if it is refused, no byte of it was sent. -/
theorem hioWrite_refused_stream {io : Hio} (h : Bounded io) (hc : io.closed = false) {buf : Bytes}
    (hlen : buf.length ≤ maxWriteBufsize) {answer : Nwrite} (hr : (io.hioWrite buf answer).2 < 0) :
    (io.hioWrite buf answer).1.stream = io.stream := by
  unfold hioWrite at hr ⊢
  rw [if_neg (by simp [hc])] at hr ⊢
  split_ifs at hr ⊢ with hq
  · have hsize : io.writeBufsize = 0 := by simp [h.sized hc, hq]
    cases answer with
    | failed => rfl
    | again => exact enqueue_refused_stream hr
    | wrote n =>
        dsimp only at hr ⊢
        split_ifs at hr ⊢ with hn
        · rfl
        · -- the queue is empty, so what the kernel leaves always fits
          apply absurd _ (not_le.mpr hr)
          apply enqueue_of_fits
          simp only [hsize, List.length_drop]
          omega
  · exact enqueue_refused_stream hr

/-! ### What leaves the write side alone -/

/-- The two states agree on the write side. -/
structure Still (io io' : Hio) : Prop where
  closed : io'.closed = io.closed
  sent : io'.sent = io.sent
  writeQueue : io'.writeQueue = io.writeQueue
  writeBufsize : io'.writeBufsize = io.writeBufsize

theorem Still.refl (io : Hio) : Still io io := ⟨rfl, rfl, rfl, rfl⟩

theorem Still.trans {io₁ io₂ io₃ : Hio} (h : Still io₁ io₂) (h' : Still io₂ io₃) : Still io₁ io₃ :=
  ⟨h'.closed.trans h.closed, h'.sent.trans h.sent, h'.writeQueue.trans h.writeQueue,
    h'.writeBufsize.trans h.writeBufsize⟩

theorem Still.stream {io io' : Hio} (h : Still io io') : io'.stream = io.stream := by
  simp [Hio.stream, h.sent, h.writeQueue]

theorem Still.bounded {io io' : Hio} (h : Still io io') (hb : Bounded io) : Bounded io' where
  sized := by
    rw [h.closed, h.writeBufsize, h.writeQueue]
    exact hb.sized
  bounded := by
    rw [h.writeBufsize]
    exact hb.bounded

theorem hioConnect_still (io : Hio) (answer : Nconnect) : Still io (io.hioConnect answer).1 := by
  cases answer <;> exact ⟨rfl, rfl, rfl, rfl⟩

/-- `hio_close` on an open socket leaves the write side alone or closes it. -/
theorem hioClose_still (io : Hio) : Still io (io.hioClose).1 ∨ (io.hioClose).1.closed = true := by
  unfold hioClose
  split_ifs
  · exact .inl (.refl io)
  · exact .inl ⟨rfl, rfl, rfl, rfl⟩
  · exact .inr rfl

end Hio

end OrderbookClient.Hv
