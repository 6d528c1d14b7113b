import OrderbookClient.Frame
import OrderbookClient.Hio

/-! # The channel: `Channel.h` and `WebSocketChannel.cpp`

A `WebSocketChannel` of type `WS_CLIENT` with the socket it owns.  Its `status` and the socket's
own flags decide together what it does: `isOpened` looks at both, and `write` and `close` do
nothing on a channel that is not open.

`send` frames a message, cutting it into fragments of 65535 bytes.  `send_takes` says when it
succeeds, and `execute_messageFrames` that a peer reads one message back from what it wrote. -/

namespace OrderbookClient.Hv

open Json (Bytes)

/-- `Channel::Status`. -/
inductive Status
  | opened | connecting | connected | disconnected | closed
  deriving DecidableEq, Repr

/-- The order of the enumeration, which `>=` compares by. -/
def Status.code : Status → ℕ
  | .opened => 0
  | .connecting => 1
  | .connected => 2
  | .disconnected => 3
  | .closed => 4

/-- `WebSocketChannel`.  `id` is the socket's id when the channel was made. -/
structure Channel where
  io : Hio
  id : ℕ
  status : Status
  /-- Whether the callback `onclose` is set. -/
  onclose : Bool

namespace Channel

/-- The constructor. -/
def new (io : Hio) : Channel := ⟨io, io.id, if io.isOpened then .opened else .closed, false⟩

def isOpened (ch : Channel) : Bool :=
  if Status.code .disconnected ≤ ch.status.code then false
  else ch.id == ch.io.id && ch.io.isOpened

def isClosed (ch : Channel) : Bool := !ch.isOpened

def isConnected (ch : Channel) : Bool := ch.status == .connected && ch.isOpened

/-- `write`. -/
def write (ch : Channel) (buf : Bytes) (answer : Nwrite) : Channel × ℤ :=
  if ch.isOpened then
    let r := ch.io.hioWrite buf answer
    ({ ch with io := r.1 }, r.2)
  else (ch, -1)

/-- `hio_close` on the channel's socket, with the callback `on_close`.  The flag says whether
`onclose` runs. -/
def hioClose (ch : Channel) : Channel × Bool :=
  let r := ch.io.hioClose
  if r.2 then ({ ch with io := r.1, status := .closed }, ch.onclose)
  else ({ ch with io := r.1 }, false)

/-- `close`. -/
def close (ch : Channel) : Channel × Bool :=
  if ch.isClosed then (ch, false) else hioClose { ch with status := .closed }

def enableSSL (ch : Channel) : Channel := { ch with io := { ch.io with ssl := true } }

/-- `startConnect`: the status, then `hio_connect`. -/
def startConnect (ch : Channel) (answer : Nconnect) : Channel × ℤ :=
  let r := ch.io.hioConnect answer
  ({ ch with status := .connecting, io := r.1 }, r.2)

/-- `startRead`. -/
def startRead (ch : Channel) : Channel :=
  if ch.isOpened then { ch with io := { ch.io with reading := true } } else ch

/-- `setHeartbeat`. -/
def setHeartbeat (ch : Channel) : Channel := { ch with io := { ch.io with heartbeat := true } }

/-! ### Sending -/

/-- `WS_CLIENT_PING_FRAME`. -/
def pingFrame : Bytes := [0x89, 0x80, 0x57, 0x53, 0x57, 0x53]

/-- `WS_CLIENT_PONG_FRAME`. -/
def pongFrame : Bytes := [0x8A, 0x80, 0x57, 0x53, 0x57, 0x53]

def sendPing (ch : Channel) (answer : Nwrite) : Channel × ℤ := ch.write pingFrame answer

def sendPong (ch : Channel) (answer : Nwrite) : Channel × ℤ := ch.write pongFrame answer

/-- `sendFrame` of a client: the frame is masked with `mask`, the bytes of `rand()`. -/
def sendFrame (ch : Channel) (buf : Bytes) (opcode : WsOpcode) (fin : Bool) (mask : Mask)
    (answer : Nwrite) : Channel × ℤ :=
  ch.write (websocketBuildFrame fin opcode (some mask) buf) answer

/-- The largest fragment. -/
def fragment : ℕ := 0xFFFF

/-- What `send` leaves behind: the channel, the return value and, which the source does not keep,
how many frames the channel took. -/
structure Sent where
  channel : Channel
  ret : ℤ
  frames : ℕ

/-- `if (nsend < 0) return nsend;`, then go on. -/
def Sent.after (r : Channel × ℤ) (rest : Channel → Sent) : Sent :=
  if r.2 < 0 then ⟨r.1, r.2, 0⟩
  else ⟨(rest r.1).channel, (rest r.1).ret, (rest r.1).frames + 1⟩

/-- `send` from the second fragment on; `len` is the length of the whole message. -/
def sendRest (len : ℤ) (ch : Channel) (p : Bytes) (mask : ℕ → Mask) (answer : ℕ → Nwrite) : Sent :=
  if fragment < p.length then
    .after (ch.sendFrame (p.take fragment) .cont false (mask 0) (answer 0)) (fun ch' =>
      sendRest len ch' (p.drop fragment) (fun i => mask (i + 1)) (fun i => answer (i + 1)))
  else .after (ch.sendFrame p .cont true (mask 0) (answer 0)) (fun ch' => ⟨ch', len, 0⟩)
termination_by p.length
decreasing_by
  simp only [fragment, List.length_drop] at *
  omega

/-- `send`, with a mask and an answer of the kernel for each frame. -/
def send (ch : Channel) (buf : Bytes) (opcode : WsOpcode) (mask : ℕ → Mask) (answer : ℕ → Nwrite) :
    Sent :=
  if fragment < buf.length then
    .after (ch.sendFrame (buf.take fragment) opcode false (mask 0) (answer 0)) (fun ch' =>
      sendRest buf.length ch' (buf.drop fragment) (fun i => mask (i + 1)) (fun i => answer (i + 1)))
  else
    let r := ch.sendFrame buf opcode true (mask 0) (answer 0)
    .after r (fun ch' => ⟨ch', r.2, 0⟩)

/-! ### What a write leaves alone -/

/-- The two channels agree on everything but the write side of the socket. -/
structure Kept (ch ch' : Channel) : Prop where
  id : ch'.id = ch.id
  status : ch'.status = ch.status
  onclose : ch'.onclose = ch.onclose
  io : Hio.Kept ch.io ch'.io

theorem Kept.refl (ch : Channel) : Kept ch ch := ⟨rfl, rfl, rfl, .refl _⟩

theorem Kept.trans {ch₁ ch₂ ch₃ : Channel} (h : Kept ch₁ ch₂) (h' : Kept ch₂ ch₃) : Kept ch₁ ch₃ :=
  ⟨h'.id.trans h.id, h'.status.trans h.status, h'.onclose.trans h.onclose, h.io.trans h'.io⟩

theorem Kept.isOpened {ch ch' : Channel} (h : Kept ch ch') : ch'.isOpened = ch.isOpened := by
  simp [Channel.isOpened, h.id, h.status, h.io.id, h.io.isOpened]

theorem write_kept (ch : Channel) (buf : Bytes) (answer : Nwrite) :
    Kept ch (ch.write buf answer).1 := by
  unfold write
  split_ifs
  · exact ⟨rfl, rfl, rfl, ch.io.hioWrite_kept buf answer⟩
  · exact .refl ch

theorem after_keeps {P : Channel → Prop} {r : Channel × ℤ} {rest : Channel → Sent} (hr : P r.1)
    (hrest : P r.1 → P (rest r.1).channel) : P (Sent.after r rest).channel := by
  unfold Sent.after
  split_ifs
  · exact hr
  · exact hrest hr

theorem sendRest_keeps {P : Channel → Prop} (hP : ∀ ch buf answer, P ch → P (write ch buf answer).1)
    (len : ℤ) {ch : Channel} (h : P ch) (p : Bytes) (mask : ℕ → Mask) (answer : ℕ → Nwrite) :
    P (sendRest len ch p mask answer).channel := by
  unfold sendRest
  split_ifs with hp
  · exact after_keeps (hP _ _ _ h) (fun h' => sendRest_keeps hP _ h' _ _ _)
  · exact after_keeps (hP _ _ _ h) (fun h' => h')
termination_by p.length
decreasing_by
  simp only [fragment, List.length_drop] at *
  omega

/-- **What every write keeps, `send` keeps.** -/
theorem send_keeps {P : Channel → Prop} (hP : ∀ ch buf answer, P ch → P (write ch buf answer).1)
    {ch : Channel} (h : P ch) (buf : Bytes) (opcode : WsOpcode) (mask : ℕ → Mask)
    (answer : ℕ → Nwrite) : P (ch.send buf opcode mask answer).channel := by
  unfold send
  split_ifs
  · exact after_keeps (hP _ _ _ h) (fun h' => sendRest_keeps hP _ h' _ _ _)
  · exact after_keeps (hP _ _ _ h) (fun h' => h')

theorem send_kept (ch : Channel) (buf : Bytes) (opcode : WsOpcode) (mask : ℕ → Mask)
    (answer : ℕ → Nwrite) : Kept ch (ch.send buf opcode mask answer).channel :=
  send_keeps (P := Kept ch) (fun _ _ _ h => h.trans (write_kept _ _ _)) (.refl ch) _ _ _ _

/-! ### What a close does -/

theorem isOpened_of_closed {ch : Channel} (h : ch.status = .closed) : ch.isOpened = false := by
  unfold isOpened
  rw [h]
  rfl

/-- `hio_close` leaves the channel open for now, or closes it and calls `onclose` if it is set. -/
theorem hioClose_cases (ch : Channel) :
    (ch.hioClose.2 = false ∧ Kept ch ch.hioClose.1) ∨
      (ch.io.closed = false ∧ ch.hioClose.2 = ch.onclose ∧ ch.hioClose.1.id = ch.id ∧
        ch.hioClose.1.onclose = ch.onclose ∧ ch.hioClose.1.isOpened = false ∧
        ch.hioClose.1.io.closed = true ∧ ch.hioClose.1.io.dial = .idle) := by
  unfold hioClose
  obtain ⟨h2, hk⟩ | ⟨h2, hc, hid, hcl, hd⟩ := ch.io.hioClose_cases
  · left
    simp only [h2]
    exact ⟨rfl, rfl, rfl, rfl, hk⟩
  · right
    simp only [h2]
    exact ⟨hc, rfl, rfl, rfl, isOpened_of_closed rfl, hcl, hd⟩

theorem close_isOpened (ch : Channel) : ch.close.1.isOpened = false := by
  unfold close
  split_ifs with hc
  · simpa [isClosed] using hc
  · have hnot : ({ ch with status := .closed } : Channel).isOpened = false := isOpened_of_closed rfl
    obtain ⟨-, hk⟩ | ⟨-, -, -, -, hopen, -, -⟩ := hioClose_cases { ch with status := .closed }
    · exact hk.isOpened.trans hnot
    · exact hopen

/-- A channel that calls nobody back is closed silently. -/
theorem close_unheard {ch : Channel} (h : ch.onclose = false) :
    ch.close.1.onclose = false ∧ ch.close.2 = false := by
  unfold close
  split_ifs
  · exact ⟨h, rfl⟩
  · obtain ⟨h2, hk⟩ | ⟨-, h2, -, hon, -, -, -⟩ := hioClose_cases { ch with status := .closed }
    · exact ⟨hk.onclose.trans h, h2⟩
    · exact ⟨hon.trans h, h2.trans h⟩

/-- The channel belongs to its socket, and the socket's flags agree with each other. -/
structure Wf (ch : Channel) : Prop where
  id : ch.id = ch.io.id
  ready : ch.io.ready = !ch.io.closed
  dial : ch.io.closed = true → ch.io.dial = .idle

theorem new_wf (id : ℕ) : (new (.new id)).Wf := ⟨rfl, rfl, fun _ => rfl⟩

theorem Kept.wf {ch ch' : Channel} (h : Kept ch ch') (hwf : ch.Wf) : ch'.Wf where
  id := by rw [h.id, h.io.id, hwf.id]
  ready := by rw [h.io.ready, h.io.closed, hwf.ready]
  dial := by
    rw [h.io.closed, h.io.dial]
    exact hwf.dial

theorem hioClose_wf {ch : Channel} (h : ch.Wf) : ch.hioClose.1.Wf := by
  unfold hioClose Hio.hioClose
  split_ifs
  · exact ⟨h.id, h.ready, h.dial⟩
  · exact ⟨h.id, h.ready, h.dial⟩
  · exact ⟨h.id, rfl, fun _ => rfl⟩

theorem startConnect_wf {ch : Channel} (h : ch.Wf) (hc : ch.io.closed = false)
    (answer : Nconnect) : (ch.startConnect answer).1.Wf := by
  unfold startConnect
  cases answer <;> exact ⟨h.id, h.ready, fun hbad => by simp_all [Hio.hioConnect, Hio.hioCloseAsync,
    Hio.setError]⟩

/-- A well-formed channel is open as long as neither it nor its socket is closed. -/
theorem Wf.isOpened {ch : Channel} (h : ch.Wf) (hs : ch.status.code < Status.code .disconnected)
    (hc : ch.io.closed = false) : ch.isOpened = true := by
  unfold Channel.isOpened Hio.isOpened
  rw [if_neg (not_le.mpr hs), h.ready, hc, h.id]
  simp

/-! ### When a message is taken -/

/-- The sizes of the frames of a message of `len` bytes. -/
def frameSizes (len : ℕ) : List ℕ :=
  if fragment < len then wsCalcFrameSize fragment true :: frameSizes (len - fragment)
  else [wsCalcFrameSize len true]
decreasing_by
  simp only [fragment] at *
  omega

theorem isOpened_io {ch : Channel} (h : ch.isOpened = true) : ch.io.closed = false := by
  unfold isOpened Hio.isOpened at h
  split_ifs at h
  simp only [Bool.and_eq_true, Bool.not_eq_true'] at h
  exact h.2.2

theorem write_closed {ch : Channel} (h : ch.isOpened = false) (buf : Bytes) (answer : Nwrite) :
    ch.write buf answer = (ch, -1) := by
  unfold write
  rw [if_neg (by simp [h])]

theorem write_agrees {ch : Channel} (h : ch.isOpened = true) (buf : Bytes) (answer : Nwrite) :
    Hio.Agrees ((ch.write buf answer).1.io, (ch.write buf answer).2)
      (ch.io.backlog.take buf.length answer) := by
  unfold write
  rw [if_pos h]
  exact Hio.hioWrite_agrees (isOpened_io h) buf answer

theorem after_takes {ch : Channel} {r : Channel × ℤ} {rest : Channel → Sent} {len : ℕ}
    {lens : List ℕ} {answer : ℕ → Nwrite}
    (hr : Hio.Agrees (r.1.io, r.2) (ch.io.backlog.take len (answer 0)))
    (hrest : 0 ≤ r.2 → (0 ≤ (rest r.1).ret ↔
      r.1.io.backlog.takesAll lens (fun i => answer (i + 1)) = true)) :
    (0 ≤ (Sent.after r rest).ret ↔ ch.io.backlog.takesAll (len :: lens) answer = true) ∧
      (0 < (Sent.after r rest).frames ↔ (ch.io.backlog.take len (answer 0)).isSome = true) := by
  unfold Sent.after Hio.Backlog.takesAll
  cases hb : ch.io.backlog.take len (answer 0) with
  | none =>
      rw [hb] at hr
      simp only [Hio.Agrees] at hr
      rw [if_pos hr]
      simp [hr]
  | some b =>
      rw [hb] at hr
      obtain ⟨h0, hb'⟩ := hr
      have h := hrest h0
      rw [if_neg (not_lt.mpr h0)]
      simp only at hb'
      rw [hb'] at h
      simpa using h

theorem sendFrame_agrees {ch : Channel} (h : ch.isOpened = true) (buf : Bytes) (opcode : WsOpcode)
    (fin : Bool) (mask : Mask) (answer : Nwrite) :
    Hio.Agrees ((ch.sendFrame buf opcode fin mask answer).1.io,
        (ch.sendFrame buf opcode fin mask answer).2)
      (ch.io.backlog.take (wsCalcFrameSize buf.length true) answer) := by
  have hw := write_agrees h (websocketBuildFrame fin opcode (some mask) buf) answer
  rwa [websocketBuildFrame_length] at hw

theorem sendRest_takes {len : ℤ} (hlen : 0 ≤ len) {ch : Channel} (h : ch.isOpened = true)
    (p : Bytes) (mask : ℕ → Mask) (answer : ℕ → Nwrite) :
    0 ≤ (sendRest len ch p mask answer).ret ↔
      ch.io.backlog.takesAll (frameSizes p.length) answer = true := by
  unfold sendRest frameSizes
  split_ifs with hp
  · have hfr := sendFrame_agrees h (p.take fragment) .cont false (mask 0) (answer 0)
    rw [List.length_take, Nat.min_eq_left hp.le] at hfr
    refine (after_takes hfr ?_).1
    intro _
    have hk : (ch.sendFrame (p.take fragment) .cont false (mask 0) (answer 0)).1.isOpened = true :=
      (ch.write_kept _ _).isOpened.trans h
    have ih := sendRest_takes hlen hk (p.drop fragment) (fun i => mask (i + 1))
      (fun i => answer (i + 1))
    rwa [List.length_drop] at ih
  · refine (after_takes (sendFrame_agrees h p .cont true (mask 0) (answer 0)) ?_).1
    intro _
    simpa [Hio.Backlog.takesAll] using hlen
termination_by p.length
decreasing_by
  simp only [fragment, List.length_drop] at *
  omega

/-- **When a message is taken.**  On an open channel, `send` succeeds exactly if every frame of
the message is taken, and takes a frame at all exactly if the first one is. -/
theorem send_takes {ch : Channel} (h : ch.isOpened = true) (buf : Bytes) (opcode : WsOpcode)
    (mask : ℕ → Mask) (answer : ℕ → Nwrite) :
    (0 ≤ (ch.send buf opcode mask answer).ret ↔
        ch.io.backlog.takesAll (frameSizes buf.length) answer = true) ∧
      (0 < (ch.send buf opcode mask answer).frames ↔
        (ch.io.backlog.take (wsCalcFrameSize (min buf.length fragment) true) (answer 0)).isSome
          = true) := by
  unfold send frameSizes
  split_ifs with hp
  · have hfr := sendFrame_agrees h (buf.take fragment) opcode false (mask 0) (answer 0)
    rw [List.length_take, Nat.min_eq_left hp.le] at hfr
    rw [Nat.min_eq_right hp.le]
    apply after_takes hfr
    intro _
    have hk : (ch.sendFrame (buf.take fragment) opcode false (mask 0) (answer 0)).1.isOpened = true :=
      (ch.write_kept _ _).isOpened.trans h
    have ih := sendRest_takes (Int.natCast_nonneg buf.length) hk (buf.drop fragment)
      (fun i => mask (i + 1)) (fun i => answer (i + 1))
    rwa [List.length_drop] at ih
  · rw [Nat.min_eq_left (not_lt.mp hp)]
    apply after_takes (sendFrame_agrees h buf opcode true (mask 0) (answer 0))
    intro h0
    simpa [Hio.Backlog.takesAll] using h0

theorem send_closed {ch : Channel} (h : ch.isOpened = false) (buf : Bytes) (opcode : WsOpcode)
    (mask : ℕ → Mask) (answer : ℕ → Nwrite) :
    ch.send buf opcode mask answer = ⟨ch, -1, 0⟩ := by
  have hf : ∀ buf opcode fin mask answer, ch.sendFrame buf opcode fin mask answer = (ch, -1) :=
    fun _ _ _ _ _ => write_closed h _ _
  unfold send
  simp [hf, Sent.after]

/-! ### What a peer reads -/

/-- The frames of a message from the second one on. -/
def restFrames (p : Bytes) (mask : ℕ → Mask) : Bytes :=
  if fragment < p.length then
    websocketBuildFrame false .cont (some (mask 0)) (p.take fragment) ++
      restFrames (p.drop fragment) (fun i => mask (i + 1))
  else websocketBuildFrame true .cont (some (mask 0)) p
termination_by p.length
decreasing_by
  simp only [fragment, List.length_drop] at *
  omega

/-- The frames of a message. -/
def messageFrames (opcode : WsOpcode) (buf : Bytes) (mask : ℕ → Mask) : Bytes :=
  if fragment < buf.length then
    websocketBuildFrame false opcode (some (mask 0)) (buf.take fragment) ++
      restFrames (buf.drop fragment) (fun i => mask (i + 1))
  else websocketBuildFrame true opcode (some (mask 0)) buf

theorem write_stream {ch : Channel} {buf : Bytes} {answer : Nwrite} (h : 0 ≤ (ch.write buf answer).2) :
    (ch.write buf answer).1.io.stream = ch.io.stream ++ buf := by
  unfold write at h ⊢
  split_ifs at h ⊢
  · exact Hio.hioWrite_stream h
  · simp at h

theorem sendFrame_stream {ch : Channel} {buf : Bytes} {opcode : WsOpcode} {fin : Bool} {mask : Mask}
    {answer : Nwrite} (h : 0 ≤ (ch.sendFrame buf opcode fin mask answer).2) :
    (ch.sendFrame buf opcode fin mask answer).1.io.stream =
      ch.io.stream ++ websocketBuildFrame fin opcode (some mask) buf := write_stream h

theorem after_stream {ch : Channel} {r : Channel × ℤ} {rest : Channel → Sent} {a b : Bytes}
    (h : 0 ≤ (Sent.after r rest).ret) (hr : 0 ≤ r.2 → r.1.io.stream = ch.io.stream ++ a)
    (hrest : 0 ≤ (rest r.1).ret → (rest r.1).channel.io.stream = r.1.io.stream ++ b) :
    (Sent.after r rest).channel.io.stream = ch.io.stream ++ (a ++ b) := by
  unfold Sent.after at h ⊢
  split_ifs at h ⊢ with h0
  · exact absurd h (not_le.mpr h0)
  · rw [hrest h, hr (not_lt.mp h0), List.append_assoc]

theorem sendRest_stream {len : ℤ} {ch : Channel} {p : Bytes} {mask : ℕ → Mask}
    {answer : ℕ → Nwrite} (h : 0 ≤ (sendRest len ch p mask answer).ret) :
    (sendRest len ch p mask answer).channel.io.stream = ch.io.stream ++ restFrames p mask := by
  unfold sendRest restFrames at *
  split_ifs at h ⊢ with hp
  · exact after_stream h sendFrame_stream (fun h' => sendRest_stream h')
  · simpa using after_stream (b := []) h sendFrame_stream (fun _ => by simp)
termination_by p.length
decreasing_by
  simp only [fragment, List.length_drop] at *
  omega

/-- A message that is taken goes, frame by frame, behind everything written before. -/
theorem send_stream {ch : Channel} {buf : Bytes} {opcode : WsOpcode} {mask : ℕ → Mask}
    {answer : ℕ → Nwrite} (h : 0 ≤ (ch.send buf opcode mask answer).ret) :
    (ch.send buf opcode mask answer).channel.io.stream =
      ch.io.stream ++ messageFrames opcode buf mask := by
  unfold send messageFrames at *
  split_ifs at h ⊢ with hp
  · exact after_stream h sendFrame_stream (fun h' => sendRest_stream h')
  · simpa using after_stream (b := []) h sendFrame_stream (fun _ => by simp)

/-- The parser between two messages, ready for the next. -/
def Ready (wp : WebSocketParser) : Prop :=
  wp.parserState = .start ∧ (wp.state = .frameBegin ∨ wp.state = .frameFin)

/-- A last frame completes the message begun before it. -/
theorem execute_lastFrame {wp : WebSocketParser} (hs : wp.parserState = .start) (opcode : WsOpcode)
    (mask : Mask) {p : Bytes} (hp : ¬ fragment < p.length) :
    ∃ wp', wp.execute (websocketBuildFrame true opcode (some mask) p) =
        some (wp', [⟨if opcode = .cont then wp.opcode else opcode.code,
          (if wp.state = .frameBegin ∨ wp.state = .frameFin then [] else wp.message) ++ p⟩]) ∧
      Ready wp' := by
  have hsize : p.length < 2 ^ 31 - 1 := by
    simp only [fragment] at hp
    omega
  obtain ⟨wp', he, hr⟩ := WebSocketParser.execute_buildFrame hs true opcode (some mask) p hsize
  refine ⟨wp', ?_, hr.parserState, .inr hr.state⟩
  rw [he, hr.opcode_eq, hr.message_eq]
  rfl

theorem execute_fragment {wp : WebSocketParser} (hs : wp.parserState = .start) (opcode : WsOpcode)
    (mask : Mask) (p : Bytes) :
    ∃ wp', wp.execute (websocketBuildFrame false opcode (some mask) (p.take fragment)) =
        some (wp', []) ∧ wp'.parserState = .start ∧ wp'.state = .frameEnd ∧
      wp'.opcode = (if opcode = .cont then wp.opcode else opcode.code) ∧
      wp'.message = (if wp.state = .frameBegin ∨ wp.state = .frameFin then [] else wp.message) ++
        p.take fragment := by
  have hsize : (p.take fragment).length < 2 ^ 31 - 1 := by
    rw [List.length_take]
    simp only [fragment]
    omega
  obtain ⟨wp', he, hr⟩ :=
    WebSocketParser.execute_buildFrame hs false opcode (some mask) (p.take fragment) hsize
  exact ⟨wp', he, hr.parserState, hr.state, hr.opcode_eq, hr.message_eq⟩

theorem execute_restFrames {wp : WebSocketParser} (hs : wp.parserState = .start)
    (hst : wp.state = .frameEnd) (p : Bytes) (mask : ℕ → Mask) :
    ∃ wp', wp.execute (restFrames p mask) = some (wp', [⟨wp.opcode, wp.message ++ p⟩]) ∧
      Ready wp' := by
  unfold restFrames
  split_ifs with hp
  · obtain ⟨wp₁, he₁, hs₁, hst₁, hop₁, hm₁⟩ := execute_fragment hs .cont (mask 0) p
    obtain ⟨wp', he, hr⟩ := execute_restFrames hs₁ hst₁ (p.drop fragment) (fun i => mask (i + 1))
    refine ⟨wp', ?_, hr⟩
    rw [WebSocketParser.execute_append, he₁, WebSocketParser.andThen_some, he, hop₁, hm₁, hst]
    simp
  · obtain ⟨wp', he, hr⟩ := execute_lastFrame hs .cont (mask 0) hp
    refine ⟨wp', ?_, hr⟩
    rw [he, hst]
    simp
termination_by p.length
decreasing_by
  simp only [fragment, List.length_drop] at *
  omega

/-- **A message arrives whole.**  However it is fragmented and masked, a peer that runs the same
parser reads exactly one message from its frames, the one sent. -/
theorem execute_messageFrames {wp : WebSocketParser} (h : Ready wp) {opcode : WsOpcode}
    (hop : opcode ≠ .cont) (buf : Bytes) (mask : ℕ → Mask) :
    ∃ wp', wp.execute (messageFrames opcode buf mask) = some (wp', [⟨opcode.code, buf⟩]) ∧
      Ready wp' := by
  unfold messageFrames
  split_ifs with hp
  · obtain ⟨wp₁, he₁, hs₁, hst₁, hop₁, hm₁⟩ := execute_fragment h.1 opcode (mask 0) buf
    obtain ⟨wp', he, hr⟩ := execute_restFrames hs₁ hst₁ (buf.drop fragment) (fun i => mask (i + 1))
    refine ⟨wp', ?_, hr⟩
    rw [WebSocketParser.execute_append, he₁, WebSocketParser.andThen_some, he, hop₁, hm₁,
      if_pos h.2, if_neg hop]
    simp
  · obtain ⟨wp', he, hr⟩ := execute_lastFrame h.1 opcode (mask 0) hp
    refine ⟨wp', ?_, hr⟩
    rw [he, if_pos h.2, if_neg hop]
    simp

end Channel

end OrderbookClient.Hv
