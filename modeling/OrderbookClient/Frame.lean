import Mathlib.Tactic
import OrderbookClient.JsonGrammar

/-! # WebSocket frames: `wsdef.c`, `websocket_parser.c` and `WebSocketParser.cpp`

* `wsCalcFrameSize`, `websocketBuildFrame`: what `WebSocketChannel::sendFrame` puts on the wire.
* `WebSocketParser`: the byte-driven frame parser together with its callbacks, which assemble
  the frames into messages.  `none` is an exception nobody catches.

`execute_append`: how the bytes are cut into chunks makes no difference.
`execute_buildFrame`: the parser reads back what was framed, masked or not. -/

namespace OrderbookClient.Hv

open Json (Bytes)

/-- `enum ws_opcode`. -/
inductive WsOpcode
  | cont | text | binary | close | ping | pong
  deriving DecidableEq, Repr

/-- The numeric values of `enum ws_opcode`. -/
def WsOpcode.code : WsOpcode → ℕ
  | .cont => 0x0
  | .text => 0x1
  | .binary => 0x2
  | .close => 0x8
  | .ping => 0x9
  | .pong => 0xA

/-- The four bytes of a masking key. -/
abbrev Mask := Fin 4 → UInt8

/-- `websocket_decode` and `websocket_parser_decode`, from the given mask offset on. -/
def websocketDecode (mask : Mask) : ℕ → Bytes → Bytes
  | _, [] => []
  | i, b :: bs => (b ^^^ mask (Fin.ofNat 4 i)) :: websocketDecode mask (i + 1) bs

/-! ### Building a frame -/

/-- `ws_calc_frame_size`. -/
def wsCalcFrameSize (dataLen : ℕ) (hasMask : Bool) : ℕ :=
  dataLen + 2 + (if 126 ≤ dataLen then if 0xFFFF < dataLen then 8 else 2 else 0) +
    if hasMask then 4 else 0

/-- The low `8 * k` bits of `n`, most significant byte first. -/
def bigEndian : ℕ → ℕ → Bytes
  | 0, _ => []
  | k + 1, n => (n >>> (8 * k)).toUInt8 :: bigEndian k n

/-- The mask bit and the length of the data, in one, three or nine bytes. -/
def lengthBytes (hasMask : Bool) (dataLen : ℕ) : Bytes :=
  let maskBit : UInt8 := if hasMask then 0x80 else 0
  if dataLen < 126 then [maskBit ||| dataLen.toUInt8]
  else if dataLen ≤ 0xFFFF then (maskBit ||| (126 : ℕ).toUInt8) :: bigEndian 2 dataLen
  else (maskBit ||| (127 : ℕ).toUInt8) :: bigEndian 8 dataLen

/-- The masking key, if any, and the data. -/
def bodyBytes (mask : Option Mask) (data : Bytes) : Bytes :=
  match mask with
  | some m => [m 0, m 1, m 2, m 3] ++ websocketDecode m 0 data
  | none => data

/-- `websocket_build_frame`; `none` for the mask clears `WS_HAS_MASK`. -/
def websocketBuildFrame (fin : Bool) (opcode : WsOpcode) (mask : Option Mask) (data : Bytes) : Bytes :=
  ((if fin then 0x80 else 0) ||| opcode.code.toUInt8) ::
    (lengthBytes mask.isSome data.length ++ bodyBytes mask data)

theorem websocketDecode_length (mask : Mask) : ∀ (i : ℕ) (data : Bytes),
    (websocketDecode mask i data).length = data.length
  | _, [] => rfl
  | i, _ :: data => by simp [websocketDecode, websocketDecode_length mask (i + 1) data]

theorem bigEndian_length (n : ℕ) : ∀ k, (bigEndian k n).length = k
  | 0 => rfl
  | k + 1 => by simp [bigEndian, bigEndian_length n k]

/-- `sendFrame` sizes its buffer with `ws_calc_frame_size`: the frame has that size. -/
theorem websocketBuildFrame_length (fin : Bool) (opcode : WsOpcode) (mask : Option Mask)
    (data : Bytes) :
    (websocketBuildFrame fin opcode mask data).length =
      wsCalcFrameSize data.length mask.isSome := by
  unfold websocketBuildFrame wsCalcFrameSize lengthBytes bodyBytes
  cases mask <;> split_ifs <;>
    simp_all [bigEndian_length, websocketDecode_length] <;> omega

/-! ### The parser -/

/-- `enum state` of `websocket_parser.c`. -/
inductive ParserState
  | start | head | length | mask | body
  deriving DecidableEq, Repr

/-- `WebSocketParser::state`. -/
inductive FrameState
  | frameBegin | frameHeader | frameBody | frameEnd | frameFin
  deriving DecidableEq, Repr

/-- A message handed to `WebSocketParser::onMessage`. -/
structure Message where
  opcode : ℕ
  msg : Bytes
  deriving DecidableEq, Repr

/-- `websocket_parser` and the `WebSocketParser` around it.  The bits of `flags` are apart. -/
structure WebSocketParser where
  parserState : ParserState
  flagOpcode : ℕ
  flagFin : Bool
  flagMask : Bool
  mask : Mask
  maskOffset : ℕ
  length : ℕ
  require : ℕ
  state : FrameState
  opcode : ℕ
  message : Bytes

namespace WebSocketParser

/-- The constructor.  It leaves `opcode` uninitialised: `garbage` is the value found there. -/
def new (garbage : ℕ) : WebSocketParser :=
  ⟨.start, 0, false, false, fun _ => 0, 0, 0, 0, .frameBegin, garbage, []⟩

/-- `reserve_length` in `on_frame_header`: the length goes through an `int`. -/
def reserveLength (length : ℕ) : ℤ :=
  min (Int.bmod (Int.bmod length (2 ^ 32) + 1) (2 ^ 32)) (2 ^ 24)

/-- `on_frame_header`.  A negative `reserve_length` makes `std::string::reserve` throw. -/
def onFrameHeader (wp : WebSocketParser) : Option WebSocketParser :=
  if reserveLength wp.length < 0 then none
  else
    some { wp with
      opcode := if wp.flagOpcode ≠ WsOpcode.cont.code then wp.flagOpcode else wp.opcode
      message :=
        if wp.state = .frameBegin ∨ wp.state = .frameFin then [] else wp.message
      state := .frameHeader }

/-- `on_frame_body`. -/
def onFrameBody (wp : WebSocketParser) (at_ : Bytes) : WebSocketParser :=
  { wp with
    state := .frameBody
    message := wp.message ++
      if wp.flagMask then websocketDecode wp.mask wp.maskOffset at_ else at_
    maskOffset := if wp.flagMask then (at_.length + wp.maskOffset) % 4 else wp.maskOffset }

/-- `on_frame_end`, with the message it hands on. -/
def onFrameEnd (wp : WebSocketParser) : WebSocketParser × List Message :=
  if wp.flagFin then ({ wp with state := .frameFin }, [⟨wp.opcode, wp.message⟩])
  else ({ wp with state := .frameEnd }, [])

/-- Where the header of a frame ends, in `s_head`, `s_length` and `s_mask` alike. -/
def headerEnd (wp : WebSocketParser) : Option (WebSocketParser × List Message) :=
  if wp.length ≠ 0 then
    (onFrameHeader { wp with parserState := .body, require := wp.length }).map (·, [])
  else (onFrameHeader { wp with parserState := .start }).map onFrameEnd

/-- Where the length of a frame is known, in `s_head` and `s_length` alike. -/
def lengthEnd (wp : WebSocketParser) : Option (WebSocketParser × List Message) :=
  if wp.flagMask then some ({ wp with parserState := .mask, require := 4 }, [])
  else wp.headerEnd

/-- One turn of the loop that consumes the single byte `c`. -/
def executeByte (wp : WebSocketParser) (c : UInt8) : Option (WebSocketParser × List Message) :=
  match wp.parserState with
  | .start =>
      some ({ wp with
        length := 0
        maskOffset := 0
        flagOpcode := (c &&& 0x0F).toNat
        flagFin := c &&& 0x80 ≠ 0
        flagMask := false
        parserState := .head }, [])
  | .head =>
      let length := (c &&& 0x7F).toNat
      let flagMask := wp.flagMask || c &&& 0x80 ≠ 0
      if 126 ≤ length then
        some ({ wp with
          flagMask := flagMask
          length := 0
          require := if length = 127 then 8 else 2
          parserState := .length }, [])
      else lengthEnd { wp with flagMask := flagMask, length := length }
  | .length =>
      let wp := { wp with length := wp.length <<< 8 ||| c.toNat, require := wp.require - 1 }
      if wp.require = 0 then wp.lengthEnd else some (wp, [])
  | .mask =>
      let wp := { wp with
        mask := Function.update wp.mask (Fin.ofNat 4 (4 - wp.require)) c
        require := wp.require - 1 }
      if wp.require = 0 then wp.headerEnd else some (wp, [])
  | .body => some (onFrameEnd { wp with parserState := .start })

/-- The turn of the loop in `s_body` that consumes the bytes `at_` of the body at once. -/
def executeBody (wp : WebSocketParser) (at_ : Bytes) : WebSocketParser × List Message :=
  let wp := { wp.onFrameBody at_ with require := wp.require - at_.length }
  if wp.require = 0 then onFrameEnd { wp with parserState := .start } else (wp, [])

/-- Go on with the parser, handing on further messages. -/
def andThen (r : Option (WebSocketParser × List Message))
    (f : WebSocketParser → Option (WebSocketParser × List Message)) :
    Option (WebSocketParser × List Message) :=
  r.bind (fun p => (f p.1).map (fun q => (q.1, p.2 ++ q.2)))

/-- `websocket_parser_execute`, with the messages it hands on.  Every callback returns `0`, so
all of `data` is consumed. -/
def execute (wp : WebSocketParser) : Bytes → Option (WebSocketParser × List Message)
  | [] => some (wp, [])
  | c :: cs =>
      if _h : wp.parserState = .body ∧ wp.require ≠ 0 then
        andThen (some (wp.executeBody ((c :: cs).take wp.require)))
          (fun wp' => execute wp' ((c :: cs).drop wp.require))
      else andThen (wp.executeByte c) (fun wp' => execute wp' cs)
termination_by data => data.length
decreasing_by
  · simp only [List.length_drop, List.length_cons]
    have := _h.2
    omega
  · simp

/-- `FeedRecvData`: the parser, the messages handed on and the number of bytes parsed. -/
def feedRecvData (wp : WebSocketParser) (data : Bytes) :
    Option (WebSocketParser × List Message × ℕ) :=
  (wp.execute data).map (fun r => (r.1, r.2, data.length))

/-! ### Chunks -/

theorem andThen_some (wp : WebSocketParser) (ms : List Message)
    (f : WebSocketParser → Option (WebSocketParser × List Message)) :
    andThen (some (wp, ms)) f = (f wp).map (fun q => (q.1, ms ++ q.2)) := rfl

theorem andThen_assoc (r : Option (WebSocketParser × List Message))
    (f g : WebSocketParser → Option (WebSocketParser × List Message)) :
    andThen (andThen r f) g = andThen r (fun wp => andThen (f wp) g) := by
  cases r with
  | none => rfl
  | some p =>
      simp only [andThen, Option.bind_some]
      cases f p.1 with
      | none => rfl
      | some q => simp [Option.map_map, Function.comp_def]

theorem execute_nil (wp : WebSocketParser) : wp.execute [] = some (wp, []) := by
  simp [execute]

/-- Outside the body of a frame the parser takes one byte a turn. -/
theorem execute_cons {wp : WebSocketParser} (h : ¬(wp.parserState = .body ∧ wp.require ≠ 0))
    (c : UInt8) (cs : Bytes) :
    wp.execute (c :: cs) = andThen (wp.executeByte c) (fun wp' => wp'.execute cs) := by
  rw [execute, dif_neg h]

theorem execute_body {wp : WebSocketParser} (h : wp.parserState = .body ∧ wp.require ≠ 0)
    {data : Bytes} (hd : data ≠ []) :
    wp.execute data = andThen (some (wp.executeBody (data.take wp.require)))
      (fun wp' => wp'.execute (data.drop wp.require)) := by
  cases data with
  | nil => exact absurd rfl hd
  | cons c cs => rw [execute, dif_pos h]

theorem websocketDecode_append (mask : Mask) (b : Bytes) : ∀ (i : ℕ) (a : Bytes),
    websocketDecode mask i (a ++ b) =
      websocketDecode mask i a ++ websocketDecode mask (a.length + i) b
  | i, [] => by simp [websocketDecode]
  | i, c :: a => by
      rw [List.cons_append, websocketDecode, websocketDecode, websocketDecode_append mask b (i + 1) a,
        List.cons_append, List.length_cons, Nat.add_assoc, Nat.add_comm i 1]

theorem websocketDecode_mod (mask : Mask) : ∀ (i : ℕ) (data : Bytes),
    websocketDecode mask (i % 4) data = websocketDecode mask i data
  | _, [] => rfl
  | i, c :: data => by
      have h : Fin.ofNat 4 (i % 4) = Fin.ofNat 4 i := Fin.ext (by simp [Fin.ofNat])
      rw [websocketDecode, websocketDecode, h, ← websocketDecode_mod mask (i % 4 + 1) data,
        Nat.mod_add_mod, websocketDecode_mod mask (i + 1) data]

theorem executeBody_append (wp : WebSocketParser) (a : Bytes) (ha : a.length < wp.require) :
    ∃ wp₁, wp.executeBody a = (wp₁, []) ∧ wp₁.parserState = wp.parserState ∧
      wp₁.require = wp.require - a.length ∧
      ∀ b, wp₁.executeBody b = wp.executeBody (a ++ b) := by
  have hr : wp.require - a.length ≠ 0 := by omega
  refine ⟨{ wp.onFrameBody a with require := wp.require - a.length }, ?_, rfl, rfl, ?_⟩
  · unfold executeBody
    rw [if_neg hr]
  · intro b
    have hmask : ((b.length + (a.length + wp.maskOffset) % 4) % 4 : ℕ) =
        ((a ++ b).length + wp.maskOffset) % 4 := by
      rw [List.length_append]
      omega
    unfold executeBody onFrameBody
    cases wp.flagMask with
    | false => simp [Nat.sub_add_eq]
    | true =>
        simp only [if_true, websocketDecode_append, websocketDecode_mod, hmask, List.append_assoc,
          List.length_append, Nat.sub_add_eq]

/-- **Chunking.**  Bytes fed in two chunks are parsed as if they came in one. -/
theorem execute_append (b : Bytes) : ∀ (wp : WebSocketParser) (a : Bytes),
    wp.execute (a ++ b) = andThen (wp.execute a) (fun wp' => wp'.execute b)
  | wp, [] => by
      rw [execute_nil, andThen_some, List.nil_append]
      cases wp.execute b <;> simp
  | wp, c :: a => by
      by_cases h : wp.parserState = .body ∧ wp.require ≠ 0
      · have hne : c :: a ++ b ≠ [] := by simp
        rw [execute_body h hne, execute_body h (List.cons_ne_nil c a), andThen_assoc]
        by_cases hlt : (c :: a).length < wp.require
        · -- The first chunk ends inside the body.
          obtain ⟨wp₁, hwp, hps, hreq, happ⟩ := executeBody_append wp (c :: a) hlt
          rw [List.take_append, List.take_of_length_le hlt.le, List.drop_append,
            List.drop_of_length_le hlt.le, List.nil_append, ← happ, hwp, andThen_some, andThen_some,
            execute_nil, andThen_some]
          simp only [List.nil_append, Prod.mk.eta, Option.map_id']
          have hin : wp₁.parserState = .body ∧ wp₁.require ≠ 0 := by
            rw [hps, hreq]
            exact ⟨h.1, by omega⟩
          by_cases hb : b = []
          · subst hb
            have hnil : wp₁.executeBody [] = (wp₁, []) := by rw [happ, List.append_nil, hwp]
            simp [hnil]
          · rw [execute_body hin hb, hreq]
            rfl
        · have hle : wp.require ≤ (c :: a).length := by omega
          rw [List.take_append_of_le_length hle, List.drop_append_of_le_length hle]
          congr 1
          funext wp'
          exact execute_append b wp' _
      · rw [List.cons_append, execute_cons h, execute_cons h, andThen_assoc]
        congr 1
        funext wp'
        exact execute_append b wp' a
termination_by _ a => a.length
decreasing_by
  · have := h.2
    simp only [List.length_drop, List.length_cons]
    omega
  · simp

/-! ### Reading back a frame -/

theorem websocketDecode_decode (mask : Mask) : ∀ (i : ℕ) (data : Bytes),
    websocketDecode mask i (websocketDecode mask i data) = data
  | _, [] => rfl
  | i, b :: data => by
      rw [websocketDecode, websocketDecode, websocketDecode_decode mask (i + 1) data,
        UInt8.xor_assoc, UInt8.xor_self, UInt8.xor_zero]

/-- The first byte of a frame carries the opcode and `FIN`. -/
theorem firstByte (fin : Bool) (opcode : WsOpcode) :
    ((((if fin then 0x80 else 0) ||| opcode.code.toUInt8 : UInt8) &&& 0x0F).toNat = opcode.code) ∧
      decide (((if fin then 0x80 else 0) ||| opcode.code.toUInt8 : UInt8) &&& 0x80 ≠ 0) = fin := by
  cases fin <;> cases opcode <;> decide

/-- The second one carries the mask bit and a length or its escape. -/
theorem secondByte (hasMask : Bool) : ∀ n < 128,
    (((if hasMask then 0x80 else 0) ||| n.toUInt8 : UInt8) &&& 0x7F).toNat = n ∧
      decide (((if hasMask then 0x80 else 0) ||| n.toUInt8 : UInt8) &&& 0x80 ≠ 0) = hasMask := by
  cases hasMask <;> decide +kernel

theorem shiftLeft_or_byte (n : ℕ) (b : UInt8) : n <<< 8 ||| b.toNat = n * 256 + b.toNat := by
  rw [← Nat.shiftLeft_add_eq_or_of_lt b.toNat_lt, Nat.shiftLeft_eq]

theorem executeByte_length {wp : WebSocketParser} (h : wp.parserState = .length) (c : UInt8) :
    wp.executeByte c =
      if wp.require - 1 = 0 then
        lengthEnd { wp with length := wp.length * 256 + c.toNat, require := wp.require - 1 }
      else some ({ wp with length := wp.length * 256 + c.toNat, require := wp.require - 1 }, []) := by
  unfold executeByte
  rw [h]
  simp only [shiftLeft_or_byte]

/-- The extended length is read back, added to what was read before. -/
theorem execute_bigEndian (n : ℕ) (rest : Bytes) : ∀ (k : ℕ) (wp : WebSocketParser),
    wp.parserState = .length → wp.require = k + 1 →
    wp.execute (bigEndian (k + 1) n ++ rest) =
      andThen (lengthEnd { wp with
        length := wp.length * 256 ^ (k + 1) + n % 256 ^ (k + 1), require := 0 })
        (fun wp' => wp'.execute rest)
  | k, wp, hs, hr => by
      have hb : ¬(wp.parserState = .body ∧ wp.require ≠ 0) := by simp [hs]
      have hbyte : (n >>> (8 * k)).toUInt8.toNat = n / 256 ^ k % 256 := by
        rw [Nat.shiftRight_eq_div_pow, pow_mul]
        simp
      rw [bigEndian, List.cons_append, execute_cons hb, executeByte_length hs, hbyte, hr,
        Nat.add_sub_cancel]
      cases k with
      | zero => simp [bigEndian]
      | succ k =>
          have ih := execute_bigEndian n rest k { wp with
            length := wp.length * 256 + n / 256 ^ (k + 1) % 256, require := k + 1 } hs rfl
          have harith : (wp.length * 256 + n / 256 ^ (k + 1) % 256) * 256 ^ (k + 1) + n % 256 ^ (k + 1) =
              wp.length * 256 ^ (k + 1 + 1) + n % 256 ^ (k + 1 + 1) := by
            rw [Nat.mod_pow_succ (b := 256) (k := k + 1), pow_succ 256 (k + 1)]
            ring
          simp only [harith] at ih
          rw [if_neg (Nat.succ_ne_zero k), andThen_some, ih]
          simp

theorem execute_mask_cons (wp : WebSocketParser) (c : UInt8) (cs : Bytes) (k : ℕ)
    (hs : wp.parserState = .mask) (hr : wp.require = k + 2) :
    wp.execute (c :: cs) = execute { wp with
      mask := Function.update wp.mask (Fin.ofNat 4 (4 - (k + 2))) c, require := k + 1 } cs := by
  rw [execute_cons (by simp [hs])]
  unfold executeByte
  rw [hs]
  simp [hr, andThen_some]

theorem execute_mask_last (wp : WebSocketParser) (c : UInt8) (cs : Bytes)
    (hs : wp.parserState = .mask) (hr : wp.require = 1) :
    wp.execute (c :: cs) = andThen (headerEnd { wp with
      mask := Function.update wp.mask 3 c, require := 0 }) (fun wp' => wp'.execute cs) := by
  rw [execute_cons (by simp [hs])]
  unfold executeByte
  rw [hs]
  simp [hr]

theorem execute_mask {wp : WebSocketParser} (hs : wp.parserState = .mask) (hr : wp.require = 4)
    (m : Mask) (rest : Bytes) :
    wp.execute ([m 0, m 1, m 2, m 3] ++ rest) =
      andThen (headerEnd { wp with mask := m, require := 0 }) (fun wp' => wp'.execute rest) := by
  have hm : Function.update (Function.update (Function.update (Function.update wp.mask
      (Fin.ofNat 4 (4 - (2 + 2))) (m 0)) (Fin.ofNat 4 (4 - (1 + 2))) (m 1))
      (Fin.ofNat 4 (4 - (0 + 2))) (m 2)) 3 (m 3) = m := by
    funext i
    fin_cases i <;> rfl
  simp only [List.cons_append, List.nil_append]
  rw [execute_mask_cons wp (m 0) _ 2 hs hr, execute_mask_cons _ (m 1) _ 1,
    execute_mask_cons _ (m 2) _ 0, execute_mask_last, hm]
  all_goals first | exact hs | rfl

/-- What the parser makes of a frame: between frames again, with the message grown by the data. -/
structure Received (wp wp' : WebSocketParser) (fin : Bool) (opcode : WsOpcode) (data : Bytes) : Prop where
  parserState : wp'.parserState = .start
  state : wp'.state = if fin then .frameFin else .frameEnd
  opcode_eq : wp'.opcode = if opcode = .cont then wp.opcode else opcode.code
  message_eq : wp'.message =
    (if wp.state = .frameBegin ∨ wp.state = .frameFin then [] else wp.message) ++ data

theorem reserveLength_nonneg {n : ℕ} (h : n < 2 ^ 31 - 1) : 0 ≤ reserveLength n := by
  have h1 : Int.bmod n (2 ^ 32) = n := by
    unfold Int.bmod
    norm_num
    omega
  have h2 : Int.bmod (n + 1) (2 ^ 32) = n + 1 := by
    unfold Int.bmod
    norm_num
    omega
  unfold reserveLength
  rw [h1, h2]
  omega

theorem onFrameEnd_eq (wp : WebSocketParser) :
    wp.onFrameEnd = ({ wp with state := if wp.flagFin then .frameFin else .frameEnd },
      if wp.flagFin then [⟨wp.opcode, wp.message⟩] else []) := by
  unfold onFrameEnd
  split_ifs <;> rfl

theorem execute_payload {wp : WebSocketParser} (hs : wp.parserState = .body) {payload : Bytes}
    (hr : wp.require = payload.length) (hne : payload ≠ []) :
    wp.execute payload =
      some (onFrameEnd { wp.onFrameBody payload with require := 0, parserState := .start }) := by
  have hlen : wp.require ≠ 0 := by
    rw [hr]
    exact mt List.length_eq_zero_iff.mp hne
  rw [execute_body ⟨hs, hlen⟩ hne, hr, List.take_length, List.drop_length]
  unfold executeBody
  rw [hr]
  simp [andThen, execute_nil]

/-- The body of a frame is read back once its header is known. -/
theorem execute_headerEnd (wp wp₀ : WebSocketParser) (opcode : WsOpcode) (data : Bytes)
    (hstate : wp.state = wp₀.state) (hopcode : wp.opcode = wp₀.opcode)
    (hmessage : wp.message = wp₀.message) (hflag : wp.flagOpcode = opcode.code)
    (hoffset : wp.maskOffset = 0) (hlength : wp.length = data.length)
    (hsize : data.length < 2 ^ 31 - 1) :
    ∃ wp', andThen wp.headerEnd (fun wp' => wp'.execute
        (if wp.flagMask then websocketDecode wp.mask 0 data else data)) =
        some (wp', if wp.flagFin then [⟨wp'.opcode, wp'.message⟩] else []) ∧
      Received wp₀ wp' wp.flagFin opcode data := by
  have hop : (if wp.flagOpcode ≠ WsOpcode.cont.code then wp.flagOpcode else wp.opcode) =
      if opcode = .cont then wp₀.opcode else opcode.code := by
    rw [hflag, hopcode]
    cases opcode <;> simp [WsOpcode.code]
  have hnonneg : ¬ reserveLength wp.length < 0 := by
    rw [hlength]
    exact not_lt.mpr (reserveLength_nonneg hsize)
  unfold headerEnd onFrameHeader
  cases data with
  | nil =>
      rw [if_neg (by simp [hlength]), if_neg hnonneg]
      simp only [Option.map_some, onFrameEnd_eq, websocketDecode, ite_self, andThen, Option.bind_some,
        execute_nil, List.append_nil]
      refine ⟨_, rfl, rfl, rfl, hop, ?_⟩
      simp [hstate, hmessage]
  | cons b data =>
      have hpay : (if wp.flagMask then websocketDecode wp.mask 0 (b :: data) else b :: data).length =
          (b :: data).length := by
        split_ifs
        · exact websocketDecode_length _ _ _
        · rfl
      rw [if_pos (by simp [hlength]), if_neg hnonneg]
      simp only [Option.map_some, andThen_some]
      rw [execute_payload rfl (by rw [hpay, hlength]) (by
        rw [← List.length_pos_iff, hpay]
        simp)]
      simp only [onFrameEnd_eq, Option.map_some, List.nil_append]
      refine ⟨_, rfl, rfl, rfl, hop, ?_⟩
      simp only [onFrameBody, hoffset, hstate, hmessage]
      cases wp.flagMask with
      | true => simp [websocketDecode_decode]
      | false => simp

theorem executeByte_start {wp : WebSocketParser} (hs : wp.parserState = .start) (fin : Bool)
    (opcode : WsOpcode) :
    wp.executeByte ((if fin then 0x80 else 0) ||| opcode.code.toUInt8) =
      some ({ wp with
        length := 0, maskOffset := 0, flagOpcode := opcode.code, flagFin := fin, flagMask := false
        parserState := .head }, []) := by
  unfold executeByte
  rw [hs]
  simp only [(firstByte fin opcode).1, (firstByte fin opcode).2]

theorem executeByte_head {wp : WebSocketParser} (hs : wp.parserState = .head)
    (hm : wp.flagMask = false) (hasMask : Bool) {n : ℕ} (hn : n < 128) :
    wp.executeByte ((if hasMask then 0x80 else 0) ||| n.toUInt8) =
      if 126 ≤ n then
        some ({ wp with
          flagMask := hasMask, length := 0, require := if n = 127 then 8 else 2
          parserState := .length }, [])
      else lengthEnd { wp with flagMask := hasMask, length := n } := by
  obtain ⟨h1, h2⟩ := secondByte hasMask n hn
  unfold executeByte
  rw [hs]
  simp only [h1, h2, hm, Bool.false_or]

theorem execute_lengthBytes (wp : WebSocketParser) (hs : wp.parserState = .head)
    (hm : wp.flagMask = false) (hasMask : Bool) (n : ℕ) (hn : n < 2 ^ 64) (rest : Bytes) :
    ∃ st r, wp.execute (lengthBytes hasMask n ++ rest) =
      andThen (lengthEnd { wp with
        flagMask := hasMask, length := n, parserState := st, require := r })
        (fun wp' => wp'.execute rest) := by
  have hb : ¬(wp.parserState = .body ∧ wp.require ≠ 0) := by simp [hs]
  unfold lengthBytes
  by_cases h1 : n < 126
  · refine ⟨wp.parserState, wp.require, ?_⟩
    rw [if_pos h1, List.cons_append, execute_cons hb,
      executeByte_head hs hm hasMask (lt_trans h1 (by norm_num)), if_neg (not_le.mpr h1)]
    rfl
  · refine ⟨.length, 0, ?_⟩
    rw [if_neg h1]
    by_cases h2 : n ≤ 0xFFFF
    · have hmod : n % 65536 = n := Nat.mod_eq_of_lt (by omega)
      rw [if_pos h2, List.cons_append, execute_cons hb,
        executeByte_head hs hm hasMask (n := 126) (by norm_num),
        if_pos le_rfl, andThen_some, if_neg (by norm_num), execute_bigEndian n rest 1 _ rfl rfl]
      simp [hmod]
    · have hmod : n % 18446744073709551616 = n := Nat.mod_eq_of_lt (by omega)
      rw [if_neg h2, List.cons_append, execute_cons hb,
        executeByte_head hs hm hasMask (n := 127) (by norm_num),
        if_pos (by norm_num), andThen_some, if_pos rfl, execute_bigEndian n rest 7 _ rfl rfl]
      simp [hmod]

/-- **Framing.**  Between frames, the parser reads back any frame short of two gibibytes: the
opcode, the data behind what a fragmented message had so far, and the message itself if the
frame is its last. -/
theorem execute_buildFrame {wp : WebSocketParser} (hs : wp.parserState = .start) (fin : Bool)
    (opcode : WsOpcode) (mask : Option Mask) (data : Bytes) (hsize : data.length < 2 ^ 31 - 1) :
    ∃ wp', wp.execute (websocketBuildFrame fin opcode mask data) =
        some (wp', if fin then [⟨wp'.opcode, wp'.message⟩] else []) ∧
      Received wp wp' fin opcode data := by
  unfold websocketBuildFrame
  rw [execute_cons (by simp [hs]), executeByte_start hs fin opcode, andThen_some]
  obtain ⟨st, r, hlen⟩ := execute_lengthBytes { wp with
    length := 0, maskOffset := 0, flagOpcode := opcode.code, flagFin := fin, flagMask := false
    parserState := .head } rfl rfl mask.isSome data.length (by omega) (bodyBytes mask data)
  rw [hlen]
  cases mask with
  | none =>
      obtain ⟨wp', he, hrec⟩ := execute_headerEnd { wp with
        length := data.length, maskOffset := 0, flagOpcode := opcode.code, flagFin := fin
        flagMask := false, parserState := st, require := r } wp opcode data rfl rfl rfl rfl rfl rfl
        hsize
      simp only [Bool.false_eq_true, if_false] at he
      refine ⟨wp', ?_, hrec⟩
      simp only [Option.isSome_none, lengthEnd, Bool.false_eq_true, if_false, bodyBytes, he,
        Option.map_some, List.nil_append]
  | some m =>
      obtain ⟨wp', he, hrec⟩ := execute_headerEnd { wp with
        length := data.length, maskOffset := 0, flagOpcode := opcode.code, flagFin := fin
        flagMask := true, parserState := .mask, require := 0, mask := m } wp opcode data rfl rfl rfl
        rfl rfl rfl hsize
      simp only [if_true] at he
      refine ⟨wp', ?_, hrec⟩
      simp only [Option.isSome_some, lengthEnd, if_true, bodyBytes, andThen_some]
      rw [execute_mask rfl rfl, he]
      simp

end WebSocketParser
end OrderbookClient.Hv
