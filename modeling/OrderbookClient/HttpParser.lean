import OrderbookClient.CString
import OrderbookClient.Spans

/-! # The parser of HTTP responses: `http_parser.c`

`http_parser_execute` for a parser of type `HTTP_RESPONSE` in strict mode.  A state of the source
that another is reexecuted from is a function of its own; `executeByte` is the `switch`.

The parser reads byte by byte.  Where the source scans the rest of a header field or value in one
go it counts the scanned bytes at the end of the scan; here each byte is counted where it is read,
so that a header that is too long is refused at the byte that makes it so. -/

namespace OrderbookClient.Hv

open Json (Bytes)
open Spans

/-- A character of the source. -/
abbrev byte (c : Char) : UInt8 := c.toNat.toUInt8

abbrev tab : UInt8 := 9
abbrev lf : UInt8 := 10
abbrev cr : UInt8 := 13

/-- `ULLONG_MAX`, which stands for no `Content-Length`. -/
def ullongMax : ℕ := 2 ^ 64 - 1

/-- `HTTP_MAX_HEADER_SIZE`. -/
def maxHeaderSize : ℕ := 80 * 1024

/-- `enum state`, without the states of a request. -/
inductive HttpState
  | dead
  | startRes | resH | resHT | resHTT | resHTTP | resHttpMajor | resHttpDot | resHttpMinor
  | resHttpEnd | resFirstStatusCode | resStatusCode | resStatusStart | resStatus
  | resLineAlmostDone
  | headerFieldStart | headerField | headerValueDiscardWs | headerValueDiscardWsAlmostDone
  | headerValueDiscardLws | headerValueStart | headerValue | headerValueLws | headerAlmostDone
  | chunkSizeStart | chunkSize | chunkParameters | chunkSizeAlmostDone
  | headersAlmostDone | headersDone
  | chunkData | chunkDataAlmostDone | chunkDataDone
  | bodyIdentity | bodyIdentityEof | messageDone
  deriving DecidableEq, Repr

/-- `PARSING_HEADER`. -/
def HttpState.parsingHeader : HttpState → Bool
  | .chunkData | .chunkDataAlmostDone | .chunkDataDone => false
  | .bodyIdentity | .bodyIdentityEof | .messageDone => false
  | _ => true

/-- `enum header_states`. -/
inductive HeaderState
  | general | C | CO | CON
  | matchingConnection | matchingProxyConnection | matchingContentLength
  | matchingTransferEncoding | matchingUpgrade
  | connection | contentLength | contentLengthNum | contentLengthWs | transferEncoding | upgrade
  | matchingTransferEncodingChunked | matchingConnectionTokenStart | matchingConnectionKeepAlive
  | matchingConnectionClose | matchingConnectionUpgrade | matchingConnectionToken
  | transferEncodingChunked | connectionKeepAlive | connectionClose | connectionUpgrade
  deriving DecidableEq, Repr

/-- `enum flags`. -/
structure HttpFlags where
  chunked : Bool
  connectionKeepAlive : Bool
  connectionClose : Bool
  connectionUpgrade : Bool
  trailing : Bool
  upgrade : Bool
  skipBody : Bool
  contentLength : Bool
  deriving DecidableEq, Repr

def HttpFlags.none : HttpFlags := ⟨false, false, false, false, false, false, false, false⟩

/-- `enum http_errno`, as far as a response gets. -/
inductive HttpErrno
  | invalidEofState | headerOverflow | closedConnection | invalidVersion | invalidStatus
  | lfExpected | invalidHeaderToken | invalidContentLength | unexpectedContentLength
  | invalidChunkSize | invalidConstant | strict
  deriving DecidableEq, Repr

/-- The data callbacks. -/
inductive HttpSpan
  | status | headerField | headerValue | body
  deriving DecidableEq, Repr

/-- The other callbacks, with what they read of the parser. -/
inductive HttpNotice
  | messageBegin
  | headersComplete (httpMajor httpMinor statusCode : ℕ)
  | messageComplete
  | chunkHeader
  | chunkComplete
  deriving DecidableEq, Repr

/-- `http_parser`.  `method` stays zero in a response. -/
structure HttpParser where
  state : HttpState
  headerState : HeaderState
  index : ℕ
  flags : HttpFlags
  nread : ℕ
  contentLength : ℕ
  httpMajor : ℕ
  httpMinor : ℕ
  statusCode : ℕ
  upgrade : Bool
  httpErrno : Option HttpErrno
  deriving DecidableEq, Repr

abbrev HttpTurn := Turn HttpParser HttpSpan HttpNotice

/-! ### Characters -/

/-- `LOWER`. -/
def lower (c : UInt8) : UInt8 := c ||| 0x20

/-- `IS_NUM`. -/
def isNum (c : UInt8) : Bool := byte '0' ≤ c && c ≤ byte '9'

/-- The value of a digit. -/
def num (c : UInt8) : ℕ := c.toNat - 48

/-- `IS_HEADER_CHAR`. -/
def isHeaderChar (c : UInt8) : Bool := c == cr || c == lf || c == tab || (31 < c && c != 127)

/-- `TOKEN`: the lower-case character, zero for one that is not part of a token. -/
def token (c : UInt8) : UInt8 :=
  if byte 'A' ≤ c ∧ c ≤ byte 'Z' then c + 32
  else if (byte 'a' ≤ c ∧ c ≤ byte 'z') ∨ isNum c ∨ c ∈ ascii "!#$%&'*+-.^_`|~" then c
  else 0

/-- `unhex`. -/
def unhex (c : UInt8) : Option ℕ :=
  if isNum c then some (num c)
  else if byte 'A' ≤ c ∧ c ≤ byte 'F' then some (c.toNat - 55)
  else if byte 'a' ≤ c ∧ c ≤ byte 'f' then some (c.toNat - 87)
  else none

namespace HttpParser

/-- `http_parser_init` for a response. -/
def init : HttpParser :=
  ⟨.startRes, .general, 0, .none, 0, 0, 0, 0, 0, false, none⟩

/-! ### Turns -/

/-- Go on with the next byte. -/
def turn (p : HttpParser) (ops : List (Op HttpSpan HttpNotice)) : HttpTurn := ⟨p, ops, .more⟩

/-- `SET_ERRNO` and `goto error`. -/
def fail (p : HttpParser) (e : HttpErrno) : HttpTurn := ⟨{ p with httpErrno := some e }, [], .error⟩

/-- `UPDATE_STATE` and `break`. -/
def goto (p : HttpParser) (s : HttpState) : HttpTurn := { p with state := s }.turn []

/-- What comes in front of a `REEXECUTE`. -/
def after (ops : List (Op HttpSpan HttpNotice)) (t : HttpTurn) : HttpTurn :=
  { t with ops := ops ++ t.ops }

/-- `STRICT_CHECK`: go to `s` at the byte `expected`. -/
def expect (p : HttpParser) (expected c : UInt8) (s : HttpState) : HttpTurn :=
  if c = expected then p.goto s else p.fail .strict

/-! ### The end of a message -/

/-- `http_message_needs_eof`. -/
def messageNeedsEof (p : HttpParser) : Bool :=
  if p.statusCode / 100 = 1 ∨ p.statusCode = 204 ∨ p.statusCode = 304 ∨ p.flags.skipBody then false
  else if p.flags.chunked ∨ p.contentLength ≠ ullongMax then false
  else true

/-- `http_should_keep_alive`. -/
def shouldKeepAlive (p : HttpParser) : Bool :=
  if 0 < p.httpMajor ∧ 0 < p.httpMinor then
    if p.flags.connectionClose then false else !p.messageNeedsEof
  else if p.flags.connectionKeepAlive then !p.messageNeedsEof
  else false

/-- `NEW_MESSAGE`. -/
def newMessage (p : HttpParser) : HttpState := if p.shouldKeepAlive then .startRes else .dead

/-- The message is complete, and another may follow. -/
def complete (p : HttpParser) : HttpTurn :=
  { p with state := p.newMessage }.turn [.notify .messageComplete]

/-- The same, where what follows is in a different protocol. -/
def completeUpgrade (p : HttpParser) : HttpTurn :=
  ⟨{ p with state := p.newMessage }, [.notify .messageComplete], .exit⟩

/-- `s_message_done`. -/
def messageDone (p : HttpParser) : HttpTurn := if p.upgrade then p.completeUpgrade else p.complete

/-! ### The end of the headers -/

/-- `s_headers_done`. -/
def headersDone (p : HttpParser) (c : UInt8) : HttpTurn :=
  if c ≠ lf then p.fail .strict
  else
    let p := { p with nread := 0 }
    let hasBody := p.flags.chunked || (0 < p.contentLength && p.contentLength != ullongMax)
    if p.upgrade && (p.flags.skipBody || !hasBody) then p.completeUpgrade
    else if p.flags.skipBody then p.complete
    else if p.flags.chunked then p.goto .chunkSizeStart
    else if p.contentLength = 0 then p.complete
    else if p.contentLength ≠ ullongMax then p.goto .bodyIdentity
    else if !p.messageNeedsEof then p.complete
    else p.goto .bodyIdentityEof

/-- `s_headers_almost_done`.  `skipBody` is what `on_headers_complete` returns. -/
def headersAlmostDone (skipBody : Bool) (p : HttpParser) (c : UInt8) : HttpTurn :=
  if c ≠ lf then p.fail .strict
  else if p.flags.trailing then
    after [.notify .chunkComplete] { p with state := .messageDone }.messageDone
  else if p.flags.chunked && p.flags.contentLength then p.fail .unexpectedContentLength
  else
    let p := { p with
      state := .headersDone
      upgrade := p.flags.upgrade && p.flags.connectionUpgrade && p.statusCode == 101 }
    after [.notify (.headersComplete p.httpMajor p.httpMinor p.statusCode)]
      (headersDone { p with flags.skipBody := skipBody || p.flags.skipBody } c)

/-! ### Matching names and values -/

/-- One more byte of a match with `lit`: on to `miss` where they differ, to `hit` at its end. -/
def matchNext (lit : Bytes) (miss hit : HeaderState) (p : HttpParser) (c : UInt8) : HttpParser :=
  let i := p.index + 1
  if lit.length < i ∨ (cStr lit)[i]? ≠ some c then { p with index := i, headerState := miss }
  else if i + 1 = lit.length then { p with index := i, headerState := hit }
  else { p with index := i }

/-- The state for the first byte of a header field. -/
def fieldStart (c : UInt8) : HeaderState :=
  if c = byte 'c' then .C
  else if c = byte 'p' then .matchingProxyConnection
  else if c = byte 't' then .matchingTransferEncoding
  else if c = byte 'u' then .matchingUpgrade
  else .general

/-- The other bytes of a header field, as tokens. -/
def fieldChar (p : HttpParser) (c : UInt8) : HttpParser :=
  match p.headerState with
  | .C => { p with index := p.index + 1, headerState := if c = byte 'o' then .CO else .general }
  | .CO => { p with index := p.index + 1, headerState := if c = byte 'n' then .CON else .general }
  | .CON => { p with
      index := p.index + 1
      headerState :=
        if c = byte 'n' then .matchingConnection
        else if c = byte 't' then .matchingContentLength
        else .general }
  | .matchingConnection => matchNext (ascii "connection") .general .connection p c
  | .matchingProxyConnection => matchNext (ascii "proxy-connection") .general .connection p c
  | .matchingContentLength => matchNext (ascii "content-length") .general .contentLength p c
  | .matchingTransferEncoding => matchNext (ascii "transfer-encoding") .general .transferEncoding p c
  | .matchingUpgrade => matchNext (ascii "upgrade") .general .upgrade p c
  | _ => { p with headerState := .general }

/-- The state for the first byte of a token of `Connection`, in lower case. -/
def connectionStart (c : UInt8) (other : HeaderState) : HeaderState :=
  if c = byte 'k' then .matchingConnectionKeepAlive
  else if c = byte 'c' then .matchingConnectionClose
  else if c = byte 'u' then .matchingConnectionUpgrade
  else other

/-- The state behind the first byte of a later token, in lower case. -/
def tokenStart (c : UInt8) : HeaderState :=
  connectionStart c
    (if token c ≠ 0 then .matchingConnectionToken
    else if c = byte ' ' ∨ c = tab then .matchingConnectionTokenStart
    else .general)

/-- A folded line is a space in the value of `Content-Length`. -/
def foldLine (h : HeaderState) : HeaderState :=
  if h = .contentLengthNum then .contentLengthWs else h

/-- The flag that a header sets where it ends. -/
def finishHeader (p : HttpParser) : HttpFlags :=
  match p.headerState with
  | .connectionKeepAlive => { p.flags with connectionKeepAlive := true }
  | .connectionClose => { p.flags with connectionClose := true }
  | .transferEncodingChunked => { p.flags with chunked := true }
  | .connectionUpgrade => { p.flags with connectionUpgrade := true }
  | _ => p.flags

/-- The bytes of a header value but its first. -/
def valueChar (p : HttpParser) (c : UInt8) : HttpTurn :=
  match p.headerState with
  | .contentLengthNum =>
      if c = byte ' ' then { p with headerState := .contentLengthWs }.turn []
      else if !isNum c then p.fail .invalidContentLength
      else if (ullongMax - 10) / 10 < p.contentLength then p.fail .invalidContentLength
      else { p with contentLength := p.contentLength * 10 + num c }.turn []
  | .contentLengthWs => if c = byte ' ' then p.turn [] else p.fail .invalidContentLength
  | .matchingTransferEncodingChunked =>
      (matchNext (ascii "chunked") .general .transferEncodingChunked p (lower c)).turn []
  | .matchingConnectionTokenStart => { p with headerState := tokenStart (lower c) }.turn []
  | .matchingConnectionKeepAlive =>
      (matchNext (ascii "keep-alive") .matchingConnectionToken .connectionKeepAlive p
        (lower c)).turn []
  | .matchingConnectionClose =>
      (matchNext (ascii "close") .matchingConnectionToken .connectionClose p (lower c)).turn []
  | .matchingConnectionUpgrade =>
      (matchNext (ascii "upgrade") .matchingConnectionToken .connectionUpgrade p (lower c)).turn []
  | .matchingConnectionToken =>
      if c = byte ',' then
        { p with headerState := .matchingConnectionTokenStart, index := 0 }.turn []
      else p.turn []
  | .transferEncodingChunked =>
      if c = byte ' ' then p.turn [] else { p with headerState := .general }.turn []
  | .connectionKeepAlive | .connectionClose | .connectionUpgrade =>
      if c = byte ',' then
        { p with
          flags := p.finishHeader
          headerState := .matchingConnectionTokenStart
          index := 0 }.turn []
      else if c = byte ' ' then p.turn []
      else { p with headerState := .matchingConnectionToken }.turn []
  -- `s_header_value_start` leaves no other state
  | _ => { p with headerState := .general }.turn []

/-! ### A header -/

/-- `s_header_field_start`. -/
def headerFieldStart (skipBody : Bool) (p : HttpParser) (c : UInt8) : HttpTurn :=
  if c = cr then p.goto .headersAlmostDone
  else if c = lf then headersAlmostDone skipBody { p with state := .headersAlmostDone } c
  else if token c = 0 then p.fail .invalidHeaderToken
  else
    { p with state := .headerField, index := 0, headerState := fieldStart (token c) }.turn
      [.mark .headerField]

/-- `s_header_field`. -/
def headerField (p : HttpParser) (c : UInt8) : HttpTurn :=
  if token c ≠ 0 then (p.fieldChar (token c)).turn []
  else if c = byte ':' then { p with state := .headerValueDiscardWs }.turn [.data .headerField]
  else p.fail .invalidHeaderToken

/-- `s_header_value_start`. -/
def headerValueStart (p : HttpParser) (c : UInt8) : HttpTurn :=
  let p := { p with state := .headerValue, index := 0 }
  match p.headerState with
  | .upgrade =>
      { p with flags.upgrade := true, headerState := .general }.turn [.mark .headerValue]
  | .transferEncoding =>
      { p with headerState :=
          if lower c = byte 'c' then .matchingTransferEncodingChunked else .general }.turn
        [.mark .headerValue]
  | .contentLength =>
      if !isNum c then p.fail .invalidContentLength
      else if p.flags.contentLength then p.fail .unexpectedContentLength
      else
        { p with
          flags.contentLength := true
          contentLength := num c
          headerState := .contentLengthNum }.turn [.mark .headerValue]
  | .contentLengthWs => p.turn [.mark .headerValue]
  | .connection =>
      { p with headerState := connectionStart (lower c) .matchingConnectionToken }.turn
        [.mark .headerValue]
  | .matchingConnectionTokenStart => p.turn [.mark .headerValue]
  | _ => { p with headerState := .general }.turn [.mark .headerValue]

/-- `s_header_value_discard_ws`. -/
def headerValueDiscardWs (p : HttpParser) (c : UInt8) : HttpTurn :=
  if c = byte ' ' ∨ c = tab then p.turn []
  else if c = cr then p.goto .headerValueDiscardWsAlmostDone
  else if c = lf then p.goto .headerValueDiscardLws
  else p.headerValueStart c

/-- `s_header_value_discard_lws`: a folded line, or the value was empty. -/
def headerValueDiscardLws (skipBody : Bool) (p : HttpParser) (c : UInt8) : HttpTurn :=
  if c = byte ' ' ∨ c = tab then p.goto .headerValueDiscardWs
  else if p.headerState = .contentLength then p.fail .invalidContentLength
  else
    after [.mark .headerValue, .data .headerValue]
      (headerFieldStart skipBody { p with flags := p.finishHeader, state := .headerFieldStart } c)

/-- `s_header_almost_done`. -/
def headerAlmostDone (p : HttpParser) (c : UInt8) : HttpTurn :=
  if c = lf then p.goto .headerValueLws else p.fail .lfExpected

/-- `s_header_value_lws`: a folded line, or the header is finished. -/
def headerValueLws (skipBody : Bool) (p : HttpParser) (c : UInt8) : HttpTurn :=
  if c = byte ' ' ∨ c = tab then
    { p with headerState := foldLine p.headerState, state := .headerValueStart }.headerValueStart c
  else headerFieldStart skipBody { p with flags := p.finishHeader, state := .headerFieldStart } c

/-- `s_header_value`. -/
def headerValue (p : HttpParser) (c : UInt8) : HttpTurn :=
  if c = cr then { p with state := .headerAlmostDone }.turn [.data .headerValue]
  else if c = lf then after [.data .headerValue] ({ p with state := .headerAlmostDone }.headerAlmostDone c)
  else if !isHeaderChar c then p.fail .invalidHeaderToken
  else p.valueChar c

/-! ### The status line -/

/-- `s_start_res`. -/
def startRes (p : HttpParser) (c : UInt8) : HttpTurn :=
  if c = cr ∨ c = lf then p.turn []
  else
    let p := { p with flags := .none, contentLength := ullongMax }
    if c = byte 'H' then { p with state := .resH }.turn [.notify .messageBegin]
    else p.fail .invalidConstant

/-- `s_res_http_major` and `s_res_http_minor`: a digit of the version. -/
def version (p : HttpParser) (c : UInt8) (store : ℕ → HttpParser) : HttpTurn :=
  if isNum c then (store (num c)).turn [] else p.fail .invalidVersion

/-- `s_res_first_status_code`. -/
def resFirstStatusCode (p : HttpParser) (c : UInt8) : HttpTurn :=
  if isNum c then { p with statusCode := num c, state := .resStatusCode }.turn []
  else if c = byte ' ' then p.turn []
  else p.fail .invalidStatus

/-- `s_res_status`. -/
def resStatus (p : HttpParser) (c : UInt8) : HttpTurn :=
  if c = cr then { p with state := .resLineAlmostDone }.turn [.data .status]
  else if c = lf then { p with state := .headerFieldStart }.turn [.data .status]
  else p.turn []

/-- `s_res_status_start`. -/
def resStatusStart (p : HttpParser) (c : UInt8) : HttpTurn :=
  let p := { p with state := .resStatus, index := 0 }
  if c = cr ∨ c = lf then after [.mark .status] (p.resStatus c) else p.turn [.mark .status]

/-- `s_res_status_code`. -/
def resStatusCode (p : HttpParser) (c : UInt8) : HttpTurn :=
  if isNum c then
    let p := { p with statusCode := p.statusCode * 10 + num c }
    if 999 < p.statusCode then p.fail .invalidStatus else p.turn []
  else if c = byte ' ' then p.goto .resStatusStart
  else if c = cr ∨ c = lf then { p with state := .resStatusStart }.resStatusStart c
  else p.fail .invalidStatus

/-! ### The body -/

/-- `s_body_identity`, one byte of it. -/
def bodyIdentity (p : HttpParser) : HttpTurn :=
  let p := { p with contentLength := p.contentLength - 1 }
  if p.contentLength = 0 then
    after [.mark .body, .dataThrough .body] { p with state := .messageDone }.messageDone
  else p.turn [.mark .body]

/-- `s_chunk_size_start`. -/
def chunkSizeStart (p : HttpParser) (c : UInt8) : HttpTurn :=
  match unhex c with
  | none => p.fail .invalidChunkSize
  | some d => { p with contentLength := d, state := .chunkSize }.turn []

/-- `s_chunk_size`. -/
def chunkSize (p : HttpParser) (c : UInt8) : HttpTurn :=
  if c = cr then p.goto .chunkSizeAlmostDone
  else
    match unhex c with
    | none =>
        if c = byte ';' ∨ c = byte ' ' then p.goto .chunkParameters else p.fail .invalidChunkSize
    | some d =>
        if (ullongMax - 16) / 16 < p.contentLength then p.fail .invalidContentLength
        else { p with contentLength := p.contentLength * 16 + d }.turn []

/-- `s_chunk_size_almost_done`. -/
def chunkSizeAlmostDone (p : HttpParser) (c : UInt8) : HttpTurn :=
  if c ≠ lf then p.fail .strict
  else if p.contentLength = 0 then
    { p with nread := 0, flags.trailing := true, state := .headerFieldStart }.turn
      [.notify .chunkHeader]
  else { p with nread := 0, state := .chunkData }.turn [.notify .chunkHeader]

/-- `s_chunk_data`, one byte of it. -/
def chunkData (p : HttpParser) : HttpTurn :=
  let p := { p with contentLength := p.contentLength - 1 }
  if p.contentLength = 0 then { p with state := .chunkDataAlmostDone }.turn [.mark .body]
  else p.turn [.mark .body]

/-- `s_chunk_data_almost_done`. -/
def chunkDataAlmostDone (p : HttpParser) (c : UInt8) : HttpTurn :=
  if c = cr then { p with state := .chunkDataDone }.turn [.data .body] else p.fail .strict

/-- `s_chunk_data_done`. -/
def chunkDataDone (p : HttpParser) (c : UInt8) : HttpTurn :=
  if c = lf then { p with nread := 0, state := .chunkSizeStart }.turn [.notify .chunkComplete]
  else p.fail .strict

/-! ### One byte -/

/-- The `switch` over the states. -/
def dispatch (skipBody : Bool) (p : HttpParser) (c : UInt8) : HttpTurn :=
  match p.state with
  | .dead => if c = cr ∨ c = lf then p.turn [] else p.fail .closedConnection
  | .startRes => p.startRes c
  | .resH => p.expect (byte 'T') c .resHT
  | .resHT => p.expect (byte 'T') c .resHTT
  | .resHTT => p.expect (byte 'P') c .resHTTP
  | .resHTTP => p.expect (byte '/') c .resHttpMajor
  | .resHttpMajor => p.version c (fun n => { p with httpMajor := n, state := .resHttpDot })
  | .resHttpDot => if c = byte '.' then p.goto .resHttpMinor else p.fail .invalidVersion
  | .resHttpMinor => p.version c (fun n => { p with httpMinor := n, state := .resHttpEnd })
  | .resHttpEnd => if c = byte ' ' then p.goto .resFirstStatusCode else p.fail .invalidVersion
  | .resFirstStatusCode => p.resFirstStatusCode c
  | .resStatusCode => p.resStatusCode c
  | .resStatusStart => p.resStatusStart c
  | .resStatus => p.resStatus c
  | .resLineAlmostDone => p.expect lf c .headerFieldStart
  | .headerFieldStart => headerFieldStart skipBody p c
  | .headerField => p.headerField c
  | .headerValueDiscardWs => p.headerValueDiscardWs c
  | .headerValueDiscardWsAlmostDone => p.expect lf c .headerValueDiscardLws
  | .headerValueDiscardLws => headerValueDiscardLws skipBody p c
  | .headerValueStart => p.headerValueStart c
  | .headerValue => p.headerValue c
  | .headerValueLws => headerValueLws skipBody p c
  | .headerAlmostDone => p.headerAlmostDone c
  | .chunkSizeStart => p.chunkSizeStart c
  | .chunkSize => p.chunkSize c
  | .chunkParameters => if c = cr then p.goto .chunkSizeAlmostDone else p.turn []
  | .chunkSizeAlmostDone => p.chunkSizeAlmostDone c
  | .headersAlmostDone => headersAlmostDone skipBody p c
  | .headersDone => p.headersDone c
  | .chunkData => p.chunkData
  | .chunkDataAlmostDone => p.chunkDataAlmostDone c
  | .chunkDataDone => p.chunkDataDone c
  | .bodyIdentity => p.bodyIdentity
  | .bodyIdentityEof => p.turn [.mark .body]
  | .messageDone => p.messageDone

/-- One turn of the loop, with `COUNT_HEADER_SIZE(1)`. -/
def executeByte (skipBody : Bool) (p : HttpParser) (c : UInt8) : HttpTurn :=
  if p.state.parsingHeader then
    if maxHeaderSize < p.nread + 1 then { p with nread := p.nread + 1 }.fail .headerOverflow
    else dispatch skipBody { p with nread := p.nread + 1 } c
  else dispatch skipBody p c

/-- The marks that are set where a chunk begins. -/
def carried (p : HttpParser) : Option HttpSpan :=
  match p.state with
  | .headerField => some .headerField
  | .headerValue => some .headerValue
  | .resStatus => some .status
  | _ => none

/-- The loop of `http_parser_execute`. -/
def parser (skipBody : Bool) : Parser HttpParser HttpSpan HttpNotice UInt8 :=
  ⟨executeByte skipBody, carried⟩

/-- `http_parser_execute` with a length of zero: the end of the input. -/
def executeEof (p : HttpParser) : Result HttpParser HttpSpan HttpNotice UInt8 :=
  match p.state with
  | .bodyIdentityEof => ⟨p, [.notify .messageComplete], .more, 0⟩
  | .dead | .startRes => ⟨p, [], .more, 0⟩
  | _ => ⟨{ p with httpErrno := some .invalidEofState }, [], .error, 1⟩

/-- `http_parser_execute`. -/
def execute (skipBody : Bool) (p : HttpParser) (data : Bytes) :
    Result HttpParser HttpSpan HttpNotice UInt8 :=
  if p.httpErrno ≠ none then ⟨p, [], .error, 0⟩
  else if data = [] then p.executeEof
  else (parser skipBody).execute p data

end HttpParser

end OrderbookClient.Hv
