import OrderbookClient.CString
import OrderbookClient.Channel

/-! # The WebSocket client: `WebSocketClient.cpp` over `TcpClient.h`

The client keeps two state variables that are not the same thing: its own `state`, which
follows the WebSocket handshake, and the `status` of its channel, which follows the TCP
connection.  The functions here are the callbacks the event loop runs and the calls that reach
them; each one runs to its end before the next.

What happens is recorded in a `log` of events the program does not keep: the upgrade request
written, the user's callbacks, and the frames a `send` got onto a channel. -/

namespace OrderbookClient.Hv

open Json (Bytes)

/-- The HTTP library under the client: `HttpRequest`, `HttpParser` with its response, and the
SHA-1 and base64 helpers. -/
structure Http where
  Request : Type
  /-- `HttpParser` together with the `HttpResponse` it fills. -/
  Parser : Type
  newRequest : Request
  /-- Assign `url` and call `ParseUrl`. -/
  setUrl : Request → Bytes → Request
  /-- `headers[key] = value`. -/
  setHeader : Request → Bytes → Bytes → Request
  getHeader : Request → Bytes → Bytes
  redirect : Request → Bool
  /-- `Dump(true, true)`. -/
  dump : Request → Request × Bytes
  /-- `HttpParser::New` and `InitResponse` on a new response. -/
  newParser : Parser
  /-- `FeedRecvData`, with the number of bytes parsed, an `int`. -/
  feedRecvData : Parser → Bytes → Parser × ℤ
  getError : Parser → Bool
  isComplete : Parser → Bool
  statusCode : Parser → ℕ
  /-- A header of the response, empty if absent. -/
  responseHeader : Parser → Bytes → Bytes
  wsEncodeKey : Bytes → Bytes
  base64Encode : Bytes → Bytes

/-- `WebSocketClient::State`. -/
inductive State
  | connecting | connected | wsUpgrading | wsOpened | wsClosed
  deriving DecidableEq, Repr

/-- What the outside can see of a run, on the channel with the given id. -/
inductive Event
  /-- The upgrade request was written or queued. -/
  | upgradeWritten (id : ℕ)
  | onopen (id : ℕ)
  | onmessage (id : ℕ) (msg : Bytes)
  | onclose (id : ℕ)
  /-- A frame of a subscription was written or queued while the client was in `state`. -/
  | frame (id : ℕ) (state : State)
  deriving DecidableEq, Repr

/-- `DEFAULT_WS_PING_INTERVAL`. -/
def defaultWsPingInterval : ℕ := 3000

/-- `WebSocketClient`.  `httpParser` and `wsParser` are null before the first response and are
not looked at then. -/
structure Client (http : Http) where
  state : State
  channel : Option Channel
  url : Bytes
  httpReq : Option http.Request
  httpParser : http.Parser
  wsParser : WebSocketParser
  pingInterval : ℕ
  pingCnt : ℕ
  tls : Bool
  /-- The id the next socket gets from `hio_next_id`. -/
  nextId : ℕ
  log : List Event

namespace Client

variable {http : Http}

/-- The constructor. -/
def new (http : Http) : Client http where
  state := .wsClosed
  channel := none
  url := []
  httpReq := none
  httpParser := http.newParser
  wsParser := .new 0
  pingInterval := defaultWsPingInterval
  pingCnt := 0
  tls := false
  nextId := 1
  log := []

/-- The id of the current channel, `0` if there is none. -/
def chan (c : Client http) : ℕ := (c.channel.map Channel.id).getD 0

/-- `TcpClient::isConnected`, which `WSClient` inherits. -/
def isConnected (c : Client http) : Bool := (c.channel.map Channel.isConnected).getD false

def emit (c : Client http) (e : Event) : Client http := { c with log := c.log ++ [e] }

/-! ### Closing -/

/-- The callback `onclose` of the channel: `onConnection` finds the channel closed. -/
def onChannelClosed (c : Client http) : Client http :=
  { c with state := .wsClosed }.emit (.onclose c.chan)

/-- Store the channel after an operation on it; the flag says whether its `onclose` ran. -/
def settle (c : Client http) (r : Channel × Bool) : Client http :=
  let c := { c with channel := some r.1 }
  if r.2 then c.onChannelClosed else c

/-- `channel->close()`. -/
def closeChannel (c : Client http) : Client http :=
  match c.channel with
  | none => c
  | some ch => c.settle ch.close

/-- `WebSocketClient::close`.  The loop's thread runs `closesocket` at once, and the caller's
finds no channel to close. -/
def close (c : Client http) : Client http := { c.closeChannel with state := .wsClosed }

/-- `hio_close` by the loop, after what the event did to the socket. -/
def hioClose (c : Client http) (before : Hio → Hio) : Client http :=
  match c.channel with
  | none => c
  | some ch => c.settle { ch with io := before ch.io }.hioClose

/-! ### Connecting -/

/-- `createsocket`: a negative `connfd` is the error it returns, of the resolver or of `socket`. -/
def createsocket (c : Client http) (connfd : ℤ) : Client http :=
  if connfd < 0 then c
  else { c with channel := some (Channel.new (Hio.new c.nextId)), nextId := c.nextId + 1 }

/-- `WebSocketClient::open` up to `start()`.  The flag says whether it gets there. -/
def openUrl (c : Client http) (url_ : Bytes) (connfd : ℤ) : Client http × Bool :=
  let c := c.close
  let url := if (ascii "ws").isPrefixOf url_ then url_ else ascii "ws://" ++ url_
  let httpReq := http.setUrl (c.httpReq.getD http.newRequest) (ascii "http" ++ url.drop 2)
  let c := { c with url := url, httpReq := some httpReq }.createsocket connfd
  if connfd < 0 then (c, false)
  else
    ({ c with
      tls := if (ascii "wss").isPrefixOf url then true else c.tls
      state := .connecting }, true)

/-- Whether `startConnect` has to create a socket first. -/
def needsSocket (c : Client http) : Bool := (c.channel.map Channel.isClosed).getD true

/-- `startConnect` from the test of the status on. -/
def connectChannel (c : Client http) (ch : Channel) (answer : Nconnect) : Client http :=
  if Status.code .connecting ≤ ch.status.code then c
  else
    let ch := if c.tls then ch.enableSSL else ch
    { c with channel := some ({ ch with onclose := true }.startConnect answer).1 }

/-- `startConnect`. -/
def startConnect (c : Client http) (connfd : ℤ) (answer : Nconnect) : Client http :=
  if c.needsSocket = true ∧ connfd < 0 then c
  else
    let c := if c.needsSocket then c.createsocket connfd else c
    match c.channel with
    | none => c
    | some ch => c.connectChannel ch answer

/-- `nio_connect` and `ssl_client_handshake`, up to the callback `onconnect`: the first half of
`on_connect` stores the status `CONNECTED`.  The flag says whether the callback follows. -/
def nioConnect (c : Client http) (answer : Ndial) : Option (Client http × Bool) :=
  match c.channel with
  | none => none
  | some ch =>
      if ch.io.dial = .idle then none
      else
        match answer with
        | .ok => some ({ c with
            channel := some { ch with io := ch.io.connectCb, status := .connected } }, true)
        | .wantRead =>
            if ch.io.ssl then
              some ({ c with
                channel := some { ch with io := { ch.io with dial := .handshake, reading := true } } }, false)
            else none
        | .failed => some (c.hioClose Hio.setError, false)

/-- The headers `onConnection` sets, with a key from `rand()` if there is none yet. -/
def handshakeHeaders (http : Http) (req : http.Request) (randKey : Bytes) : http.Request :=
  let req := http.setHeader req (ascii "Connection") (ascii "Upgrade")
  let req := http.setHeader req (ascii "Upgrade") (ascii "websocket")
  let req :=
    if http.getHeader req (ascii "Sec-WebSocket-Key") = [] then
      http.setHeader req (ascii "Sec-WebSocket-Key") (http.base64Encode randKey)
    else req
  if http.getHeader req (ascii "Sec-WebSocket-Version") = [] then
    http.setHeader req (ascii "Sec-WebSocket-Version") (ascii "13")
  else req

/-- The request `onConnection` writes, and its text. -/
def upgradeRequest (c : Client http) (randKey : Bytes) : http.Request × Bytes :=
  http.dump (handshakeHeaders http (c.httpReq.getD http.newRequest) randKey)

/-- The callback `onconnect`: `startRead`, then `onConnection`.  The state `CONNECTED` set first
is overwritten before anything else runs. -/
def onConnection (c : Client http) (randKey : Bytes) (answer : Nwrite) : Client http :=
  match c.channel with
  | none => c
  | some ch =>
      let ch := ch.startRead
      if ch.isConnected then
        let req := c.upgradeRequest randKey
        let r := ch.write req.2 answer
        { c with
          channel := some r.1
          httpReq := some req.1
          state := .wsUpgrading
          httpParser := http.newParser
          log := c.log ++ if 0 ≤ r.2 then [.upgradeWritten ch.id] else [] }
      else { c with channel := some ch }.onChannelClosed

/-! ### Reading -/

/-- `http_req_->redirect && HTTP_STATUS_IS_REDIRECT(status)`.  The macro has no parentheses around
it, so `redirect` counts for its first status only. -/
def followsRedirect (redirect : Bool) (status : ℕ) : Bool :=
  (redirect && status == 301) || status == 302 || status == 303 || status == 307 || status == 308

/-- Where a response other than 101 redirects to. -/
def redirectUrl (http : Http) (req : http.Request) (parser : http.Parser) : Option Bytes :=
  let location := http.responseHeader parser (ascii "Location")
  if followsRedirect (http.redirect req) (http.statusCode parser) && location ≠ [] then
    some (cString (cStr
      (if (ascii "http").isPrefixOf location then ascii "ws" ++ location.drop 4 else location)))
  else none

/-- Whether `Sec-WebSocket-Accept` matches the key of the request. -/
def acceptMatches (http : Http) (req : http.Request) (parser : http.Parser) : Bool :=
  http.wsEncodeKey (cString (cStr (http.getHeader req (ascii "Sec-WebSocket-Key")))) ==
    cString (cStr (http.responseHeader parser (ascii "Sec-WebSocket-Accept")))

/-- The callback `onMessage` of the frame parser. -/
def onFrame (c : Client http) (m : Message) (answer : Nwrite) : Client http :=
  if m.opcode = WsOpcode.close.code then c.closeChannel
  else if m.opcode = WsOpcode.ping.code then
    match c.channel with
    | none => c
    | some ch => { c with channel := some (ch.sendPong answer).1 }
  else if m.opcode = WsOpcode.pong.code then { c with pingCnt := 0 }
  else if m.opcode = WsOpcode.text.code ∨ m.opcode = WsOpcode.binary.code then
    c.emit (.onmessage c.chan m.msg)
  else c

/-- The messages of one chunk, in order. -/
def onFrames (c : Client http) : List Message → (ℕ → Nwrite) → Client http
  | [], _ => c
  | m :: ms, answer => (c.onFrame m (answer 0)).onFrames ms (fun i => answer (i + 1))

/-- The second half of `onMessage`, in state `WS_OPENED`. -/
def feedFrames (c : Client http) (data : Bytes) (answer : ℕ → Nwrite) : Option (Client http) :=
  if data = [] then some c
  else
    (c.wsParser.feedRecvData data).map (fun r =>
      let c := onFrames { c with wsParser := r.1 } r.2.1 answer
      if r.2.2 ≠ data.length then c.closeChannel else c)

/-- `channel->onclose = NULL`. -/
def dropOnclose (c : Client http) : Client http :=
  match c.channel with
  | none => c
  | some ch => { c with channel := some { ch with onclose := false } }

/-- The redirect: the channel is given up without `onclose`, and `start()` runs at once. -/
def redirectTo (c : Client http) (wsUrl : Bytes) (connfd : ℤ) (answer : Nconnect) : Client http :=
  let r := c.dropOnclose.openUrl wsUrl connfd
  if r.2 then r.1.startConnect connfd answer else r.1

/-- The handshake is complete: `WS_OPENED`, the heartbeat and `onopen`. -/
def upgraded (c : Client http) (garbage : ℕ) : Client http :=
  let c := { c with wsParser := .new garbage, state := .wsOpened }
  let c :=
    if 0 < c.pingInterval then
      { c with pingCnt := 0, channel := c.channel.map Channel.setHeartbeat }
    else c
  c.emit (.onopen c.chan)

/-- What the loop and the kernel supply while a chunk is handled: the value found in the
uninitialised `opcode` of a new frame parser, the answers to the writes of pongs, and those to the
`createsocket` and `connect` of a redirect. -/
structure ReadAnswers where
  garbage : ℕ
  pong : ℕ → Nwrite
  connfd : ℤ
  connect : Nconnect

/-- What `onMessage` makes of a complete response. -/
def onResponse (c : Client http) (data : Bytes) (a : ReadAnswers) : Option (Client http) :=
  let req := c.httpReq.getD http.newRequest
  if http.statusCode c.httpParser ≠ 101 then
    match redirectUrl http req c.httpParser with
    | some wsUrl => some (c.redirectTo wsUrl a.connfd a.connect)
    | none => some c.closeChannel
  else if acceptMatches http req c.httpParser then (c.upgraded a.garbage).feedFrames data a.pong
  else some c.closeChannel

/-- The chunk goes to the HTTP parser. -/
def feedHttp (c : Client http) (data : Bytes) : Client http :=
  { c with httpParser := (http.feedRecvData c.httpParser data).1 }

/-- `onMessage`. -/
def onMessage (c : Client http) (data : Bytes) (a : ReadAnswers) : Option (Client http) :=
  match c.state with
  | .wsUpgrading =>
      let nparse := (http.feedRecvData c.httpParser data).2
      let c := c.feedHttp data
      if nparse ≠ data.length ∧ http.getError c.httpParser = true then some c.closeChannel
      else if http.isComplete c.httpParser then c.onResponse (data.drop nparse.toNat) a
      else some c
  | .wsOpened => c.feedFrames data a.pong
  | _ => some c

/-! ### Timers and the write side -/

/-- `ping_cnt++`. -/
def countPing (c : Client http) : Client http := { c with pingCnt := c.pingCnt + 1 }

/-- The heartbeat timer. -/
def onHeartbeat (c : Client http) (answer : Nwrite) : Client http :=
  match c.channel with
  | none => c
  | some ch =>
      if c.pingCnt = 3 then c.countPing.closeChannel
      else { c.countPing with channel := some (ch.sendPing answer).1 }

/-- `nio_write`. -/
def nioWrite (c : Client http) (answer : ℕ → Nwrite) : Client http :=
  match c.channel with
  | none => c
  | some ch =>
      let r := ch.io.nioWrite answer
      let c := { c with channel := some { ch with io := r.1 } }
      if r.2 then c.hioClose id else c

/-! ### Sending -/

/-- `msg.size()` as the `int` that `send` passes on. -/
def sentSize (msg : Bytes) : ℤ := Int.bmod msg.length (2 ^ 32)

/-- The bytes of `msg` that this size leaves. -/
def sentBytes (msg : Bytes) : Bytes := msg.take (sentSize msg).toNat

/-- `send(msg.c_str(), msg.size(), WS_OPCODE_TEXT)`.  With a negative size `sendFrame` runs past
every buffer. -/
def send (c : Client http) (msg : Bytes) (mask : ℕ → Mask) (answer : ℕ → Nwrite) :
    Option (Client http × ℤ) :=
  match c.channel with
  | none => some (c, -1)
  | some ch =>
      if sentSize msg < 0 then none
      else
        let s := ch.send (sentBytes msg) .text mask answer
        some ({ c with
          channel := some s.channel
          log := c.log ++ List.replicate s.frames (.frame ch.id c.state) }, s.ret)

end Client

end OrderbookClient.Hv
