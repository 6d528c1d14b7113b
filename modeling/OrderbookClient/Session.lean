import OrderbookClient.Client
import OrderbookClient.Runs
import OrderbookClient.Subscription

/-! # A session: the caller of `WSClient` and the event loop

The caller runs `connect` once and then any `subscribe` calls, each of which builds its request,
polls `isConnected()` until it is true, sends, and increments `m_request_id`.  The event loop runs
one callback after the other.  The two are interleaved in any order: an `Action` is one step of
either, with the answers the kernel and the peer give in it.

`on_connect` is two steps of the loop, as the channel's status is visible to the caller before
`onConnection` runs. -/

namespace OrderbookClient

open Json Hv Runs

/-- One `subscribe` call: the value of `m_request_id` it used, its argument and its text. -/
structure Request where
  id : ℤ
  instruments : List Bytes
  text : Bytes
  deriving DecidableEq, Repr

/-- Where the caller is. -/
inductive Caller
  /-- Before `connect`. -/
  | start
  /-- Between two calls. -/
  | idle
  /-- In the loop `while(!isConnected())`. -/
  | polling (r : Request)
  /-- Behind it, before `send`. -/
  | sending (r : Request)
  deriving DecidableEq, Repr

/-- Where the event loop is. -/
inductive Loop
  | notRunning
  /-- `startConnect` is queued as the first functor of the loop. -/
  | startQueued
  | idle
  /-- In `on_connect`, between the store of the status and `onconnect`. -/
  | inConnect
  deriving DecidableEq, Repr

/-- One `send` of the caller: the channel it found, the request, the bytes `send` passed on and the
value it returned. -/
structure Handoff where
  channel : Option ℕ
  request : Request
  buf : Bytes
  ret : ℤ
  deriving DecidableEq, Repr

/-- The whole state.  `handed` and `returned` record what the program does not keep. -/
structure Session (http : Http) where
  client : Client http
  /-- `m_request_id`. -/
  requestId : ℤ
  caller : Caller
  loop : Loop
  handed : List Handoff
  returned : List Request

/-- One step of the caller or of the loop. -/
inductive Action
  | connect (url : Bytes) (connfd : ℤ)
  | subscribe (instruments : List Bytes)
  | poll
  | send (mask : ℕ → Mask) (answer : ℕ → Nwrite)
  | startConnect (connfd : ℤ) (answer : Nconnect)
  | dial (answer : Ndial)
  | onConnection (randKey : Bytes) (answer : Nwrite)
  | connectTimeout
  | read (data : Bytes) (a : Client.ReadAnswers)
  | readEnd
  | readError
  | writable (answer : ℕ → Nwrite)
  | closeEvent
  | closeTimeout
  | heartbeat (answer : Nwrite)

namespace Session

variable {http : Http}

/-- `WSClient client{}`. -/
def new (http : Http) : Session http := ⟨.new http, 0, .start, .notRunning, [], []⟩

/-- An event of the loop that needs the socket to be in a state where it can occur. -/
def onEvent (s : Session http) (enabled : Hio → Bool) (f : Client http → Option (Client http)) :
    Option (Session http) :=
  match s.client.channel with
  | none => none
  | some ch =>
      if s.loop = .idle ∧ ch.io.closed = false ∧ enabled ch.io = true then
        (f s.client).map (fun c => { s with client := c })
      else none

/-- The loop's half of a step: the client's callbacks. -/
def stepLoop (s : Session http) : Action → Option (Session http)
  | .startConnect connfd answer =>
      if s.loop = .startQueued then
        some { s with client := s.client.startConnect connfd answer, loop := .idle }
      else none
  | .dial answer =>
      if s.loop = .idle then
        (s.client.nioConnect answer).map (fun r =>
          { s with client := r.1, loop := if r.2 then .inConnect else .idle })
      else none
  | .onConnection randKey answer =>
      if s.loop = .inConnect then
        some { s with client := s.client.onConnection randKey answer, loop := .idle }
      else none
  | .connectTimeout => s.onEvent (·.connectTimer) (fun c => some (c.hioClose Hio.setError))
  | .read data a => s.onEvent (fun io => io.reading && data ≠ []) (fun c => c.onMessage data a)
  | .readEnd => s.onEvent (·.reading) (fun c => some (c.hioClose id))
  | .readError => s.onEvent (·.reading) (fun c => some (c.hioClose Hio.setError))
  | .writable answer =>
      s.onEvent (fun io => io.writeQueue ≠ [] && io.dial ≠ .waiting) (fun c => some (c.nioWrite answer))
  | .closeEvent => s.onEvent (fun io => 0 < io.closeEvents)
      (fun c => some (c.hioClose Hio.takeCloseEvent))
  | .closeTimeout => s.onEvent (·.close) (fun c => some (c.hioClose Hio.setError))
  | .heartbeat answer => s.onEvent (·.heartbeat) (fun c => some (c.onHeartbeat answer))
  | _ => none

/-- The caller's half of a step. -/
def stepCaller (s : Session http) : Action → Option (Session http)
  | .connect url connfd =>
      if s.caller = .start then
        let r := s.client.openUrl (cString (cStr url)) connfd
        some { s with
          client := r.1
          caller := .idle
          loop := if r.2 then .startQueued else .notRunning }
      else none
  | .subscribe instruments =>
      if s.caller = .idle then
        (subscribeText s.requestId instruments).map (fun text =>
          { s with caller := .polling ⟨s.requestId, instruments, text⟩ })
      else none
  | .poll =>
      match s.caller with
      | .polling r => some (if s.client.isConnected then { s with caller := .sending r } else s)
      | _ => none
  | .send mask answer =>
      match s.caller with
      | .sending r =>
          (s.client.send r.text mask answer).map (fun result =>
            { s with
              client := result.1
              handed := s.handed ++ [⟨s.client.channel.map Channel.id, r, Client.sentBytes r.text, result.2⟩]
              requestId := Int.bmod (s.requestId + 1) (2 ^ 32)
              returned := s.returned ++ [r]
              caller := .idle })
      | _ => none
  | _ => none

/-- One step; an action belongs either to the caller or to the loop. -/
def step (s : Session http) : Action → Option (Session http)
  | .connect url connfd => s.stepCaller (.connect url connfd)
  | .subscribe instruments => s.stepCaller (.subscribe instruments)
  | .poll => s.stepCaller .poll
  | .send mask answer => s.stepCaller (.send mask answer)
  | a => s.stepLoop a

/-- The machine whose runs are the interleavings. -/
def machine (http : Http) : Machine (Session http) Action := ⟨.new http, step⟩

end Session

/-! ### A schedule -/

/-- A request of `plainHttp`. -/
structure PlainRequest where
  url : Bytes
  headers : List (Bytes × Bytes)

/-- A small HTTP library for schedules that can be run.  It reads the status line and no headers,
and has no SHA-1. -/
def plainHttp : Http where
  Request := PlainRequest
  Parser := Bytes
  newRequest := ⟨[], []⟩
  setUrl req url := { req with url := url }
  setHeader req key value := { req with headers := (key, value) :: req.headers }
  getHeader req key := (req.headers.lookup key).getD []
  redirect _ := true
  dump req := (req, ascii "GET " ++ req.url ++ ascii " HTTP/1.1" ++
    req.headers.flatMap (fun h => [13, 10] ++ h.1 ++ ascii ": " ++ h.2) ++ [13, 10, 13, 10])
  newParser := []
  feedRecvData received data := (received ++ data, data.length)
  getError _ := false
  isComplete received := [13, 10, 13, 10].isSuffixOf received
  statusCode received := if (ascii "HTTP/1.1 101").isPrefixOf received then 101 else 200
  responseHeader _ _ := []
  wsEncodeKey _ := []
  base64Encode key := key

/-- `main` connects, and the loop gets to the TLS session but not yet to `onConnection`. -/
def mainConnects : List Action :=
  [.connect (ascii "wss://test.deribit.com/ws/api/v2") 3, .startConnect 3 .inProgress,
    .dial .wantRead, .dial .ok]

/-- The handshake. -/
def mainUpgrades : List Action :=
  [.onConnection (ascii "0123456789abcdef") (.wrote 1024),
    .read (ascii "HTTP/1.1 101" ++ [13, 10, 13, 10]) ⟨0, fun _ => .again, 0, .failed⟩]

/-- The first subscription of `main`, up to its `send`. -/
def mainSubscribes : List Action :=
  [.subscribe [ascii "book.ADA_USDC-PERPETUAL.none.20.100ms",
    ascii "book.BTC-PERPETUAL.none.20.100ms"], .poll]

end OrderbookClient
