import OrderbookClient.HttpMarks

/-! # The response as it is assembled: `Http1Parser.cpp`

`Http1Parser` handles the callbacks of `http_parser` and fills an `HttpResponse`.  The callbacks
read of the parser what is passed to them here, and of what they return only `skip_body` matters.

* `parser_tame`: `http_parser` keeps the discipline of the marks.
* `Continues.feed`: a response may be cut anywhere but inside or right behind the name of a
  header; there `on_header_field` takes the second piece for a new header. -/

namespace OrderbookClient.Hv

open Json (Bytes)
open Spans

/-! ### Header maps -/

/-- `tolower`. -/
def toLower (c : UInt8) : UInt8 := if byte 'A' ≤ c ∧ c ≤ byte 'Z' then c + 32 else c

/-- The key under which `StringCaseLess` finds a string. -/
def caseKey (key : Bytes) : Bytes := key.map toLower

/-- `http_headers`, in the order of insertion. -/
abbrev HttpHeaders := List (Bytes × Bytes)

/-- `headers[key] = value`. -/
def HttpHeaders.set : HttpHeaders → Bytes → Bytes → HttpHeaders
  | [], key, value => [(key, value)]
  | h :: hs, key, value =>
      if caseKey h.1 = caseKey key then (h.1, value) :: hs else h :: HttpHeaders.set hs key value

/-- `GetHeader`. -/
def HttpHeaders.get (hs : HttpHeaders) (key : Bytes) : Bytes :=
  ((hs.find? (fun h => caseKey h.1 = caseKey key)).map Prod.snd).getD []

/-- `HttpResponse`, without what the client does not look at. -/
structure HttpResponse where
  httpMajor : ℕ
  httpMinor : ℕ
  statusCode : ℕ
  headers : HttpHeaders
  body : Bytes
  deriving DecidableEq, Repr

/-- `enum http_parser_state`. -/
inductive HpState
  | startReqOrRes | messageBegin | status | headerField | headerValue | headersComplete
  | chunkHeader | body | chunkComplete | messageComplete
  deriving DecidableEq, Repr

structure Http1Parser where
  parser : HttpParser
  /-- `F_SKIPBODY` in `flags`: the request was a `HEAD`. -/
  skipBody : Bool
  state : HpState
  headerField : Bytes
  headerValue : Bytes
  parsed : HttpResponse
  deriving DecidableEq, Repr

namespace Http1Parser

/-- The constructor and `InitResponse` on a new response. -/
def new : Http1Parser :=
  ⟨.init, false, .startReqOrRes, [], [], ⟨1, 1, 200, [], []⟩⟩

/-! ### The callbacks -/

/-- `handle_header`. -/
def handleHeader (hp : Http1Parser) : Http1Parser :=
  if hp.headerField ≠ [] then
    { hp with
      parsed := { hp.parsed with headers := hp.parsed.headers.set hp.headerField hp.headerValue }
      headerField := []
      headerValue := [] }
  else hp

/-- `on_status`. -/
def onStatus (hp : Http1Parser) : Http1Parser := { hp with state := .status }

/-- `on_header_field`. -/
def onHeaderField (hp : Http1Parser) (d : Bytes) : Http1Parser :=
  let hp := hp.handleHeader
  { hp with state := .headerField, headerField := hp.headerField ++ d }

/-- `on_header_value`. -/
def onHeaderValue (hp : Http1Parser) (d : Bytes) : Http1Parser :=
  { hp with state := .headerValue, headerValue := hp.headerValue ++ d }

/-- `on_body`; the client sets no `http_cb`. -/
def onBody (hp : Http1Parser) (d : Bytes) : Http1Parser :=
  { hp with state := .body, parsed := { hp.parsed with body := hp.parsed.body ++ d } }

/-- `on_headers_complete`. -/
def onHeadersComplete (hp : Http1Parser) (httpMajor httpMinor statusCode : ℕ) : Http1Parser :=
  let hp := hp.handleHeader
  { hp with
    state := .headersComplete
    parsed := { hp.parsed with
      httpMajor := httpMajor, httpMinor := httpMinor, statusCode := statusCode } }

/-- The callbacks, by their events. -/
def handle (hp : Http1Parser) : Call HttpSpan HttpNotice UInt8 → Http1Parser
  | .data .status _ => hp.onStatus
  | .data .headerField d => hp.onHeaderField d
  | .data .headerValue d => hp.onHeaderValue d
  | .data .body d => hp.onBody d
  | .notify .messageBegin => { hp with state := .messageBegin }
  | .notify (.headersComplete httpMajor httpMinor statusCode) =>
      hp.onHeadersComplete httpMajor httpMinor statusCode
  | .notify .messageComplete => { hp with state := .messageComplete }
  | .notify .chunkHeader => { hp with state := .chunkHeader }
  | .notify .chunkComplete => { hp with state := .chunkComplete }

/-- The parser on a chunk. -/
def execute (hp : Http1Parser) (data : Bytes) : Result HttpParser HttpSpan HttpNotice UInt8 :=
  hp.parser.execute hp.skipBody data

/-- The parser on a chunk, with its callbacks, and the number of bytes parsed. -/
def feed (hp : Http1Parser) (data : Bytes) : Http1Parser × ℕ :=
  let r := hp.execute data
  ({ r.calls.foldl handle hp with parser := r.state }, r.parsed)

/-- `FeedRecvData`, which returns that number as an `int`. -/
def feedRecvData (hp : Http1Parser) (data : Bytes) : Http1Parser × ℤ :=
  ((hp.feed data).1, Int.bmod (hp.feed data).2 (2 ^ 32))

/-- `GetError`. -/
def getError (hp : Http1Parser) : Bool := hp.parser.httpErrno.isSome

/-- `IsComplete`. -/
def isComplete (hp : Http1Parser) : Bool := hp.state == .messageComplete

/-! ### Responses in chunks -/

/-- The data callbacks that only append take a span in pieces. -/
theorem handle_merges {k : HttpSpan} (hk : k ≠ .headerField) : Merges handle k := by
  intro hp d d'
  cases k with
  | headerField => exact absurd rfl hk
  | status => rfl
  | headerValue => simp [handle, onHeaderValue]
  | body => simp [handle, onBody]

theorem handleHeader_setParser (hp : Http1Parser) (p : HttpParser) :
    { hp with parser := p }.handleHeader = { hp.handleHeader with parser := p } := by
  unfold handleHeader
  by_cases h : hp.headerField = [] <;> simp [h]

theorem handleHeader_skipBody (hp : Http1Parser) : hp.handleHeader.skipBody = hp.skipBody := by
  unfold handleHeader
  by_cases h : hp.headerField = [] <;> simp [h]

/-- The callbacks do not look at the parser. -/
theorem handle_setParser (hp : Http1Parser) (p : HttpParser) (call : Call HttpSpan HttpNotice UInt8) :
    { hp with parser := p }.handle call = { hp.handle call with parser := p } := by
  cases call with
  | data k d =>
      cases k with
      | headerField => simp [handle, onHeaderField, handleHeader_setParser]
      | status | headerValue | body => rfl
  | notify n =>
      cases n with
      | headersComplete => simp [handle, onHeadersComplete, handleHeader_setParser]
      | messageBegin | messageComplete | chunkHeader | chunkComplete => rfl

theorem handle_skipBody (hp : Http1Parser) (call : Call HttpSpan HttpNotice UInt8) :
    (hp.handle call).skipBody = hp.skipBody := by
  cases call with
  | data k d =>
      cases k with
      | headerField => simp [handle, onHeaderField, handleHeader_skipBody]
      | status | headerValue | body => rfl
  | notify n =>
      cases n with
      | headersComplete => simp [handle, onHeadersComplete, handleHeader_skipBody]
      | messageBegin | messageComplete | chunkHeader | chunkComplete => rfl

theorem foldl_setParser (p : HttpParser) (calls : List (Call HttpSpan HttpNotice UInt8)) :
    ∀ (hp : Http1Parser),
      calls.foldl handle { hp with parser := p } = { calls.foldl handle hp with parser := p } := by
  induction calls with
  | nil =>
      intro hp
      rfl
  | cons call calls ih =>
      intro hp
      rw [List.foldl_cons, List.foldl_cons, handle_setParser, ih]

theorem foldl_skipBody (calls : List (Call HttpSpan HttpNotice UInt8)) :
    ∀ (hp : Http1Parser), (calls.foldl handle hp).skipBody = hp.skipBody := by
  induction calls with
  | nil =>
      intro hp
      rfl
  | cons call calls ih =>
      intro hp
      rw [List.foldl_cons, ih, handle_skipBody]

theorem feed_of_execute {hp : Http1Parser} {data : Bytes} {q : HttpParser}
    {calls : List (Call HttpSpan HttpNotice UInt8)} {ctl : Ctl} {n : ℕ}
    (h : hp.execute data = ⟨q, calls, ctl, n⟩) :
    hp.feed data = ({ calls.foldl handle hp with parser := q }, n) := by
  unfold feed
  rw [h]

theorem feedRecvData_of_feed {hp hp' : Http1Parser} {data : Bytes} {n : ℕ}
    (h : hp.feed data = (hp', n)) : hp.feedRecvData data = (hp', Int.bmod n (2 ^ 32)) := by
  unfold feedRecvData
  rw [h]

/-- A chunk that was parsed to its end, and one behind it. -/
structure Continues (hp : Http1Parser) (a b : Bytes) : Prop where
  left : a ≠ []
  right : b ≠ []
  more : (hp.execute a).ctl = .more

theorem Continues.cut {hp : Http1Parser} {a b : Bytes} (h : Continues hp a b) :
    let first := hp.execute a
    let second := (hp.feed a).1.execute b
    let whole := hp.execute (a ++ b)
    whole.state = second.state ∧ whole.ctl = second.ctl ∧
      whole.parsed = a.length + second.parsed ∧
      (second.ctl ≠ .error → Cut first.state.span whole.calls first.calls second.calls) := by
  have hp₀ : hp.parser.httpErrno = none := HttpParser.httpErrno_of_more h.more
  have hfirst : hp.execute a = (HttpParser.parser hp.skipBody).execute hp.parser a :=
    HttpParser.execute_eq hp.skipBody hp₀ h.left
  have hp₁ : (hp.execute a).state.httpErrno = none := by
    by_contra hne
    have hctl := (HttpParser.execute_httpErrno hp.skipBody hp₀ h.left).mp hne
    have hmore : (hp.parser.execute hp.skipBody a).ctl = .more := h.more
    rw [hmore] at hctl
    cases hctl
  have hskip : (hp.feed a).1.skipBody = hp.skipBody := foldl_skipBody _ hp
  have hsecond : (hp.feed a).1.execute b =
      (HttpParser.parser hp.skipBody).execute (hp.execute a).state b := by
    have := HttpParser.execute_eq hp.skipBody hp₁ h.right
    unfold execute
    rw [hskip]
    exact this
  have hwhole : hp.execute (a ++ b) = (HttpParser.parser hp.skipBody).execute hp.parser (a ++ b) :=
    HttpParser.execute_eq hp.skipBody hp₀ (by simp [h.left])
  rw [hsecond, hwhole, hfirst]
  exact (HttpParser.parser_tame hp.skipBody).execute_append b (hfirst ▸ h.more)

/-- **Where a response is cut does not matter**, but inside or right behind the name of a
header. -/
theorem Continues.feed {hp : Http1Parser} {a b : Bytes} (h : Continues hp a b)
    (hcut : (hp.execute a).state.state ≠ .headerField)
    (hok : ((hp.feed a).1.execute b).ctl ≠ .error) :
    hp.feed (a ++ b) =
      (((hp.feed a).1.feed b).1, a.length + ((hp.feed a).1.feed b).2) := by
  obtain ⟨hstate, -, hparsed, hcalls⟩ := h.cut
  have hspan : ∀ k, (hp.execute a).state.span = some k → Merges handle k := by
    intro k hk
    apply handle_merges
    rintro rfl
    apply hcut
    revert hk
    unfold HttpParser.span
    cases (hp.execute a).state.state <;> simp
  have hfold := (hcalls hok).foldl_eq hspan hp
  have hset : ∀ (r : Result HttpParser HttpSpan HttpNotice UInt8) (g : Http1Parser) (p : HttpParser),
      { r.calls.foldl handle { g with parser := p } with parser := r.state } =
        { r.calls.foldl handle g with parser := r.state } := by
    intro r g p
    rw [foldl_setParser]
  apply Prod.ext
  · show { (hp.execute (a ++ b)).calls.foldl handle hp with parser := (hp.execute (a ++ b)).state } = _
    rw [← hfold, hstate]
    exact (hset _ _ _).symm
  · exact hparsed

end Http1Parser

end OrderbookClient.Hv
