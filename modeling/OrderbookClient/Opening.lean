import OrderbookClient.Chunks
import OrderbookClient.Waiting
import OrderbookClient.Wsdef

/-! # The end of the handshake

The client over the HTTP library as it is: `Http1Parser` reads the response, and `ws_encode_key`
checks it.  The caller and the loop are interleaved in any order.

* `completes_iff`, `onopen_response`: the client is opened by exactly those chunks with which what
  was read since the upgrade request is a complete response of status 101 with the right key.
* `opens`: an upgrade response opens it in whatever chunks it comes, if none of them ends in the
  name of a header.
* `refuses`: if one ends in the name of the key's header, the client closes its channel. -/

namespace OrderbookClient

open Json Hv Runs

/-! ### The library -/

/-- `HttpRequest`, as far as the client uses it. -/
structure Requests where
  Request : Type
  newRequest : Request
  setUrl : Request → Bytes → Request
  setHeader : Request → Bytes → Bytes → Request
  getHeader : Request → Bytes → Bytes
  redirect : Request → Bool
  dump : Request → Request × Bytes

/-- What a buffer on the stack holds does not matter: `wsEncodeKey_eq`. -/
def stackBuffer : Bytes := List.replicate 64 0

/-- libhv.  The client encodes no empty key, and no key that is too long for `ws_encode_key`. -/
def libhv (q : Requests) : Http where
  Request := q.Request
  Parser := Http1Parser
  newRequest := q.newRequest
  setUrl := q.setUrl
  setHeader := q.setHeader
  getHeader := q.getHeader
  redirect := q.redirect
  dump := q.dump
  newParser := .new
  feedRecvData := Http1Parser.feedRecvData
  getError := Http1Parser.getError
  isComplete := Http1Parser.isComplete
  statusCode hp := hp.parsed.statusCode
  responseHeader hp key := hp.parsed.headers.get key
  wsEncodeKey key := (wsEncodeKey key stackBuffer).getD []
  base64Encode key := ((base64Encode key).map Prod.fst).getD []

def secWebSocketKey : Bytes := ascii "Sec-WebSocket-Key"

def secWebSocketAccept : Bytes := ascii "Sec-WebSocket-Accept"

/-- The key of a request is not too long for `ws_encode_key`. -/
def Requests.KeyFits (q : Requests) (req : q.Request) : Prop :=
  (q.getHeader req secWebSocketKey).length + 64 ≤ 2 ^ 32

/-- The key of a request, as the client encodes it. -/
def Requests.key (q : Requests) (req : q.Request) : Bytes :=
  cString (cStr (q.getHeader req secWebSocketKey))

theorem length_cString_cStr (b : Bytes) : (cString (cStr b)).length ≤ b.length := by
  have hle : (cString (cStr b)).length ≤ (cStr b).length := (List.takeWhile_prefix _).length_le
  have hne : cString (cStr b) ≠ cStr b := by
    intro h
    have hlast : (0 : UInt8) ∈ cString (cStr b) := by
      rw [h]
      simp [cStr]
    exact absurd (List.mem_takeWhile_imp hlast) (by decide)
  have hlt : (cString (cStr b)).length ≠ (cStr b).length := fun h =>
    hne ((List.takeWhile_prefix _).eq_of_length h)
  simp only [cStr, List.length_append, List.length_singleton] at hle hlt ⊢
  omega

/-- The response is accepted exactly if it has the key that the protocol asks for. -/
theorem acceptMatches_iff {q : Requests} {req : q.Request} (hq : q.KeyFits req) (hp : Http1Parser) :
    Client.acceptMatches (libhv q) req hp = true ↔
      cString (cStr (hp.parsed.headers.get secWebSocketAccept)) = acceptKey (q.key req) := by
  have hfits : (q.key req).length + 64 ≤ 2 ^ 32 :=
    le_trans (Nat.add_le_add_right (length_cString_cStr _) 64) hq
  have hencode : (libhv q).wsEncodeKey (q.key req) = acceptKey (q.key req) := by
    show (wsEncodeKey (q.key req) stackBuffer).getD [] = _
    rw [wsEncodeKey_eq (by simp [stackBuffer]) hfits]
    rfl
  unfold Client.acceptMatches
  rw [beq_iff_eq]
  constructor
  · intro h
    exact h.symm.trans hencode
  · intro h
    exact hencode.trans h.symm

namespace Session

variable {q : Requests}

theorem feedRecvData_libhv (hp : Http1Parser) (data : Bytes) :
    (libhv q).feedRecvData hp data = hp.feedRecvData data := rfl

theorem feedAll_libhv (chunks : List Bytes) :
    feedAll (libhv q).newParser chunks = Http1Parser.new.feedAll chunks := rfl

/-- A complete response of status 101 with the right key. -/
structure Accepted (key : Bytes) (hp : Http1Parser) : Prop where
  complete : hp.isComplete = true
  statusCode : hp.parsed.statusCode = 101
  accept : cString (cStr (hp.parsed.headers.get secWebSocketAccept)) = acceptKey key

/-- **Which chunk opens the client.** -/
theorem completes_iff {s : Session (libhv q)} {req : q.Request} (hq : q.KeyFits req)
    {hp : Http1Parser} {data : Bytes} (hstate : s.client.state = .wsUpgrading)
    (hparser : s.client.httpParser = hp) (hreq : s.client.httpReq = some req) :
    s.client.completes data = true ↔
      ((hp.feedRecvData data).2 = data.length ∨ (hp.feedRecvData data).1.getError = false) ∧
        Accepted (q.key req) (hp.feedRecvData data).1 := by
  subst hparser
  have hfed : (s.client.feedHttp data).httpParser = (s.client.httpParser.feedRecvData data).1 := rfl
  have hreq' : (s.client.feedHttp data).httpReq.getD (libhv q).newRequest = req := by
    show s.client.httpReq.getD _ = req
    rw [hreq]
    rfl
  have hswitches : (s.client.feedHttp data).switches = true ↔
      (s.client.httpParser.feedRecvData data).1.parsed.statusCode = 101 ∧
        cString (cStr ((s.client.httpParser.feedRecvData data).1.parsed.headers.get
          secWebSocketAccept)) = acceptKey (q.key req) := by
    unfold Client.switches
    rw [Bool.and_eq_true, hreq', hfed, acceptMatches_iff hq, beq_iff_eq]
    exact Iff.rfl
  have hfails : (!s.client.parseFails data) = true ↔
      (s.client.httpParser.feedRecvData data).2 = data.length ∨
        (s.client.httpParser.feedRecvData data).1.getError = false := by
    unfold Client.parseFails
    rw [hfed, Bool.not_eq_true', Bool.and_eq_false_iff, decide_eq_false_iff_not, not_not]
    exact Iff.rfl
  unfold Client.completes
  rw [Bool.and_eq_true, Bool.and_eq_true, Bool.and_eq_true, hswitches, hfails, hstate]
  constructor
  · rintro ⟨⟨⟨-, hok⟩, hcomplete⟩, hcode, haccept⟩
    exact ⟨hok, hcomplete, hcode, haccept⟩
  · rintro ⟨hok, hcomplete, hcode, haccept⟩
    exact ⟨⟨⟨rfl, hok⟩, hcomplete⟩, hcode, haccept⟩

/-! ### A chunk that completes the response -/

theorem onMessage_completes {http : Http} {c c' : Client http} {data : Bytes}
    {a : Client.ReadAnswers} (h : c.completes data = true) (he : c.onMessage data a = some c') :
    ((c.feedHttp data).upgraded a.garbage).feedFrames
      (data.drop (http.feedRecvData c.httpParser data).2.toNat) a.pong = some c' := by
  unfold Client.completes Client.parseFails Client.switches at h
  simp only [Bool.and_eq_true, beq_iff_eq, Bool.not_eq_true', Bool.and_eq_false_iff,
    decide_eq_false_iff_not] at h
  obtain ⟨⟨⟨hstate, hok⟩, hcomplete⟩, hcode, haccept⟩ := h
  have hparse : ¬ ((http.feedRecvData c.httpParser data).2 ≠ data.length ∧
      http.getError (c.feedHttp data).httpParser = true) := by
    rintro ⟨hne, herr⟩
    obtain hok | hok := hok
    · exact hok hne
    · rw [hok] at herr
      cases herr
  unfold Client.onMessage at he
  simp only [hstate] at he
  rw [if_neg hparse, if_pos hcomplete] at he
  unfold Client.onResponse at he
  dsimp only at he
  rwa [if_neg (not_not.mpr hcode), if_pos haccept] at he

theorem onMessage_mismatch {http : Http} {c c' : Client http} {data : Bytes}
    {a : Client.ReadAnswers} (hstate : c.state = .wsUpgrading)
    (hok : http.getError (c.feedHttp data).httpParser = false)
    (hcomplete : http.isComplete (c.feedHttp data).httpParser = true)
    (hcode : http.statusCode (c.feedHttp data).httpParser = 101)
    (haccept : ¬ Client.acceptMatches http ((c.feedHttp data).httpReq.getD http.newRequest)
      (c.feedHttp data).httpParser = true) (he : c.onMessage data a = some c') :
    c' = (c.feedHttp data).closeChannel := by
  unfold Client.onMessage at he
  simp only [hstate] at he
  rw [if_neg (by simp [hok]), if_pos hcomplete] at he
  unfold Client.onResponse at he
  dsimp only at he
  rw [if_neg (not_not.mpr hcode), if_neg haccept] at he
  exact (Option.some.inj he).symm

theorem step_read {http : Http} {s s' : Session http} {data : Bytes} {a : Client.ReadAnswers}
    (he : s.step (.read data a) = some s') :
    s.client.onMessage data a = some s'.client := by
  have he' : s.stepLoop (.read data a) = some s' := he
  simp only [stepLoop] at he'
  obtain ⟨-, c, hc, rfl⟩ := onEvent_some he'
  exact hc

/-! ### Opened by a response -/

/-- **A client is opened only by a complete response of status 101 with the key of its request.**
The response is what was read since the request. -/
theorem onopen_response {acts : List Action} {s : Session (libhv q)}
    (hs : (machine (libhv q)).exec acts = some s) {id : ℕ} (h : .onopen id ∈ s.client.log) :
    ∃ pre randKey answer post data answers rest, ∃ s₀ : Session (libhv q),
      acts = pre ++ [.onConnection randKey answer] ++ post ++ Action.read data answers :: rest ∧
      Unasked post ∧ (machine (libhv q)).exec pre = some s₀ ∧
      (q.KeyFits (s₀.client.upgradeRequest randKey).1 →
        Accepted (q.key (s₀.client.upgradeRequest randKey).1)
          (Http1Parser.new.feedAll (reads post ++ [data]))) := by
  obtain ⟨acts₁, a, rest, s₁, hacts, hs₁, hchan, data, answers, rfl, hcompletes⟩ :=
    (onopen_iff hs id).mp h
  have hstate : s₁.client.state = .wsUpgrading := by
    unfold Client.completes at hcompletes
    rw [Bool.and_eq_true, Bool.and_eq_true, Bool.and_eq_true, beq_iff_eq] at hcompletes
    exact hcompletes.1.1.1
  obtain ⟨pre, randKey, answer, post, s₀, rfl, hpost, hs₀⟩ := waits_asked hs₁ hstate
  obtain ⟨hparser, hreq⟩ := waits_since hs₀ hs₁ hpost hstate
  refine ⟨pre, randKey, answer, post, data, answers, rest, s₀, hacts, hpost, hs₀, fun hq => ?_⟩
  obtain ⟨-, haccepted⟩ := (completes_iff hq hstate hparser hreq).mp hcompletes
  rw [feedAll_libhv] at haccepted
  simpa [Http1Parser.feedAll] using haccepted

/-- **An upgrade response opens the client**, in whatever chunks it comes, if none of them ends in
the name of a header.  What follows it are frames. -/
theorem opens {pre post : List Action} {randKey : Bytes} {answer : Nwrite}
    {s₀ s s' : Session (libhv q)} (hs₀ : (machine (libhv q)).exec pre = some s₀)
    (hq : q.KeyFits (s₀.client.upgradeRequest randKey).1)
    (hs : (machine (libhv q)).exec (pre ++ [.onConnection randKey answer] ++ post) = some s)
    (hpost : Unasked post) (hstate : s.client.state = .wsUpgrading) {data tail : Bytes}
    {answers : Client.ReadAnswers} (hread : s.step (.read data answers) = some s')
    (r : UpgradeResponse) (haccept : r.headers.get secWebSocketAccept =
      acceptKey (q.key (s₀.client.upgradeRequest randKey).1))
    (hflat : (reads post).flatten ++ data = r.text ++ tail)
    (hlt : (reads post).flatten.length < r.text.length)
    (hwhole : UpgradeResponse.Whole (reads post)) (hsize : data.length < 2 ^ 31) :
    ((s.client.feedHttp data).upgraded answers.garbage).feedFrames tail answers.pong =
      some s'.client ∧ .onopen s.client.chan ∈ s'.client.log := by
  obtain ⟨hparser, hreq⟩ := waits_since hs₀ hs hpost hstate
  rw [feedAll_libhv] at hparser
  have hnext : (machine (libhv q)).exec (pre ++ [.onConnection randKey answer] ++ post ++
      [.read data answers]) = some s' := by
    rw [Machine.exec_concat, hs]
    exact hread
  have hne : ∀ x ∈ reads post ++ [data], x ≠ [] := by
    intro x hx
    apply reads_ne hnext x
    simp only [reads, List.flatMap_append, List.mem_append] at hx ⊢
    exact hx.imp (fun h => .inr h) id
  obtain ⟨p, hp, hfeed⟩ := r.feedAll_whole hne hflat hlt hwhole
  have hnonzero : cString (cStr (acceptKey (q.key (s₀.client.upgradeRequest randKey).1))) =
      acceptKey (q.key (s₀.client.upgradeRequest randKey).1) :=
    cString_cStr (Base64.encode_ne_zero _)
  have hcompletes : s.client.completes data = true := by
    rw [completes_iff hq hstate hparser hreq, Http1Parser.feedRecvData_of_feed hfeed]
    refine ⟨.inr (by simp [Http1Parser.getError, hp]), rfl, rfl, ?_⟩
    show cString (cStr (r.headers.get secWebSocketAccept)) = _
    rw [haccept, hnonzero]
  have hdrop : data.drop ((libhv q).feedRecvData s.client.httpParser data).2.toNat = tail := by
    have hle : r.text.length - (reads post).flatten.length ≤ data.length := by
      have := congrArg List.length hflat
      simp only [List.length_append] at this
      omega
    have hparsed : ((libhv q).feedRecvData s.client.httpParser data).2.toNat =
        r.text.length - (reads post).flatten.length := by
      rw [hparser, feedRecvData_libhv, Http1Parser.feedRecvData_of_feed hfeed, bmod_of_lt (by omega),
        Int.toNat_natCast]
    have htail := congrArg (List.drop r.text.length) hflat
    rw [List.drop_left, List.drop_append, List.drop_eq_nil_of_le (by omega), List.nil_append] at htail
    rw [hparsed, htail]
  have hmessage := onMessage_completes hcompletes (step_read hread)
  rw [hdrop] at hmessage
  refine ⟨hmessage, ?_⟩
  obtain ⟨es, hloud, hmem⟩ := (step_steps ((sound_invariant _).exec hs) hread).mem_log
  rw [hmem _ (by simp) (by simp), hloud.onopen]
  exact .inr ⟨rfl, data, answers, rfl, hcompletes⟩

/-- **A response that is cut in the name of the key's header is refused.** -/
theorem refuses {pre post : List Action} {randKey : Bytes} {answer : Nwrite}
    {s₀ s s' : Session (libhv q)} (hs₀ : (machine (libhv q)).exec pre = some s₀)
    (hq : q.KeyFits (s₀.client.upgradeRequest randKey).1)
    (hs : (machine (libhv q)).exec (pre ++ [.onConnection randKey answer] ++ post) = some s)
    (hpost : Unasked post) (hstate : s.client.state = .wsUpgrading) {data tail : Bytes}
    {answers : Client.ReadAnswers} (hread : s.step (.read data answers) = some s')
    (r : UpgradeResponse) {before after : List HeaderLine} {l : HeaderLine} {name rest : Bytes}
    (hlines : r.lines = before ++ l :: after) (hkey : caseKey l.name = caseKey secWebSocketAccept)
    (hother : ∀ x ∈ before ++ after, caseKey x.name ≠ caseKey secWebSocketAccept)
    (hname : l.name = name ++ rest) (hne : name ≠ [])
    (hcut : (reads post).flatten = r.head ++ before.flatMap HeaderLine.text ++ name)
    (hflat : (reads post).flatten ++ data = r.text ++ tail)
    (hwhole : ∀ chunks, chunks <+: reads post → chunks ≠ reads post →
      endsInName chunks.flatten = false) :
    s'.client = (s.client.feedHttp data).closeChannel ∧ .onopen s.client.chan ∉ s'.client.log := by
  obtain ⟨hparser, hreq⟩ := waits_since hs₀ hs hpost hstate
  rw [feedAll_libhv] at hparser
  have hchunks : ∀ x ∈ reads post, x ≠ [] := by
    intro x hx
    apply reads_ne hs x
    simp only [reads, List.flatMap_append, List.mem_append] at hx ⊢
    exact .inr hx
  have hlt : (reads post).flatten.length < r.text.length := by
    rw [hcut, r.length_text, r.length_lines hlines, hname]
    simp only [List.length_append]
    omega
  have hfirst := r.feedAll_eq tail hchunks hflat hlt hwhole
  rw [hcut] at hflat
  obtain ⟨hp, hfeed, herr, hcomplete, hcode, hget⟩ := r.feed_cut hlines hname hne
    (fun x hx => hkey ▸ hother x hx) hflat
  have hfed : (s.client.feedHttp data).httpParser = hp := by
    show (s.client.httpParser.feedRecvData data).1 = hp
    rw [hparser, hfirst, hcut, Http1Parser.feedRecvData_of_feed hfeed]
  -- no key is found, and no accept key is empty
  have hmismatch : ¬ Client.acceptMatches (libhv q) (s₀.client.upgradeRequest randKey).1 hp = true := by
    intro h
    have hnone : hp.parsed.headers.get secWebSocketAccept = [] :=
      (HttpHeaders.get_congr hkey.symm).trans hget
    have haccept := (acceptMatches_iff hq hp).mp h
    rw [hnone] at haccept
    have hlen := congrArg List.length haccept
    rw [length_acceptKey] at hlen
    cases hlen
  have hclient : s'.client = (s.client.feedHttp data).closeChannel := by
    apply onMessage_mismatch hstate _ _ _ _ (step_read hread) <;> rw [hfed]
    · exact herr
    · exact hcomplete
    · exact hcode
    · have hfedReq : (s.client.feedHttp data).httpReq = some (s₀.client.upgradeRequest randKey).1 := hreq
      rw [hfedReq]
      exact hmismatch
  refine ⟨hclient, ?_⟩
  obtain ⟨es, hloud, hmem⟩ := (step_steps ((sound_invariant _).exec hs) hread).mem_log
  rw [hmem _ (by simp) (by simp), hloud.onopen]
  rintro (hopened | ⟨-, data', answers', ha, hcompletes⟩)
  · have := (safe hs).opened hopened
    simp [Client.view, hstate] at this
  · cases ha
    rw [completes_iff hq hstate hparser hreq, hfirst, hcut,
      Http1Parser.feedRecvData_of_feed hfeed] at hcompletes
    exact hmismatch ((acceptMatches_iff hq hp).mpr hcompletes.2.accept)

end Session

end OrderbookClient
