import Mathlib.Logic.Relation
import OrderbookClient.Client

/-! # What the callbacks are made of

The callbacks of the client are chains of a few operations: each of them is taken apart here once
(`openUrl_path` to `nioWrite_path`), and a relation that the operations keep holds between the
client before a callback and the client behind it.

Not operations, and looked at by themselves, are `onConnection`, `send`, and what `onMessage` begins
with: the chunk goes to the HTTP parser, and may complete the handshake (`onMessage_path`). -/

namespace OrderbookClient.Hv

open Json (Bytes)

namespace Client

variable {http : Http}

/-! ### Operations -/

/-- A channel that calls nobody back, or none. -/
def Unheard (c : Client http) : Prop := ∀ ch, c.channel = some ch → ch.onclose = false

/-- The handshake is behind the client. -/
def Past (c : Client http) : Prop := c.state = .wsOpened ∨ c.state = .wsClosed

/-- The URL of the request for a URL of the client. -/
def httpUrl (url_ : Bytes) : Bytes :=
  ascii "http" ++ (if (ascii "ws").isPrefixOf url_ then url_ else ascii "ws://" ++ url_).drop 2

/-- Nothing changes but fields that the callbacks alone look at. -/
structure Agrees (c c' : Client http) : Prop where
  state : c'.state = c.state
  channel : c'.channel = c.channel
  nextId : c'.nextId = c.nextId
  log : c'.log = c.log
  httpReq : c'.httpReq = c.httpReq
  httpParser : c'.httpParser = c.httpParser

/-- A new channel for a client that connects. -/
structure Dials (c c' : Client http) : Prop where
  state : c'.state = .connecting
  channel : c'.channel = some (Channel.new (Hio.new c.nextId))
  nextId : c'.nextId = c.nextId + 1
  log : c'.log = c.log
  httpReq : c'.httpReq = c.httpReq
  httpParser : c'.httpParser = c.httpParser

/-- One operation of a callback, under the condition that the callback has made sure of. -/
inductive Op : Client http → Client http → Prop
  | aside {c c' : Client http} (h : c.Agrees c') : Op c c'
  /-- The loop closes the socket. -/
  | hioClose (c : Client http) {before : Hio → Hio} (hk : ∀ io, Hio.Kept io (before io))
      (hs : ∀ io, Hio.Still io (before io)) : Op c (c.hioClose before)
  | closeChannel (c : Client http) : Op c c.closeChannel
  /-- The end of `close`. -/
  | giveUp {c : Client http} (hstate : c.state ≠ .connecting) (hon : c.Unheard)
      (hshut : ∀ ch, c.channel = some ch → ch.isOpened = false) : Op c { c with state := .wsClosed }
  /-- The request gets a URL. -/
  | setUrl {c : Client http} (hstate : c.state = .wsClosed) (url : Bytes) :
      Op c { c with
        httpReq := some (http.setUrl (c.httpReq.getD http.newRequest) (httpUrl url)) }
  | dial {c c' : Client http} (hstate : c.state = .wsClosed ∨ c.state = .connecting)
      (h : c.Dials c') : Op c c'
  /-- A socket is being connected. -/
  | link {c : Client http} {ch ch' : Channel} (hch : c.channel = some ch)
      (hstate : ch.io.dial ≠ .idle ∨ c.state = .connecting) (hwf : ch.Wf → ch'.Wf)
      (hid : ch'.id = ch.id) (hio : Hio.Still ch.io ch'.io) :
      Op c { c with channel := some ch' }
  | dropOnclose {c : Client http} {ch : Channel} (hch : c.channel = some ch) :
      Op c { c with channel := some { ch with onclose := false } }
  /-- A control frame is written. -/
  | control {c : Client http} {ch : Channel} (hch : c.channel = some ch) {frame : Bytes}
      (hframe : frame = Channel.pingFrame ∨ frame = Channel.pongFrame) (answer : Nwrite) :
      Op c { c with channel := some (ch.write frame answer).1 }
  /-- The queue is written. -/
  | flush {c : Client http} {ch : Channel} (hch : c.channel = some ch) (answer : ℕ → Nwrite) :
      Op c { c with channel := some { ch with io := (ch.io.nioWrite answer).1 } }
  | message {c : Client http} (hp : c.Past) (msg : Bytes) : Op c (c.emit (.onmessage c.chan msg))

/-- A chain of operations. -/
abbrev Path : Client http → Client http → Prop := Relation.ReflTransGen Op

/-! ### Closing -/

theorem settle_channel (c : Client http) (r : Channel × Bool) : (c.settle r).channel = some r.1 := by
  unfold settle
  dsimp only
  split_ifs <;> rfl

/-- What closing a channel leaves. -/
structure Closes (c c' : Client http) : Prop where
  state : c'.state = c.state ∨ c'.state = .wsClosed
  nextId : c'.nextId = c.nextId
  httpReq : c'.httpReq = c.httpReq
  httpParser : c'.httpParser = c.httpParser

theorem settle_closes (c : Client http) (r : Channel × Bool) : c.Closes (c.settle r) := by
  unfold settle
  dsimp only
  split_ifs
  · exact ⟨.inr rfl, rfl, rfl, rfl⟩
  · exact ⟨.inl rfl, rfl, rfl, rfl⟩

theorem closeChannel_closes (c : Client http) : c.Closes c.closeChannel := by
  unfold closeChannel
  split
  · exact ⟨.inl rfl, rfl, rfl, rfl⟩
  · exact settle_closes c _

theorem hioClose_closes (c : Client http) (before : Hio → Hio) : c.Closes (c.hioClose before) := by
  unfold hioClose
  split
  · exact ⟨.inl rfl, rfl, rfl, rfl⟩
  · exact settle_closes c _

/-- After `channel->close()` the channel takes no more writes. -/
theorem closeChannel_shut {c : Client http} {ch : Channel} (h : c.closeChannel.channel = some ch) :
    ch.isOpened = false := by
  unfold closeChannel at h
  cases hch : c.channel with
  | none =>
      simp only [hch] at h
      cases h
  | some ch₀ =>
      simp only [hch, settle_channel, Option.some.injEq] at h
      rw [← h]
      exact ch₀.close_isOpened

theorem Unheard.closeChannel {c : Client http} (h : c.Unheard) :
    c.closeChannel.Unheard ∧ c.closeChannel.state = c.state := by
  unfold Client.closeChannel
  cases hch : c.channel with
  | none => exact ⟨h, rfl⟩
  | some ch =>
      obtain ⟨hon, hflag⟩ := Channel.close_unheard (h ch hch)
      refine ⟨?_, ?_⟩
      · intro ch' hch'
        rw [settle_channel] at hch'
        obtain rfl := Option.some.inj hch'
        exact hon
      · unfold settle
        simp [hflag]

theorem close_path {c : Client http} (h : c.Unheard) (hstate : c.state ≠ .connecting) :
    Path c c.close := by
  obtain ⟨hon, hsame⟩ := h.closeChannel
  have hclose : Path c c.closeChannel := .single (.closeChannel c)
  exact hclose.tail (.giveUp (hsame ▸ hstate) hon (fun _ hch => closeChannel_shut hch))

/-! ### Connecting -/

/-- If `open` gets to `start()` the client is connecting. -/
theorem openUrl_path {c : Client http} (h : c.Unheard) (hstate : c.state ≠ .connecting)
    (url_ : Bytes) (connfd : ℤ) : Path c (c.openUrl url_ connfd).1 ∧
      ((c.openUrl url_ connfd).2 = true → (c.openUrl url_ connfd).1.state = .connecting) := by
  have hclose : Path c c.close := close_path h hstate
  have hset := hclose.tail (.setUrl rfl url_)
  unfold openUrl
  dsimp only
  by_cases hfd : connfd < 0
  · rw [if_pos hfd]
    simp only [createsocket, if_pos hfd]
    exact ⟨hset.tail (.aside ⟨rfl, rfl, rfl, rfl, rfl, rfl⟩), by simp⟩
  · rw [if_neg hfd]
    simp only [createsocket, if_neg hfd]
    exact ⟨hset.tail (.dial (.inl rfl) ⟨rfl, rfl, rfl, rfl, rfl, rfl⟩), by simp⟩

theorem connectChannel_path {c : Client http} (hstate : c.state = .connecting) {ch : Channel}
    (hch : c.channel = some ch) (hopen : ch.isOpened = true) (answer : Nconnect) :
    Path c (c.connectChannel ch answer) := by
  have hk : Channel.Kept ch (if c.tls then ch.enableSSL else ch) := by
    split_ifs
    · exact ⟨rfl, rfl, rfl, rfl, rfl, rfl, rfl⟩
    · exact .refl ch
  have hs : Hio.Still ch.io (if c.tls then ch.enableSSL else ch).io := by
    split_ifs <;> exact ⟨rfl, rfl, rfl, rfl⟩
  unfold connectChannel
  by_cases hcode : Status.code .connecting ≤ ch.status.code
  · rw [if_pos hcode]
  · rw [if_neg hcode]
    have hio := hs.trans (Hio.hioConnect_still _ answer)
    refine .single (.link hch (.inr hstate) (fun hwf => ?_) hk.id hio)
    have hwf' : Channel.Wf { (if c.tls then ch.enableSSL else ch) with onclose := true } :=
      ⟨(hk.wf hwf).id, (hk.wf hwf).ready, (hk.wf hwf).dial⟩
    exact Channel.startConnect_wf hwf' (hk.io.closed.trans (Channel.isOpened_io hopen)) answer

theorem startConnect_path {c : Client http} (hstate : c.state = .connecting) (connfd : ℤ)
    (answer : Nconnect) : Path c (c.startConnect connfd answer) := by
  unfold startConnect
  split_ifs with hfail hneeds
  · exact .refl
  · have hfd : ¬ connfd < 0 := fun hfd => hfail ⟨hneeds, hfd⟩
    have hdials : c.Dials (c.createsocket connfd) := by
      unfold createsocket
      rw [if_neg hfd]
      exact ⟨hstate, rfl, rfl, rfl, rfl, rfl⟩
    have hopen : (Channel.new (Hio.new c.nextId)).isOpened = true :=
      (Channel.new_wf c.nextId).isOpened (by simp [Channel.new, Hio.isOpened, Hio.new, Status.code]) rfl
    have hdial : Path c (c.createsocket connfd) := .single (.dial (.inr hstate) hdials)
    simp only [hdials.channel]
    exact hdial.trans (connectChannel_path hdials.state hdials.channel hopen answer)
  · cases hch : c.channel with
    | none => simp [needsSocket, hch] at hneeds
    | some ch =>
        have hopen : ch.isOpened = true := by simpa [needsSocket, hch, Channel.isClosed] using hneeds
        simp only [hch]
        exact connectChannel_path hstate hch hopen answer

theorem nioConnect_path {c c' : Client http} {answer : Ndial} {follows : Bool}
    (he : c.nioConnect answer = some (c', follows)) : Path c c' := by
  unfold nioConnect at he
  cases hch : c.channel with
  | none => simp [hch] at he
  | some ch =>
      simp only [hch] at he
      by_cases hd : ch.io.dial = .idle
      · simp [hd] at he
      rw [if_neg hd] at he
      have hclosed (hwf : ch.Wf) : ch.io.closed = false := by
        by_contra hc
        exact hd (hwf.dial (by simpa using hc))
      cases answer with
      | failed =>
          simp only [Option.some.injEq, Prod.mk.injEq] at he
          obtain ⟨rfl, -⟩ := he
          exact .single (.hioClose c (fun _ => ⟨rfl, rfl, rfl, rfl⟩) (fun _ => ⟨rfl, rfl, rfl, rfl⟩))
      | wantRead =>
          simp only [Option.ite_none_right_eq_some, Option.some.injEq, Prod.mk.injEq] at he
          obtain ⟨-, rfl, -⟩ := he
          refine .single (.link hch (.inl hd) (fun hwf => ?_) rfl ⟨rfl, rfl, rfl, rfl⟩)
          exact ⟨hwf.id, hwf.ready, by simp [hclosed hwf]⟩
      | ok =>
          simp only [Option.some.injEq, Prod.mk.injEq] at he
          obtain ⟨rfl, -⟩ := he
          refine .single (.link hch (.inl hd) (fun hwf => ?_) rfl ⟨rfl, rfl, rfl, rfl⟩)
          exact ⟨hwf.id, hwf.ready, fun _ => rfl⟩

/-! ### Frames -/

theorem Past.closeChannel {c : Client http} (h : c.Past) : c.closeChannel.Past := by
  obtain hstate | hstate := (closeChannel_closes c).state
  · unfold Past
    rwa [hstate]
  · exact .inr hstate

theorem onFrame_path {c : Client http} (hp : c.Past) (m : Message) (answer : Nwrite) :
    Path c (c.onFrame m answer) ∧ (c.onFrame m answer).Past := by
  unfold onFrame
  split_ifs
  · exact ⟨.single (.closeChannel c), hp.closeChannel⟩
  · cases hch : c.channel with
    | none => exact ⟨.refl, hp⟩
    | some ch => exact ⟨.single (.control hch (.inr rfl) answer), hp⟩
  · exact ⟨.single (.aside ⟨rfl, rfl, rfl, rfl, rfl, rfl⟩), hp⟩
  · exact ⟨.single (.message hp m.msg), hp⟩
  · exact ⟨.refl, hp⟩

theorem onFrames_path {c : Client http} (hp : c.Past) (ms : List Message) (answer : ℕ → Nwrite) :
    Path c (c.onFrames ms answer) := by
  induction ms generalizing c answer with
  | nil => exact .refl
  | cons m ms ih =>
      obtain ⟨hframe, hp'⟩ := onFrame_path hp m (answer 0)
      exact hframe.trans (ih hp' (fun i => answer (i + 1)))

theorem feedFrames_path {c c' : Client http} (hp : c.Past) {data : Bytes} {answer : ℕ → Nwrite}
    (he : c.feedFrames data answer = some c') : Path c c' := by
  unfold feedFrames at he
  split_ifs at he
  · obtain rfl := Option.some.inj he
    exact .refl
  · obtain ⟨⟨wp, ms, nparse⟩, -, rfl⟩ := Option.map_eq_some_iff.mp he
    have hwp : Path c { c with wsParser := wp } := .single (.aside ⟨rfl, rfl, rfl, rfl, rfl, rfl⟩)
    have hp' : Past { c with wsParser := wp } := hp
    have hframes := hwp.trans (onFrames_path hp' ms answer)
    dsimp only
    split_ifs
    · exact hframes.tail (.closeChannel _)
    · exact hframes

/-! ### Responses -/

theorem redirectTo_path {c : Client http} (hstate : c.state ≠ .connecting) (wsUrl : Bytes)
    (connfd : ℤ) (answer : Nconnect) : Path c (c.redirectTo wsUrl connfd answer) := by
  obtain ⟨hdrop, hon, hsame⟩ : Path c c.dropOnclose ∧ c.dropOnclose.Unheard ∧
      c.dropOnclose.state = c.state := by
    unfold dropOnclose
    cases hch : c.channel with
    | none =>
        refine ⟨.refl, ?_, rfl⟩
        intro ch hch'
        rw [hch] at hch'
        cases hch'
    | some ch =>
        refine ⟨.single (.dropOnclose hch), ?_, rfl⟩
        intro ch' hch'
        obtain rfl := Option.some.inj hch'
        rfl
  obtain ⟨hopen, hstart⟩ := openUrl_path hon (hsame ▸ hstate) wsUrl connfd
  have hboth := hdrop.trans hopen
  unfold redirectTo
  dsimp only
  split_ifs with hr
  · exact hboth.trans (startConnect_path (hstart hr) connfd answer)
  · exact hboth

/-- Whether a complete response switches protocols: it is a 101 and its `Sec-WebSocket-Accept`
matches. -/
def switches (c : Client http) : Bool :=
  http.statusCode c.httpParser == 101 &&
    acceptMatches http (c.httpReq.getD http.newRequest) c.httpParser

/-- Whether the HTTP parser fails on the chunk. -/
def parseFails (c : Client http) (data : Bytes) : Bool :=
  (http.feedRecvData c.httpParser data).2 ≠ data.length && http.getError (c.feedHttp data).httpParser

/-- Whether the chunk completes the handshake. -/
def completes (c : Client http) (data : Bytes) : Bool :=
  c.state == .wsUpgrading && !c.parseFails data &&
    http.isComplete (c.feedHttp data).httpParser && (c.feedHttp data).switches

theorem upgraded_past (c : Client http) (garbage : ℕ) : (c.upgraded garbage).Past := by
  left
  unfold upgraded
  dsimp only
  split_ifs <;> rfl

theorem onResponse_path {c c' : Client http} (hstate : c.state = .wsUpgrading) {data : Bytes}
    {a : ReadAnswers} (he : c.onResponse data a = some c') :
    Path (if c.switches then c.upgraded a.garbage else c) c' := by
  unfold onResponse at he
  dsimp only at he
  split_ifs at he with hcode haccept
  · rw [if_neg (by simp [switches, hcode])]
    split at he
    · obtain rfl := Option.some.inj he
      exact redirectTo_path (by simp [hstate]) _ _ _
    · obtain rfl := Option.some.inj he
      exact .single (.closeChannel c)
  · rw [if_pos (by simp only [not_not] at hcode; simp [switches, hcode, haccept])]
    exact feedFrames_path (c.upgraded_past a.garbage) he
  · obtain rfl := Option.some.inj he
    rw [if_neg (by simp [switches, haccept])]
    exact .single (.closeChannel c)

/-- The chunk goes to the HTTP parser of a client that waits for the response. -/
def fed (c : Client http) (data : Bytes) : Client http :=
  if c.state = .wsUpgrading then c.feedHttp data else c

/-- What a chunk does first: it may complete the handshake. -/
def received (c : Client http) (data : Bytes) (garbage : ℕ) : Client http :=
  if c.completes data then (c.fed data).upgraded garbage else c.fed data

theorem onMessage_path {c c' : Client http} {data : Bytes} {a : ReadAnswers}
    (he : c.onMessage data a = some c') : Path (c.received data a.garbage) c' := by
  unfold onMessage at he
  unfold received fed completes
  split at he
  · next hstate =>
      have hs : (c.state == .wsUpgrading) = true := by simp [hstate]
      rw [if_pos hstate, hs]
      dsimp only at he
      split_ifs at he with herr hcomplete
      · obtain rfl := Option.some.inj he
        have hfails : c.parseFails data = true := by simpa [parseFails] using herr
        rw [if_neg (by simp [hfails])]
        exact .single (.closeChannel _)
      · have hfails : c.parseFails data = false := by simpa [parseFails] using herr
        have hpath := onResponse_path (c := c.feedHttp data) hstate he
        simpa [hfails, hcomplete] using hpath
      · obtain rfl := Option.some.inj he
        rw [if_neg (by simp [hcomplete])]
  · next hstate =>
      rw [if_neg (by simp [hstate]), if_neg (by simp [hstate])]
      exact feedFrames_path (.inl hstate) he
  · next hu _ =>
      obtain rfl := Option.some.inj he
      have hs : (c.state == .wsUpgrading) = false := by simpa using hu
      simp only [hs, Bool.false_and, Bool.false_eq_true, if_false]
      rw [if_neg hu]

/-! ### Timers and the write side -/

theorem onHeartbeat_path (c : Client http) (answer : Nwrite) : Path c (c.onHeartbeat answer) := by
  unfold onHeartbeat
  cases hch : c.channel with
  | none => exact .refl
  | some ch =>
      have hcnt : Path c c.countPing := .single (.aside ⟨rfl, rfl, rfl, rfl, rfl, rfl⟩)
      have hch' : c.countPing.channel = some ch := hch
      dsimp only
      split_ifs
      · exact hcnt.tail (.closeChannel _)
      · exact hcnt.tail (.control hch' (.inl rfl) answer)

theorem nioWrite_path (c : Client http) (answer : ℕ → Nwrite) : Path c (c.nioWrite answer) := by
  unfold nioWrite
  cases hch : c.channel with
  | none => exact .refl
  | some ch =>
      have hflush : Path c { c with channel := some { ch with io := (ch.io.nioWrite answer).1 } } :=
        .single (.flush hch answer)
      dsimp only
      split_ifs
      · exact hflush.tail (.hioClose _ .refl .refl)
      · exact hflush

end Client

end OrderbookClient.Hv
