import OrderbookClient.Callbacks
import OrderbookClient.Lifecycle
import OrderbookClient.Session

/-! # The client follows the lifecycle

Every callback of the client is a trail of lifecycle moves between the views of the client before
and after it, and its log grows by the events of the trail (`Follows`).  An operation emits nothing
but `onclose` and `onmessage`, and so is every chain of them `Calm`; loud are only `onConnection`
when the upgrade request is written, `onMessage` when it completes the handshake, and `send`.

`Session.simulation` puts the callbacks together: every run of a session is a trail of the
lifecycle, and so every reachable session is `Safe`. -/

namespace OrderbookClient.Hv

open Json (Bytes)
open Runs

namespace Client

variable {http : Http}

/-- What the lifecycle sees of a client. -/
def view (c : Client http) : View := ⟨c.chan, c.state, (c.channel.map Channel.isOpened).getD false⟩

/-- The invariant of the client that the moves rely on. -/
structure Sound (c : Client http) : Prop where
  wf : ∀ ch, c.channel = some ch → ch.Wf
  /-- Socket ids are fresh. -/
  fresh : c.chan < c.nextId
  /-- A socket that is being connected belongs to a client in state `CONNECTING`. -/
  dialing : ∀ ch, c.channel = some ch → ch.io.dial ≠ .idle → c.state = .connecting
  /-- A closed client has closed its socket, or does not want to hear of it. -/
  closed : c.state = .wsClosed → ∀ ch, c.channel = some ch →
    ch.io.closed = true ∨ ch.onclose = false

/-- `c'` is reached from `c` by moves that emit `es`. -/
structure Follows (c c' : Client http) (es : List Event) : Prop where
  sound : c'.Sound
  log : c'.log = c.log ++ es
  trail : Trail Move c.view es c'.view

theorem Follows.refl {c : Client http} (h : c.Sound) : c.Follows c [] :=
  ⟨h, by simp, .refl _⟩

theorem Follows.trans {c₁ c₂ c₃ : Client http} {es fs : List Event} (h : c₁.Follows c₂ es)
    (h' : c₂.Follows c₃ fs) : c₁.Follows c₃ (es ++ fs) :=
  ⟨h'.sound, by rw [h'.log, h.log, List.append_assoc], h.trail.trans h'.trail⟩

/-- The events of a calm callback. -/
def Quiet (es : List Event) : Prop := ∀ e ∈ es, ∃ id, e = .onclose id ∨ ∃ msg, e = .onmessage id msg

theorem Quiet.append {es fs : List Event} (h : Quiet es) (h' : Quiet fs) : Quiet (es ++ fs) := by
  intro e he
  obtain he | he := List.mem_append.mp he
  · exact h e he
  · exact h' e he

/-- `c'` is reached from `c` without a stage of the handshake and without a frame. -/
def Calm (c c' : Client http) : Prop := ∃ es, c.Follows c' es ∧ Quiet es

theorem Calm.refl {c : Client http} (h : c.Sound) : c.Calm c := ⟨[], .refl h, by simp [Quiet]⟩

theorem Calm.trans {c₁ c₂ c₃ : Client http} (h : c₁.Calm c₂) (h' : c₂.Calm c₃) : c₁.Calm c₃ := by
  obtain ⟨es, hf, hq⟩ := h
  obtain ⟨fs, hf', hq'⟩ := h'
  exact ⟨es ++ fs, hf.trans hf', hq.append hq'⟩

theorem Calm.sound {c c' : Client http} (h : c.Calm c') : c'.Sound := by
  obtain ⟨es, hf, -⟩ := h
  exact hf.sound

/-- A change that no invariant and no view looks at. -/
theorem follows_of_eq {c c' : Client http} (h : c.Sound) (hlog : c'.log = c.log)
    (hstate : c'.state = c.state) (hchannel : c'.channel = c.channel)
    (hnext : c'.nextId = c.nextId) : c.Follows c' [] := by
  have hchan : c'.chan = c.chan := by
    unfold chan
    rw [hchannel]
  have hview : c'.view = c.view := by
    unfold view
    rw [hchan, hstate, hchannel]
  refine ⟨⟨?_, ?_, ?_, ?_⟩, by simpa using hlog, ?_⟩
  · rw [hchannel]
    exact h.wf
  · rw [hchan, hnext]
    exact h.fresh
  · rw [hchannel, hstate]
    exact h.dialing
  · rw [hchannel, hstate]
    exact h.closed
  · rw [hview]
    exact .refl _

theorem Follows.calm {c c' : Client http} (h : c.Follows c' []) : c.Calm c' :=
  ⟨[], h, by simp [Quiet]⟩

theorem calm_of_eq {c c' : Client http} (h : c.Sound) (hlog : c'.log = c.log)
    (hstate : c'.state = c.state) (hchannel : c'.channel = c.channel)
    (hnext : c'.nextId = c.nextId) : c.Calm c' :=
  (follows_of_eq h hlog hstate hchannel hnext).calm

/-! ### The channel changes -/

theorem chan_eq {c : Client http} {ch : Channel} (h : c.channel = some ch) : c.chan = ch.id := by
  simp [chan, h]

theorem view_eq {c : Client http} {ch : Channel} (h : c.channel = some ch) :
    c.view = ⟨ch.id, c.state, ch.isOpened⟩ := by
  simp [view, chan, h]

/-- The channel is stored after an operation that closed it or left it open as it was. -/
theorem store_follows {c : Client http} (h : c.Sound) {ch ch' : Channel} (hch : c.channel = some ch)
    (hwf : ch.Wf → ch'.Wf) (hid : ch'.id = ch.id)
    (hclosed : ch.io.closed = true ∨ ch.onclose = false →
      ch'.io.closed = true ∨ ch'.onclose = false)
    (hdial : ch'.io.dial = ch.io.dial ∨ ch'.io.dial = .idle)
    (hopen : ch'.isOpened = ch.isOpened ∨ ch'.isOpened = false) :
    c.Follows { c with channel := some ch' } [] := by
  refine ⟨⟨?_, ?_, ?_, ?_⟩, by simp, ?_⟩
  · rintro ch'' hch''
    obtain rfl : ch' = ch'' := Option.some.inj hch''
    exact hwf (h.wf ch hch)
  · have := h.fresh
    rw [chan_eq hch, ← hid] at this
    simpa [chan] using this
  · rintro ch'' hch'' hd
    obtain rfl : ch' = ch'' := Option.some.inj hch''
    apply h.dialing ch hch
    obtain hd' | hd' := hdial
    · rwa [← hd']
    · exact absurd hd' hd
  · rintro hc ch'' hch''
    obtain rfl : ch' = ch'' := Option.some.inj hch''
    exact hclosed (h.closed hc ch hch)
  · rw [view_eq hch, view_eq (c := { c with channel := some ch' }) rfl, hid]
    obtain ho | ho := hopen
    · rw [ho]
      exact .refl _
    · rw [ho]
      exact .single (.shut ⟨ch.id, c.state, ch.isOpened⟩)

theorem kept_follows {c : Client http} (h : c.Sound) {ch ch' : Channel} (hch : c.channel = some ch)
    (hk : Channel.Kept ch ch') : c.Follows { c with channel := some ch' } [] := by
  apply store_follows h hch hk.wf hk.id _ (.inl hk.io.dial) (.inl hk.isOpened)
  rw [hk.io.closed, hk.onclose]
  exact id

/-! ### Closing -/

theorem onChannelClosed_calm {c : Client http} (h : c.Sound) {ch : Channel}
    (hch : c.channel = some ch) (hopen : ch.isOpened = false) (hclosed : ch.io.closed = true)
    (hdial : ch.io.dial = .idle) (hstate : c.state ≠ .wsClosed) : c.Calm c.onChannelClosed := by
  refine ⟨[.onclose c.chan], ⟨⟨h.wf, h.fresh, ?_, ?_⟩, rfl, ?_⟩, by simp [Quiet]⟩
  · intro ch' hch' hd
    obtain rfl : ch = ch' := Option.some.inj (hch.symm.trans hch')
    exact absurd hdial hd
  · intro _ ch' hch'
    obtain rfl : ch = ch' := Option.some.inj (hch.symm.trans hch')
    exact .inl hclosed
  · have hview : c.onChannelClosed.view = { c.view with phase := .wsClosed } := rfl
    have hwritable : c.view.writable = false := by
      rw [view_eq hch]
      exact hopen
    rw [hview]
    exact .single (.close c.view hwritable hstate)

theorem settle_calm {c : Client http} (h : c.Sound) {ch ch' : Channel} (hch : c.channel = some ch)
    (hid : ch'.id = ch.id) (honclose : ch'.onclose = ch.onclose) (hio : Hio.Kept ch.io ch'.io)
    (hopen : ch'.isOpened = ch.isOpened ∨ ch'.isOpened = false) : c.Calm (c.settle ch'.hioClose) := by
  have hwf : ch.Wf → ch'.hioClose.1.Wf := by
    intro hwf
    apply Channel.hioClose_wf
    exact ⟨by rw [hid, hio.id, hwf.id], by rw [hio.ready, hio.closed, hwf.ready], by
      rw [hio.closed, hio.dial]
      exact hwf.dial⟩
  unfold settle
  obtain ⟨h2, hk⟩ | ⟨hc, h2, hid', honclose', hopen', hcl, hd⟩ := ch'.hioClose_cases
  · simp only [h2, Bool.false_eq_true, if_false]
    apply Follows.calm
    apply store_follows h hch hwf (hk.id.trans hid) _ (.inl (hk.io.dial.trans hio.dial))
    · rwa [hk.isOpened]
    · rw [hk.io.closed, hio.closed, hk.onclose, honclose]
      exact id
  · have hstore : c.Calm { c with channel := some ch'.hioClose.1 } :=
      (store_follows h hch hwf (hid'.trans hid) (fun _ => .inl hcl) (.inr hd) (.inr hopen')).calm
    dsimp only
    split_ifs with h2'
    · refine hstore.trans (onChannelClosed_calm hstore.sound rfl hopen' hcl hd ?_)
      intro hstate
      obtain hbad | hbad := h.closed hstate ch hch
      · rw [← hio.closed, hc] at hbad
        cases hbad
      · rw [h2, honclose, hbad] at h2'
        cases h2'
    · exact hstore

theorem hioClose_calm {c : Client http} (h : c.Sound) {before : Hio → Hio}
    (hb : ∀ io, Hio.Kept io (before io)) : c.Calm (c.hioClose before) := by
  unfold hioClose
  cases hch : c.channel with
  | none => exact .refl h
  | some ch =>
      have hk : Channel.Kept ch { ch with io := before ch.io } := ⟨rfl, rfl, rfl, hb ch.io⟩
      exact settle_calm h hch rfl rfl (hb ch.io) (.inl hk.isOpened)

theorem closeChannel_calm {c : Client http} (h : c.Sound) : c.Calm c.closeChannel := by
  unfold closeChannel
  cases hch : c.channel with
  | none => exact .refl h
  | some ch =>
      simp only [Channel.close]
      split_ifs
      · exact (kept_follows h hch (.refl ch)).calm
      · exact settle_calm h hch rfl rfl (.refl ch.io) (.inr (Channel.isOpened_of_closed rfl))

/-- A client that nobody calls back gives its channel up. -/
theorem giveUp_calm {c : Client http} (h : c.Sound) (hstate : c.state ≠ .connecting)
    (hon : c.Unheard) (hshut : ∀ ch, c.channel = some ch → ch.isOpened = false) :
    c.Calm { c with state := .wsClosed } := by
  have hwritable : c.view.writable = false := by
    cases hch : c.channel with
    | none => simp [view, hch]
    | some ch =>
        rw [view_eq hch]
        exact hshut ch hch
  refine ⟨[], ⟨⟨h.wf, h.fresh, ?_, ?_⟩, by simp, ?_⟩, by simp [Quiet]⟩
  · intro ch hch hd
    exact absurd (h.dialing ch hch hd) hstate
  · intro _ ch hch
    exact .inr (hon ch hch)
  · exact .single (.giveUp c.view hwritable)

/-! ### Connecting -/

theorem dial_calm {c c' : Client http} (h : c.Sound)
    (hstate : c.state = .wsClosed ∨ c.state = .connecting) (hd : c.Dials c') : c.Calm c' := by
  have hch := hd.channel
  refine ⟨[], ⟨⟨?_, ?_, fun _ _ _ => hd.state, ?_⟩, by simpa using hd.log, ?_⟩, by simp [Quiet]⟩
  · intro ch hch'
    obtain rfl := Option.some.inj (hch.symm.trans hch')
    exact Channel.new_wf c.nextId
  · rw [chan_eq hch, hd.nextId]
    exact Nat.lt_succ_self _
  · rw [hd.state]
    intro hbad
    cases hbad
  · have hopen : (Channel.new (Hio.new c.nextId)).isOpened = true := by
      simp [Channel.new, Channel.isOpened, Hio.isOpened, Hio.new, Status.code]
    rw [view_eq hch, hd.state, hopen]
    exact .single (.dial c.view c.nextId h.fresh hstate)

/-- While the client is connecting, anything may happen to its channel. -/
theorem link_calm {c : Client http} (h : c.Sound) (hstate : c.state = .connecting)
    {ch ch' : Channel} (hch : c.channel = some ch) (hwf : ch.Wf → ch'.Wf) (hid : ch'.id = ch.id) :
    c.Calm { c with channel := some ch' } := by
  refine ⟨[], ⟨⟨?_, ?_, fun _ _ _ => hstate, ?_⟩, by simp, ?_⟩, by simp [Quiet]⟩
  · intro ch'' hch''
    obtain rfl := Option.some.inj hch''
    exact hwf (h.wf ch hch)
  · have := h.fresh
    rw [chan_eq hch, ← hid] at this
    simpa [chan] using this
  · intro hc
    rw [show c.state = .wsClosed from hc] at hstate
    cases hstate
  · rw [view_eq hch, view_eq (c := { c with channel := some ch' }) rfl, hid]
    exact .single (.link ⟨ch.id, c.state, ch.isOpened⟩ ch'.isOpened hstate)

/-! ### Callbacks -/

theorem Op.calm {c c' : Client http} (hop : Op c c') (h : c.Sound) : c.Calm c' := by
  cases hop with
  | aside ha => exact calm_of_eq h ha.log ha.state ha.channel ha.nextId
  | hioClose hk _ => exact hioClose_calm h hk
  | closeChannel => exact closeChannel_calm h
  | giveUp hstate hon hshut => exact giveUp_calm h hstate hon hshut
  | setUrl => exact calm_of_eq h rfl rfl rfl rfl
  | dial hstate hd => exact dial_calm h hstate hd
  | link hch hstate hwf hid _ =>
      have hconnecting : c.state = .connecting := hstate.elim (h.dialing _ hch) id
      exact link_calm h hconnecting hch hwf hid
  | dropOnclose hch =>
      have hwf (ch : Channel) : ch.Wf → Channel.Wf { ch with onclose := false } :=
        fun hwf => ⟨hwf.id, hwf.ready, hwf.dial⟩
      exact (store_follows h hch (hwf _) rfl (fun _ => .inr rfl) (.inl rfl) (.inl rfl)).calm
  | control hch _ answer => exact (kept_follows h hch (Channel.write_kept _ _ _)).calm
  | flush hch answer =>
      have hk (ch : Channel) : Channel.Kept ch { ch with io := (ch.io.nioWrite answer).1 } :=
        ⟨rfl, rfl, rfl, ch.io.nioWrite_kept answer⟩
      exact (kept_follows h hch (hk _)).calm
  | message hp msg =>
      refine ⟨[.onmessage c.chan msg], ⟨⟨h.wf, h.fresh, h.dialing, h.closed⟩, rfl, ?_⟩,
        by simp [Quiet]⟩
      exact .single (.message c.view msg hp)

/-- **A callback is calm** where it is a chain of operations. -/
theorem Path.calm {c c' : Client http} (hpath : Path c c') (h : c.Sound) : c.Calm c' := by
  induction hpath with
  | refl => exact .refl h
  | tail _ hop ih => exact ih.trans (hop.calm ih.sound)

/-- The channel has just been connected. -/
def Connected (c : Client http) : Prop :=
  c.state = .connecting ∧
    ∃ ch, c.channel = some ch ∧ ch.isConnected = true ∧ ch.io.dial = .idle

/-- If the callback of `nio_connect` follows, the channel is connected. -/
theorem nioConnect_connected {c c' : Client http} (h : c.Sound) {answer : Ndial}
    (he : c.nioConnect answer = some (c', true)) : c'.Connected := by
  unfold nioConnect at he
  cases hch : c.channel with
  | none => simp [hch] at he
  | some ch =>
      simp only [hch] at he
      by_cases hd : ch.io.dial = .idle
      · simp [hd] at he
      rw [if_neg hd] at he
      cases answer with
      | failed | wantRead => simp at he
      | ok =>
          obtain ⟨rfl, -⟩ := Prod.mk.inj (Option.some.inj he)
          have hwf := h.wf ch hch
          have hclosed : ch.io.closed = false := by
            by_contra hc
            exact hd (hwf.dial (by simpa using hc))
          have hwf' : Channel.Wf { ch with io := ch.io.connectCb, status := .connected } :=
            ⟨hwf.id, hwf.ready, fun _ => rfl⟩
          have hopen := hwf'.isOpened (by simp [Status.code]) hclosed
          exact ⟨h.dialing ch hch hd, _, rfl, by simp [Channel.isConnected, hopen], rfl⟩

/-! ### The upgrade -/

/-- Whether `onConnection` gets the upgrade request onto the channel. -/
def upgradeTaken (c : Client http) (randKey : Bytes) (answer : Nwrite) : Bool :=
  match c.channel with
  | none => false
  | some ch =>
      ch.isConnected && (ch.io.backlog.take (c.upgradeRequest randKey).2.length answer).isSome

theorem startRead_kept (ch : Channel) : Channel.Kept ch ch.startRead := by
  unfold Channel.startRead
  split_ifs
  · exact ⟨rfl, rfl, rfl, rfl, rfl, rfl, rfl⟩
  · exact .refl ch

theorem startRead_backlog (ch : Channel) : ch.startRead.io.backlog = ch.io.backlog := by
  unfold Channel.startRead
  split_ifs <;> rfl

theorem startRead_isConnected {ch : Channel} (h : ch.isConnected = true) :
    ch.startRead.isConnected = true := by
  have hk := startRead_kept ch
  simpa [Channel.isConnected, hk.status, hk.isOpened] using h

/-- The upgrade is taken exactly if its write is. -/
theorem upgradeTaken_iff {c : Client http} {ch : Channel} (hch : c.channel = some ch)
    (hconn : ch.isConnected = true) (randKey : Bytes) (answer : Nwrite) :
    0 ≤ (ch.startRead.write (c.upgradeRequest randKey).2 answer).2 ↔
      c.upgradeTaken randKey answer = true := by
  have hopen : ch.startRead.isOpened = true := by
    have hconn' := startRead_isConnected hconn
    simp only [Channel.isConnected, Bool.and_eq_true] at hconn'
    exact hconn'.2
  have htakes := Hio.hioWrite_takes (Channel.isOpened_io hopen) (c.upgradeRequest randKey).2 answer
  unfold Channel.write upgradeTaken
  rw [if_pos hopen, htakes, startRead_backlog]
  simp [hch, hconn]

/-- `onConnection` asks for the upgrade. -/
theorem onConnection_follows {c : Client http} (h : c.Sound) (hc : c.Connected) (randKey : Bytes)
    (answer : Nwrite) :
    c.Follows (c.onConnection randKey answer)
      (if c.upgradeTaken randKey answer then [.upgradeWritten c.chan] else []) := by
  obtain ⟨hstate, ch, hch, hconn, hdial⟩ := hc
  have hk := startRead_kept ch
  have hconn' := startRead_isConnected hconn
  have hk' := hk.trans (ch.startRead.write_kept (c.upgradeRequest randKey).2 answer)
  have htaken := upgradeTaken_iff hch hconn randKey answer
  unfold onConnection
  simp only [hch, hconn', if_true, htaken, hk.id]
  refine ⟨⟨?_, ?_, ?_, by simp⟩, by simp [chan_eq hch], ?_⟩
  · intro ch' hch'
    obtain rfl := Option.some.inj hch'
    exact hk'.wf (h.wf ch hch)
  · have := h.fresh
    rw [chan_eq hch, ← hk'.id] at this
    simpa [chan] using this
  · intro ch' hch' hd
    obtain rfl := Option.some.inj hch'
    exact absurd (hk'.io.dial.trans hdial) hd
  · have hmove := Move.upgrade c.view (c.upgradeTaken randKey answer) hstate
    rw [view_eq hch] at hmove ⊢
    rw [chan_eq hch]
    have hview : ∀ c' : Client http, c'.channel = some (ch.startRead.write (c.upgradeRequest randKey).2 answer).1 →
        c'.state = .wsUpgrading → c'.view = ⟨ch.id, .wsUpgrading, ch.isOpened⟩ := by
      intro c' h1 h2
      rw [view_eq h1, h2, hk'.id, hk'.isOpened]
    rw [hview _ rfl rfl]
    exact .single hmove

/-! ### Responses -/

/-- A client that is not connecting has its socket connected. -/
theorem Sound.idle {c : Client http} (h : c.Sound) (hstate : c.state ≠ .connecting) {ch : Channel}
    (hch : c.channel = some ch) : ch.io.dial = .idle := by
  by_contra hd
  exact hstate (h.dialing ch hch hd)

/-- The handshake is completed. -/
theorem upgraded_follows {c : Client http} (h : c.Sound) (hstate : c.state = .wsUpgrading)
    (garbage : ℕ) : c.Follows (c.upgraded garbage) [.onopen c.chan] := by
  have hnot : c.state ≠ .connecting := by simp [hstate]
  have hopened : ∀ c' : Client http, c'.state = .wsOpened → c'.nextId = c.nextId →
      (∀ ch', c'.channel = some ch' → ∃ ch, c.channel = some ch ∧ Channel.Kept ch ch') →
      c'.chan = c.chan → c'.view.writable = c.view.writable → c'.log = c.log →
      c.Follows (c'.emit (.onopen c'.chan)) [.onopen c.chan] := by
    intro c' hs hn hk hchan hw hlog
    refine ⟨⟨?_, ?_, ?_, ?_⟩, by simp [emit, hlog, hchan], ?_⟩
    · intro ch' hch'
      obtain ⟨ch, hch, hkept⟩ := hk ch' hch'
      exact hkept.wf (h.wf ch hch)
    · show c'.chan < c'.nextId
      rw [hchan, hn]
      exact h.fresh
    · intro ch' hch' hd
      obtain ⟨ch, hch, hkept⟩ := hk ch' hch'
      exact absurd (hkept.io.dial.trans (h.idle hnot hch)) hd
    · intro hbad
      rw [show (c'.emit (.onopen c'.chan)).state = c'.state from rfl, hs] at hbad
      cases hbad
    · have hview : (c'.emit (.onopen c'.chan)).view = { c.view with phase := .wsOpened } := by
        show (⟨c'.chan, c'.state, c'.view.writable⟩ : View) = ⟨c.chan, .wsOpened, c.view.writable⟩
        rw [hchan, hs, hw]
      rw [hview]
      exact .single (.opened c.view hstate)
  unfold upgraded
  dsimp only
  split_ifs
  · cases hch : c.channel with
    | none =>
        apply hopened <;> simp [hch, chan, view]
    | some ch =>
        have hkept : Channel.Kept ch ch.setHeartbeat := ⟨rfl, rfl, rfl, rfl, rfl, rfl, rfl⟩
        refine hopened _ ?_ ?_ ?_ ?_ ?_ ?_
        · rfl
        · rfl
        · intro ch' hch'
          obtain rfl := Option.some.inj hch'
          exact ⟨ch, hch, hkept⟩
        · simp [chan, hch, hkept.id]
        · simp [view, hch, hkept.isOpened]
        · rfl
  · exact hopened _ rfl rfl (fun ch hch => ⟨ch, hch, .refl ch⟩) rfl rfl rfl

/-- **What a chunk does first**: it completes the handshake, or nothing the lifecycle sees. -/
theorem received_follows {c : Client http} (h : c.Sound) (data : Bytes) (garbage : ℕ) :
    c.Follows (c.received data garbage) (if c.completes data then [.onopen c.chan] else []) := by
  have hfed : c.Follows (c.fed data) [] := by
    unfold fed
    split_ifs
    · exact follows_of_eq h rfl rfl rfl rfl
    · exact .refl h
  unfold received
  split_ifs with hcompletes
  · have hstate : c.state = .wsUpgrading := by
      simp only [completes, Bool.and_eq_true, beq_iff_eq] at hcompletes
      exact hcompletes.1.1.1
    have heq : c.fed data = c.feedHttp data := if_pos hstate
    rw [heq] at hfed ⊢
    exact hfed.trans (upgraded_follows (c := c.feedHttp data) hfed.sound hstate garbage)
  · exact hfed

/-! ### Sending -/

/-- Whether the channel takes the first frame of a message of `len` bytes. -/
def takesFirst (c : Client http) (len : ℕ) (answer : Nwrite) : Bool :=
  match c.channel with
  | none => false
  | some ch =>
      ch.isOpened &&
        (ch.io.backlog.take (wsCalcFrameSize (min len Channel.fragment) true) answer).isSome

/-- Whether the channel takes every frame of a message of `len` bytes. -/
def takesMessage (c : Client http) (len : ℕ) (answer : ℕ → Nwrite) : Bool :=
  match c.channel with
  | none => false
  | some ch => ch.isOpened && ch.io.backlog.takesAll (Channel.frameSizes len) answer

theorem sentSize_le (msg : Bytes) : (sentSize msg).toNat ≤ msg.length := by
  have h : sentSize msg ≤ msg.length := by
    unfold sentSize Int.bmod
    norm_num
    split_ifs <;> omega
  omega

theorem sentBytes_length (msg : Bytes) : (sentBytes msg).length = (sentSize msg).toNat :=
  List.length_take_of_le (sentSize_le msg)

theorem sentSize_of_lt {msg : Bytes} (h : msg.length < 2 ^ 31) : sentSize msg = msg.length :=
  bmod_of_lt h

/-- The channel gets the whole message exactly if its size fits. -/
theorem sentBytes_eq_iff {msg : Bytes} (h : 0 ≤ sentSize msg) :
    sentBytes msg = msg ↔ msg.length < 2 ^ 31 := by
  have hle : sentBytes msg = msg ↔ msg.length ≤ (sentSize msg).toNat := List.take_eq_self_iff msg
  rw [hle]
  constructor
  · intro hlen
    unfold sentSize Int.bmod at h hlen
    norm_num at h hlen ⊢
    split_ifs at h hlen <;> omega
  · intro hlen
    rw [sentSize_of_lt hlen, Int.toNat_natCast]

theorem frames_trail (v : View) (hw : v.writable = true) (n : ℕ) :
    Trail Move v (List.replicate n (.frame v.chan v.phase)) v := by
  induction n with
  | zero => exact .refl v
  | succ n ih =>
      rw [List.replicate_succ']
      exact ih.concat (.frame v hw)

/-- What a `send` does. -/
structure Sends (c c' : Client http) (len : ℕ) (answer : ℕ → Nwrite) (ret : ℤ) (frames : ℕ) : Prop where
  follows : c.Follows c' (List.replicate frames (.frame c.chan c.state))
  state : c'.state = c.state
  channel : (c.channel = none ∧ c'.channel = none) ∨
    ∃ ch ch', c.channel = some ch ∧ c'.channel = some ch' ∧ Channel.Kept ch ch'
  first : 0 < frames ↔ c.takesFirst len (answer 0) = true
  all : 0 ≤ ret ↔ c.takesMessage len answer = true

/-- A channel is handed no negative size. -/
theorem sentSize_nonneg {c : Client http} {ch : Channel} (hch : c.channel = some ch) {msg : Bytes}
    {mask : ℕ → Mask} {answer : ℕ → Nwrite} {r : Client http × ℤ}
    (he : c.send msg mask answer = some r) : 0 ≤ sentSize msg := by
  unfold send at he
  simp only [hch] at he
  split_ifs at he with hneg
  exact not_lt.mp hneg

theorem send_sends {c c' : Client http} (h : c.Sound) {msg : Bytes} {mask : ℕ → Mask}
    {answer : ℕ → Nwrite} {ret : ℤ} (he : c.send msg mask answer = some (c', ret)) :
    ∃ frames, c.Sends c' (sentSize msg).toNat answer ret frames := by
  unfold send at he
  cases hch : c.channel with
  | none =>
      simp only [hch, Option.some.injEq, Prod.mk.injEq] at he
      obtain ⟨rfl, rfl⟩ := he
      exact ⟨0, .refl h, rfl, .inl ⟨hch, hch⟩, by simp [takesFirst, hch],
        by simp [takesMessage, hch]⟩
  | some ch =>
      simp only [hch] at he
      split_ifs at he with hneg
      simp only [Option.some.injEq, Prod.mk.injEq] at he
      obtain ⟨rfl, rfl⟩ := he
      have hlen := sentBytes_length msg
      generalize sentBytes msg = buf at hlen ⊢
      have hk := ch.send_kept buf .text mask answer
      obtain ⟨hsound, -, htrail⟩ := kept_follows h hch hk
      refine ⟨(ch.send buf .text mask answer).frames, ⟨?_, ?_, ?_⟩, rfl,
        .inr ⟨ch, _, hch, rfl, hk⟩, ?_, ?_⟩
      · exact ⟨hsound.wf, hsound.fresh, hsound.dialing, hsound.closed⟩
      · rw [chan_eq hch]
      · have hframes : Trail Move c.view (List.replicate (ch.send buf .text mask answer).frames
            (.frame c.chan c.state)) c.view := by
          cases hopen : ch.isOpened with
          | false =>
              rw [Channel.send_closed hopen]
              exact .refl _
          | true =>
              rw [view_eq hch, hopen, chan_eq hch]
              exact frames_trail ⟨ch.id, c.state, true⟩ rfl _
        have hall := hframes.trans htrail
        rw [List.append_nil] at hall
        exact hall
      · cases hopen : ch.isOpened with
        | false => simp [Channel.send_closed hopen, takesFirst, hch, hopen]
        | true =>
            have ht := (Channel.send_takes hopen buf .text mask answer).2
            rw [hlen] at ht
            simp [takesFirst, hch, hopen, ht]
      · cases hopen : ch.isOpened with
        | false => simp [Channel.send_closed hopen, takesMessage, hch, hopen]
        | true =>
            have ht := (Channel.send_takes hopen buf .text mask answer).1
            rw [hlen] at ht
            simpa [takesMessage, hch, hopen] using ht

end Client

end OrderbookClient.Hv
