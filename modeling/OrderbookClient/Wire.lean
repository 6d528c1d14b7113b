import OrderbookClient.Callbacks

/-! # What the client puts on the wire

The bytes a channel has taken, sent or queued, are its `stream`.  Every callback of the client
either goes on to another channel, or leaves the stream of its channel alone up to pings and pongs
(`Wires c c' []`); a `send` that is taken adds the frames of its message (`send_wires`).

A frame is short against the write buffer, so a refused one leaves nothing behind; this rests on
`write_bufsize` being what is queued, which is kept by every callback (`Tight`). -/

namespace OrderbookClient.Hv

open Json (Bytes)

/-! ### Reading frames -/

/-- The text messages among those a parser hands on. -/
def textsOf (ms : List Message) : List Bytes :=
  (ms.filter (fun m => m.opcode = WsOpcode.text.code)).map Message.msg

theorem textsOf_append (ms ms' : List Message) : textsOf (ms ++ ms') = textsOf ms ++ textsOf ms' := by
  simp [textsOf]

/-- A peer between two messages reads exactly these text messages from `b`, in this order. -/
def Reads (b : Bytes) (texts : List Bytes) : Prop :=
  ∀ wp, Channel.Ready wp → ∃ wp' ms, wp.execute b = some (wp', ms) ∧ Channel.Ready wp' ∧
    textsOf ms = texts

theorem Reads.nil : Reads [] [] :=
  fun wp h => ⟨wp, [], wp.execute_nil, h, rfl⟩

theorem Reads.append {b b' : Bytes} {texts texts' : List Bytes} (h : Reads b texts)
    (h' : Reads b' texts') : Reads (b ++ b') (texts ++ texts') := by
  intro wp hwp
  obtain ⟨wp₁, ms₁, he₁, hwp₁, ht₁⟩ := h wp hwp
  obtain ⟨wp₂, ms₂, he₂, hwp₂, ht₂⟩ := h' wp₁ hwp₁
  refine ⟨wp₂, ms₁ ++ ms₂, ?_, hwp₂, by rw [textsOf_append, ht₁, ht₂]⟩
  rw [WebSocketParser.execute_append, he₁, WebSocketParser.andThen_some, he₂]
  rfl

/-- A text message is read as what it is. -/
theorem Reads.text (buf : Bytes) (mask : ℕ → Mask) :
    Reads (Channel.messageFrames .text buf mask) [buf] := by
  intro wp hwp
  have hcont : WsOpcode.text ≠ .cont := by decide
  obtain ⟨wp', he, hwp'⟩ := Channel.execute_messageFrames hwp hcont buf mask
  exact ⟨wp', _, he, hwp', rfl⟩

/-- A control frame is no text. -/
theorem Reads.control {opcode : WsOpcode} (hcont : opcode ≠ .cont) (htext : opcode ≠ .text)
    (mask : ℕ → Mask) : Reads (Channel.messageFrames opcode [] mask) [] := by
  intro wp hwp
  obtain ⟨wp', he, hwp'⟩ := Channel.execute_messageFrames hwp hcont [] mask
  have hcode : opcode.code ≠ WsOpcode.text.code := by
    cases opcode <;> simp [WsOpcode.code] at htext ⊢
  exact ⟨wp', _, he, hwp', by simp [textsOf, hcode]⟩

/-- The mask of the constant control frames. -/
def controlMask : Mask := ![0x57, 0x53, 0x57, 0x53]

theorem pingFrame_eq : Channel.pingFrame = Channel.messageFrames .ping [] (fun _ => controlMask) := by
  unfold Channel.messageFrames
  rw [if_neg (by simp)]
  decide +kernel

theorem pongFrame_eq : Channel.pongFrame = Channel.messageFrames .pong [] (fun _ => controlMask) := by
  unfold Channel.messageFrames
  rw [if_neg (by simp)]
  decide +kernel

theorem Reads.ping : Reads Channel.pingFrame [] := by
  rw [pingFrame_eq]
  exact .control (by decide) (by decide) _

theorem Reads.pong : Reads Channel.pongFrame [] := by
  rw [pongFrame_eq]
  exact .control (by decide) (by decide) _

/-! ### Channels -/

namespace Channel

theorem write_bounded {ch : Channel} (h : ch.io.Bounded) (buf : Bytes) (answer : Nwrite) :
    (ch.write buf answer).1.io.Bounded := by
  unfold write
  split_ifs
  · exact Hio.hioWrite_bounded h buf answer
  · exact h

/-- A short write is taken as a whole or not at all. -/
theorem write_short {ch : Channel} (h : ch.io.Bounded) {buf : Bytes}
    (hlen : buf.length ≤ maxWriteBufsize) (answer : Nwrite) :
    (ch.write buf answer).1.io.stream = ch.io.stream ∨
      (ch.write buf answer).1.io.stream = ch.io.stream ++ buf := by
  by_cases hr : 0 ≤ (ch.write buf answer).2
  · exact .inr (write_stream hr)
  · left
    unfold write at hr ⊢
    split_ifs at hr ⊢ with hopen
    · exact Hio.hioWrite_refused_stream h (isOpened_io hopen) hlen (not_le.mp hr)
    · rfl

theorem send_bounded {ch : Channel} (h : ch.io.Bounded) (buf : Bytes) (opcode : WsOpcode)
    (mask : ℕ → Mask) (answer : ℕ → Nwrite) : (ch.send buf opcode mask answer).channel.io.Bounded :=
  send_keeps (P := fun ch => ch.io.Bounded) (fun _ _ _ h => write_bounded h _ _) h _ _ _ _

end Channel

/-! ### Clients -/

namespace Client

variable {http : Http}

/-- Socket ids are fresh, and `write_bufsize` is what is queued. -/
structure Tight (c : Client http) : Prop where
  fresh : c.chan < c.nextId
  bounded : ∀ ch, c.channel = some ch → ch.io.Bounded

theorem new_tight (http : Http) : (new http).Tight where
  fresh := Nat.one_pos
  bounded := by
    intro ch hch
    cases hch

/-- The channel of `c'` is a later one, or that of `c` behind bytes in which a peer reads `texts`;
of a closed channel nothing is said. -/
structure Wires (c c' : Client http) (texts : List Bytes) : Prop where
  tight : c'.Tight
  le : c.chan ≤ c'.chan
  reads : c'.chan = c.chan → ∀ ch', c'.channel = some ch' → ch'.io.closed = false →
    ∃ ch b, c.channel = some ch ∧ ch.io.closed = false ∧ ch'.io.stream = ch.io.stream ++ b ∧
      Reads b texts

theorem Wires.refl {c : Client http} (h : c.Tight) : c.Wires c [] where
  tight := h
  le := le_rfl
  reads _ ch hch hclosed := ⟨ch, [], hch, hclosed, by simp, .nil⟩

theorem Wires.trans {c₁ c₂ c₃ : Client http} {texts texts' : List Bytes} (h : c₁.Wires c₂ texts)
    (h' : c₂.Wires c₃ texts') : c₁.Wires c₃ (texts ++ texts') where
  tight := h'.tight
  le := le_trans h.le h'.le
  reads hchan ch₃ hch₃ hclosed := by
    have h12 : c₂.chan = c₁.chan := le_antisymm (hchan ▸ h'.le) h.le
    obtain ⟨ch₂, b', hch₂, hc₂, hs₃, hr₃⟩ := h'.reads (hchan.trans h12.symm) ch₃ hch₃ hclosed
    obtain ⟨ch₁, b, hch₁, hc₁, hs₂, hr₂⟩ := h.reads h12 ch₂ hch₂ hc₂
    exact ⟨ch₁, b ++ b', hch₁, hc₁, by rw [hs₃, hs₂, List.append_assoc], hr₂.append hr₃⟩

/-- Two silent callbacks in a row. -/
theorem Wires.then {c₁ c₂ c₃ : Client http} (h : c₁.Wires c₂ []) (h' : c₂.Wires c₃ []) :
    c₁.Wires c₃ [] := h.trans h'

/-- A change that does not touch the channel. -/
theorem wires_of_eq {c c' : Client http} (h : c.Tight) (hchannel : c'.channel = c.channel)
    (hnext : c'.nextId = c.nextId) : c.Wires c' [] := by
  have hchan : c'.chan = c.chan := by
    unfold chan
    rw [hchannel]
  refine ⟨⟨?_, ?_⟩, hchan.ge, ?_⟩
  · rw [hchan, hnext]
    exact h.fresh
  · rw [hchannel]
    exact h.bounded
  · intro _ ch hch hclosed
    rw [hchannel] at hch
    exact ⟨ch, [], hch, hclosed, by simp, .nil⟩

/-- The channel is stored after an operation on it. -/
theorem store_wires {c c' : Client http} {texts : List Bytes} (h : c.Tight) {ch ch' : Channel}
    (hch : c.channel = some ch) (hch' : c'.channel = some ch') (hnext : c'.nextId = c.nextId)
    (hid : ch'.id = ch.id) (hb : ch'.io.Bounded)
    (hs : ch'.io.closed = false → ch.io.closed = false ∧
      ∃ b, ch'.io.stream = ch.io.stream ++ b ∧ Reads b texts) : c.Wires c' texts := by
  have hchan : c'.chan = c.chan := by simp [chan, hch, hch', hid]
  refine ⟨⟨?_, ?_⟩, hchan.ge, ?_⟩
  · rw [hchan, hnext]
    exact h.fresh
  · intro ch'' hch''
    obtain rfl := Option.some.inj (hch'.symm.trans hch'')
    exact hb
  · intro _ ch'' hch'' hclosed
    obtain rfl := Option.some.inj (hch'.symm.trans hch'')
    obtain ⟨hc, b, hstream, hreads⟩ := hs hclosed
    exact ⟨ch, b, hch, hc, hstream, hreads⟩

/-- The write side is left alone. -/
theorem still_wires {c c' : Client http} (h : c.Tight) {ch ch' : Channel}
    (hch : c.channel = some ch) (hch' : c'.channel = some ch') (hnext : c'.nextId = c.nextId)
    (hid : ch'.id = ch.id) (hs : ch'.io.closed = true ∨ Hio.Still ch.io ch'.io)
    (hb : ch'.io.Bounded) : c.Wires c' [] := by
  apply store_wires h hch hch' hnext hid hb
  intro hclosed
  obtain hbad | hstill := hs
  · rw [hbad] at hclosed
    cases hclosed
  · exact ⟨hstill.closed.symm.trans hclosed, [], by rw [hstill.stream, List.append_nil], .nil⟩

/-- A control frame is taken or refused. -/
theorem control_wires {c c' : Client http} (h : c.Tight) {ch : Channel} (hch : c.channel = some ch)
    {buf : Bytes} (hread : Reads buf []) (hlen : buf.length ≤ maxWriteBufsize) {answer : Nwrite}
    (hch' : c'.channel = some (ch.write buf answer).1) (hnext : c'.nextId = c.nextId) :
    c.Wires c' [] := by
  have hk := ch.write_kept buf answer
  have hb := h.bounded ch hch
  apply store_wires h hch hch' hnext hk.id (Channel.write_bounded hb buf answer)
  intro hclosed
  refine ⟨hk.io.closed.symm.trans hclosed, ?_⟩
  obtain hs | hs := Channel.write_short hb hlen answer
  · exact ⟨[], by rw [hs, List.append_nil], .nil⟩
  · exact ⟨buf, hs, hread⟩

/-! ### Closing -/

theorem settle_wires {c : Client http} (h : c.Tight) {ch ch' : Channel} (hch : c.channel = some ch)
    (hid : ch'.id = ch.id) (hs : Hio.Still ch.io ch'.io) : c.Wires (c.settle ch'.hioClose) [] := by
  have hio : ch'.hioClose.1.io = (ch'.io.hioClose).1 := by
    unfold Channel.hioClose
    dsimp only
    split_ifs <;> rfl
  have hid' : ch'.hioClose.1.id = ch.id := by
    unfold Channel.hioClose
    dsimp only
    split_ifs <;> exact hid
  apply still_wires h hch (settle_channel c _) (settle_closes c _).nextId hid'
  · rw [hio]
    obtain hstill | hclosed := ch'.io.hioClose_still
    · exact .inr (hs.trans hstill)
    · exact .inl hclosed
  · rw [hio]
    exact Hio.hioClose_bounded (hs.bounded (h.bounded ch hch))

theorem hioClose_wires {c : Client http} (h : c.Tight) {before : Hio → Hio}
    (hb : ∀ io, Hio.Still io (before io)) : c.Wires (c.hioClose before) [] := by
  unfold hioClose
  cases hch : c.channel with
  | none => exact .refl h
  | some ch => exact settle_wires h hch rfl (hb ch.io)

theorem closeChannel_wires {c : Client http} (h : c.Tight) : c.Wires c.closeChannel [] := by
  unfold closeChannel
  cases hch : c.channel with
  | none => exact .refl h
  | some ch =>
      simp only [Channel.close]
      split_ifs
      · exact still_wires h hch rfl rfl rfl (.inr (.refl ch.io)) (h.bounded ch hch)
      · exact settle_wires h hch rfl (.refl ch.io)

/-! ### Connecting -/

theorem dial_wires {c c' : Client http} (h : c.Tight) (hd : c.Dials c') : c.Wires c' [] := by
  have hch := hd.channel
  have hchan : c'.chan = c.nextId := by simp [chan, hch, Channel.new, Hio.new]
  have hlt := h.fresh
  refine ⟨⟨?_, ?_⟩, ?_, ?_⟩
  · rw [hchan, hd.nextId]
    exact Nat.lt_succ_self _
  · intro ch hch'
    obtain rfl := Option.some.inj (hch.symm.trans hch')
    exact Hio.new_bounded c.nextId
  · rw [hchan]
    exact hlt.le
  · intro hbad
    rw [hchan] at hbad
    exact absurd hbad hlt.ne'

/-! ### The write side -/

theorem flush_wires {c : Client http} (h : c.Tight) {ch : Channel} (hch : c.channel = some ch)
    (answer : ℕ → Nwrite) :
    c.Wires { c with channel := some { ch with io := (ch.io.nioWrite answer).1 } } [] := by
  refine store_wires h hch rfl rfl rfl (Hio.nioWrite_bounded (h.bounded ch hch) answer) ?_
  intro hclosed
  refine ⟨(ch.io.nioWrite_kept answer).closed.symm.trans hclosed, [], ?_, .nil⟩
  rw [Hio.nioWrite_stream, List.append_nil]

/-! ### Callbacks -/

theorem Op.wires {c c' : Client http} (hop : Op c c') (h : c.Tight) : c.Wires c' [] := by
  cases hop with
  | aside ha => exact wires_of_eq h ha.channel ha.nextId
  | hioClose _ hs => exact hioClose_wires h hs
  | closeChannel => exact closeChannel_wires h
  | giveUp | setUrl | message => exact wires_of_eq h rfl rfl
  | dial _ hd => exact dial_wires h hd
  | link hch _ _ hid hio =>
      exact still_wires h hch rfl rfl hid (.inr hio) (hio.bounded (h.bounded _ hch))
  | dropOnclose hch =>
      have hb := h.bounded _ hch
      exact still_wires h hch rfl rfl rfl (.inr (.refl _)) hb
  | control hch hframe answer =>
      obtain rfl | rfl := hframe
      · have hlen : Channel.pingFrame.length ≤ maxWriteBufsize := by decide
        exact control_wires h hch .ping hlen rfl rfl
      · have hlen : Channel.pongFrame.length ≤ maxWriteBufsize := by decide
        exact control_wires h hch .pong hlen rfl rfl
  | flush hch answer => exact flush_wires h hch answer

/-- **A callback leaves the stream alone** where it is a chain of operations. -/
theorem Path.wires {c c' : Client http} (hpath : Path c c') (h : c.Tight) : c.Wires c' [] := by
  induction hpath with
  | refl => exact .refl h
  | tail _ hop ih => exact ih.then (hop.wires ih.tight)

theorem upgraded_wires {c : Client http} (h : c.Tight) (garbage : ℕ) :
    c.Wires (c.upgraded garbage) [] := by
  unfold upgraded
  dsimp only
  split_ifs
  · cases hch : c.channel with
    | none => exact wires_of_eq h (by simp [emit, hch]) rfl
    | some ch =>
        have hb := h.bounded ch hch
        have hstored : (some ch).map Channel.setHeartbeat = some ch.setHeartbeat := rfl
        exact still_wires h hch hstored rfl rfl (.inr ⟨rfl, rfl, rfl, rfl⟩) ⟨hb.sized, hb.bounded⟩
  · exact wires_of_eq h rfl rfl

theorem received_wires {c : Client http} (h : c.Tight) (data : Bytes) (garbage : ℕ) :
    c.Wires (c.received data garbage) [] := by
  have hfed : c.Wires (c.fed data) [] := by
    unfold fed
    split_ifs
    · exact wires_of_eq h rfl rfl
    · exact .refl h
  unfold received
  split_ifs
  · exact hfed.then (upgraded_wires hfed.tight garbage)
  · exact hfed

/-! ### Sending -/

/-- **A `send` that is taken adds its message.** -/
theorem send_wires {c c' : Client http} (h : c.Tight) {msg : Bytes} {mask : ℕ → Mask}
    {answer : ℕ → Nwrite} {ret : ℤ} (he : c.send msg mask answer = some (c', ret)) (hret : 0 ≤ ret) :
    c.Wires c' [sentBytes msg] := by
  unfold send at he
  cases hch : c.channel with
  | none =>
      simp only [hch, Option.some.injEq, Prod.mk.injEq] at he
      omega
  | some ch =>
      simp only [hch] at he
      split_ifs at he
      simp only [Option.some.injEq, Prod.mk.injEq] at he
      obtain ⟨rfl, rfl⟩ := he
      have hk := ch.send_kept (sentBytes msg) .text mask answer
      have hb := Channel.send_bounded (h.bounded ch hch) (sentBytes msg) .text mask answer
      refine store_wires h hch rfl rfl hk.id hb ?_
      intro hclosed
      exact ⟨hk.io.closed.symm.trans hclosed, _, Channel.send_stream hret, .text _ _⟩

/-- The channel is stored after a write that need not be taken. -/
theorem store_tight {c c' : Client http} (h : c.Tight) {ch ch' : Channel} (hch : c.channel = some ch)
    (hch' : c'.channel = some ch') (hnext : c'.nextId = c.nextId) (hid : ch'.id = ch.id)
    (hb : ch'.io.Bounded) : c'.Tight := by
  constructor
  · have := h.fresh
    simpa [chan, hch, hch', hid, hnext] using this
  · intro ch'' hch''
    obtain rfl := Option.some.inj (hch'.symm.trans hch'')
    exact hb

theorem send_tight {c c' : Client http} (h : c.Tight) {msg : Bytes} {mask : ℕ → Mask}
    {answer : ℕ → Nwrite} {ret : ℤ} (he : c.send msg mask answer = some (c', ret)) : c'.Tight := by
  unfold send at he
  cases hch : c.channel with
  | none =>
      simp only [hch, Option.some.injEq, Prod.mk.injEq] at he
      obtain ⟨rfl, -⟩ := he
      exact h
  | some ch =>
      simp only [hch] at he
      split_ifs at he
      simp only [Option.some.injEq, Prod.mk.injEq] at he
      obtain ⟨rfl, -⟩ := he
      have hk := ch.send_kept (sentBytes msg) .text mask answer
      exact store_tight h hch rfl rfl hk.id (Channel.send_bounded (h.bounded ch hch) _ _ _ _)

theorem startRead_still (ch : Channel) : Hio.Still ch.io ch.startRead.io ∧ ch.startRead.id = ch.id := by
  unfold Channel.startRead
  split_ifs
  · exact ⟨⟨rfl, rfl, rfl, rfl⟩, rfl⟩
  · exact ⟨.refl ch.io, rfl⟩

theorem onConnection_tight {c : Client http} (h : c.Tight) (randKey : Bytes) (answer : Nwrite) :
    (c.onConnection randKey answer).Tight := by
  unfold onConnection
  cases hch : c.channel with
  | none => exact h
  | some ch =>
      obtain ⟨hstill, hid⟩ := startRead_still ch
      have hb := hstill.bounded (h.bounded ch hch)
      dsimp only
      by_cases hconn : ch.startRead.isConnected = true
      · rw [if_pos hconn]
        have hk := ch.startRead.write_kept (c.upgradeRequest randKey).2 answer
        exact store_tight h hch rfl rfl (hk.id.trans hid) (Channel.write_bounded hb _ _)
      · rw [if_neg hconn]
        exact store_tight h hch rfl rfl hid hb

end Client

end OrderbookClient.Hv
