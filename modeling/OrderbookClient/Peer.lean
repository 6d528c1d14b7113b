import OrderbookClient.Delivery
import OrderbookClient.Wire

/-! # What the server reads

The end of the line: the frames of the subscriptions, between pings and pongs, are decoded by a
peer that runs the same frame parser, in chunks of any size, and each of its text messages is a
JSON request.

* `backlog_bounded`: no run queues more than the write buffer holds.
* `server_reads`: from any point of a run behind the dialling of a channel, as long as the channel
  stays and every request is accepted as a whole, the server reads exactly the requests handed on
  since then, in order.
* `server_decodes`: each of them denotes the request of its call. -/

namespace OrderbookClient

open Json RapidJson Hv Runs

/-- What a server makes of a request: its id, and the names as `c_str()` shows them. -/
def Request.value (r : Request) : Value :=
  requestValue r.id (r.instruments.map seenName)

/-- The names of a request fit in `SizeType`. -/
def Request.Fits (r : Request) : Prop := ∀ name ∈ r.instruments, Doc.FitsSizeType (seenName name)

namespace Session

variable {http : Http}

/-! ### One step -/

/-- A chain of operations leaves the stream alone. -/
theorem operates_wires {s s' : Session http} {a : Action} (ht : s.client.Tight)
    (hpath : Client.Path (s.entered a) s'.client) : s.client.Wires s'.client [] := by
  have hentered : s.client.Wires (s.entered a) [] := by
    cases a with
    | read data answers => exact Client.received_wires ht data answers.garbage
    | _ => exact .refl ht
  exact hentered.then (hpath.wires hentered.tight)

/-- The requests a step hands on, with what it puts on the wire if they are accepted. -/
theorem step_wires {s s' : Session http} {a : Action} (h : s.Sound) (ht : s.client.Tight)
    (he : s.step a = some s') (ha : ∀ randKey answer, a ≠ .onConnection randKey answer) :
    ∃ hs, s'.handed = s.handed ++ hs ∧ ((∀ handoff ∈ hs, handoff.Whole) →
      s.client.Wires s'.client (hs.map (·.request.text))) := by
  cases step_does h he with
  | asks => exact absurd rfl (ha _ _)
  | sends _ hc =>
      refine ⟨_, rfl, ?_⟩
      intro hw
      obtain ⟨haccepted, hbuf⟩ := hw _ (List.mem_singleton_self _)
      simp only [Handoff.accepted, Bool.and_eq_true, decide_eq_true_eq] at haccepted
      have hsent := Client.send_wires ht hc haccepted.2
      dsimp only at hbuf
      rw [hbuf] at hsent
      exact hsent
  | operates _ hsend hpath =>
      exact ⟨[], by rw [step_handed he hsend, List.append_nil], fun _ => operates_wires ht hpath⟩

/-! ### Runs -/

theorem tight_invariant (http : Http) :
    (machine http).Invariant (fun s => s.Sound ∧ s.client.Tight) where
  init := ⟨new_sound http, Client.new_tight http⟩
  step := by
    intro s a s' ⟨h, ht⟩ he
    refine ⟨(sound_invariant http).step h he, ?_⟩
    cases step_does h he with
    | asks => exact Client.onConnection_tight ht _ _
    | sends _ hc => exact Client.send_tight ht hc
    | operates _ _ hpath => exact (operates_wires ht hpath).tight

/-- **The write buffer is bounded**, and `write_bufsize` is what is queued on an open socket. -/
theorem backlog_bounded (r : (machine http).Run) {ch : Channel}
    (hch : r.final.client.channel = some ch) : ch.io.Bounded :=
  ((tight_invariant http).exec r.exec_eq).2.bounded ch hch

/-- The kernel takes neither the upgrade request nor the first subscription. -/
def queuedSchedule : List Action :=
  mainConnects ++ [.onConnection (ascii "0123456789abcdef") .again] ++ mainSubscribes ++
    [.send (fun _ _ => 7) (fun _ => .again)]

theorem queuedSchedule_runs : ((machine plainHttp).exec queuedSchedule).isSome := by
  decide +kernel

def queuedRun : (machine plainHttp).Run := .ofIsSome queuedSchedule queuedSchedule_runs

theorem backlog_bounded_queued : ∃ ch, queuedRun.final.client.channel = some ch ∧
    ch.io.closed = false ∧ ch.io.writeQueue.length = 2 ∧ ch.io.Bounded := by
  have hqueued : queuedRun.final.client.channel.map
      (fun ch => (ch.io.closed, ch.io.writeQueue.length)) = some (false, 2) := by
    decide +kernel
  obtain ⟨ch, hch, hio⟩ := Option.map_eq_some_iff.mp hqueued
  obtain ⟨hopen, htwo⟩ := Prod.mk.inj hio
  exact ⟨ch, hch, hopen, htwo, backlog_bounded queuedRun hch⟩

/-- From a point behind the dialling of a channel to any later one: the channel is a later one, or
what is on the wire in between are the requests handed on, if they were accepted. -/
theorem run_wires {pre post : List Action} {s s' : Session http}
    (hs : (machine http).exec pre = some s) (hstate : s.client.state ≠ .connecting)
    (hs' : (machine http).exec (pre ++ post) = some s') :
    s.client.chan ≤ s'.client.chan ∧ ∃ hs, s'.handed = s.handed ++ hs ∧
      (s'.client.chan = s.client.chan → s'.client.state ≠ .connecting ∧
        ((∀ handoff ∈ hs, handoff.Whole) →
          s.client.Wires s'.client (hs.map (·.request.text)))) := by
  apply Machine.exec_append_induction hs (P := fun _ t => s.client.chan ≤ t.client.chan ∧
    ∃ hs, t.handed = s.handed ++ hs ∧ (t.client.chan = s.client.chan →
      t.client.state ≠ .connecting ∧ ((∀ handoff ∈ hs, handoff.Whole) →
        s.client.Wires t.client (hs.map (·.request.text))))) _ _ hs'
  · refine ⟨le_rfl, [], by simp, fun _ => ⟨hstate, fun _ => ?_⟩⟩
    exact .refl ((tight_invariant http).exec hs).2
  · rintro acts t a t' ht ⟨hle, hs, hhanded, hsame⟩ (ha : t.step a = some t')
    obtain ⟨hsound, htight⟩ := (tight_invariant http).exec ht
    obtain ⟨-, es, fs, -, -, hf⟩ := step_steps hsound ha
    obtain ⟨hle', hpast⟩ := trail_past hf.trail
    refine ⟨le_trans hle hle', ?_⟩
    by_cases hconn : ∃ randKey answer, a = .onConnection randKey answer
    · -- the channel is being connected, so it is another one than before
      obtain ⟨randKey, answer, rfl⟩ := hconn
      have hconnecting := (hsound.inConnect (step_onConnection ha).1).1
      refine ⟨hs, ?_, ?_⟩
      · have hkeep : t'.handed = t.handed := step_handed ha (by simp)
        rw [hkeep, hhanded]
      · intro hchan
        have htchan : t.client.chan = s.client.chan := le_antisymm (hchan ▸ hle') hle
        exact absurd hconnecting (hsame htchan).1
    · push Not at hconn
      obtain ⟨hs₂, hhanded₂, hwires₂⟩ := step_wires hsound htight ha hconn
      refine ⟨hs ++ hs₂, by rw [hhanded₂, hhanded, List.append_assoc], ?_⟩
      intro hchan
      have htchan : t.client.chan = s.client.chan := le_antisymm (hchan ▸ hle') hle
      obtain ⟨hstate, hwires⟩ := hsame htchan
      refine ⟨hpast (hchan.trans htchan.symm) hstate, ?_⟩
      intro hw
      rw [List.map_append]
      exact (hwires (fun handoff hmem => hw handoff (by simp [hmem]))).trans
        (hwires₂ (fun handoff hmem => hw handoff (by simp [hmem])))

/-- **What the server reads.**  Between two points of a run at which the same open channel is
current, the first of them behind its dialling, the server reads exactly the requests handed on in
between, if they were accepted as a whole. -/
theorem server_reads {pre post : List Action} {s s' : Session http}
    (hs : (machine http).exec pre = some s) (hstate : s.client.state ≠ .connecting)
    (hs' : (machine http).exec (pre ++ post) = some s')
    (hchan : s'.client.chan = s.client.chan) {ch' : Channel} (hch' : s'.client.channel = some ch')
    (hopen : ch'.io.closed = false)
    (hw : ∀ handoff ∈ s'.handed.drop s.handed.length, handoff.Whole) :
    ∃ ch b, s.client.channel = some ch ∧ ch'.io.stream = ch.io.stream ++ b ∧
      Reads b ((s'.handed.drop s.handed.length).map (·.request.text)) := by
  obtain ⟨-, handoffs, hhanded, hsame⟩ := run_wires hs hstate hs'
  have hdrop : s'.handed.drop s.handed.length = handoffs := by
    rw [hhanded, List.drop_left]
  rw [hdrop] at hw ⊢
  obtain ⟨ch, b, hch, -, hstream, hreads⟩ := ((hsame hchan).2 hw).reads hchan ch' hch' hopen
  exact ⟨ch, b, hch, hstream, hreads⟩

/-! ### The upgrade -/

/-- An upgrade request that is taken is on the wire, and the handshake is under way. -/
theorem upgrade_stream {s s' : Session http} {randKey : Bytes} {answer : Nwrite}
    (he : s.step (.onConnection randKey answer) = some s')
    (htaken : s.client.upgradeTaken randKey answer = true) :
    s'.client.state = .wsUpgrading ∧ s'.client.chan = s.client.chan ∧ s'.handed = s.handed ∧
      ∃ ch ch', s.client.channel = some ch ∧ s'.client.channel = some ch' ∧
        ch'.io.stream = ch.io.stream ++ (s.client.upgradeRequest randKey).2 := by
  obtain ⟨-, rfl⟩ := step_onConnection he
  have hconnected : ∃ ch, s.client.channel = some ch ∧ ch.isConnected = true := by
    unfold Client.upgradeTaken at htaken
    split at htaken
    · cases htaken
    · next ch hch =>
        rw [Bool.and_eq_true] at htaken
        exact ⟨ch, hch, htaken.1⟩
  obtain ⟨ch, hch, hconn⟩ := hconnected
  have hret := (Client.upgradeTaken_iff hch hconn randKey answer).mpr htaken
  have hstream := Channel.write_stream hret
  rw [(Client.startRead_still ch).1.stream] at hstream
  have hk := ch.startRead.write_kept (s.client.upgradeRequest randKey).2 answer
  unfold Client.onConnection
  simp only [hch, Client.startRead_isConnected hconn, if_true]
  refine ⟨trivial, ?_, trivial, ch, _, rfl, rfl, hstream⟩
  simp [Client.chan, hch, hk.id, (Client.startRead_still ch).2]

/-! ### The requests -/

theorem Counts.isInt32 {acts : List Action} {s : Session http} (h : Counts acts s)
    {handoff : Handoff} (hmem : handoff ∈ s.handed) : IsInt32 handoff.request.id := by
  have hids : handoff.request.id ∈ s.handed.map (·.request.id) := List.mem_map_of_mem hmem
  rw [h.ids] at hids
  obtain ⟨i, -, hi⟩ := List.mem_map.mp hids
  rw [← hi]
  exact ⟨Int.le_bmod (by norm_num), Int.bmod_lt (by norm_num)⟩

theorem Counts.readText {acts : List Action} {s : Session http} (h : Counts acts s)
    {handoff : Handoff} (hmem : handoff ∈ s.handed) (hfits : handoff.request.Fits) :
    readText handoff.request.text = some handoff.request.value := by
  obtain ⟨w, text, -, -, htext, hvalue⟩ := subscribeText_eq _ (h.isInt32 hmem) _ hfits
  have hwritten := (h.written handoff hmem).symm.trans htext
  rw [Option.some.inj hwritten]
  exact readText_of_text hvalue

/-- **What the server makes of it.**  From its text messages a server decodes the subscriptions,
one for each call, in the order of the calls. -/
theorem server_decodes {pre post : List Action} {s s' : Session http}
    (hs : (machine http).exec pre = some s) (hstate : s.client.state ≠ .connecting)
    (hs' : (machine http).exec (pre ++ post) = some s')
    (hchan : s'.client.chan = s.client.chan) {ch' : Channel} (hch' : s'.client.channel = some ch')
    (hopen : ch'.io.closed = false)
    (hw : ∀ handoff ∈ s'.handed.drop s.handed.length, handoff.Whole ∧ handoff.request.Fits) :
    ∃ ch b, s.client.channel = some ch ∧ ch'.io.stream = ch.io.stream ++ b ∧
      ∀ wp, Channel.Ready wp → ∃ wp' ms, wp.execute b = some (wp', ms) ∧ Channel.Ready wp' ∧
        (textsOf ms).map readText =
          (s'.handed.drop s.handed.length).map (fun handoff => some handoff.request.value) := by
  obtain ⟨ch, b, hch, hstream, hreads⟩ :=
    server_reads hs hstate hs' hchan hch' hopen (fun handoff hmem => (hw handoff hmem).1)
  refine ⟨ch, b, hch, hstream, ?_⟩
  intro wp hwp
  obtain ⟨wp', ms, he, hwp', htexts⟩ := hreads wp hwp
  refine ⟨wp', ms, he, hwp', ?_⟩
  rw [htexts, List.map_map]
  apply List.map_congr_left
  intro handoff hmem
  exact (counts ⟨_, _, hs'⟩).readText (List.mem_of_mem_drop hmem) (hw handoff hmem).2

/-- **From the subscriptions to the server.**  On a channel that stays open behind its upgrade
request, a server that reads frames behind this request decodes the subscriptions made since. -/
theorem server_decodes_behind_upgrade {pre post : List Action} {s s' : Session http}
    {randKey : Bytes} {answer : Nwrite} (hs : (machine http).exec pre = some s)
    (htaken : s.client.upgradeTaken randKey answer = true)
    (hs' : (machine http).exec (pre ++ [.onConnection randKey answer] ++ post) = some s')
    (hchan : s'.client.chan = s.client.chan) {ch' : Channel} (hch' : s'.client.channel = some ch')
    (hopen : ch'.io.closed = false)
    (hw : ∀ handoff ∈ s'.handed.drop s.handed.length, handoff.Whole ∧ handoff.request.Fits)
    (garbage : ℕ) :
    ∃ ch b wp ms, s.client.channel = some ch ∧
      ch'.io.stream = ch.io.stream ++ (s.client.upgradeRequest randKey).2 ++ b ∧
      (WebSocketParser.new garbage).execute b = some (wp, ms) ∧ (textsOf ms).map readText =
        (s'.handed.drop s.handed.length).map (fun handoff => some handoff.request.value) := by
  obtain ⟨t, ht⟩ := Machine.exec_append_some hs'
  obtain ⟨s₀, hs₀, ha⟩ := (machine http).exec_concat_some ht
  obtain rfl : s = s₀ := Option.some.inj (hs.symm.trans hs₀)
  obtain ⟨hstate, htchan, hhanded, ch, ch₁, hch, hch₁, hstream₁⟩ := upgrade_stream ha htaken
  rw [← hhanded] at hw ⊢
  obtain ⟨ch₂, b, hch₂, hstream, hreads⟩ := server_decodes ht (by simp [hstate]) hs'
    (hchan.trans htchan.symm) hch' hopen hw
  obtain rfl : ch₁ = ch₂ := Option.some.inj (hch₁.symm.trans hch₂)
  obtain ⟨wp, ms, he, -, hvalues⟩ := hreads (.new garbage) ⟨rfl, .inl rfl⟩
  exact ⟨ch, b, wp, ms, hch, by rw [hstream, hstream₁], he, hvalues⟩

end Session

end OrderbookClient
