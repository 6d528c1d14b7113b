import OrderbookClient.Refinement

/-! # Sessions follow the lifecycle

The callbacks are put together to whole runs of a session, the caller and the event loop
interleaved in any order.

* `step_does`: a step of either is `onConnection`, `send` or a chain of operations.
* `step_steps`: what it does to the client, with the stage of the handshake or the frames it emits.
* `simulation`: the session machine simulates the lifecycle.
* `safe`: so every reachable session is safe.  With `upgradeWritten_iff` and `onopen_iff`, the
  stages in its log are traced to the steps that caused them. -/

namespace OrderbookClient

open Json Hv Runs

namespace Session

variable {http : Http}

/-- The invariant of a session. -/
structure Sound (s : Session http) : Prop where
  client : s.client.Sound
  start : s.caller = .start →
    s.client.channel = none ∧ s.loop = .notRunning ∧ s.client.state ≠ .connecting
  queued : s.loop = .startQueued → s.client.state = .connecting
  inConnect : s.loop = .inConnect → s.client.Connected

theorem new_sound (http : Http) : (new http).Sound where
  client := ⟨by simp [new, Client.new], by simp [new, Client.new, Client.chan],
    by simp [new, Client.new], by simp [new, Client.new]⟩
  start := fun _ => ⟨rfl, rfl, by simp [new, Client.new]⟩
  queued := by simp [new]
  inConnect := by simp [new]

/-! ### One step -/

/-- The stage or the frames a step emits, taken on the state before it. -/
def Loud (s : Session http) (a : Action) (es : List Event) : Prop :=
  match a with
  | .onConnection randKey answer =>
      es = if s.client.upgradeTaken randKey answer then [.upgradeWritten s.client.chan] else []
  | .read data _ => es = if s.client.completes data then [.onopen s.client.chan] else []
  | .send _ answer =>
      ∃ r n, s.caller = .sending r ∧ es = List.replicate n (.frame s.client.chan s.client.state) ∧
        (0 < n ↔ s.client.takesFirst (Client.sentSize r.text).toNat (answer 0) = true)
  | _ => es = []

/-- What a step does to the client. -/
def Steps (s : Session http) (a : Action) (s' : Session http) : Prop :=
  s'.Sound ∧ ∃ es fs, s.Loud a es ∧ Client.Quiet fs ∧ s.client.Follows s'.client (es ++ fs)

theorem Sound.rest {s : Session http} (h : s.Sound) (hloop : s.loop ≠ .notRunning) {c : Client http}
    (hc : c.Sound) : Sound { s with client := c, loop := .idle } where
  client := hc
  start := fun hs => absurd (h.start hs).2.1 hloop
  queued := by simp
  inConnect := by simp

theorem onEvent_some {s s' : Session http} {enabled : Hio → Bool}
    {f : Client http → Option (Client http)} (he : s.onEvent enabled f = some s') :
    s.loop = .idle ∧ ∃ c, f s.client = some c ∧ s' = { s with client := c, loop := .idle } := by
  unfold onEvent at he
  split at he
  · cases he
  · split_ifs at he with h
    obtain ⟨c, hc, rfl⟩ := Option.map_eq_some_iff.mp he
    refine ⟨h.1, c, hc, ?_⟩
    rw [← h.1]

theorem stepCaller_send {s s' : Session http} {mask : ℕ → Mask} {answer : ℕ → Nwrite}
    (he : s.stepCaller (.send mask answer) = some s') :
    ∃ r c ret, s.caller = .sending r ∧ s.client.send r.text mask answer = some (c, ret) ∧
      s' = { s with
        client := c
        handed := s.handed ++ [⟨s.client.channel.map Channel.id, r, Client.sentBytes r.text, ret⟩]
        requestId := Int.bmod (s.requestId + 1) (2 ^ 32)
        returned := s.returned ++ [r]
        caller := .idle } := by
  simp only [stepCaller] at he
  split at he
  · next r hr =>
      obtain ⟨⟨c, ret⟩, hc, rfl⟩ := Option.map_eq_some_iff.mp he
      exact ⟨r, c, ret, hr, hc, rfl⟩
  · cases he

theorem Sends.connected {c c' : Client http} {len : ℕ} {answer : ℕ → Nwrite} {ret : ℤ} {frames : ℕ}
    (h : c.Sends c' len answer ret frames) (hc : c.Connected) : c'.Connected := by
  obtain ⟨hstate, ch, hch, hconn, hdial⟩ := hc
  obtain ⟨hnone, -⟩ | ⟨ch₁, ch', hch₁, hch', hk⟩ := h.channel
  · rw [hnone] at hch
    cases hch
  · obtain rfl := Option.some.inj (hch.symm.trans hch₁)
    refine ⟨h.state.trans hstate, ch', hch', ?_, hk.io.dial.trans hdial⟩
    simpa [Channel.isConnected, hk.status, hk.isOpened] using hconn

theorem step_cases {s s' : Session http} {a : Action} (he : s.step a = some s') :
    s.stepCaller a = some s' ∨ s.stepLoop a = some s' := by
  cases a with
  | connect | subscribe | poll | send => exact .inl he
  | _ => exact .inr he

/-- The client where the operations of a step begin. -/
def entered (s : Session http) : Action → Client http
  | .read data answers => s.client.received data answers.garbage
  | _ => s.client

theorem stepLoop_path {s s' : Session http} {a : Action} (h : s.Sound)
    (he : s.stepLoop a = some s') (hconn : ∀ randKey answer, a ≠ .onConnection randKey answer) :
    Client.Path (s.entered a) s'.client := by
  cases a with
  | startConnect connfd answer =>
      simp only [stepLoop, Option.ite_none_right_eq_some, Option.some.injEq] at he
      obtain ⟨hloop, rfl⟩ := he
      exact Client.startConnect_path (h.queued hloop) connfd answer
  | dial answer =>
      simp only [stepLoop, Option.ite_none_right_eq_some, Option.map_eq_some_iff] at he
      obtain ⟨-, ⟨c, follows⟩, hc, rfl⟩ := he
      exact Client.nioConnect_path hc
  | onConnection randKey answer => exact absurd rfl (hconn randKey answer)
  | read data a =>
      simp only [stepLoop] at he
      obtain ⟨-, c, hc, rfl⟩ := onEvent_some he
      exact Client.onMessage_path hc
  | connectTimeout | readEnd | readError | closeEvent | closeTimeout =>
      simp only [stepLoop] at he
      obtain ⟨-, c, hc, rfl⟩ := onEvent_some he
      obtain rfl := Option.some.inj hc
      exact .single (.hioClose _ (fun _ => ⟨rfl, rfl, rfl, rfl⟩) (fun _ => ⟨rfl, rfl, rfl, rfl⟩))
  | writable answer =>
      simp only [stepLoop] at he
      obtain ⟨-, c, hc, rfl⟩ := onEvent_some he
      obtain rfl := Option.some.inj hc
      exact Client.nioWrite_path s.client answer
  | heartbeat answer =>
      simp only [stepLoop] at he
      obtain ⟨-, c, hc, rfl⟩ := onEvent_some he
      obtain rfl := Option.some.inj hc
      exact Client.onHeartbeat_path s.client answer
  | connect | subscribe | poll | send => simp [stepLoop] at he

/-- Before the first call there is no channel. -/
theorem Sound.unheard {s : Session http} (h : s.Sound) (hcaller : s.caller = .start) :
    s.client.Unheard ∧ s.client.state ≠ .connecting := by
  refine ⟨?_, (h.start hcaller).2.2⟩
  intro ch hch
  rw [(h.start hcaller).1] at hch
  cases hch

theorem stepCaller_path {s s' : Session http} {a : Action} (h : s.Sound)
    (he : s.stepCaller a = some s') (hsend : ∀ mask answer, a ≠ .send mask answer) :
    Client.Path (s.entered a) s'.client := by
  cases a with
  | connect url connfd =>
      simp only [stepCaller, Option.ite_none_right_eq_some, Option.some.injEq] at he
      obtain ⟨hcaller, rfl⟩ := he
      obtain ⟨hon, hstate⟩ := h.unheard hcaller
      exact (Client.openUrl_path hon hstate _ connfd).1
  | subscribe instruments =>
      simp only [stepCaller, Option.ite_none_right_eq_some, Option.map_eq_some_iff] at he
      obtain ⟨-, text, -, rfl⟩ := he
      exact .refl
  | poll =>
      simp only [stepCaller] at he
      split at he
      · obtain rfl := Option.some.inj he
        split_ifs <;> exact .refl
      · cases he
  | send mask answer => exact absurd rfl (hsend mask answer)
  | _ => simp [stepCaller] at he

/-- What a step does: it asks for the upgrade, sends, or is a chain of operations. -/
inductive Does (s : Session http) : Action → Session http → Prop
  | asks (randKey : Bytes) (answer : Nwrite) (hloop : s.loop = .inConnect) :
      Does s (.onConnection randKey answer)
        { s with client := s.client.onConnection randKey answer, loop := .idle }
  | sends {mask : ℕ → Mask} {answer : ℕ → Nwrite} {r : Request} {c : Client http} {ret : ℤ}
      (hcaller : s.caller = .sending r) (hc : s.client.send r.text mask answer = some (c, ret)) :
      Does s (.send mask answer) { s with
        client := c
        handed := s.handed ++ [⟨s.client.channel.map Channel.id, r, Client.sentBytes r.text, ret⟩]
        requestId := Int.bmod (s.requestId + 1) (2 ^ 32)
        returned := s.returned ++ [r]
        caller := .idle }
  | operates {a : Action} {s' : Session http}
      (hconn : ∀ randKey answer, a ≠ .onConnection randKey answer)
      (hsend : ∀ mask answer, a ≠ .send mask answer)
      (hpath : Client.Path (s.entered a) s'.client) : Does s a s'

theorem step_onConnection {s s' : Session http} {randKey : Bytes} {answer : Nwrite}
    (he : s.step (.onConnection randKey answer) = some s') : s.loop = .inConnect ∧
      s' = { s with client := s.client.onConnection randKey answer, loop := .idle } := by
  have he' : s.stepLoop (.onConnection randKey answer) = some s' := he
  simp only [stepLoop, Option.ite_none_right_eq_some, Option.some.injEq] at he'
  exact ⟨he'.1, he'.2.symm⟩

/-- **What one step does.** -/
theorem step_does {s s' : Session http} {a : Action} (h : s.Sound) (he : s.step a = some s') :
    s.Does a s' := by
  cases a with
  | onConnection randKey answer =>
      obtain ⟨hloop, rfl⟩ := step_onConnection he
      exact .asks randKey answer hloop
  | send mask answer =>
      obtain ⟨r, c, ret, hcaller, hc, rfl⟩ := stepCaller_send he
      exact .sends hcaller hc
  | connect | subscribe | poll =>
      exact .operates (by simp) (by simp) (stepCaller_path h he (by simp))
  | _ => exact .operates (by simp) (by simp) (stepLoop_path h he (by simp))

theorem stepLoop_sound {s s' : Session http} {a : Action} (h : s.Sound)
    (he : s.stepLoop a = some s') (hc : s'.client.Sound) : s'.Sound := by
  cases a with
  | startConnect connfd answer =>
      simp only [stepLoop, Option.ite_none_right_eq_some, Option.some.injEq] at he
      obtain ⟨hloop, rfl⟩ := he
      exact h.rest (by simp [hloop]) hc
  | dial answer =>
      simp only [stepLoop, Option.ite_none_right_eq_some, Option.map_eq_some_iff] at he
      obtain ⟨hloop, ⟨c, follows⟩, hdial, rfl⟩ := he
      cases follows with
      | false => exact h.rest (by simp [hloop]) hc
      | true =>
          refine ⟨hc, ?_, by simp, fun _ => Client.nioConnect_connected h.client hdial⟩
          intro hs
          simp [(h.start hs).2.1] at hloop
  | onConnection randKey answer =>
      simp only [stepLoop, Option.ite_none_right_eq_some, Option.some.injEq] at he
      obtain ⟨hloop, rfl⟩ := he
      exact h.rest (by simp [hloop]) hc
  | connect | subscribe | poll | send => simp [stepLoop] at he
  | _ =>
      simp only [stepLoop] at he
      obtain ⟨hloop, c, -, rfl⟩ := onEvent_some he
      exact h.rest (by simp [hloop]) hc

theorem stepCaller_sound {s s' : Session http} {a : Action} (h : s.Sound)
    (he : s.stepCaller a = some s') (hc : s'.client.Sound) : s'.Sound := by
  cases a with
  | connect url connfd =>
      simp only [stepCaller, Option.ite_none_right_eq_some, Option.some.injEq] at he
      obtain ⟨hcaller, rfl⟩ := he
      obtain ⟨hon, hstate⟩ := h.unheard hcaller
      have hstart := (Client.openUrl_path hon hstate (cString (cStr url)) connfd).2
      refine ⟨hc, by simp, ?_, ?_⟩
      · dsimp only
        split_ifs with hr
        · exact fun _ => hstart hr
        · simp
      · dsimp only
        split_ifs <;> simp
  | subscribe instruments =>
      simp only [stepCaller, Option.ite_none_right_eq_some, Option.map_eq_some_iff] at he
      obtain ⟨-, text, -, rfl⟩ := he
      exact ⟨hc, by simp, h.queued, h.inConnect⟩
  | poll =>
      simp only [stepCaller] at he
      split at he
      · obtain rfl := Option.some.inj he
        split_ifs
        · exact ⟨h.client, by simp, h.queued, h.inConnect⟩
        · exact h
      · cases he
  | send mask answer =>
      obtain ⟨r, c, ret, -, hsend, rfl⟩ := stepCaller_send he
      obtain ⟨frames, hsends⟩ := Client.send_sends h.client hsend
      refine ⟨hc, by simp, ?_, ?_⟩
      · intro hloop
        exact hsends.state.trans (h.queued hloop)
      · intro hloop
        exact Sends.connected hsends (h.inConnect hloop)
  | _ => simp [stepCaller] at he

theorem step_sound {s s' : Session http} {a : Action} (h : s.Sound) (he : s.step a = some s')
    (hc : s'.client.Sound) : s'.Sound := by
  obtain he | he := step_cases he
  · exact stepCaller_sound h he hc
  · exact stepLoop_sound h he hc

/-- What a step emits before its operations, it emits on the way to them. -/
theorem entered_follows {s : Session http} (h : s.Sound) {a : Action}
    (hconn : ∀ randKey answer, a ≠ .onConnection randKey answer)
    (hsend : ∀ mask answer, a ≠ .send mask answer) :
    ∃ es, s.Loud a es ∧ s.client.Follows (s.entered a) es := by
  cases a with
  | onConnection randKey answer => exact absurd rfl (hconn randKey answer)
  | send mask answer => exact absurd rfl (hsend mask answer)
  | read data answers => exact ⟨_, rfl, Client.received_follows h.client data answers.garbage⟩
  | _ => exact ⟨[], rfl, .refl h.client⟩

/-- **What one step does** to the client, seen from the lifecycle. -/
theorem step_steps {s s' : Session http} {a : Action} (h : s.Sound) (he : s.step a = some s') :
    s.Steps a s' := by
  obtain ⟨es, fs, hloud, hquiet, hf⟩ : ∃ es fs, s.Loud a es ∧ Client.Quiet fs ∧
      s.client.Follows s'.client (es ++ fs) := by
    cases step_does h he with
    | asks randKey answer hloop =>
        have hf := Client.onConnection_follows h.client (h.inConnect hloop) randKey answer
        exact ⟨_, [], rfl, by simp [Client.Quiet], by simpa using hf⟩
    | sends hcaller hc =>
        obtain ⟨frames, hsends⟩ := Client.send_sends h.client hc
        exact ⟨_, [], ⟨_, frames, hcaller, rfl, hsends.first⟩, by simp [Client.Quiet],
          by simpa using hsends.follows⟩
    | operates hconn hsend hpath =>
        obtain ⟨es, hloud, hf⟩ := entered_follows h hconn hsend
        obtain ⟨fs, hf', hquiet⟩ := hpath.calm hf.sound
        exact ⟨es, fs, hloud, hquiet, hf.trans hf'⟩
  exact ⟨step_sound h he hf.sound, es, fs, hloud, hquiet, hf⟩

/-! ### Runs -/

theorem sound_invariant (http : Http) : (machine http).Invariant Sound where
  init := new_sound http
  step h he := (step_steps h he).1

/-- **Sessions follow the lifecycle.** -/
theorem simulation (http : Http) :
    Simulation (machine http) Sound Move (fun s => s.client.view) (fun s => s.client.log) where
  log_init := rfl
  step := by
    intro s a s' h he
    obtain ⟨-, es, fs, -, -, hf⟩ := step_steps h he
    exact ⟨es ++ fs, hf.log, hf.trail⟩

/-- **Every reachable session is safe.** -/
theorem safe {acts : List Action} {s : Session http} (hs : (machine http).exec acts = some s) :
    Safe s.client.log s.client.view :=
  .trail ((simulation http).exec (sound_invariant http) hs)

/-- **Each stage of a channel is reached at most once.** -/
theorem stages_once (r : (machine http).Run) : (r.final.client.log.filter Event.isStage).Nodup :=
  (safe r.exec_eq).once

/-! ### The stages and their causes -/

/-- The step gets the upgrade request of channel `id` written or queued. -/
def AsksUpgrade (id : ℕ) (s : Session http) (a : Action) : Prop :=
  s.client.chan = id ∧ ∃ randKey answer,
    a = .onConnection randKey answer ∧ s.client.upgradeTaken randKey answer = true

/-- The step reads the chunk that completes the handshake of channel `id`. -/
def CompletesHandshake (id : ℕ) (s : Session http) (a : Action) : Prop :=
  s.client.chan = id ∧ ∃ data answers, a = .read data answers ∧ s.client.completes data = true

/-- A stage is new in the log exactly if it is what the step emits. -/
theorem Steps.mem_log {s s' : Session http} {a : Action} (h : s.Steps a s') :
    ∃ es, s.Loud a es ∧ ∀ e : Event, (∀ id, e ≠ .onclose id) → (∀ id msg, e ≠ .onmessage id msg) →
      (e ∈ s'.client.log ↔ e ∈ s.client.log ∨ e ∈ es) := by
  obtain ⟨-, es, fs, hloud, hquiet, hf⟩ := h
  refine ⟨es, hloud, ?_⟩
  intro e hclose hmessage
  have hfs : e ∉ fs := by
    intro he
    obtain ⟨id, rfl | ⟨msg, rfl⟩⟩ := hquiet e he
    · exact hclose id rfl
    · exact hmessage id msg rfl
  simp [hf.log, hfs]

theorem Loud.upgradeWritten {s : Session http} {a : Action} {es : List Event} (h : s.Loud a es)
    (id : ℕ) : .upgradeWritten id ∈ es ↔ AsksUpgrade id s a := by
  unfold AsksUpgrade
  cases a with
  | onConnection randKey answer =>
      simp only [Loud] at h
      subst h
      split_ifs with hu <;> simp [hu, eq_comm (a := id)]
  | read data answers =>
      simp only [Loud] at h
      subst h
      split_ifs <;> simp
  | send mask answer =>
      obtain ⟨r, n, -, rfl, -⟩ := h
      simp
  | _ =>
      obtain rfl : es = [] := h
      simp

theorem Loud.onopen {s : Session http} {a : Action} {es : List Event} (h : s.Loud a es)
    (id : ℕ) : .onopen id ∈ es ↔ CompletesHandshake id s a := by
  unfold CompletesHandshake
  cases a with
  | onConnection randKey answer =>
      simp only [Loud] at h
      subst h
      split_ifs <;> simp
  | read data answers =>
      simp only [Loud] at h
      subst h
      split_ifs with hu <;> simp [hu, eq_comm (a := id)]
  | send mask answer =>
      obtain ⟨r, n, -, rfl, -⟩ := h
      simp
  | _ =>
      obtain rfl : es = [] := h
      simp

theorem Loud.ne_frame {s : Session http} {a : Action} {es : List Event} (h : s.Loud a es)
    (ha : ∀ mask answer, a ≠ .send mask answer) {e : Event} (he : e ∈ es) (id : ℕ) (state : State) :
    e ≠ .frame id state := by
  cases a with
  | onConnection randKey answer =>
      simp only [Loud] at h
      subst h
      split_ifs at he <;> simp_all
  | read data answers =>
      simp only [Loud] at h
      subst h
      split_ifs at he <;> simp_all
  | send mask answer => exact absurd rfl (ha mask answer)
  | _ =>
      obtain rfl : es = [] := h
      simp at he

/-- **The upgrade of a channel was asked for exactly if a step asked for it.** -/
theorem upgradeWritten_iff {acts : List Action} {s : Session http}
    (hs : (machine http).exec acts = some s) (id : ℕ) :
    .upgradeWritten id ∈ s.client.log ↔ (machine http).Happened acts (AsksUpgrade id) := by
  apply Machine.happened_iff (p := fun s => .upgradeWritten id ∈ s.client.log) _ _ hs
  · simp [machine, new, Client.new]
  · intro acts s a s' hs ha
    obtain ⟨es, hloud, hmem⟩ := (step_steps ((sound_invariant http).exec hs) ha).mem_log
    rw [hmem _ (by simp) (by simp), hloud.upgradeWritten]

/-- **A channel was opened exactly if a step completed its handshake.** -/
theorem onopen_iff {acts : List Action} {s : Session http}
    (hs : (machine http).exec acts = some s) (id : ℕ) :
    .onopen id ∈ s.client.log ↔ (machine http).Happened acts (CompletesHandshake id) := by
  apply Machine.happened_iff (p := fun s => .onopen id ∈ s.client.log) _ _ hs
  · simp [machine, new, Client.new]
  · intro acts s a s' hs ha
    obtain ⟨es, hloud, hmem⟩ := (step_steps ((sound_invariant http).exec hs) ha).mem_log
    rw [hmem _ (by simp) (by simp), hloud.onopen]

end Session

end OrderbookClient
