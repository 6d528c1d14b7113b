import OrderbookClient.Simulation

/-! # Subscriptions and the handshake

A subscription should reach a channel only behind its handshake: after the upgrade request, after
the response that switches protocols, and while the client is in state `WS_OPENED`.

`subscribe` waits for `isConnected()`, which is the status of the TCP connection.
`handshakeFirst_iff` says for which runs this is enough: those in which the loop has asked for the
upgrade and completed the handshake of the current channel before each `send` that gets a frame
onto it.  `early_subscription` is a run in which it is not. -/

namespace OrderbookClient

open Json Hv Runs

/-! ### The order of the log -/

/-- Every frame follows the upgrade request and the handshake of its channel, and was sent while
the client was in state `WS_OPENED`. -/
def HandshakeFirst (log : List Event) : Prop :=
  ∀ pre post id state, log = pre ++ .frame id state :: post →
    .upgradeWritten id ∈ pre ∧ .onopen id ∈ pre ∧ state = .wsOpened

theorem handshakeFirst_nil : HandshakeFirst [] := by
  intro pre post id state h
  simp at h

theorem handshakeFirst_concat (log : List Event) (e : Event) :
    HandshakeFirst (log ++ [e]) ↔ HandshakeFirst log ∧ ∀ id state, e = .frame id state →
      .upgradeWritten id ∈ log ∧ .onopen id ∈ log ∧ state = .wsOpened := by
  constructor
  · intro h
    constructor
    · intro pre post id state hlog
      exact h pre (post ++ [e]) id state (by simp [hlog])
    · rintro id state rfl
      exact h log [] id state rfl
  · rintro ⟨h, he⟩ pre post id state hlog
    obtain ⟨rfl, rfl, -⟩ | ⟨post', rfl, -⟩ := Machine.concat_eq_append_cons hlog
    · exact he id state rfl
    · exact h pre post' id state rfl

theorem handshakeFirst_append {es : List Event} (hes : ∀ e ∈ es, ∀ id state, e ≠ .frame id state)
    (log : List Event) : HandshakeFirst (log ++ es) ↔ HandshakeFirst log := by
  induction es using List.reverseRecOn with
  | nil => simp
  | append_singleton es e ih =>
      have hlast : ∀ id state, e ≠ .frame id state := hes e (by simp)
      rw [← List.append_assoc, handshakeFirst_concat, ih (fun e he => hes e (by simp [he]))]
      simp [hlast]

/-- The frames of one message stand or fall together. -/
theorem handshakeFirst_frames (log : List Event) (id : ℕ) (state : State) (n : ℕ) :
    HandshakeFirst (log ++ List.replicate n (.frame id state)) ↔ HandshakeFirst log ∧
      (0 < n → .upgradeWritten id ∈ log ∧ .onopen id ∈ log ∧ state = .wsOpened) := by
  induction n with
  | zero => simp
  | succ n ih =>
      have hupgrade : .upgradeWritten id ∈ log ++ List.replicate n (.frame id state) ↔
          .upgradeWritten id ∈ log := by
        simp [List.mem_replicate]
      have honopen : .onopen id ∈ log ++ List.replicate n (.frame id state) ↔
          .onopen id ∈ log := by
        simp [List.mem_replicate]
      rw [List.replicate_succ', ← List.append_assoc, handshakeFirst_concat, ih]
      simp only [Event.frame.injEq, and_imp, forall_apply_eq_imp_iff, forall_eq', hupgrade, honopen,
        Nat.succ_pos, forall_const]
      tauto

namespace Session

variable {http : Http}

/-! ### One step -/

/-- Behind `acts`, the caller's `send` gets a frame onto its channel only if the loop has asked for
the upgrade of this channel and completed its handshake. -/
def SendsBehindHandshake (acts : List Action) (s : Session http) (a : Action) : Prop :=
  ∀ r mask answer, s.caller = .sending r → a = .send mask answer →
    s.client.takesFirst (Client.sentSize r.text).toNat (answer 0) = true →
      (machine http).Happened acts (AsksUpgrade s.client.chan) ∧
        (machine http).Happened acts (CompletesHandshake s.client.chan)

theorem SendsBehindHandshake.of_ne {acts : List Action} {s : Session http} {a : Action}
    (h : ∀ mask answer, a ≠ .send mask answer) : SendsBehindHandshake acts s a := by
  intro r mask answer _ ha
  exact absurd ha (h mask answer)

theorem writable_of_takesFirst {c : Client http} {len : ℕ} {answer : Nwrite}
    (h : c.takesFirst len answer = true) : c.view.writable = true := by
  unfold Client.takesFirst at h
  unfold Client.view
  cases hch : c.channel with
  | none => simp [hch] at h
  | some ch =>
      simp only [hch, Bool.and_eq_true] at h
      simpa using h.1

theorem handshakeFirst_step_of_ne {acts : List Action} {s s' : Session http} {a : Action}
    (h : s.Steps a s') (ha : ∀ mask answer, a ≠ .send mask answer) :
    HandshakeFirst s'.client.log ↔
      HandshakeFirst s.client.log ∧ SendsBehindHandshake acts s a := by
  obtain ⟨-, es, fs, hloud, hquiet, hf⟩ := h
  have hnone : ∀ e ∈ es ++ fs, ∀ id state, e ≠ .frame id state := by
    intro e he id state
    obtain he | he := List.mem_append.mp he
    · exact hloud.ne_frame ha he id state
    · obtain ⟨_, rfl | ⟨_, rfl⟩⟩ := hquiet e he <;> simp
  rw [hf.log, handshakeFirst_append hnone, and_iff_left (.of_ne ha)]

/-- **One step.**  The frames of a `send` are in order exactly if the loop was there first. -/
theorem handshakeFirst_step {acts : List Action} {s s' : Session http} {a : Action}
    (hs : (machine http).exec acts = some s) (he : s.step a = some s') :
    HandshakeFirst s'.client.log ↔
      HandshakeFirst s.client.log ∧ SendsBehindHandshake acts s a := by
  have hsteps := step_steps ((sound_invariant http).exec hs) he
  by_cases ha : ∃ mask answer, a = .send mask answer
  · obtain ⟨mask, answer, rfl⟩ := ha
    obtain ⟨-, es, fs, ⟨r, n, hcaller, rfl, hfirst⟩, hquiet, hf⟩ := hsteps
    have hnone : ∀ e ∈ fs, ∀ id state, e ≠ .frame id state := by
      intro e he id state
      obtain ⟨_, rfl | ⟨_, rfl⟩⟩ := hquiet e he <;> simp
    rw [hf.log, ← List.append_assoc, handshakeFirst_append hnone, handshakeFirst_frames, hfirst,
      upgradeWritten_iff hs, onopen_iff hs]
    apply and_congr_right
    intro _
    constructor
    · rintro h r' mask' answer' hr' heq htakes
      obtain rfl : r = r' := by simpa using hcaller.symm.trans hr'
      obtain ⟨rfl, rfl⟩ : mask = mask' ∧ answer = answer' := by simpa using heq
      exact ⟨(h htakes).1, (h htakes).2.1⟩
    · intro h htakes
      obtain ⟨hasks, hcompletes⟩ := h r mask answer hcaller rfl htakes
      -- a channel that was opened and still takes writes is that of a client in `WS_OPENED`
      have hopen := (safe hs).opened_of_writable ((onopen_iff hs _).mpr hcompletes)
        (writable_of_takesFirst htakes)
      exact ⟨hasks, hcompletes, hopen⟩
  · push Not at ha
    exact handshakeFirst_step_of_ne hsteps ha

/-! ### Runs -/

/-- **When subscriptions follow the handshake.** -/
theorem handshakeFirst_iff (http : Http) (r : (machine http).Run) :
    HandshakeFirst r.final.client.log ↔
      (machine http).Throughout r.acts SendsBehindHandshake := by
  apply Machine.throughout_iff (p := fun s => HandshakeFirst s.client.log) _ _ r.exec_eq
  · exact handshakeFirst_nil
  · intro acts s a s' hs ha
    exact handshakeFirst_step hs ha

example : ((machine plainHttp).exec (mainConnects ++ mainUpgrades ++ mainSubscribes ++
    [.send (fun _ _ => 7) (fun _ => .wrote 1024)])).map (·.client.log) =
      some [.upgradeWritten 1, .onopen 1, .frame 1 .wsOpened] := by
  decide +kernel

/-! ### A subscription before the upgrade request -/

/-- `main` polls and sends between the store of the status `CONNECTED` and `onConnection`. -/
def earlySchedule : List Action :=
  mainConnects ++ mainSubscribes ++ [.send (fun _ _ => 7) (fun _ => .wrote 1024)]

theorem earlySchedule_runs : ((machine plainHttp).exec earlySchedule).isSome := by
  decide +kernel

def earlyRun : (machine plainHttp).Run := .ofIsSome earlySchedule earlySchedule_runs

/-- **The frame is on the channel and the upgrade request is not.** -/
theorem early_subscription : ¬ ∀ (http : Http) (r : (machine http).Run),
    HandshakeFirst r.final.client.log := by
  intro h
  have hlog : earlyRun.final.client.log = [.frame 1 .connecting] := by decide +kernel
  have hfirst := h plainHttp earlyRun
  rw [hlog] at hfirst
  have := hfirst [] [] 1 .connecting rfl
  simp at this

end Session

end OrderbookClient
