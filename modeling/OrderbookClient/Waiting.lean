import OrderbookClient.Simulation

/-! # Waiting for the response

Between its upgrade request and the end of the handshake a client keeps the request it sent, and an
HTTP parser that has been given nothing but what was read since.

* `step_waits`: what one step does to these.
* `waits_since`: what holds of them at any later point of a run. -/

namespace OrderbookClient

open Json Hv Runs

namespace Hv.Client

variable {http : Http}

/-- If `c'` waits for the response, then `c` did, with the same parser and the same request. -/
def Waits (c c' : Client http) : Prop :=
  c'.state = .wsUpgrading →
    c.state = .wsUpgrading ∧ c'.httpParser = c.httpParser ∧ c'.httpReq = c.httpReq

theorem Waits.refl (c : Client http) : c.Waits c := fun h => ⟨h, rfl, rfl⟩

theorem Waits.trans {c₁ c₂ c₃ : Client http} (h : c₁.Waits c₂) (h' : c₂.Waits c₃) : c₁.Waits c₃ := by
  intro hs
  obtain ⟨hs₂, hparser, hreq⟩ := h' hs
  obtain ⟨hs₁, hparser', hreq'⟩ := h hs₂
  exact ⟨hs₁, hparser.trans hparser', hreq.trans hreq'⟩

theorem Waits.of_ne {c c' : Client http} (h : c'.state ≠ .wsUpgrading) : c.Waits c' :=
  fun hs => absurd hs h

theorem Closes.waits {c c' : Client http} (h : c.Closes c') : c.Waits c' := by
  intro hs
  obtain hstate | hstate := h.state
  · exact ⟨hstate.symm.trans hs, h.httpParser, h.httpReq⟩
  · rw [hstate] at hs
    cases hs

theorem Op.waits {c c' : Client http} (hop : Op c c') : c.Waits c' := by
  cases hop with
  | aside ha => exact fun hs => ⟨ha.state.symm.trans hs, ha.httpParser, ha.httpReq⟩
  | hioClose => exact (hioClose_closes c _).waits
  | closeChannel => exact (closeChannel_closes c).waits
  | giveUp => exact .of_ne (by simp)
  | setUrl hstate => exact .of_ne (by simp [hstate])
  | dial _ hd => exact .of_ne (by simp [hd.state])
  | link | dropOnclose | control | flush | message => exact fun hs => ⟨hs, rfl, rfl⟩

theorem Path.waits {c c' : Client http} (hpath : Path c c') : c.Waits c' := by
  induction hpath with
  | refl => exact .refl c
  | tail _ hop ih => exact ih.trans hop.waits

theorem upgraded_state (c : Client http) (garbage : ℕ) : (c.upgraded garbage).state = .wsOpened := by
  unfold upgraded
  dsimp only
  split_ifs <;> rfl

/-- A chunk goes to the parser of a client that waits on. -/
theorem received_waits {c : Client http} {data : Bytes} {garbage : ℕ}
    (hs : (c.received data garbage).state = .wsUpgrading) : c.state = .wsUpgrading ∧
      (c.received data garbage).httpParser = (http.feedRecvData c.httpParser data).1 ∧
      (c.received data garbage).httpReq = c.httpReq := by
  unfold received at hs ⊢
  split_ifs at hs ⊢
  · simp [upgraded_state] at hs
  · unfold fed at hs ⊢
    split_ifs at hs ⊢ with hstate
    · exact ⟨hstate, rfl, rfl⟩
    · exact absurd hs hstate

/-- What `onConnection` leaves: the request it dumped, and a new parser. -/
theorem onConnection_waits (c : Client http) (randKey : Bytes) (answer : Nwrite)
    (hs : (c.onConnection randKey answer).state = .wsUpgrading) (hc : c.state ≠ .wsUpgrading) :
    (c.onConnection randKey answer).httpParser = http.newParser ∧
      (c.onConnection randKey answer).httpReq = some (c.upgradeRequest randKey).1 := by
  unfold onConnection at hs ⊢
  split at hs
  · exact absurd hs hc
  · next ch hch =>
      dsimp only at hs ⊢
      by_cases hconn : ch.startRead.isConnected = true
      · rw [if_pos hconn]
        exact ⟨rfl, rfl⟩
      · rw [if_neg hconn] at hs
        simp [onChannelClosed, emit] at hs

theorem send_waits {c c' : Client http} {msg : Bytes} {mask : ℕ → Mask} {answer : ℕ → Nwrite}
    {ret : ℤ} (h : c.send msg mask answer = some (c', ret)) : c.Waits c' := by
  unfold send at h
  split at h
  · obtain ⟨rfl, -⟩ := Prod.mk.inj (Option.some.inj h)
    exact .refl c
  · split_ifs at h
    obtain ⟨rfl, -⟩ := Prod.mk.inj (Option.some.inj h)
    exact fun h => ⟨h, rfl, rfl⟩

end Hv.Client

/-- What a step gives to the parser. -/
def Action.data : Action → List Bytes
  | .read data _ => [data]
  | _ => []

namespace Session

variable {http : Http}

/-! ### One step -/

/-- What was read. -/
def reads (acts : List Action) : List Bytes := acts.flatMap Action.data

/-- The parser, given some chunks. -/
def feedAll (parser : http.Parser) (chunks : List Bytes) : http.Parser :=
  chunks.foldl (fun parser data => (http.feedRecvData parser data).1) parser

theorem feedAll_append (parser : http.Parser) (chunks chunks' : List Bytes) :
    feedAll parser (chunks ++ chunks') = feedAll (feedAll parser chunks) chunks' :=
  List.foldl_append

/-- **One step** that does not ask for the upgrade. -/
theorem step_waits {s s' : Session http} {a : Action} (h : s.Sound) (he : s.step a = some s')
    (hconn : ∀ randKey answer, a ≠ .onConnection randKey answer)
    (hs : s'.client.state = .wsUpgrading) :
    s.client.state = .wsUpgrading ∧ s'.client.httpParser = feedAll s.client.httpParser a.data ∧
      s'.client.httpReq = s.client.httpReq := by
  cases step_does h he with
  | asks => exact absurd rfl (hconn _ _)
  | sends _ hc => exact Client.send_waits hc hs
  | operates _ _ hpath =>
      obtain ⟨hentered, hparser, hreq⟩ := hpath.waits hs
      rw [hparser, hreq]
      cases a with
      | read data answers => exact Client.received_waits hentered
      | _ => exact ⟨hentered, rfl, rfl⟩

/-- The step that asks for it. -/
theorem onConnection_step {s s' : Session http} {randKey : Bytes} {answer : Nwrite} (h : s.Sound)
    (he : s.step (.onConnection randKey answer) = some s') (hs : s'.client.state = .wsUpgrading) :
    s'.client.httpParser = http.newParser ∧
      s'.client.httpReq = some (s.client.upgradeRequest randKey).1 := by
  obtain ⟨hloop, rfl⟩ := step_onConnection he
  exact Client.onConnection_waits _ _ _ hs (by simp [(h.inConnect hloop).1])

/-! ### Runs -/

/-- No step asks for the upgrade. -/
def Unasked (acts : List Action) : Prop := ∀ randKey answer, .onConnection randKey answer ∉ acts

/-- **Since the upgrade was asked for**, the parser was given what was read, and nothing else. -/
theorem waits_since {pre post : List Action} {randKey : Bytes} {answer : Nwrite}
    {s₀ s : Session http} (hs₀ : (machine http).exec pre = some s₀)
    (hs : (machine http).exec (pre ++ [.onConnection randKey answer] ++ post) = some s)
    (hpost : Unasked post) (hstate : s.client.state = .wsUpgrading) :
    s.client.httpParser = feedAll http.newParser (reads post) ∧
      s.client.httpReq = some (s₀.client.upgradeRequest randKey).1 := by
  obtain ⟨t, ht⟩ := Machine.exec_append_some hs
  obtain ⟨s₁, hs₁, ha⟩ := (machine http).exec_concat_some ht
  obtain rfl : s₀ = s₁ := Option.some.inj (hs₀.symm.trans hs₁)
  refine Machine.exec_append_induction ht (P := fun acts u => Unasked acts →
    u.client.state = .wsUpgrading → u.client.httpParser = feedAll http.newParser (reads acts) ∧
      u.client.httpReq = some (s₀.client.upgradeRequest randKey).1) ?_ ?_ hs hpost hstate
  · intro _ hstate
    exact onConnection_step ((sound_invariant http).exec hs₀) ha hstate
  · intro acts u a u' hrun ih (he : u.step a = some u') hacts hstate
    have hconn : ∀ randKey answer, a ≠ .onConnection randKey answer := by
      rintro randKey answer rfl
      exact hacts randKey answer (by simp)
    obtain ⟨hu, hparser, hreq⟩ := step_waits ((sound_invariant http).exec hrun) he hconn hstate
    obtain ⟨hparser', hreq'⟩ := ih (fun randKey answer hmem => hacts randKey answer (by simp [hmem])) hu
    refine ⟨?_, hreq.trans hreq'⟩
    rw [hparser, hparser', ← feedAll_append]
    simp [reads]

/-- A client that waits has asked. -/
theorem waits_asked {acts : List Action} {s : Session http} (hs : (machine http).exec acts = some s) :
    s.client.state = .wsUpgrading → ∃ pre randKey answer post s₀,
      acts = pre ++ [.onConnection randKey answer] ++ post ∧ Unasked post ∧
        (machine http).exec pre = some s₀ := by
  refine Machine.exec_induction (P := fun acts s => s.client.state = .wsUpgrading →
    ∃ pre randKey answer post s₀, acts = pre ++ [Action.onConnection randKey answer] ++ post ∧
      Unasked post ∧ (machine http).exec pre = some s₀) ?_ ?_ hs
  · intro hbad
    cases hbad
  · intro acts s a s' hs ih (he : s.step a = some s') hstate
    by_cases hconn : ∃ randKey answer, a = .onConnection randKey answer
    · obtain ⟨randKey, answer, rfl⟩ := hconn
      exact ⟨acts, randKey, answer, [], s, by simp, by simp [Unasked], hs⟩
    · push Not at hconn
      have hwaits := (step_waits ((sound_invariant http).exec hs) he hconn hstate).1
      obtain ⟨pre, randKey, answer, post, s₀, rfl, hpost, hs₀⟩ := ih hwaits
      refine ⟨pre, randKey, answer, post ++ [a], s₀, by simp, ?_, hs₀⟩
      intro randKey' answer' hmem
      obtain hmem | hmem := List.mem_append.mp hmem
      · exact hpost _ _ hmem
      · exact hconn _ _ (List.mem_singleton.mp hmem).symm

/-- Nothing is read as an empty chunk. -/
theorem reads_ne {acts : List Action} {s : Session http} (hs : (machine http).exec acts = some s) :
    ∀ data ∈ reads acts, data ≠ [] := by
  refine Machine.exec_induction (P := fun acts _ => ∀ data ∈ reads acts, data ≠ []) ?_ ?_ hs
  · simp [reads]
  · intro acts s a s' _ ih (he : s.step a = some s') data hmem
    have hconcat : reads (acts ++ [a]) = reads acts ++ a.data := by simp [reads]
    rw [hconcat] at hmem
    obtain hmem | hmem := List.mem_append.mp hmem
    · exact ih data hmem
    · cases a with
      | read data' answers =>
          obtain rfl := List.mem_singleton.mp hmem
          have he' : s.stepLoop (.read data answers) = some s' := he
          simp only [stepLoop] at he'
          unfold onEvent at he'
          split at he'
          · cases he'
          · split_ifs at he' with henabled
            simpa using (Bool.and_eq_true_iff.mp henabled.2.2).2
      | _ => cases hmem

end Session

end OrderbookClient
