import OrderbookClient.Simulation

/-! # Subscriptions and their ids

Every `subscribe` that returns should have handed its request to a channel that accepted it, and
the ids of the accepted requests should be `0, 1, 2, …`.

`subscribe` does not look at what `send` returns: it counts the request and returns in any case.
`delivered_iff` says for which runs this does no harm: those in which each `send` finds a channel
that takes the whole message.  `lost_subscription` is a run in which one does not. -/

namespace OrderbookClient

open Json Hv Runs

/-! ### Accepted requests -/

/-- A channel accepted the bytes it was handed. -/
def Handoff.accepted (h : Handoff) : Bool := h.channel.isSome && 0 ≤ h.ret

/-- A channel accepted the whole request. -/
def Handoff.Whole (h : Handoff) : Prop := h.accepted = true ∧ h.buf = h.request.text

/-- The text of a request is what `subscribe` wrote for it. -/
def Request.Written (r : Request) : Prop := subscribeText r.id r.instruments = some r.text

namespace Session

variable {http : Http}

/-- The requests a channel accepted, in order. -/
def accepted (s : Session http) : List Handoff := s.handed.filter Handoff.accepted

/-- What `subscribe` owes its caller. -/
structure Delivered (s : Session http) : Prop where
  /-- Each call that returned handed its request to a channel that accepted it, once. -/
  once : s.accepted.map Handoff.request = s.returned
  /-- The bytes that were handed on are the request. -/
  whole : ∀ h ∈ s.accepted, h.buf = h.request.text
  /-- `m_request_id` counts the accepted requests. -/
  count : s.requestId = s.accepted.length
  /-- Their ids are `0, 1, 2, …`. -/
  ids : s.accepted.map (·.request.id) = (List.range s.accepted.length).map (fun i : ℕ => (i : ℤ))

instance (s : Session http) : Decidable s.Delivered :=
  decidable_of_iff (s.accepted.map Handoff.request = s.returned ∧
      (∀ h ∈ s.accepted, h.buf = h.request.text) ∧ s.requestId = s.accepted.length ∧
      s.accepted.map (·.request.id) = (List.range s.accepted.length).map (fun i : ℕ => (i : ℤ)))
    ⟨fun h => ⟨h.1, h.2.1, h.2.2.1, h.2.2.2⟩, fun h => ⟨h.once, h.whole, h.count, h.ids⟩⟩

/-! ### What `subscribe` keeps -/

/-- The `subscribe` calls of a schedule. -/
def subscribes (acts : List Action) : ℕ :=
  acts.countP (fun a => match a with
    | .subscribe _ => true
    | _ => false)

/-- The request the caller is busy with. -/
def Busy (s : Session http) (r : Request) : Prop := s.caller = .polling r ∨ s.caller = .sending r

/-- What `subscribe` keeps in any case, of the calls that returned and of the one under way. -/
structure Counts (acts : List Action) (s : Session http) : Prop where
  handed : s.handed.map Handoff.request = s.returned
  requestId : s.requestId = Int.bmod s.handed.length (2 ^ 32)
  ids : s.handed.map (·.request.id) =
    (List.range s.handed.length).map (fun i : ℕ => Int.bmod i (2 ^ 32))
  written : ∀ h ∈ s.handed, h.request.Written
  busy : ∀ r, s.Busy r → r.id = s.requestId ∧ s.handed.length < subscribes acts ∧ r.Written
  le : s.handed.length ≤ subscribes acts

theorem Counts.init (http : Http) : Counts [] (new http) where
  handed := rfl
  requestId := by simp [new]
  ids := rfl
  written := by simp [new]
  busy := by simp [new, Busy]
  le := by simp [new]

theorem subscribes_concat (acts : List Action) (a : Action) :
    subscribes acts ≤ subscribes (acts ++ [a]) := by
  unfold subscribes
  rw [List.countP_append]
  exact Nat.le_add_right _ _

theorem Counts.of_eq {acts : List Action} {s s' : Session http} (h : Counts acts s) (a : Action)
    (hhanded : s'.handed = s.handed) (hreturned : s'.returned = s.returned)
    (hid : s'.requestId = s.requestId) (hbusy : ∀ r, s'.Busy r → s.Busy r) :
    Counts (acts ++ [a]) s' := by
  have hle := subscribes_concat acts a
  refine ⟨?_, ?_, ?_, ?_, ?_, ?_⟩
  · rw [hhanded, hreturned, h.handed]
  · rw [hid, hhanded, h.requestId]
  · rw [hhanded, h.ids]
  · rw [hhanded]
    exact h.written
  · intro r hr
    obtain ⟨hrid, hlt, hwritten⟩ := h.busy r (hbusy r hr)
    rw [hid, hhanded]
    exact ⟨hrid, by omega, hwritten⟩
  · rw [hhanded]
    exact le_trans h.le hle

theorem stepLoop_caller {s s' : Session http} {a : Action} (he : s.stepLoop a = some s') :
    s'.handed = s.handed ∧ s'.returned = s.returned ∧ s'.requestId = s.requestId ∧
      s'.caller = s.caller := by
  have hevent : ∀ {enabled f}, s.onEvent enabled f = some s' → s'.handed = s.handed ∧
      s'.returned = s.returned ∧ s'.requestId = s.requestId ∧ s'.caller = s.caller := by
    intro enabled f hf
    obtain ⟨-, c, -, rfl⟩ := onEvent_some hf
    exact ⟨rfl, rfl, rfl, rfl⟩
  cases a with
  | startConnect connfd answer =>
      simp only [stepLoop, Option.ite_none_right_eq_some, Option.some.injEq] at he
      obtain ⟨-, rfl⟩ := he
      exact ⟨rfl, rfl, rfl, rfl⟩
  | dial answer =>
      simp only [stepLoop, Option.ite_none_right_eq_some, Option.map_eq_some_iff] at he
      obtain ⟨-, _, -, rfl⟩ := he
      exact ⟨rfl, rfl, rfl, rfl⟩
  | onConnection randKey answer =>
      simp only [stepLoop, Option.ite_none_right_eq_some, Option.some.injEq] at he
      obtain ⟨-, rfl⟩ := he
      exact ⟨rfl, rfl, rfl, rfl⟩
  | connect | subscribe | poll | send => simp [stepLoop] at he
  | _ =>
      simp only [stepLoop] at he
      exact hevent he

theorem Counts.stepCaller {acts : List Action} {s s' : Session http} {a : Action}
    (h : Counts acts s) (he : s.stepCaller a = some s') : Counts (acts ++ [a]) s' := by
  cases a with
  | connect url connfd =>
      simp only [Session.stepCaller, Option.ite_none_right_eq_some, Option.some.injEq] at he
      obtain ⟨-, rfl⟩ := he
      exact h.of_eq _ rfl rfl rfl (by simp [Busy])
  | subscribe instruments =>
      simp only [Session.stepCaller, Option.ite_none_right_eq_some, Option.map_eq_some_iff] at he
      obtain ⟨-, text, htext, rfl⟩ := he
      have hmore : subscribes (acts ++ [.subscribe instruments]) = subscribes acts + 1 := by
        simp [subscribes, List.countP_append]
      refine ⟨h.handed, h.requestId, h.ids, h.written, ?_, ?_⟩
      · rintro r (hr | hr)
        · obtain rfl := Caller.polling.inj hr
          rw [hmore]
          exact ⟨rfl, Nat.lt_succ_of_le h.le, htext⟩
        · cases hr
      · rw [hmore]
        exact Nat.le_succ_of_le h.le
  | poll =>
      simp only [Session.stepCaller] at he
      split at he
      · next r hr =>
          obtain rfl := Option.some.inj he
          split_ifs
          · refine h.of_eq _ rfl rfl rfl ?_
            rintro r' (hr' | hr')
            · cases hr'
            · obtain rfl := Caller.sending.inj hr'
              exact .inl hr
          · exact h.of_eq _ rfl rfl rfl (fun _ => id)
      · cases he
  | send mask answer =>
      obtain ⟨r, c, ret, hcaller, -, rfl⟩ := stepCaller_send he
      obtain ⟨hid, hlt, hwritten⟩ := h.busy r (.inr hcaller)
      have hle := subscribes_concat acts (.send mask answer)
      refine ⟨?_, ?_, ?_, ?_, by simp [Busy], ?_⟩
      · simp [h.handed]
      · simp [h.requestId]
      · simp [List.range_succ, h.ids, hid, h.requestId]
      · intro handoff hmem
        obtain hmem | hmem := List.mem_append.mp hmem
        · exact h.written handoff hmem
        · obtain rfl := List.mem_singleton.mp hmem
          exact hwritten
      · simp only [List.length_append, List.length_singleton]
        omega
  | startConnect | dial | onConnection | connectTimeout | read | readEnd | readError | writable |
    closeEvent | closeTimeout | heartbeat => simp [Session.stepCaller] at he

theorem step_handed {s s' : Session http} {a : Action} (he : s.step a = some s')
    (ha : ∀ mask answer, a ≠ .send mask answer) : s'.handed = s.handed := by
  obtain he | he := step_cases he
  · cases a with
    | connect url connfd =>
        simp only [Session.stepCaller, Option.ite_none_right_eq_some, Option.some.injEq] at he
        obtain ⟨-, rfl⟩ := he
        rfl
    | subscribe instruments =>
        simp only [Session.stepCaller, Option.ite_none_right_eq_some, Option.map_eq_some_iff] at he
        obtain ⟨-, _, -, rfl⟩ := he
        rfl
    | poll =>
        simp only [Session.stepCaller] at he
        split at he
        · obtain rfl := Option.some.inj he
          split_ifs <;> rfl
        · cases he
    | send mask answer => exact absurd rfl (ha mask answer)
    | _ => simp [Session.stepCaller] at he
  · exact (stepLoop_caller he).1

theorem Counts.step {acts : List Action} {s s' : Session http} {a : Action} (h : Counts acts s)
    (he : s.step a = some s') : Counts (acts ++ [a]) s' := by
  obtain he | he := step_cases he
  · exact h.stepCaller he
  · obtain ⟨hhanded, hreturned, hid, hcaller⟩ := stepLoop_caller he
    refine h.of_eq _ hhanded hreturned hid ?_
    intro r hr
    unfold Busy at hr ⊢
    rwa [hcaller] at hr

theorem counts (r : (machine http).Run) : Counts r.acts r.final := by
  apply Machine.exec_induction (P := Counts) (.init http) _ r.exec_eq
  intro acts s a s' _ h ha
  exact h.step ha

/-! ### When all is accepted -/

/-- With fewer than `2 ^ 31` calls, `subscribe` keeps its promise exactly if every request was
accepted as a whole. -/
theorem Counts.delivered_iff_whole {acts : List Action} {s : Session http} (h : Counts acts s)
    (hlt : subscribes acts < 2 ^ 31) : s.Delivered ↔ ∀ h ∈ s.handed, h.Whole := by
  constructor
  · intro hd
    have hlength : s.accepted.length = s.handed.length := by
      have := congrArg List.length (hd.once.trans h.handed.symm)
      simpa using this
    have hall : s.accepted = s.handed :=
      List.filter_eq_self.mpr (List.length_filter_eq_length_iff.mp hlength)
    intro handoff hmem
    rw [← hall] at hmem
    exact ⟨(List.mem_filter.mp hmem).2, hd.whole handoff hmem⟩
  · intro hw
    have hall : s.accepted = s.handed := List.filter_eq_self.mpr (fun handoff hmem => (hw handoff hmem).1)
    have hbmod : ∀ i : ℕ, i ≤ s.handed.length → Int.bmod i (2 ^ 32) = i := by
      intro i hi
      have := h.le
      exact bmod_of_lt (by omega)
    refine ⟨?_, ?_, ?_, ?_⟩
    · rw [hall, h.handed]
    · rw [hall]
      exact fun handoff hmem => (hw handoff hmem).2
    · rw [hall, h.requestId, hbmod _ le_rfl]
    · rw [hall, h.ids]
      apply List.map_congr_left
      intro i hi
      exact hbmod i (List.mem_range.mp hi).le

/-- The caller's `send` finds a channel that takes the whole request. -/
def SendsTaken (_ : List Action) (s : Session http) (a : Action) : Prop :=
  ∀ r mask answer, s.caller = .sending r → a = .send mask answer →
    r.text.length < 2 ^ 31 ∧ s.client.takesMessage r.text.length answer = true

/-- A handoff is whole exactly if the channel took the whole request. -/
theorem whole_iff {c c' : Client http} (h : c.Sound) {r : Request} {mask : ℕ → Mask}
    {answer : ℕ → Nwrite} {ret : ℤ} (he : c.send r.text mask answer = some (c', ret)) :
    Handoff.Whole ⟨c.channel.map Channel.id, r, Client.sentBytes r.text, ret⟩ ↔
      r.text.length < 2 ^ 31 ∧ c.takesMessage r.text.length answer = true := by
  obtain ⟨frames, hsends⟩ := Client.send_sends h he
  cases hch : c.channel with
  | none => simp [Handoff.Whole, Handoff.accepted, Client.takesMessage, hch]
  | some ch =>
      have hbuf := Client.sentBytes_eq_iff (Client.sentSize_nonneg hch he)
      have hall : r.text.length < 2 ^ 31 →
          (0 ≤ ret ↔ c.takesMessage r.text.length answer = true) := by
        intro hlen
        have := hsends.all
        rwa [Client.sentSize_of_lt hlen, Int.toNat_natCast] at this
      simp only [Handoff.Whole, Handoff.accepted, hbuf, Option.map_some, Option.isSome_some,
        Bool.true_and, decide_eq_true_eq]
      constructor
      · rintro ⟨hret, hlen⟩
        exact ⟨hlen, (hall hlen).mp hret⟩
      · rintro ⟨hlen, htakes⟩
        exact ⟨(hall hlen).mpr htakes, hlen⟩

/-- **One step.**  A `send` keeps the promise exactly if its channel takes the request. -/
theorem whole_step {acts : List Action} {s s' : Session http} {a : Action}
    (hs : (machine http).exec acts = some s) (he : s.step a = some s') :
    (∀ h ∈ s'.handed, h.Whole) ↔ (∀ h ∈ s.handed, h.Whole) ∧ SendsTaken acts s a := by
  by_cases ha : ∃ mask answer, a = .send mask answer
  · obtain ⟨mask, answer, rfl⟩ := ha
    obtain ⟨r, c, ret, hcaller, hc, rfl⟩ := stepCaller_send he
    have hwhole := whole_iff ((sound_invariant http).exec hs).client hc
    simp only [List.mem_append, List.mem_singleton, or_imp, forall_and, forall_eq, hwhole]
    apply and_congr_right
    intro _
    constructor
    · intro h r' mask' answer' hr' heq
      obtain rfl : r = r' := by simpa using hcaller.symm.trans hr'
      obtain ⟨rfl, rfl⟩ : mask = mask' ∧ answer = answer' := by simpa using heq
      exact h
    · intro h
      exact h r mask answer hcaller rfl
  · push Not at ha
    rw [step_handed he ha, and_iff_left]
    intro r mask answer _ heq
    exact absurd heq (ha mask answer)

/-- **When every subscription is delivered.** -/
theorem delivered_iff (http : Http) (r : (machine http).Run) (h : subscribes r.acts < 2 ^ 31) :
    r.final.Delivered ↔ (machine http).Throughout r.acts SendsTaken := by
  rw [(counts r).delivered_iff_whole h]
  apply Machine.throughout_iff (p := fun s => ∀ h ∈ s.handed, h.Whole) _ _ r.exec_eq
  · simp [machine, new]
  · intro acts s a s' hs ha
    exact whole_step hs ha

/-- Two subscriptions behind the handshake are taken by the kernel. -/
def deliveredSchedule : List Action :=
  mainConnects ++ mainUpgrades ++ mainSubscribes ++ [.send (fun _ _ => 7) (fun _ => .wrote 1024)] ++
    mainSubscribes ++ [.send (fun _ _ => 9) (fun _ => .wrote 1024)]

theorem deliveredSchedule_runs : ((machine plainHttp).exec deliveredSchedule).isSome := by
  decide +kernel

def deliveredRun : (machine plainHttp).Run := .ofIsSome deliveredSchedule deliveredSchedule_runs

theorem delivered_main : subscribes deliveredRun.acts < 2 ^ 31 ∧ deliveredRun.final.Delivered ∧
    (machine plainHttp).Throughout deliveredRun.acts SendsTaken := by
  have hcount : subscribes deliveredRun.acts < 2 ^ 31 := by decide +kernel
  have hdelivered : deliveredRun.final.Delivered := by decide +kernel
  exact ⟨hcount, hdelivered, (delivered_iff plainHttp deliveredRun hcount).mp hdelivered⟩

/-! ### A subscription that is lost -/

/-- The peer closes between the poll and the `send`. -/
def lostSchedule : List Action :=
  mainConnects ++ [.onConnection (ascii "0123456789abcdef") (.wrote 1024)] ++ mainSubscribes ++
    [.readEnd, .send (fun _ _ => 7) (fun _ => .wrote 1024)]

theorem lostSchedule_runs : ((machine plainHttp).exec lostSchedule).isSome := by
  decide +kernel

def lostRun : (machine plainHttp).Run := .ofIsSome lostSchedule lostSchedule_runs

/-- **`subscribe` returns and counts its request, and no channel took it.** -/
theorem lost_subscription : ¬ ∀ (http : Http) (r : (machine http).Run),
    subscribes r.acts < 2 ^ 31 → r.final.Delivered := by
  intro h
  have hcount : subscribes lostRun.acts < 2 ^ 31 := by decide +kernel
  have hlost : ¬ lostRun.final.Delivered := by decide +kernel
  exact hlost (h plainHttp lostRun hcount)

end Session

end OrderbookClient
