import Mathlib.Data.List.Induction
import Mathlib.Logic.Basic

/-! # Runs of a scheduled machine

A machine takes one step for each action of a schedule, and an action that is not enabled has
no successor.  The scheduler is arbitrary, so a theorem about every `Run` is a theorem about
every interleaving.

* `Invariant.exec`: an inductive invariant holds at the end of every run.
* `happened_iff`: a stable fact holds at the end exactly if a step that causes it happened.
* `throughout_iff`: a safety property that each step keeps or breaks holds at the end exactly
  if no step broke it.
* `Simulation.exec`: if each step follows a trail of abstract moves, so does each run, with the
  same events; `Trail.invariant` is the invariant rule for the abstract moves. -/

namespace OrderbookClient.Runs

/-- A deterministic machine driven by a schedule. -/
structure Machine (σ α : Type) where
  init : σ
  /-- `none`: the action is not enabled. -/
  step : σ → α → Option σ

namespace Machine

variable {σ α : Type} (m : Machine σ α)

/-- The state after a schedule, if every action of it was enabled. -/
def exec (acts : List α) : Option σ := acts.foldlM m.step m.init

@[simp] theorem exec_nil : m.exec [] = some m.init := rfl

theorem exec_concat (acts : List α) (a : α) :
    m.exec (acts ++ [a]) = (m.exec acts).bind (fun s => m.step s a) := by
  unfold exec
  rw [List.foldlM_append]
  congr 1
  funext s
  simp

theorem exec_concat_some {acts : List α} {a : α} {s' : σ} (h : m.exec (acts ++ [a]) = some s') :
    ∃ s, m.exec acts = some s ∧ m.step s a = some s' := by
  rw [exec_concat] at h
  exact Option.bind_eq_some_iff.mp h

/-- A schedule all of whose actions were enabled, with the state it reaches. -/
structure Run where
  acts : List α
  final : σ
  exec_eq : m.exec acts = some final

variable {m}

/-- The run of a schedule that can be run. -/
def Run.ofIsSome (acts : List α) (h : (m.exec acts).isSome) : m.Run :=
  ⟨acts, (m.exec acts).get h, (Option.some_get h).symm⟩

/-- Induction over a run from the point it reaches after `pre`. -/
theorem exec_append_induction {pre : List α} {s : σ} (hs : m.exec pre = some s)
    {P : List α → σ → Prop} (base : P [] s)
    (step : ∀ acts t a t', m.exec (pre ++ acts) = some t → P acts t → m.step t a = some t' →
      P (acts ++ [a]) t') {acts : List α} : ∀ {t : σ}, m.exec (pre ++ acts) = some t → P acts t := by
  induction acts using List.reverseRecOn with
  | nil =>
      intro t h
      rw [List.append_nil] at h
      obtain rfl : s = t := Option.some.inj (hs.symm.trans h)
      exact base
  | append_singleton acts a ih =>
      intro t' h
      rw [← List.append_assoc] at h
      obtain ⟨t, ht, ha⟩ := m.exec_concat_some h
      exact step acts t a t' ht (ih ht) ha

/-- Induction over a run, from its first action to its last. -/
theorem exec_induction {P : List α → σ → Prop} (init : P [] m.init)
    (step : ∀ acts s a s', m.exec acts = some s → P acts s → m.step s a = some s' →
      P (acts ++ [a]) s') {acts : List α} {s : σ} (h : m.exec acts = some s) : P acts s :=
  exec_append_induction m.exec_nil init step h

/-- A schedule can only be run if its beginnings can. -/
theorem exec_append_some {pre post : List α} {s : σ} (h : m.exec (pre ++ post) = some s) :
    ∃ t, m.exec pre = some t := by
  unfold exec at h ⊢
  rw [List.foldlM_append] at h
  obtain ⟨t, ht, -⟩ := Option.bind_eq_some_iff.mp h
  exact ⟨t, ht⟩

/-! ### Invariants -/

variable (m) in
/-- An inductive invariant. -/
structure Invariant (I : σ → Prop) : Prop where
  init : I m.init
  step : ∀ {s a s'}, I s → m.step s a = some s' → I s'

theorem Invariant.exec {I : σ → Prop} (h : m.Invariant I) {acts : List α} {s : σ}
    (hs : m.exec acts = some s) : I s := by
  apply exec_induction (P := fun _ s => I s) h.init _ hs
  intro _ _ _ _ _ hi ha
  exact h.step hi ha

/-! ### Causes -/

variable (m) in
/-- Somewhere in the schedule a step satisfied `Q`, taken on its action and the state before. -/
def Happened (acts : List α) (Q : σ → α → Prop) : Prop :=
  ∃ pre a post s, acts = pre ++ a :: post ∧ m.exec pre = some s ∧ Q s a

variable (m) in
/-- Each step of the schedule satisfied `Q`, taken on the actions before it, the state before it
and its action. -/
def Throughout (acts : List α) (Q : List α → σ → α → Prop) : Prop :=
  ∀ pre a post s, acts = pre ++ a :: post → m.exec pre = some s → Q pre s a

/-- Where the last action of a schedule stands in a division of it. -/
theorem concat_eq_append_cons {acts pre post : List α} {a b : α}
    (h : acts ++ [a] = pre ++ b :: post) :
    (acts = pre ∧ a = b ∧ post = []) ∨ ∃ post', acts = pre ++ b :: post' ∧ post = post' ++ [a] := by
  induction post using List.reverseRecOn with
  | nil =>
      obtain ⟨h1, h2⟩ := List.append_inj' h rfl
      exact .inl ⟨h1, List.singleton_inj.mp h2, rfl⟩
  | append_singleton post c _ =>
      rw [← List.cons_append, ← List.append_assoc] at h
      obtain ⟨h1, h2⟩ := List.append_inj' h rfl
      obtain rfl : a = c := List.singleton_inj.mp h2
      exact .inr ⟨post, h1, rfl⟩

theorem not_happened_nil (Q : σ → α → Prop) : ¬ m.Happened [] Q := by
  rintro ⟨pre, a, post, s, h, -⟩
  simp at h

theorem happened_concat {acts : List α} {s : σ} (hs : m.exec acts = some s) (a : α)
    (Q : σ → α → Prop) : m.Happened (acts ++ [a]) Q ↔ m.Happened acts Q ∨ Q s a := by
  constructor
  · rintro ⟨pre, b, post, t, h, ht, hq⟩
    obtain ⟨rfl, rfl, -⟩ | ⟨post', rfl, -⟩ := concat_eq_append_cons h
    · obtain rfl : s = t := Option.some.inj (hs.symm.trans ht)
      exact .inr hq
    · exact .inl ⟨pre, b, post', t, rfl, ht, hq⟩
  · rintro (⟨pre, b, post, t, rfl, ht, hq⟩ | hq)
    · exact ⟨pre, b, post ++ [a], t, by simp, ht, hq⟩
    · exact ⟨acts, a, [], s, rfl, hs, hq⟩

theorem throughout_nil (Q : List α → σ → α → Prop) : m.Throughout [] Q := by
  intro pre a post s h
  simp at h

theorem throughout_concat {acts : List α} {s : σ} (hs : m.exec acts = some s) (a : α)
    (Q : List α → σ → α → Prop) :
    m.Throughout (acts ++ [a]) Q ↔ m.Throughout acts Q ∧ Q acts s a := by
  constructor
  · intro h
    constructor
    · intro pre b post t hb ht
      exact h pre b (post ++ [a]) t (by simp [hb]) ht
    · exact h acts a [] s rfl hs
  · rintro ⟨h, hq⟩ pre b post t hb ht
    obtain ⟨rfl, rfl, -⟩ | ⟨post', rfl, -⟩ := concat_eq_append_cons hb
    · obtain rfl : s = t := Option.some.inj (hs.symm.trans ht)
      exact hq
    · exact h pre b post' t rfl ht

/-- **A stable fact has a cause.** -/
theorem happened_iff {p : σ → Prop} {Q : σ → α → Prop} (init : ¬ p m.init)
    (step : ∀ acts s a s', m.exec acts = some s → m.step s a = some s' → (p s' ↔ p s ∨ Q s a))
    {acts : List α} {s : σ} (hs : m.exec acts = some s) : p s ↔ m.Happened acts Q := by
  apply exec_induction (P := fun acts s => p s ↔ m.Happened acts Q) _ _ hs
  · exact iff_of_false init (not_happened_nil Q)
  · intro acts s a s' hs ih ha
    rw [step acts s a s' hs ha, happened_concat hs, ih]

/-- **A safety property holds exactly if no step broke it.** -/
theorem throughout_iff {p : σ → Prop} {Q : List α → σ → α → Prop} (init : p m.init)
    (step : ∀ acts s a s', m.exec acts = some s → m.step s a = some s' →
      (p s' ↔ p s ∧ Q acts s a)) {acts : List α} {s : σ} (hs : m.exec acts = some s) :
    p s ↔ m.Throughout acts Q := by
  apply exec_induction (P := fun acts s => p s ↔ m.Throughout acts Q) _ _ hs
  · exact iff_of_true init (throughout_nil Q)
  · intro acts s a s' hs ih ha
    rw [step acts s a s' hs ha, throughout_concat hs, ih]

end Machine

/-! ### Abstract moves and simulation -/

variable {σ α τ ε : Type}

/-- Finitely many moves in a row, with the events they emit. -/
inductive Trail (move : τ → List ε → τ → Prop) : τ → List ε → τ → Prop
  | refl (t : τ) : Trail move t [] t
  | concat {t u v : τ} {es fs : List ε} : Trail move t es u → move u fs v → Trail move t (es ++ fs) v

namespace Trail

variable {move : τ → List ε → τ → Prop}

theorem single {t u : τ} {es : List ε} (h : move t es u) : Trail move t es u := by
  simpa using (Trail.refl t).concat h

theorem trans {t u v : τ} {es fs : List ε} (h : Trail move t es u) (h' : Trail move u fs v) :
    Trail move t (es ++ fs) v := by
  induction h' with
  | refl => simpa using h
  | concat _ hm ih =>
      rw [← List.append_assoc]
      exact ih.concat hm

/-- The invariant rule: what holds of the events so far and the state, and is kept by a move. -/
theorem invariant {I : List ε → τ → Prop} {t u : τ} {es : List ε} (h : Trail move t es u)
    (step : ∀ es u fs v, I es u → move u fs v → I (es ++ fs) v) (init : I [] t) : I es u := by
  induction h with
  | refl => exact init
  | concat _ hm ih => exact step _ _ _ _ ih hm

end Trail

/-- Each step of the machine, taken where `I` holds, is a trail of abstract moves between the
views of the two states and emits the events it adds to the log. -/
structure Simulation (m : Machine σ α) (I : σ → Prop) (move : τ → List ε → τ → Prop)
    (view : σ → τ) (log : σ → List ε) : Prop where
  log_init : log m.init = []
  step : ∀ {s a s'}, I s → m.step s a = some s' →
    ∃ es, log s' = log s ++ es ∧ Trail move (view s) es (view s')

/-- **A simulation of steps is a simulation of runs.** -/
theorem Simulation.exec {m : Machine σ α} {I : σ → Prop} {move : τ → List ε → τ → Prop}
    {view : σ → τ} {log : σ → List ε} (h : Simulation m I move view log) (hI : m.Invariant I)
    {acts : List α} {s : σ} (hs : m.exec acts = some s) :
    Trail move (view m.init) (log s) (view s) := by
  apply Machine.exec_induction (P := fun _ s => Trail move (view m.init) (log s) (view s)) _ _ hs
  · rw [h.log_init]
    exact .refl _
  · intro acts s a s' hs ih ha
    obtain ⟨es, hlog, htrail⟩ := h.step (hI.exec hs) ha
    rw [hlog]
    exact ih.trans htrail

end OrderbookClient.Runs
