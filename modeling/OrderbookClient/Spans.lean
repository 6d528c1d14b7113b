import Mathlib.Data.List.Basic
import Mathlib.Tactic.Cases

/-! # Parsers that hand on spans of their input

A callback parser reads one symbol after the other.  It does not copy what it reads: it marks
where a span begins and, where the span ends, calls back with the symbols from the mark on.  Marks
point into the chunk at hand, so a span that the end of a chunk cuts is handed on in two calls.

* `Tame`: the discipline of the marks, a condition on single turns.
* `execute_append`: under it the state of the parser does not depend on how its input is cut, and
  the calls differ in nothing but the span at the cut.
* `Cut.foldl_eq`: a handler that takes such a span in pieces cannot tell the difference. -/

namespace OrderbookClient.Spans

variable {σ κ ν α : Type}

/-- What a parser does to its marks at a symbol. -/
inductive Op (κ ν : Type)
  /-- Mark the symbol, unless the span is marked already. -/
  | mark (k : κ)
  /-- Hand on the span in front of the symbol, if it is marked. -/
  | data (k : κ)
  /-- The same, with the symbol. -/
  | dataThrough (k : κ)
  | notify (n : ν)

/-- A call of the handler. -/
inductive Call (κ ν α : Type)
  | data (k : κ) (d : List α)
  | notify (n : ν)
  deriving DecidableEq

/-- How a turn ends: with the next symbol, behind this one, or at it with an error. -/
inductive Ctl
  | more | exit | error
  deriving DecidableEq, Repr

structure Turn (σ κ ν : Type) where
  state : σ
  ops : List (Op κ ν)
  ctl : Ctl

/-- A callback parser. -/
structure Parser (σ κ ν α : Type) where
  turn : σ → α → Turn σ κ ν
  /-- The span that is marked again where a chunk begins. -/
  carried : σ → Option κ

/-- The span that is marked, with its symbols so far.  There is at most one. -/
abbrev Mark (κ α : Type) := Option (κ × List α)

structure Result (σ κ ν α : Type) where
  state : σ
  calls : List (Call κ ν α)
  ctl : Ctl
  /-- The number of symbols read. -/
  parsed : ℕ
  deriving DecidableEq

def Result.behind (r : Result σ κ ν α) (calls : List (Call κ ν α)) (n : ℕ) : Result σ κ ν α :=
  { r with calls := calls ++ r.calls, parsed := n + r.parsed }

theorem Result.behind_behind (r : Result σ κ ν α) (calls calls' : List (Call κ ν α)) (n n' : ℕ) :
    (r.behind calls' n').behind calls n = r.behind (calls ++ calls') (n + n') := by
  simp [behind, Nat.add_assoc]

/-! ### Running a parser -/

section Run

variable [DecidableEq κ]

def Op.apply (c : α) : Mark κ α → Op κ ν → Mark κ α × List (Call κ ν α)
  | none, .mark k => (some (k, []), [])
  | none, .data _ => (none, [])
  | none, .dataThrough _ => (none, [])
  | some (k', d), .mark _ => (some (k', d), [])
  | some (k', d), .data k => if k' = k then (none, [.data k d]) else (some (k', d), [])
  | some (k', d), .dataThrough k =>
      if k' = k then (none, [.data k (d ++ [c])]) else (some (k', d), [])
  | m, .notify n => (m, [.notify n])

/-- The operations of a turn, one after the other. -/
def applyAll (c : α) : Mark κ α → List (Op κ ν) → Mark κ α × List (Call κ ν α)
  | m, [] => (m, [])
  | m, op :: ops =>
      let r := op.apply c m
      let s := applyAll c r.1 ops
      (s.1, r.2 ++ s.2)

/-- The symbol belongs to the span that is marked behind it. -/
def grow (c : α) (m : Mark κ α) : Mark κ α := m.map (fun m => (m.1, m.2 ++ [c]))

/-- The call for the span that the end of the chunk leaves. -/
def leftover : Mark κ α → List (Call κ ν α)
  | none => []
  | some (k, d) => [.data k d]

variable (P : Parser σ κ ν α)

def Parser.run : σ → Mark κ α → List α → Result σ κ ν α
  | s, m, [] => ⟨s, leftover m, .more, 0⟩
  | s, m, c :: cs =>
      let t := P.turn s c
      let r := applyAll c m t.ops
      match t.ctl with
      | .more => (run t.state (grow c r.1) cs).behind r.2 1
      | .exit => ⟨t.state, r.2, .exit, 1⟩
      | .error => ⟨t.state, r.2, .error, 0⟩

/-- The mark where a chunk begins. -/
def Parser.opening (s : σ) : Mark κ α := (P.carried s).map (fun k => (k, []))

/-- One chunk. -/
def Parser.execute (s : σ) (cs : List α) : Result σ κ ν α := P.run s (P.opening s) cs

variable {P}

theorem run_nil (s : σ) (m : Mark κ α) : P.run s m [] = ⟨s, leftover m, .more, 0⟩ := rfl

theorem run_more {s : σ} {c : α} (h : (P.turn s c).ctl = .more) (m : Mark κ α) (cs : List α) :
    P.run s m (c :: cs) = (P.run (P.turn s c).state
      (grow c (applyAll c m (P.turn s c).ops).1) cs).behind (applyAll c m (P.turn s c).ops).2 1 := by
  rw [Parser.run]
  simp only [h]

theorem run_exit {s : σ} {c : α} (h : (P.turn s c).ctl = .exit) (m : Mark κ α) (cs : List α) :
    P.run s m (c :: cs) =
      ⟨(P.turn s c).state, (applyAll c m (P.turn s c).ops).2, .exit, 1⟩ := by
  rw [Parser.run]
  simp only [h]

theorem run_error {s : σ} {c : α} (h : (P.turn s c).ctl = .error) (m : Mark κ α) (cs : List α) :
    P.run s m (c :: cs) =
      ⟨(P.turn s c).state, (applyAll c m (P.turn s c).ops).2, .error, 0⟩ := by
  rw [Parser.run]
  simp only [h]

theorem applyAll_append (c : α) (ops ops' : List (Op κ ν)) : ∀ (m : Mark κ α),
    applyAll c m (ops ++ ops') =
      ((applyAll c (applyAll c m ops).1 ops').1,
        (applyAll c m ops).2 ++ (applyAll c (applyAll c m ops).1 ops').2) := by
  induction ops with
  | nil =>
      intro m
      simp [applyAll]
  | cons op ops ih =>
      intro m
      simp [applyAll, ih]

/-- A state that does some operations and then takes the turn of another. -/
theorem run_reexecute {s s' : σ} {c : α} {ops : List (Op κ ν)}
    (h : P.turn s c = { P.turn s' c with ops := ops ++ (P.turn s' c).ops }) (m : Mark κ α)
    (cs : List α) :
    P.run s m (c :: cs) = (P.run s' (applyAll c m ops).1 (c :: cs)).behind (applyAll c m ops).2 0 := by
  rw [Parser.run, Parser.run, h, applyAll_append]
  dsimp only
  cases (P.turn s' c).ctl with
  | more => simp [Result.behind]
  | exit => simp [Result.behind]
  | error => simp [Result.behind]

/-- What holds in front of a stretch and is kept by its turns. -/
theorem run_keeps {I : σ → Prop}
    (h : ∀ s c, (P.turn s c).ctl ≠ .error → I s → I (P.turn s c).state) : ∀ {cs : List α} {s : σ}
    {m : Mark κ α}, I s → (P.run s m cs).ctl ≠ .error → I (P.run s m cs).state
  | [], s, m, hs, _ => hs
  | c :: cs, s, m, hs, hctl => by
      cases hcase : (P.turn s c).ctl with
      | more =>
          rw [run_more hcase] at hctl ⊢
          exact run_keeps h (h s c (by simp [hcase]) hs) hctl
      | exit =>
          rw [run_exit hcase]
          exact h s c (by simp [hcase]) hs
      | error =>
          rw [run_error hcase] at hctl
          exact absurd rfl hctl

/-- A run that fails does so in a turn. -/
theorem run_fails {E : σ → Prop} (h : ∀ s c, (P.turn s c).ctl = .error → E (P.turn s c).state) :
    ∀ {cs : List α} {s : σ} {m : Mark κ α}, (P.run s m cs).ctl = .error → E (P.run s m cs).state
  | [], s, m, hctl => by
      rw [run_nil] at hctl
      cases hctl
  | c :: cs, s, m, hctl => by
      cases hcase : (P.turn s c).ctl with
      | more =>
          rw [run_more hcase] at hctl ⊢
          exact run_fails h hctl
      | exit =>
          rw [run_exit hcase] at hctl
          cases hctl
      | error =>
          rw [run_error hcase]
          exact h s c hcase

/-- Input that is not read to its last symbol ends no beginning of it. -/
theorem more_of_lt_parsed {b : List α} : ∀ {a : List α} {s : σ} {m : Mark κ α},
    a.length < (P.run s m (a ++ b)).parsed → (P.run s m a).ctl = .more
  | [], s, m, _ => rfl
  | c :: a, s, m, h => by
      rw [List.cons_append, List.length_cons] at h
      cases hctl : (P.turn s c).ctl with
      | more =>
          rw [run_more hctl] at h ⊢
          rw [Result.behind, Nat.add_comm] at h
          exact more_of_lt_parsed (Nat.add_lt_add_iff_left.mp h)
      | exit =>
          rw [run_exit hctl] at h
          exact absurd h (by simp)
      | error =>
          rw [run_error hctl] at h
          exact absurd h (by simp)

/-! ### Stretches of input -/

variable (P) in
/-- The parser reads `cs`, whatever follows, with these calls. -/
def Steps (s : σ) (m : Mark κ α) (cs : List α) (calls : List (Call κ ν α)) (s' : σ)
    (m' : Mark κ α) : Prop :=
  ∀ rest, P.run s m (cs ++ rest) = (P.run s' m' rest).behind calls cs.length

theorem Steps.refl (s : σ) (m : Mark κ α) : Steps P s m [] [] s m := by
  intro rest
  simp [Result.behind]

theorem Steps.trans {s s' s'' : σ} {m m' m'' : Mark κ α} {cs cs' : List α}
    {calls calls' : List (Call κ ν α)} (h : Steps P s m cs calls s' m')
    (h' : Steps P s' m' cs' calls' s'' m'') :
    Steps P s m (cs ++ cs') (calls ++ calls') s'' m'' := by
  intro rest
  rw [List.append_assoc, h, h', Result.behind_behind, List.length_append]

theorem Steps.single {s : σ} {c : α} (h : (P.turn s c).ctl = .more) (m : Mark κ α) :
    Steps P s m [c] (applyAll c m (P.turn s c).ops).2 (P.turn s c).state
      (grow c (applyAll c m (P.turn s c).ops).1) := by
  intro rest
  exact run_more h m rest

theorem Steps.run_eq {s s' : σ} {m m' : Mark κ α} {cs : List α} {calls : List (Call κ ν α)}
    (h : Steps P s m cs calls s' m') :
    P.run s m cs = ⟨s', calls ++ leftover m', .more, cs.length⟩ := by
  have hrun := h []
  rw [List.append_nil] at hrun
  simpa [run_nil, Result.behind] using hrun

/-- A chunk that is read to its end. -/
theorem steps_of_more : ∀ {cs : List α} {s : σ} {m : Mark κ α}, (P.run s m cs).ctl = .more →
    ∃ s' m' calls, Steps P s m cs calls s' m'
  | [], s, m, _ => ⟨s, m, [], .refl s m⟩
  | c :: cs, s, m, h => by
      cases hctl : (P.turn s c).ctl with
      | more =>
          rw [run_more hctl] at h
          obtain ⟨s', m', calls, hsteps⟩ := steps_of_more h
          exact ⟨s', m', _, (Steps.single hctl m).trans hsteps⟩
      | exit =>
          rw [run_exit hctl] at h
          cases h
      | error =>
          rw [run_error hctl] at h
          cases h

end Run

/-! ### The discipline of the marks -/

/-- The operations take the marked span `o` to `o'`: a span is marked only if no other is, and
nothing is notified inside one. -/
def Threads : Option κ → List (Op κ ν) → Option κ → Prop
  | o, [], o' => o' = o
  | o, .mark k :: ops, o' => (o = none ∨ o = some k) ∧ Threads (some k) ops o'
  | o, .data k :: ops, o' => (o = none ∨ o = some k) ∧ Threads none ops o'
  | o, .dataThrough k :: ops, o' => o = some k ∧ Threads none ops o'
  | o, .notify _ :: ops, o' => o = none ∧ Threads none ops o'

theorem Threads.append : ∀ {ops ops' : List (Op κ ν)} {o o' o'' : Option κ}, Threads o ops o' →
    Threads o' ops' o'' → Threads o (ops ++ ops') o''
  | [], _, _, _, _, h, h' => by
      obtain rfl := h
      exact h'
  | .mark _ :: _, _, _, _, _, h, h' => ⟨h.1, h.2.append h'⟩
  | .data _ :: _, _, _, _, _, h, h' => ⟨h.1, h.2.append h'⟩
  | .dataThrough _ :: _, _, _, _, _, h, h' => ⟨h.1, h.2.append h'⟩
  | .notify _ :: _, _, _, _, _, h, h' => ⟨h.1, h.2.append h'⟩

/-- A span that may be marked in front of a symbol, if `carried` is marked again at a chunk's
beginning and `span` inside a chunk. -/
def Fits (carried span o : Option κ) : Prop := (o = none ∧ carried = none) ∨ (o ≠ none ∧ o = span)

/-- `span` gives the span that a state is inside of. -/
structure Tame (P : Parser σ κ ν α) (span : σ → Option κ) : Prop where
  carried : ∀ s, P.carried s = none ∨ P.carried s = span s
  more : ∀ s c o, (P.turn s c).ctl = .more → Fits (P.carried s) (span s) o →
    ∃ o', Threads o (P.turn s c).ops o' ∧
      Fits (P.carried (P.turn s c).state) (span (P.turn s c).state) o'
  exit : ∀ s c o, (P.turn s c).ctl = .exit → Fits (P.carried s) (span s) o →
    Threads o (P.turn s c).ops none
  /-- A span that is not marked again is marked or ended by the next symbol. -/
  resumes : ∀ s c, (P.turn s c).ctl ≠ .error → span s ≠ none → P.carried s = none →
    (P.turn s c).ops ≠ []

theorem Tame.opening {P : Parser σ κ ν α} {span : σ → Option κ} (h : Tame P span) (s : σ) :
    Fits (P.carried s) (span s) ((P.opening s).map Prod.fst) := by
  unfold Parser.opening Fits
  cases hc : P.carried s with
  | none => exact .inl ⟨rfl, rfl⟩
  | some k =>
      right
      obtain hn | hs := h.carried s
      · rw [hc] at hn
        cases hn
      · rw [← hs, hc]
        simp

section Tame

variable [DecidableEq κ]

theorem applyAll_threads (c : α) : ∀ {ops : List (Op κ ν)} {m : Mark κ α} {o' : Option κ},
    Threads (m.map Prod.fst) ops o' → (applyAll c m ops).1.map Prod.fst = o'
  | [], m, o', h => by
      simpa [applyAll, Threads] using h.symm
  | .mark k :: ops, m, o', h => by
      apply applyAll_threads c (m := (Op.apply c m (.mark k : Op κ ν)).1)
      cases m with
      | none => simpa [Op.apply] using h.2
      | some m =>
          obtain rfl : m.1 = k := by simpa using h.1
          simpa [Op.apply] using h.2
  | .data k :: ops, m, o', h => by
      apply applyAll_threads c (m := (Op.apply c m (.data k : Op κ ν)).1)
      cases m with
      | none => simpa [Op.apply] using h.2
      | some m =>
          obtain rfl : m.1 = k := by simpa using h.1
          simpa [Op.apply] using h.2
  | .dataThrough k :: ops, m, o', h => by
      apply applyAll_threads c (m := (Op.apply c m (.dataThrough k : Op κ ν)).1)
      cases m with
      | none => simpa [Op.apply] using h.2
      | some m =>
          obtain rfl : m.1 = k := by simpa using h.1
          simpa [Op.apply] using h.2
  | .notify n :: ops, m, o', h => by
      apply applyAll_threads c (m := (Op.apply c m (.notify n : Op κ ν)).1)
      obtain rfl : m = none := by simpa using h.1
      simpa [Op.apply] using h.2

omit [DecidableEq κ] in
theorem grow_fst (c : α) (m : Mark κ α) : (grow c m).map Prod.fst = m.map Prod.fst := by
  cases m with
  | none => rfl
  | some m => rfl

variable {P : Parser σ κ ν α} {span : σ → Option κ}

/-- The marked span fits the state behind a turn, and so behind every stretch. -/
theorem Tame.steps (h : Tame P span) : ∀ {cs : List α} {s : σ} {m : Mark κ α},
    Fits (P.carried s) (span s) (m.map Prod.fst) → (P.run s m cs).ctl = .more →
    ∃ s' m' calls, Steps P s m cs calls s' m' ∧ Fits (P.carried s') (span s') (m'.map Prod.fst)
  | [], s, m, hf, _ => ⟨s, m, [], .refl s m, hf⟩
  | c :: cs, s, m, hf, hmore => by
      have hctl : (P.turn s c).ctl = .more := by
        cases hctl : (P.turn s c).ctl with
        | more => rfl
        | exit =>
            rw [run_exit hctl] at hmore
            cases hmore
        | error =>
            rw [run_error hctl] at hmore
            cases hmore
      obtain ⟨o', ho, hf'⟩ := h.more s c _ hctl hf
      rw [← applyAll_threads c ho, ← grow_fst c] at hf'
      rw [run_more hctl] at hmore
      obtain ⟨s', m', calls, hsteps, hfits⟩ := h.steps hf' hmore
      exact ⟨s', m', _, (Steps.single hctl m).trans hsteps, hfits⟩

/-- A run that ends outside of all spans, as a stretch. -/
theorem Tame.steps_of_run (h : Tame P span) {cs : List α} {s s' : σ} {m : Mark κ α}
    {calls : List (Call κ ν α)} {n : ℕ} (hf : Fits (P.carried s) (span s) (m.map Prod.fst))
    (hrun : P.run s m cs = ⟨s', calls, .more, n⟩) (hs' : span s' = none) :
    Steps P s m cs calls s' none := by
  obtain ⟨s'', m', calls', hsteps, hfits⟩ := h.steps hf (by rw [hrun])
  have heq := hsteps.run_eq
  rw [hrun] at heq
  obtain rfl : s' = s'' := congrArg Result.state heq
  have hm' : m' = none := by
    obtain ⟨hnone, -⟩ | ⟨hne, hspan⟩ := hfits
    · simpa using hnone
    · exact absurd (hspan.trans hs') hne
  subst hm'
  have hcalls : calls = calls' := by simpa [leftover] using congrArg Result.calls heq
  exact hcalls ▸ hsteps

/-! ### A span that is cut -/

/-- The calls behind a cut inside a span that began with `d`: `whole` without the cut, `rest` with
it, the beginning being handed on already. -/
def Resumes (k : κ) (d : List α) (whole rest : List (Call κ ν α)) : Prop :=
  ∃ d' post, whole = .data k (d ++ d') :: post ∧
    (rest = .data k d' :: post ∨ (d' = [] ∧ rest = post))

/-- The marks behind the cut, in the same two runs. -/
def Resumed (k : κ) (d : List α) (whole rest : Mark κ α) : Prop :=
  ∃ d', whole = some (k, d ++ d') ∧ (rest = some (k, d') ∨ (d' = [] ∧ rest = none))

theorem applyAll_resumed (c : α) {k : κ} {d : List α} : ∀ {ops : List (Op κ ν)}
    {m m' : Mark κ α} {o' : Option κ}, Resumed k d m m' → Threads (some k) ops o' →
    (m' = none → ops ≠ [] ∧ ∃ o, Threads none ops o) →
    ((applyAll c m ops).2 = [] ∧ (applyAll c m' ops).2 = [] ∧
      ∃ d', (applyAll c m ops).1 = some (k, d ++ d') ∧ (applyAll c m' ops).1 = some (k, d')) ∨
    ((applyAll c m ops).1 = (applyAll c m' ops).1 ∧
      Resumes k d (applyAll c m ops).2 (applyAll c m' ops).2)
  | [], m, m', o', ⟨d', hm, hm'⟩, _, hne => by
      left
      obtain hm' | ⟨-, hm'⟩ := hm'
      · exact ⟨rfl, rfl, d', hm, hm'⟩
      · exact absurd rfl (hne hm').1
  | .mark k' :: ops, m, m', o', ⟨d', hm, hm'⟩, ho, _ => by
      obtain rfl : k = k' := by simpa using ho.1
      have hcut : Resumed k d (some (k, d ++ d')) (some (k, d')) := ⟨d', rfl, .inl rfl⟩
      have ih := applyAll_resumed c hcut ho.2 (by simp)
      obtain rfl | ⟨rfl, rfl⟩ := hm'
      · simpa [applyAll, Op.apply, hm] using ih
      · simpa [applyAll, Op.apply, hm] using ih
  | .data k' :: ops, m, m', o', ⟨d', hm, hm'⟩, ho, _ => by
      obtain rfl : k = k' := by simpa using ho.1
      right
      obtain rfl | ⟨rfl, rfl⟩ := hm'
      · exact ⟨by simp [applyAll, Op.apply, hm], d', (applyAll c none ops).2,
          by simp [applyAll, Op.apply, hm], .inl (by simp [applyAll, Op.apply])⟩
      · exact ⟨by simp [applyAll, Op.apply, hm], [], (applyAll c none ops).2,
          by simp [applyAll, Op.apply, hm], .inr ⟨rfl, by simp [applyAll, Op.apply]⟩⟩
  | .dataThrough k' :: ops, m, m', o', ⟨d', hm, hm'⟩, ho, hne => by
      obtain rfl : k = k' := by simpa using ho.1
      right
      obtain rfl | ⟨rfl, rfl⟩ := hm'
      · exact ⟨by simp [applyAll, Op.apply, hm], d' ++ [c], (applyAll c none ops).2,
          by simp [applyAll, Op.apply, hm], .inl (by simp [applyAll, Op.apply])⟩
      · obtain ⟨-, o, ho⟩ := hne rfl
        cases ho.1
  | .notify n :: ops, m, m', o', _, ho, _ => by
      have := ho.1
      cases this

/-- Two runs that agree but for the span `d` that is handed on already in the second. -/
structure Agree (k : κ) (d : List α) (whole rest : Result σ κ ν α) : Prop where
  state : rest.state = whole.state
  ctl : rest.ctl = whole.ctl
  parsed : rest.parsed = whole.parsed
  calls : whole.ctl ≠ .error → Resumes k d whole.calls rest.calls

omit [DecidableEq κ] in
theorem Resumes.append {k : κ} {d : List α} {whole rest : List (Call κ ν α)}
    (h : Resumes k d whole rest) (calls : List (Call κ ν α)) :
    Resumes k d (whole ++ calls) (rest ++ calls) := by
  obtain ⟨d', post, rfl, hrest⟩ := h
  refine ⟨d', post ++ calls, rfl, ?_⟩
  obtain rfl | ⟨hd, rfl⟩ := hrest
  · exact .inl rfl
  · exact .inr ⟨hd, rfl⟩

omit [DecidableEq κ] in
/-- What the operations need where the span is not marked again behind the cut. -/
theorem Tame.unmarked (h : Tame P span) {s : σ} {c : α} (hctl : (P.turn s c).ctl ≠ .error)
    (hspan : span s ≠ none) (hcarried : P.carried s = none) :
    (P.turn s c).ops ≠ [] ∧ ∃ o, Threads none (P.turn s c).ops o := by
  refine ⟨h.resumes s c hctl hspan hcarried, ?_⟩
  have hfits : Fits (P.carried s) (span s) none := .inl ⟨rfl, hcarried⟩
  cases hcase : (P.turn s c).ctl with
  | more =>
      obtain ⟨o, ho, -⟩ := h.more s c none hcase hfits
      exact ⟨o, ho⟩
  | exit => exact ⟨none, h.exit s c none hcase hfits⟩
  | error => exact absurd hcase hctl

theorem Tame.run_resumed (h : Tame P span) {k : κ} {d : List α} (cs : List α) : ∀ {s : σ}
    {m m' : Mark κ α}, span s = some k → (m' = none → P.carried s = none) → Resumed k d m m' →
    Agree k d (P.run s m cs) (P.run s m' cs) := by
  induction cs with
  | nil =>
      rintro s m m' _ _ ⟨d', hm, hm'⟩
      refine ⟨rfl, rfl, rfl, fun _ => ⟨d', [], by simp [run_nil, leftover, hm], ?_⟩⟩
      obtain rfl | ⟨rfl, rfl⟩ := hm'
      · exact .inl (by simp [run_nil, leftover])
      · exact .inr ⟨rfl, by simp [run_nil, leftover]⟩
  | cons c cs ih =>
      intro s m m' hs hcarried hm
      have hfits : Fits (P.carried s) (span s) (some k) := .inr ⟨by simp, hs.symm⟩
      have hne : (P.turn s c).ctl ≠ .error → m' = none →
          (P.turn s c).ops ≠ [] ∧ ∃ o, Threads none (P.turn s c).ops o := by
        intro hctl hm'
        exact h.unmarked hctl (by simp [hs]) (hcarried hm')
      cases hctl : (P.turn s c).ctl with
      | error =>
          rw [run_error hctl, run_error hctl]
          exact ⟨rfl, rfl, rfl, fun hbad => absurd rfl hbad⟩
      | exit =>
          rw [run_exit hctl, run_exit hctl]
          refine ⟨rfl, rfl, rfl, fun _ => ?_⟩
          have ho := h.exit s c _ hctl hfits
          obtain ⟨-, -, d', hopen, -⟩ | ⟨-, hcalls⟩ :=
            applyAll_resumed c hm ho (hne (by simp [hctl]))
          · obtain ⟨d₀, hm₀, -⟩ := hm
            have hnone := applyAll_threads c (m := m) (by simpa [hm₀] using ho)
            rw [hopen] at hnone
            cases hnone
          · exact hcalls
      | more =>
          rw [run_more hctl, run_more hctl]
          obtain ⟨o', ho, hfits'⟩ := h.more s c _ hctl hfits
          obtain ⟨hwhole, hrest, d', hopen, hopen'⟩ | ⟨hmark, hcalls⟩ :=
            applyAll_resumed c hm ho (hne (by simp [hctl]))
          · -- the span stays open, with the symbol in it
            obtain ⟨d₀, hm₀, -⟩ := hm
            have ho' := applyAll_threads c (m := m) (by simpa [hm₀] using ho)
            rw [hopen] at ho'
            obtain ⟨hbad, -⟩ | ⟨-, hspan⟩ := hfits'
            · rw [hbad] at ho'
              cases ho'
            · have hnext : Resumed k d (grow c (some (k, d ++ d'))) (grow c (some (k, d'))) :=
                ⟨d' ++ [c], by simp [grow], .inl rfl⟩
              have hrun := ih (by rw [← hspan, ← ho']; rfl) (by simp [grow]) hnext
              rw [hwhole, hrest, hopen, hopen']
              exact ⟨hrun.state, hrun.ctl, by simp [Result.behind, hrun.parsed], hrun.calls⟩
          · -- the span is handed on, and the runs are the same from here
            rw [hmark]
            exact ⟨rfl, rfl, rfl, fun _ => hcalls.append _⟩

/-- The calls for an input that is cut in two, against those without the cut: `span` is what the
cut is inside of. -/
def Cut (span : Option κ) (whole first second : List (Call κ ν α)) : Prop :=
  whole = first ++ second ∨ ∃ k d pre rest, span = some k ∧ whole = pre ++ rest ∧
    first = pre ++ [.data k d] ∧ Resumes k d rest second

/-- **Where the input is cut does not matter** but for the span at the cut, which is handed on in
two calls. -/
theorem Tame.execute_append (h : Tame P span) {s : σ} {a : List α} (b : List α)
    (ha : (P.execute s a).ctl = .more) :
    let first := P.execute s a
    let second := P.execute first.state b
    let whole := P.execute s (a ++ b)
    whole.state = second.state ∧ whole.ctl = second.ctl ∧
      whole.parsed = a.length + second.parsed ∧
      (second.ctl ≠ .error → Cut (span first.state) whole.calls first.calls second.calls) := by
  obtain ⟨s', m', calls, hsteps, hfits⟩ := h.steps (h.opening s) ha
  have hfirst : P.execute s a = ⟨s', calls ++ leftover m', .more, a.length⟩ := hsteps.run_eq
  have hwhole : P.execute s (a ++ b) = (P.run s' m' b).behind calls a.length := hsteps b
  simp only [hfirst, hwhole]
  obtain ⟨hm', hcarried⟩ | ⟨hm', hspan⟩ := hfits
  · -- no span is marked at the cut
    obtain rfl : m' = none := by simpa using hm'
    have hopening : P.opening s' = none := by simp [Parser.opening, hcarried]
    refine ⟨by simp [Parser.execute, hopening, Result.behind],
      by simp [Parser.execute, hopening, Result.behind],
      by simp [Parser.execute, hopening, Result.behind], fun _ => .inl ?_⟩
    simp [Parser.execute, hopening, Result.behind, leftover]
  · cases m' with
    | none => exact absurd rfl hm'
    | some m' =>
        obtain ⟨k, d⟩ := m'
        have hresumed : Resumed k d (some (k, d)) (P.opening s') := by
          refine ⟨[], by simp, ?_⟩
          obtain hnone | hsome := h.carried s'
          · exact .inr ⟨rfl, by simp [Parser.opening, hnone]⟩
          · exact .inl (by simp [Parser.opening, hsome, ← hspan])
        have hcarried : P.opening s' = none → P.carried s' = none := by
          intro hnone
          simpa [Parser.opening] using hnone
        have hrun := h.run_resumed b hspan.symm hcarried hresumed
        refine ⟨hrun.state.symm, hrun.ctl.symm, by simp [Result.behind, hrun.parsed,
          Parser.execute], fun hctl => .inr ⟨k, d, calls, (P.run s' (some (k, d)) b).calls,
          hspan.symm, rfl, rfl, ?_⟩⟩
        exact hrun.calls (by rw [← hrun.ctl]; exact hctl)

end Tame

/-! ### Handlers -/

/-- The handler takes the spans `k` in pieces. -/
def Merges {γ : Type} (f : γ → Call κ ν α → γ) (k : κ) : Prop :=
  ∀ g d d', f (f g (.data k d)) (.data k d') = f g (.data k (d ++ d'))

/-- **A handler that takes the span at the cut in pieces** ends where it ends without the cut. -/
theorem Cut.foldl_eq {γ : Type} {f : γ → Call κ ν α → γ} {span : Option κ}
    {whole first second : List (Call κ ν α)} (h : Cut span whole first second)
    (hf : ∀ k, span = some k → Merges f k) (g : γ) :
    second.foldl f (first.foldl f g) = whole.foldl f g := by
  obtain rfl | ⟨k, d, pre, rest, hk, rfl, rfl, d', post, rfl, rfl | ⟨rfl, rfl⟩⟩ := h
  · rw [List.foldl_append]
  · simp only [List.foldl_append, List.foldl_cons, List.foldl_nil]
    rw [hf k hk]
  · simp [List.foldl_append]

end OrderbookClient.Spans
