import Mathlib.Data.List.Basic
import Mathlib.Tactic.Cases

/-! # Hashing in blocks

A hash function that works in blocks folds a compression function `step` over the blocks of its
input.  `absorb` takes the input symbol by symbol and keeps what is not a block yet, so it does not
matter in which chunks the input comes.

* `absorb_eq`: it is the fold over the blocks, and what is left is the rest behind them.
* `absorb_update`: taking a chunk block by block is taking it symbol by symbol.  This is how hash
  functions are written: fill the buffer, hash it, hash the blocks of the chunk where they lie, and
  keep the rest. -/

namespace OrderbookClient.Blocks

variable {σ α : Type} (n : ℕ) (step : σ → List α → σ)

/-- One more symbol behind a buffer that is not full. -/
def absorbOne (r : σ × List α) (x : α) : σ × List α :=
  if r.2.length + 1 < n then (r.1, r.2 ++ [x]) else (step r.1 (r.2 ++ [x]), [])

def absorb (r : σ × List α) (xs : List α) : σ × List α := xs.foldl (absorbOne n step) r

/-- The blocks of `xs`, without what is left. -/
def split (xs : List α) : List (List α) :=
  (List.range (xs.length / n)).map (fun i => (xs.drop (i * n)).take n)

/-- `k` blocks from the beginning of `xs`. -/
def steps : ℕ → σ → List α → σ × List α
  | 0, s, xs => (s, xs)
  | k + 1, s, xs => steps k (step s (xs.take n)) (xs.drop n)

variable {n step}

theorem absorb_append (r : σ × List α) (xs ys : List α) :
    absorb n step r (xs ++ ys) = absorb n step (absorb n step r xs) ys := by
  simp [absorb]

theorem absorb_short {s : σ} {xs : List α} :
    ∀ {b : List α}, b.length + xs.length < n → absorb n step (s, b) xs = (s, b ++ xs) := by
  induction xs with
  | nil =>
      intro b _
      simp [absorb]
  | cons x xs ih =>
      intro b h
      rw [List.length_cons] at h
      have hrest := @ih (b ++ [x]) (by simp; omega)
      unfold absorb at hrest ⊢
      rw [List.foldl_cons, absorbOne, if_pos (by dsimp only; omega), hrest]
      simp

theorem absorb_full {s : σ} {xs : List α} : ∀ {b : List α}, b.length < n →
    b.length + xs.length = n → absorb n step (s, b) xs = (step s (b ++ xs), []) := by
  induction xs with
  | nil =>
      intro b hlt h
      simp at h
      omega
  | cons x xs ih =>
      intro b hlt h
      rw [List.length_cons] at h
      unfold absorb
      rw [List.foldl_cons, absorbOne]
      by_cases hx : xs = []
      · subst hx
        rw [if_neg (by simp at h ⊢; omega)]
        simp
      · have hpos := List.length_pos_of_ne_nil hx
        rw [if_pos (by dsimp only; omega)]
        have hrest := @ih (b ++ [x]) (by simp; omega) (by simp; omega)
        unfold absorb at hrest
        rw [hrest]
        simp

/-- Blocks that are taken where they lie. -/
theorem absorb_steps (hn : 0 < n) {k : ℕ} : ∀ {s : σ} {xs : List α}, k * n ≤ xs.length →
    absorb n step (s, []) xs =
      absorb n step ((steps n step k s xs).1, []) (steps n step k s xs).2 := by
  induction k with
  | zero =>
      intro s xs _
      rfl
  | succ k ih =>
      intro s xs h
      rw [Nat.succ_mul] at h
      have hblock : absorb n step (s, []) (xs.take n) = (step s (xs.take n), []) :=
        absorb_full hn (by simp; omega)
      calc absorb n step (s, []) xs
          = absorb n step (absorb n step (s, []) (xs.take n)) (xs.drop n) := by
            rw [← absorb_append, List.take_append_drop]
        _ = absorb n step (step s (xs.take n), []) (xs.drop n) := by rw [hblock]
        _ = _ := ih (by simp; omega)

theorem steps_snd {k : ℕ} :
    ∀ {s : σ} {xs : List α}, (steps n step k s xs).2 = xs.drop (k * n) := by
  induction k with
  | zero =>
      intro s xs
      simp [steps]
  | succ k ih =>
      intro s xs
      rw [steps, ih, List.drop_drop, Nat.succ_mul, Nat.add_comm]

theorem steps_fst {k : ℕ} : ∀ {s : σ} {xs : List α}, (steps n step k s xs).1 =
    ((List.range k).map (fun i => (xs.drop (i * n)).take n)).foldl step s := by
  induction k with
  | zero =>
      intro s xs
      rfl
  | succ k ih =>
      intro s xs
      rw [steps, ih, List.range_succ_eq_map, List.map_cons, List.foldl_cons, List.map_map]
      congr 1
      · simp
      · apply List.map_congr_left
        intro i _
        simp only [Function.comp_apply, List.drop_drop, Nat.succ_mul]
        rw [Nat.add_comm]

/-- **The fold over the blocks**, with the rest behind them. -/
theorem absorb_eq (hn : 0 < n) (s : σ) (xs : List α) :
    absorb n step (s, []) xs = ((split n xs).foldl step s, xs.drop (xs.length / n * n)) := by
  have hle : xs.length / n * n ≤ xs.length := Nat.div_mul_le_self _ _
  have hrest : (xs.drop (xs.length / n * n)).length < n := by
    have := Nat.mod_lt xs.length hn
    have := Nat.div_add_mod' xs.length n
    simp
    omega
  rw [absorb_steps hn hle, steps_snd, steps_fst, absorb_short (by simpa using hrest)]
  rfl

/-- **Filling the buffer, and then block by block.** -/
theorem absorb_update (step : σ → List α → σ) (hn : 0 < n) (s : σ) (b xs : List α)
    (hb : b.length < n) (hfill : n ≤ b.length + xs.length) :
    absorb n step (s, b) xs = steps n step ((xs.length - (n - b.length)) / n)
      (step s (b ++ xs.take (n - b.length))) (xs.drop (n - b.length)) := by
  set i := n - b.length with hi
  set k := (xs.length - i) / n with hk
  have hfull : absorb n step (s, b) (xs.take i) = (step s (b ++ xs.take i), []) :=
    absorb_full hb (by simp; omega)
  have hdrop : (xs.drop i).length = xs.length - i := by simp
  have hle : k * n ≤ (xs.drop i).length := by
    rw [hdrop, hk]
    exact Nat.div_mul_le_self _ _
  have hrest : ((xs.drop i).drop (k * n)).length < n := by
    have := Nat.mod_lt (xs.length - i) hn
    have := Nat.div_add_mod' (xs.length - i) n
    rw [List.length_drop, hdrop, hk]
    omega
  calc absorb n step (s, b) xs
      = absorb n step (step s (b ++ xs.take i), []) (xs.drop i) := by
        rw [← hfull, ← absorb_append, List.take_append_drop]
    _ = steps n step k (step s (b ++ xs.take i)) (xs.drop i) := by
        rw [absorb_steps hn hle, steps_snd, absorb_short (by simpa using hrest)]
        rw [← steps_snd (s := step s (b ++ xs.take i))]
        rfl

end OrderbookClient.Blocks
