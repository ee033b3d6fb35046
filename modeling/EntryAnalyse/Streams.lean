import Mathlib.Tactic

/-! A machine that is fed by an endless stream of inputs: one step for each input, whatever the
inputs are. A machine that stops keeps its state from then on; a measure that falls at every
step before says by when it has stopped. -/
namespace EntryAnalyse
namespace Streams

variable {σ α : Type}

/-- The state after the first `n` inputs. -/
def feed (step : σ → α → σ) (s : σ) (inputs : ℕ → α) : ℕ → σ
  | 0 => s
  | n + 1 => step (feed step s inputs n) (inputs n)

variable {step : σ → α → σ} {s : σ} {inputs inputs' : ℕ → α}

@[simp] theorem feed_zero : feed step s inputs 0 = s := rfl

theorem feed_succ (n : ℕ) :
    feed step s inputs (n + 1) = step (feed step s inputs n) (inputs n) := rfl

/-- The state depends on the inputs so far only. -/
theorem feed_congr {n : ℕ} (h : ∀ k < n, inputs k = inputs' k) :
    feed step s inputs n = feed step s inputs' n := by
  induction n with
  | zero => rfl
  | succ n ih =>
    rw [feed_succ,feed_succ,ih fun k hk => h k (Nat.lt_succ_of_lt hk),h n (Nat.lt_succ_self n)]

/-- What holds at the start and is kept by every step holds throughout. -/
theorem feed_invariant {J : σ → Prop} (h₀ : J s) (hstep : ∀ s a, J s → J (step s a)) (n : ℕ) :
    J (feed step s inputs n) := by
  induction n with
  | zero => exact h₀
  | succ n ih => exact hstep _ _ ih

/-- A machine that keeps its state once it has stopped is in that state from then on. -/
theorem feed_of_stopped {done : σ → Prop} (hstep : ∀ s a, done s → step s a = s) {n m : ℕ}
    (hn : done (feed step s inputs n)) (hnm : n ≤ m) :
    feed step s inputs m = feed step s inputs n := by
  induction m, hnm using Nat.le_induction with
  | base => rfl
  | succ m _ ih =>
    rw [feed_succ,ih]
    exact hstep _ _ hn

/-- A measure that falls at every step before `P` bounds when `P` comes. -/
theorem exists_le_of_descent {P : ℕ → Prop} {f : ℕ → ℕ}
    (h : ∀ n, ¬P n → P (n + 1) ∨ f (n + 1) < f n) : ∃ n ≤ f 0 + 1, P n := by
  by_contra hno
  push Not at hno
  have hfall : ∀ n, n ≤ f 0 + 1 → f n + n ≤ f 0 := by
    intro n
    induction n with
    | zero => intro _; omega
    | succ n ih =>
      intro hn
      have hle := ih (by omega)
      rcases h n (hno n (by omega)) with hp | hlt
      · exact absurd hp (hno (n + 1) hn)
      · omega
  have hend := hfall (f 0 + 1) le_rfl
  omega

section Radix

variable {hi hi' lo lo' m : ℕ}

/-- In a number with a digit up to `m` at its end, a smaller front makes the number smaller,
whatever the digit becomes. -/
theorem radix_lt_of_front (h : hi' < hi) (hlo : lo' ≤ m) :
    hi' * (m + 1) + lo' < hi * (m + 1) + lo := by
  have hmul := Nat.mul_le_mul_right (m + 1) h
  rw [Nat.succ_mul] at hmul
  omega

theorem radix_lt_of_digit (h : hi' ≤ hi) (hlo : lo' < lo) :
    hi' * (m + 1) + lo' < hi * (m + 1) + lo := by
  have hmul := Nat.mul_le_mul_right (m + 1) h
  omega

theorem radix_le (h : hi' ≤ hi) (hlo : lo' ≤ lo) :
    hi' * (m + 1) + lo' ≤ hi * (m + 1) + lo := by
  have hmul := Nat.mul_le_mul_right (m + 1) h
  omega

theorem radix_lt_bound (h : hi < hi') (hlo : lo ≤ m) : hi * (m + 1) + lo < hi' * (m + 1) := by
  have hmul := Nat.mul_le_mul_right (m + 1) h
  rw [Nat.succ_mul] at hmul
  omega

end Radix

/-- Events that each find a counter below a limit and raise it are at most that many. -/
theorem count_le_of_counter {p : ℕ → Prop} [DecidablePred p] {f : ℕ → ℕ} {m : ℕ}
    (hkeep : ∀ n, f n ≤ f (n + 1))
    (hraise : ∀ n, p n → f n < f (n + 1) ∧ f (n + 1) ≤ m) (n : ℕ) :
    n.count p ≤ m := by
  have hcount : n.count p ≤ f n ∧ n.count p ≤ m := by
    induction n with
    | zero => simp
    | succ n ih =>
      rw [Nat.count_succ]
      have hle := hkeep n
      by_cases hp : p n
      · have hup := hraise n hp
        simp only [hp,if_true]
        omega
      · simp only [hp,if_false]
        omega
  exact hcount.2

end Streams
end EntryAnalyse
