import Mathlib.Tactic

/-! Labelled runs of a partial step function. A run keeps the list of its steps, newest
first, so that a step can be judged by what came before it. One induction rule carries an
invariant through a run whose steps all meet a side condition; every safety theorem of the
development is an instance of it. -/
namespace EntryAnalyse
namespace Runs

variable {σ α γ : Type}

/-- One step of a run: the state before it, its label, and the state after it. -/
structure Event (σ α : Type) where
  pre : σ
  act : α
  post : σ

/-- A guarded step was allowed, and it gave its result. -/
theorem guarded {α : Type} {p : Prop} [Decidable p] {x y : α}
    (h : (if p then some x else none) = some y) : p ∧ x = y := by
  simpa only [Option.ite_none_right_eq_some,Option.some.injEq] using h

/-- `Run step s tr u`: the steps `tr`, newest first, lead from `s` to `u`. -/
inductive Run (step : σ → α → Option σ) (s : σ) : List (Event σ α) → σ → Prop
  | refl : Run step s [] s
  | next {tr t a u} : Run step s tr t → step t a = some u → Run step s (⟨t,a,u⟩ :: tr) u

/-- Every step satisfies `P` relative to the steps before it. -/
def Along (P : List (Event σ α) → Event σ α → Prop) : List (Event σ α) → Prop
  | [] => True
  | e :: tr => P tr e ∧ Along P tr

instance instDecidableAlong (P : List (Event σ α) → Event σ α → Prop)
    [∀ tr e, Decidable (P tr e)] :
    (tr : List (Event σ α)) → Decidable (Along P tr)
  | [] => inferInstanceAs (Decidable True)
  | e :: tr =>
    have := instDecidableAlong P tr
    inferInstanceAs (Decidable (P tr e ∧ Along P tr))

/-- What an observer that starts in `g` knows after the steps `tr`. -/
def watch (observe : γ → Event σ α → γ) (g : γ) : List (Event σ α) → γ
  | [] => g
  | e :: tr => observe (watch observe g tr) e

@[simp] theorem watch_nil (observe : γ → Event σ α → γ) (g : γ) : watch observe g [] = g := rfl

@[simp] theorem watch_cons (observe : γ → Event σ α → γ) (g : γ) (e : Event σ α)
    (tr : List (Event σ α)) :
    watch observe g (e :: tr) = observe (watch observe g tr) e := rfl

@[simp] theorem along_nil (P : List (Event σ α) → Event σ α → Prop) : Along P [] := trivial

@[simp] theorem along_cons (P : List (Event σ α) → Event σ α → Prop) (e : Event σ α)
    (tr : List (Event σ α)) : Along P (e :: tr) ↔ P tr e ∧ Along P tr := Iff.rfl

theorem along_and {P Q : List (Event σ α) → Event σ α → Prop} {tr : List (Event σ α)} :
    Along (fun h e => P h e ∧ Q h e) tr ↔ Along P tr ∧ Along Q tr := by
  induction tr with
  | nil => simp
  | cons e tr ih =>
    simp only [along_cons,ih]
    tauto

theorem along_mono {P Q : List (Event σ α) → Event σ α → Prop}
    (hpq : ∀ h e, P h e → Q h e) {tr : List (Event σ α)} (h : Along P tr) : Along Q tr := by
  induction tr with
  | nil => trivial
  | cons e tr ih => exact ⟨hpq _ _ h.1,ih h.2⟩

/-- A condition that does not look back holds along a run iff it holds of each step. -/
theorem along_forall {P : Event σ α → Prop} {tr : List (Event σ α)} :
    Along (fun _ e => P e) tr ↔ ∀ e ∈ tr, P e := by
  induction tr with
  | nil => simp
  | cons e tr ih => simp [ih]

theorem Run.trans {step : σ → α → Option σ} {s t u : σ} {tr tr' : List (Event σ α)}
    (h : Run step s tr t) (h' : Run step t tr' u) : Run step s (tr' ++ tr) u := by
  induction h' with
  | refl => exact h
  | next _ hs ih => exact .next ih hs

section Induction

variable {step : σ → α → Option σ} {s u : σ} {tr : List (Event σ α)}
  {P Q : List (Event σ α) → Event σ α → Prop} {J : List (Event σ α) → σ → Prop}

/-- The invariant rule: `J` holds at the start and every step that meets `P` keeps it. -/
theorem Run.invariant (h : Run step s tr u) (hp : Along P tr) (h₀ : J [] s)
    (hstep : ∀ tr t a v, J tr t → P tr ⟨t,a,v⟩ → step t a = some v → J (⟨t,a,v⟩ :: tr) v) :
    J tr u := by
  induction h with
  | refl => exact h₀
  | next hr hs ih => exact hstep _ _ _ _ (ih hp.2) hp.1 hs

/-- With an invariant in hand, a condition on the steps can be traded for a consequence of it. -/
theorem Run.along_of_invariant (h : Run step s tr u) (hp : Along P tr) (h₀ : J [] s)
    (hstep : ∀ tr t a v, J tr t → P tr ⟨t,a,v⟩ → step t a = some v → J (⟨t,a,v⟩ :: tr) v)
    (hq : ∀ tr t a v, J tr t → P tr ⟨t,a,v⟩ → step t a = some v → Q tr ⟨t,a,v⟩) :
    Along Q tr := by
  induction h with
  | refl => trivial
  | next hr hs ih =>
    have hj := hr.invariant hp.2 h₀ hstep
    exact ⟨hq _ _ _ _ hj hp.1 hs,ih hp.2⟩

/-- Two conditions that agree on the steps from states with an invariant agree along a run. -/
theorem Run.along_congr (h : Run step s tr u) (h₀ : J [] s)
    (hstep : ∀ tr t a v, J tr t → step t a = some v → J (⟨t,a,v⟩ :: tr) v)
    (hpq : ∀ tr t a v, J tr t → step t a = some v → (P tr ⟨t,a,v⟩ ↔ Q tr ⟨t,a,v⟩)) :
    Along P tr ↔ Along Q tr := by
  induction h with
  | refl => exact Iff.rfl
  | next hr hs ih =>
    have hj := hr.invariant (along_forall.mpr fun _ _ => trivial) h₀
      fun tr t a v hj _ => hstep tr t a v hj
    exact and_congr (hpq _ _ _ _ hj hs) ih

end Induction

/-- Execute a list of labels, recording the steps on top of `tr`. -/
def replay (step : σ → α → Option σ) :
    List (Event σ α) → σ → List α → Option (List (Event σ α) × σ)
  | tr, s, [] => some (tr,s)
  | tr, s, a :: as =>
    match step s a with
    | none => none
    | some u => replay step (⟨s,a,u⟩ :: tr) u as

theorem replay_run {step : σ → α → Option σ} {s t u : σ} {tr tr' : List (Event σ α)}
    {as : List α} (h : Run step s tr t) (hr : replay step tr t as = some (tr',u)) :
    Run step s tr' u := by
  induction as generalizing tr t with
  | nil =>
    simp only [replay,Option.some.injEq,Prod.mk.injEq] at hr
    rcases hr with ⟨rfl,rfl⟩
    exact h
  | cons a as ih =>
    simp only [replay] at hr
    split at hr
    · simp at hr
    · rename_i v hs
      exact ih (.next h hs) hr

/-- A replay that ends in a state where the test `p` succeeds is a run ending there. -/
theorem exists_run_of_replay (step : σ → α → Option σ) (s : σ) (as : List α)
    {p : List (Event σ α) → σ → Bool}
    (h : (replay step [] s as).any (fun r => p r.1 r.2) = true) :
    ∃ tr u, Run step s tr u ∧ p tr u = true := by
  cases hr : replay step [] s as with
  | none => simp [hr] at h
  | some r =>
    rw [hr] at h
    exact ⟨r.1,r.2,replay_run .refl hr,h⟩

end Runs
end EntryAnalyse
