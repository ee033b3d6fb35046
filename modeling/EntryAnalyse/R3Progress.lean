import EntryAnalyse.R3WriteBack

/-! The loops of R3 for one function. The worker has a budget of its own, and the judge's loop
calls the worker without looking at it: a judgement that fails after the budget is used up is
followed by a judgement of the same answer. -/
namespace EntryAnalyse
namespace R3WriteBack

open PyJson Runs

/-! ## One function -/

/-- The steps of the coroutine of one function. -/
inductive FuncAct
  | enter
  | test
  | mark
  | answered (a : Answer)
  | callFailed
  | store
  | storeFailed
  | record
  | saved (ok : Bool)
  | judged (passed : Bool)
  | dies

/-- The step of the function `h` in a step of the system. -/
def funcAct (h : String) : Act → Option FuncAct
  | .enter k => if k = h then some .enter else none
  | .test k => if k = h then some .test else none
  | .mark k _ => if k = h then some .mark else none
  | .answered k a => if k = h then some (.answered a) else none
  | .callFailed k => if k = h then some .callFailed else none
  | .store k _ _ => if k = h then some .store else none
  | .storeFailed k => if k = h then some .storeFailed else none
  | .record k _ _ => if k = h then some .record else none
  | .saved k ok => if k = h then some (.saved ok) else none
  | .judged k passed => if k = h then some (.judged passed) else none
  | .dies k => if k = h then some .dies else none
  | .deleteFunction _ | .beside _ | .ccStart | .ccBuild _ | .ccFails _ | .ccSet
  | .quickPath .. | .cancel => none

/-- A step of `step` on the function alone. -/
inductive FuncStep (py : PyRuntime) (cfg : Config) (cancel : Bool) (f : FuncR3) :
    FuncAct → FuncR3 → Prop
  | leaves : f.phase = .idle → cancel = true → FuncStep py cfg cancel f .enter { f with phase := .left }
  | skips : f.phase = .idle → cancel = false → f.r3WState = .passed →
      FuncStep py cfg cancel f .enter (afterW cancel f)
  | begins : f.phase = .idle → cancel = false → f.r3WState ≠ .passed →
      FuncStep py cfg cancel f .enter { f with phase := .w false }
  | test {f' : FuncR3} : R3WriteBack.test cfg cancel f = some f' → FuncStep py cfg cancel f .test f'
  | mark {again : Bool} : f.phase = .marking again →
      FuncStep py cfg cancel f .mark { f with phase := .asking again }
  | answered {again : Bool} (a : Answer) : f.phase = .asking again →
      FuncStep py cfg cancel f (.answered a) (answer py f again a)
  | callFailed {again : Bool} : f.phase = .asking again →
      FuncStep py cfg cancel f .callFailed { f with r3WState := .failed, phase := .w again }
  | store {again : Bool} {analysis : List (String × PyJson)} : f.phase = .storing again analysis →
      FuncStep py cfg cancel f .store { f with phase := .recording again }
  | storeFailed {again : Bool} {analysis : List (String × PyJson)} :
      f.phase = .storing again analysis →
      FuncStep py cfg cancel f .storeFailed { f with r3WState := .failed, phase := .w again }
  | record {again : Bool} : f.phase = .recording again →
      FuncStep py cfg cancel f .record { f with r3WState := .passed, phase := .saving again }
  | saved {again : Bool} : f.phase = .saving again →
      FuncStep py cfg cancel f (.saved true) (exitW cancel again f)
  | saveFailed {again : Bool} : f.phase = .saving again →
      FuncStep py cfg cancel f (.saved false) { f with r3WState := .failed, phase := .w again }
  | approved : f.phase = .judging →
      FuncStep py cfg cancel f (.judged true) { f with r3JState := .passed, phase := .tail }
  | rejected : f.phase = .judging → FuncStep py cfg cancel f (.judged false)
      { f with r3JState := .failed, r3WState := .pending, phase := .w true }
  | dies : FuncStep py cfg cancel f .dies { f with phase := .left }

section Projection

variable {py : PyRuntime} {cfg : Config} {s v : Sys} {h k : String} {f : FuncR3}

@[simp] theorem setFunc_self (s : Sys) (h : String) (f : FuncR3) :
    (setFunc s h f).funcs h = f := by
  unfold setFunc
  exact Function.update_self _ _ _

theorem setFunc_of_ne (s : Sys) (f : FuncR3) (hne : k ≠ h) :
    (setFunc s k f).funcs h = s.funcs h := by
  unfold setFunc
  exact Function.update_of_ne hne.symm _ _

/-- The step `b` of the function `k`, seen by the function `h`. -/
theorem seen_by {b : FuncAct} {a : Act} (hact : ∀ h, funcAct h a = if k = h then some b else none)
    (hstep : FuncStep py cfg s.cancel (s.funcs k) b f) (hv : v.funcs = (setFunc s k f).funcs)
    (h : String) : (funcAct h a = none ∧ v.funcs h = s.funcs h) ∨
      ∃ b, funcAct h a = some b ∧ FuncStep py cfg s.cancel (s.funcs h) b (v.funcs h) := by
  by_cases hk : k = h
  · subst hk
    refine .inr ⟨b,(hact k).trans (if_pos rfl),?_⟩
    rw [hv,setFunc_self]
    exact hstep
  · refine .inl ⟨(hact h).trans (if_neg hk),?_⟩
    rw [hv,setFunc_of_ne s f hk]

/-- What a step of the system is for one function. -/
theorem step_func {a : Act} (hs : step py cfg s a = some v) (h : String) :
    (funcAct h a = none ∧ v.funcs h = s.funcs h) ∨
      ∃ b, funcAct h a = some b ∧ FuncStep py cfg s.cancel (s.funcs h) b (v.funcs h) := by
  cases a with
  | enter k =>
    simp only [step] at hs
    split at hs
    · rename_i hp
      cases hs
      refine seen_by (k := k) (fun _ => rfl) ?_ rfl h
      by_cases hc : s.cancel = true
      · rw [if_pos hc]
        exact .leaves hp hc
      · rw [if_neg hc]
        rw [Bool.not_eq_true] at hc
        by_cases hw : (s.funcs k).r3WState = .passed
        · rw [if_pos hw]
          exact .skips hp hc hw
        · rw [if_neg hw]
          exact .begins hp hc hw
    · cases hs
  | test k =>
    simp only [step,Option.map_eq_some_iff] at hs
    obtain ⟨f,hf,rfl⟩ := hs
    exact seen_by (k := k) (fun _ => rfl) (.test hf) rfl h
  | mark k written =>
    simp only [step] at hs
    split at hs
    · rename_i again hp
      refine seen_by (k := k) (fun _ => rfl) (.mark hp) ?_ h
      split at hs <;> cases hs <;> rfl
    · cases hs
  | answered k a =>
    simp only [step] at hs
    split at hs
    · rename_i again hp
      cases hs
      exact seen_by (k := k) (fun _ => rfl) (.answered a hp) rfl h
    · cases hs
  | callFailed k =>
    simp only [step] at hs
    split at hs
    · rename_i again hp
      cases hs
      exact seen_by (k := k) (fun _ => rfl) (.callFailed hp) rfl h
    · cases hs
  | store k role confidence =>
    simp only [step] at hs
    split at hs
    · rename_i again analysis hp
      cases hs
      exact seen_by (k := k) (fun _ => rfl) (.store hp) rfl h
    · cases hs
  | storeFailed k =>
    simp only [step] at hs
    split at hs
    · rename_i again analysis hp
      cases hs
      exact seen_by (k := k) (fun _ => rfl) (.storeFailed hp) rfl h
    · cases hs
  | record k dbWritten nodeWritten =>
    simp only [step] at hs
    split at hs
    · rename_i again hp
      cases hs
      exact seen_by (k := k) (fun _ => rfl) (.record hp) rfl h
    · cases hs
  | saved k ok =>
    simp only [step] at hs
    split at hs
    · rename_i again hp
      cases ok with
      | true =>
        cases hs
        exact seen_by (k := k) (fun _ => rfl) (.saved hp) rfl h
      | false =>
        cases hs
        exact seen_by (k := k) (fun _ => rfl) (.saveFailed hp) rfl h
    · cases hs
  | judged k passed =>
    simp only [step] at hs
    split at hs
    · rename_i hp
      cases passed with
      | true =>
        cases hs
        exact seen_by (k := k) (fun _ => rfl) (.approved hp) rfl h
      | false =>
        cases hs
        exact seen_by (k := k) (fun _ => rfl) (.rejected hp) rfl h
    · cases hs
  | dies k =>
    simp only [step] at hs
    split at hs
    · cases hs
    · cases hs
      exact seen_by (k := k) (fun _ => rfl) .dies rfl h
  | deleteFunction k =>
    simp only [step] at hs
    split at hs
    · cases hs
      exact .inl ⟨rfl,rfl⟩
    · cases hs
  | beside w =>
    obtain ⟨-,rfl⟩ := guarded hs
    exact .inl ⟨rfl,rfl⟩
  | ccStart | ccSet =>
    obtain ⟨-,rfl⟩ := guarded hs
    exact .inl ⟨rfl,rfl⟩
  | ccBuild edges =>
    obtain ⟨-,rfl⟩ := guarded hs
    exact .inl ⟨rfl,rfl⟩
  | ccFails p =>
    obtain ⟨-,rfl⟩ := guarded hs
    cases p <;> exact .inl ⟨rfl,rfl⟩
  | quickPath k rowRead callersRead =>
    simp only [step] at hs
    split at hs
    · obtain ⟨-,rfl⟩ := guarded hs
      exact .inl ⟨rfl,rfl⟩
    · cases hs
  | cancel =>
    cases hs
    exact .inl ⟨rfl,rfl⟩

/-- Only the event sets `cancel`, and nothing clears it. -/
theorem step_cancel {a : Act} (hs : step py cfg s a = some v) :
    v.cancel = s.cancel ∨ (a = .cancel ∧ v.cancel = true ∧ v.funcs = s.funcs) := by
  cases a with
  | cancel =>
    cases hs
    exact .inr ⟨rfl,rfl,rfl⟩
  | enter k | answered k a | callFailed k | store k role confidence | storeFailed k
  | record k dbWritten nodeWritten | deleteFunction k =>
    simp only [step] at hs
    split at hs
    · cases hs
      exact .inl rfl
    · cases hs
  | mark k written =>
    simp only [step] at hs
    split at hs
    · split at hs <;> cases hs <;> exact .inl rfl
    · cases hs
  | dies k =>
    simp only [step] at hs
    split at hs
    · cases hs
    · cases hs
      exact .inl rfl
  | saved k ok | judged k ok =>
    simp only [step] at hs
    split at hs
    · split at hs <;> cases hs <;> exact .inl rfl
    · cases hs
  | test k =>
    simp only [step,Option.map_eq_some_iff] at hs
    obtain ⟨f,-,rfl⟩ := hs
    exact .inl rfl
  | beside w | ccStart | ccSet | ccBuild edges =>
    obtain ⟨-,rfl⟩ := guarded hs
    exact .inl rfl
  | ccFails p =>
    obtain ⟨-,rfl⟩ := guarded hs
    cases p <;> exact .inl rfl
  | quickPath k rowRead callersRead =>
    simp only [step] at hs
    split at hs
    · obtain ⟨-,rfl⟩ := guarded hs
      exact .inl rfl
    · cases hs

end Projection

/-! ## What the claim is about -/

/-- The answer says that there is no external input, or to filter the function. -/
def rulesOut (py : PyRuntime) : Answer → Bool
  | .parsed analysis => !hasInput analysis || decisionText py analysis == "filter"
  | .unparsed input => !input

/-- R3-W has not completed a run since its last answer or the last judgement. -/
def stale (h : String) (tr : List (Event Sys Act)) : Bool :=
  watch (fun g e =>
    match funcAct h e.act with
    | some (.answered _) | some (.judged _) => true
    | some (.saved true) => false
    | _ => g) false tr

/-- Whether the last answer of R3-W in the judge's loop rules the function out, and whether that
is the answer of its last completed run there. -/
def revised (py : PyRuntime) (h : String) (tr : List (Event Sys Act)) : Bool × Bool :=
  watch (fun g e =>
    match funcAct h e.act,(e.pre.funcs h).phase with
    | some (.answered a),.asking true => (rulesOut py a,g.2)
    | some (.saved true),.saving true => (g.1,g.1)
    | _,_ => g) (false,false) tr

/-- The steps of the two loops. -/
def inLoop (h : String) (e : Event Sys Act) : Bool :=
  match funcAct h e.act with
  | none | some .enter | some .dies => false
  | _ => true

/-- What the function does with a limit that is `-1` or lower is a matter of the other one. -/
def limitedByW (cfg : Config) : Bool := cfg.r3MaxRounds != -1

/-- R3-W is not called again with its budget used up; where it has no budget it does not fail;
and the judge agrees that a function is ruled out. -/
def steady (py : PyRuntime) (cfg : Config) (h : String) (tr : List (Event Sys Act))
    (e : Event Sys Act) : Bool :=
  match funcAct h e.act,(e.pre.funcs h).phase with
  | some .test,.w true =>
    e.pre.cancel || R4Loop.shouldContinue (e.pre.funcs h).r3WAttempts cfg.r3MaxRounds false
  | some .callFailed,_ | some .storeFailed,_ | some (.saved false),_ => limitedByW cfg
  | some (.judged false),_ => !(revised py h tr).2
  | _,_ => true

/-- The turns that are left for the worker, or for the judge if the worker has no limit. -/
def turnsLeft (cfg : Config) (f : FuncR3) : ℕ :=
  if limitedByW cfg then cfg.r3MaxRounds.toNat - f.r3WAttempts
  else cfg.r3JMaxRounds.toNat - f.r3JAttempts

/-- The loop is over, or its next judgement ends it. -/
def Phase.isEnding : Phase → Bool
  | .j | .judging | .tail | .finished | .left => true
  | _ => false

/-- The judge gets a new completed answer each time; the loops take a bounded number of steps if
one of the limits is finite; and once the worker has ruled the function out, R3-W stays passed
and is not called again. -/
structure Progresses (py : PyRuntime) (cfg : Config) (h : String) (s : Sys)
    (tr : List (Event Sys Act)) (u : Sys) : Prop where
  separated : Along (fun hist e => ∀ passed, funcAct h e.act = some (.judged passed) →
    stale h hist = false) tr
  ends : cfg.r3MaxRounds ≠ -1 ∨ cfg.r3JMaxRounds ≠ -1 →
    tr.countP (inLoop h) ≤ 10 * turnsLeft cfg (s.funcs h) + 12
  settles : (revised py h tr).2 = true →
    (u.funcs h).phase.isEnding = true ∧ (u.funcs h).r3WState = .passed

/-! ## The invariant -/

/-- A judgement is under way only on a fresh answer. -/
def Phase.allowsStale (cancel : Bool) : Phase → Bool
  | .idle | .judging => false
  | .j => cancel
  | _ => true

/-- What the phase says about the state of R3-W. -/
def FuncR3.WState (f : FuncR3) : Prop :=
  match f.phase with
  | .w _ => f.r3WState ≠ .passed
  | .saving _ => f.r3WState = .passed
  | _ => True

structure Going (py : PyRuntime) (h : String) (tr : List (Event Sys Act)) (t : Sys) : Prop where
  wState : (t.funcs h).WState
  fresh : stale h tr = true → (t.funcs h).phase.allowsStale t.cancel = true
  settled : (revised py h tr).2 = true →
    (t.funcs h).phase.isEnding = true ∧ (t.funcs h).r3WState = .passed

section Steps

variable {py : PyRuntime} {cfg : Config} {h : String} {f f' : FuncR3} {cancel : Bool}
  {b : FuncAct}

theorem wState_exitW (again : Bool) : (exitW cancel again f).WState := by
  unfold exitW afterW
  repeat' split
  all_goals exact trivial

/-- Each step leads to a phase that agrees with the state of R3-W. -/
theorem FuncStep.wState (hs : FuncStep py cfg cancel f b f') : f'.WState := by
  cases hs with
  | leaves | mark | store | approved | dies => exact trivial
  | skips => exact wState_exitW false
  | begins _ _ hw => exact hw
  | test ht =>
    unfold R3WriteBack.test at ht
    split at ht
    · split at ht <;> cases ht
      · exact trivial
      · exact wState_exitW _
    · split at ht <;> cases ht <;> exact trivial
    · split at ht <;> cases ht <;> exact trivial
    · cases ht
  | answered a =>
    cases a with
    | parsed analysis =>
      unfold answer FuncR3.WState
      dsimp only
      split <;> split at * <;> simp_all
    | unparsed input => exact trivial
  | callFailed | storeFailed | saveFailed | rejected => exact NodeState.noConfusion
  | record => rfl
  | saved => exact wState_exitW _

end Steps

/-! ## The bound -/

/-- What a turn has before it at most, when the worker is the one with a limit or not. -/
def rank (byW cancel : Bool) : Phase → ℕ
  | .idle => 12
  | .marking _ => 10
  | .asking _ => 9
  | .storing .. => 8
  | .recording _ => 7
  | .saving _ => 6
  | .w _ => if byW || cancel then 3 else 11
  | .j => if cancel then 2 else 5
  | .judging => if byW || cancel then 4 else 14
  | .tail => 1
  | .finished | .left => 0

/-- A bound on the steps of the loops from here on. -/
def stepsLeft (cfg : Config) (cancel : Bool) (f : FuncR3) : ℕ :=
  (if cancel then 0 else 10 * turnsLeft cfg f) + rank (limitedByW cfg) cancel f.phase

/-- The step is one of the loops. -/
def FuncAct.isTurn : FuncAct → Bool
  | .enter | .dies => false
  | _ => true

/-- The step does not use up what it may not use up. -/
def FuncAct.keeps (cfg : Config) (f : FuncR3) (cancel : Bool) (b : FuncAct) : Prop :=
  match b,f.phase with
  | .test,.w true => cancel = true ∨
    R4Loop.shouldContinue f.r3WAttempts cfg.r3MaxRounds false = true
  | .callFailed,_ | .storeFailed,_ | .saved false,_ => limitedByW cfg = true
  | _,_ => True

section Bound

variable {py : PyRuntime} {cfg : Config} {f f' : FuncR3} {cancel : Bool} {b : FuncAct}

theorem shouldContinue_iff {n : ℕ} {m : ℤ} :
    R4Loop.shouldContinue n m cancel = true ↔ cancel = false ∧ m ≠ 0 ∧ (m = -1 ∨ (n : ℤ) < m) := by
  unfold R4Loop.shouldContinue
  cases cancel
  · by_cases h0 : m = 0
    · simp [h0]
    · by_cases h1 : m = -1
      · simp [h1]
      · simp [h0,h1]
  · simp

/-- With one limit finite, a turn that starts uses up one. -/
theorem turnsLeft_test_w (again : Bool)
    (hcont : R4Loop.shouldContinue f.r3WAttempts cfg.r3MaxRounds cancel = true) :
    stepsLeft cfg cancel { f with
        r3WState := .running, r3WAttempts := f.r3WAttempts + 1, phase := .marking again } + 1 ≤
      stepsLeft cfg cancel { f with phase := .w again } := by
  obtain ⟨rfl,h0,hlt⟩ := shouldContinue_iff.mp hcont
  unfold stepsLeft turnsLeft rank
  by_cases hw : cfg.r3MaxRounds = -1
  · simp [limitedByW,hw]
  · have hlim : limitedByW cfg = true := by simp [limitedByW,hw]
    rcases hlt with hneg | hlt
    · exact absurd hneg hw
    · simp only [hlim,if_true,Bool.true_or,Bool.false_eq_true,if_false]
      omega

/-- A step that starts no turn only has to go down in its turn. -/
theorem stepsLeft_of_rank {n : ℕ} (hw : f'.r3WAttempts = f.r3WAttempts)
    (hj : f'.r3JAttempts = f.r3JAttempts)
    (hr : rank (limitedByW cfg) cancel f'.phase + n ≤ rank (limitedByW cfg) cancel f.phase) :
    stepsLeft cfg cancel f' + n ≤ stepsLeft cfg cancel f := by
  unfold stepsLeft turnsLeft
  rw [hw,hj]
  omega

theorem exitW_attempts (cancel again : Bool) (f : FuncR3) :
    (exitW cancel again f).r3WAttempts = f.r3WAttempts ∧
      (exitW cancel again f).r3JAttempts = f.r3JAttempts := by
  unfold exitW afterW
  repeat' split
  all_goals exact ⟨rfl,rfl⟩

theorem rank_j (byW : Bool) : 2 ≤ rank byW cancel .j ∧ rank byW cancel .j ≤ 5 := by
  cases cancel <;> simp [rank]

theorem rank_judging (byW : Bool) : 2 ≤ rank byW cancel .judging ∧
    rank byW cancel (.w true) + 1 ≤ rank byW cancel .judging := by
  cases byW <;> cases cancel <;> simp [rank]

theorem rank_exitW (byW cancel again : Bool) (f : FuncR3) :
    rank byW cancel (exitW cancel again f).phase ≤ 5 := by
  unfold exitW afterW
  repeat' split
  all_goals first
    | exact (rank_j byW).2
    | exact Nat.zero_le 5
    | exact (show 1 ≤ 5 by decide)

/-- R3-W gives up before its answer is complete: the stage ends, unless it is cancelled. -/
theorem rank_giveUp (byW : Bool) {again : Bool} (hw : f.r3WState ≠ .passed)
    (hc : cancel = true ∨ again = false) :
    rank byW cancel (exitW cancel again f).phase + 1 ≤ rank byW cancel (.w again) := by
  unfold exitW afterW rank
  cases cancel with
  | true => cases again <;> simp
  | false =>
    rcases hc with hc | rfl
    · cases hc
    · cases byW <;> simp [hw]

/-- The tests at the heads of the loops. -/
theorem stepsLeft_test (ht : R3WriteBack.test cfg cancel f = some f') (hw : f.WState)
    (hk : FuncAct.keeps cfg f cancel .test)
    (hlim : cfg.r3MaxRounds ≠ -1 ∨ cfg.r3JMaxRounds ≠ -1) :
    stepsLeft cfg cancel f' + 1 ≤ stepsLeft cfg cancel f := by
  unfold R3WriteBack.test at ht
  split at ht
  · rename_i again hp
    have hne : f.r3WState ≠ .passed := by
      unfold FuncR3.WState at hw
      rw [hp] at hw
      exact hw
    have hself : ({ f with phase := .w again } : FuncR3) = f := by rw [← hp]
    by_cases hcont : R4Loop.shouldContinue f.r3WAttempts cfg.r3MaxRounds cancel = true
    · have hturn := turnsLeft_test_w again hcont
      rw [hself] at hturn
      simp only [hcont,Bool.true_and,bne_iff_ne,ne_eq,hne,not_false_eq_true,if_true,
        Option.some.injEq] at ht
      rw [← ht]
      exact hturn
    · simp only [hcont,Bool.false_and,Bool.false_eq_true,if_false,Option.some.injEq] at ht
      have hgive : cancel = true ∨ again = false := by
        cases again with
        | false => exact .inr rfl
        | true =>
          unfold FuncAct.keeps at hk
          rw [hp] at hk
          rcases hk with hc | hgo
          · exact .inl hc
          · cases cancel with
            | true => exact .inl rfl
            | false => exact absurd hgo hcont
      obtain ⟨hwa,hja⟩ := exitW_attempts cancel again f
      have hrank := rank_giveUp (limitedByW cfg) hne hgive
      rw [← ht]
      refine stepsLeft_of_rank hwa hja ?_
      rw [hp]
      exact hrank
  · rename_i hp
    by_cases hcont : R4Loop.shouldContinue f.r3JAttempts cfg.r3JMaxRounds cancel = true
    · obtain ⟨hcancel,h0,hlt⟩ := shouldContinue_iff.mp hcont
      split at ht <;> cases ht
      · unfold stepsLeft turnsLeft rank
        rw [hp,hcancel]
        by_cases hw1 : cfg.r3MaxRounds = -1
        · have hj : ((f.r3JAttempts : ℤ) < cfg.r3JMaxRounds) := by
            rcases hlim with hno | hno
            · exact absurd hw1 hno
            · exact hlt.resolve_left hno
          simp only [limitedByW,hw1,bne_self_eq_false,Bool.false_eq_true,if_false,Bool.or_self]
          omega
        · have hl : limitedByW cfg = true := by simp [limitedByW,hw1]
          simp only [hl,if_true,Bool.true_or,Bool.false_eq_true,if_false]
          omega
      · refine stepsLeft_of_rank rfl rfl ?_
        rw [hp]
        exact (rank_j _).1
    · simp only [hcont,Bool.false_and,Bool.false_eq_true,if_false] at ht
      cases ht
      refine stepsLeft_of_rank rfl rfl ?_
      rw [hp]
      exact (rank_j _).1
  · rename_i hp
    split at ht <;> cases ht
    · refine stepsLeft_of_rank rfl rfl ?_
      rw [hp]
      exact Nat.le_refl 1
    · refine stepsLeft_of_rank rfl rfl ?_
      rw [hp]
      exact Nat.le_refl 1
  · cases ht

/-- Each step of the loops lowers the bound, and the other steps do not raise it. -/
theorem FuncStep.stepsLeft_le (hs : FuncStep py cfg cancel f b f') (hw : f.WState)
    (hk : b.keeps cfg f cancel) (hlim : cfg.r3MaxRounds ≠ -1 ∨ cfg.r3JMaxRounds ≠ -1) :
    stepsLeft cfg cancel f' + (if b.isTurn then 1 else 0) ≤ stepsLeft cfg cancel f := by
  have hfail : ∀ again, limitedByW cfg = true → rank (limitedByW cfg) cancel (.w again) = 3 := by
    intro again hl
    rw [hl]
    rfl
  cases hs with
  | leaves | dies => exact stepsLeft_of_rank rfl rfl (Nat.zero_le _)
  | skips hp =>
    obtain ⟨hwa,hja⟩ := exitW_attempts cancel false f
    refine stepsLeft_of_rank hwa hja ?_
    have hle := rank_exitW (limitedByW cfg) cancel false f
    rw [hp]
    exact hle.trans (show 5 ≤ 12 by decide)
  | begins hp =>
    refine stepsLeft_of_rank rfl rfl ?_
    rw [hp]
    cases limitedByW cfg <;> cases cancel <;> simp [rank,FuncAct.isTurn]
  | test ht => exact stepsLeft_test ht hw hk hlim
  | mark hp | store hp | record hp =>
    refine stepsLeft_of_rank rfl rfl ?_
    rw [hp]
    exact Nat.le_refl _
  | answered a hp =>
    cases a with
    | parsed analysis =>
      refine stepsLeft_of_rank rfl rfl ?_
      rw [hp]
      unfold answer
      dsimp only
      split
      · exact (show 8 + 1 ≤ 9 by decide)
      · exact (show 7 + 1 ≤ 9 by decide)
    | unparsed input =>
      refine stepsLeft_of_rank rfl rfl ?_
      rw [hp]
      exact (show 7 + 1 ≤ 9 by decide)
  | callFailed hp | storeFailed hp | saveFailed hp =>
    refine stepsLeft_of_rank rfl rfl ?_
    rw [hp]
    dsimp only
    rw [hfail _ hk]
    simp [rank,FuncAct.isTurn]
  | @saved again hp =>
    obtain ⟨hwa,hja⟩ := exitW_attempts cancel again f
    refine stepsLeft_of_rank hwa hja ?_
    have hle := rank_exitW (limitedByW cfg) cancel again f
    rw [hp]
    exact Nat.succ_le_succ hle
  | approved hp =>
    refine stepsLeft_of_rank rfl rfl ?_
    rw [hp]
    exact (rank_judging _).1
  | rejected hp =>
    refine stepsLeft_of_rank rfl rfl ?_
    rw [hp]
    exact (rank_judging _).2

end Bound

/-! ## Runs -/

section Keeps

variable {py : PyRuntime} {cfg : Config} {h : String} {f f' : FuncR3} {cancel : Bool}
  {b : FuncAct} {tr : List (Event Sys Act)} {t v s u : Sys} {a : Act}

/-- The answer is about to be judged, or has been: no step but a completed run makes an old answer
a fresh one. -/
theorem FuncStep.allowsStale (hs : FuncStep py cfg cancel f b f') (hw : f.WState)
    (hk : b.keeps cfg f cancel) (hold : f.phase.allowsStale cancel = true ∨
      (∃ a, b = .answered a) ∨ ∃ p, b = .judged p) (hnot : b ≠ .saved true) :
    f'.phase.allowsStale cancel = true := by
  have hidle : f.phase = .idle → b = .enter → False := by
    intro hp hb
    rcases hold with hold | ⟨a,ha⟩ | ⟨p,hp⟩
    · rw [hp] at hold
      cases hold
    · rw [hb] at ha
      cases ha
    · rw [hb] at hp
      cases hp
  cases hs with
  | leaves hp | skips hp | begins hp => exact (hidle hp rfl).elim
  | test ht =>
    have hstale : f.phase.allowsStale cancel = true := by
      rcases hold with hold | ⟨a,ha⟩ | ⟨p,hp⟩
      · exact hold
      · cases ha
      · cases hp
    unfold R3WriteBack.test at ht
    split at ht
    · rename_i again hp
      have hne : f.r3WState ≠ .passed := by
        unfold FuncR3.WState at hw
        rw [hp] at hw
        exact hw
      split at ht <;> cases ht
      · rfl
      · rename_i hstop
        unfold exitW afterW
        cases cancel with
        | true => cases again <;> rfl
        | false =>
          cases again with
          | false => simp [hne,Phase.allowsStale]
          | true =>
            unfold FuncAct.keeps at hk
            rw [hp] at hk
            rcases hk with hc | hgo
            · cases hc
            · simp [hgo,hne] at hstop
    · rename_i hp
      rw [hp] at hstale
      have hc : cancel = true := hstale
      subst hc
      split at ht <;> cases ht
      · rename_i hgo
        simp [R4Loop.shouldContinue] at hgo
      · rfl
    · split at ht <;> cases ht <;> rfl
    · cases ht
  | mark | callFailed | store | storeFailed | record | saveFailed | approved | rejected | dies => rfl
  | answered a =>
    cases a with
    | parsed analysis =>
      unfold answer
      dsimp only
      split <;> rfl
    | unparsed input => rfl
  | saved => exact absurd rfl hnot

/-- After a completed run that rules the function out the stage only ends. -/
theorem FuncStep.settled (hs : FuncStep py cfg cancel f b f') (hend : f.phase.isEnding = true)
    (hw : f.r3WState = .passed) (hj : b ≠ .judged false) :
    f'.phase.isEnding = true ∧ f'.r3WState = .passed := by
  cases hs with
  | leaves hp | skips hp | begins hp | mark hp | answered _ hp | callFailed hp | store hp
  | storeFailed hp | record hp | saved hp | saveFailed hp =>
    rw [hp] at hend
    cases hend
  | test ht =>
    unfold R3WriteBack.test at ht
    split at ht
    · rename_i hp
      rw [hp] at hend
      cases hend
    · split at ht <;> cases ht <;> exact ⟨rfl,hw⟩
    · split at ht <;> cases ht <;> exact ⟨rfl,hw⟩
    · cases ht
  | approved | dies => exact ⟨rfl,hw⟩
  | rejected => exact absurd rfl hj

theorem FuncStep.judging {p : Bool} (hs : FuncStep py cfg cancel f (.judged p) f') :
    f.phase = .judging := by
  cases hs with
  | approved hp | rejected hp => exact hp

theorem FuncStep.completed (hs : FuncStep py cfg cancel f (.saved true) f') :
    ∃ again, f.phase = .saving again ∧ f' = exitW cancel again f := by
  cases hs with
  | saved hp => exact ⟨_,hp,rfl⟩

theorem keeps_of_steady (hs : steady py cfg h tr ⟨t,a,v⟩ = true) (hb : funcAct h a = some b) :
    b.keeps cfg (t.funcs h) t.cancel := by
  unfold steady at hs
  rw [hb] at hs
  unfold FuncAct.keeps
  split
  · rename_i hp
    dsimp only at hs
    rw [hp] at hs
    simpa using hs
  · exact hs
  · exact hs
  · exact hs
  · trivial

theorem not_judged_of_steady (hs : steady py cfg h tr ⟨t,a,v⟩ = true) (hb : funcAct h a = some b)
    (hr : (revised py h tr).2 = true) : b ≠ .judged false := by
  rintro rfl
  unfold steady at hs
  rw [hb,hr] at hs
  cases hs

theorem stale_of_none (ha : funcAct h a = none) : stale h (⟨t,a,v⟩ :: tr) = stale h tr := by
  unfold stale
  rw [watch_cons]
  dsimp only
  rw [ha]

theorem revised_of_none (ha : funcAct h a = none) :
    revised py h (⟨t,a,v⟩ :: tr) = revised py h tr := by
  unfold revised
  rw [watch_cons]
  dsimp only
  rw [ha]

theorem allowsStale_mono {c c' : Bool} {p : Phase} (hc : c = true → c' = true)
    (hp : p.allowsStale c = true) : p.allowsStale c' = true := by
  cases p with
  | j => exact hc hp
  | _ => exact hp

theorem Going.step (hg : Going py h tr t) (hs : step py cfg t a = some v)
    (hsteady : steady py cfg h tr ⟨t,a,v⟩ = true) : Going py h (⟨t,a,v⟩ :: tr) v := by
  have hcancel : t.cancel = true → v.cancel = true := by
    intro hc
    rcases step_cancel hs with heq | ⟨-,hv,-⟩
    · rw [heq,hc]
    · exact hv
  rcases step_func hs h with ⟨hnone,hsame⟩ | ⟨b,hb,hstep⟩
  · refine ⟨?_,?_,?_⟩
    · rw [hsame]
      exact hg.wState
    · rw [stale_of_none hnone,hsame]
      exact fun hst => allowsStale_mono hcancel (hg.fresh hst)
    · rw [revised_of_none hnone,hsame]
      exact hg.settled
  · have hkeeps := keeps_of_steady hsteady hb
    refine ⟨hstep.wState,?_,?_⟩
    · intro hst
      by_cases hsaved : b = .saved true
      · subst hsaved
        unfold stale at hst
        rw [watch_cons] at hst
        dsimp only at hst
        rw [hb] at hst
        cases hst
      · refine allowsStale_mono hcancel (hstep.allowsStale hg.wState hkeeps ?_ hsaved)
        by_cases hanswer : (∃ a, b = .answered a) ∨ ∃ p, b = .judged p
        · exact .inr hanswer
        · refine .inl (hg.fresh ?_)
          unfold stale at hst
          rw [watch_cons] at hst
          dsimp only at hst
          rw [hb] at hst
          split at hst
          · rename_i x heq
            exact absurd (.inl ⟨x,Option.some.inj heq⟩) hanswer
          · rename_i x heq
            exact absurd (.inr ⟨x,Option.some.inj heq⟩) hanswer
          · cases hst
          · exact hst
    · intro hrev
      by_cases hold : (revised py h tr).2 = true
      · obtain ⟨hend,hw⟩ := hg.settled hold
        exact hstep.settled hend hw (not_judged_of_steady hsteady hb hold)
      · unfold revised at hrev hold
        rw [watch_cons] at hrev
        dsimp only at hrev
        split at hrev
        · exact absurd hrev hold
        · rename_i hact hp
          rw [hb] at hact
          cases hact
          obtain ⟨again,hp',hpost⟩ := hstep.completed
          rw [hp] at hp'
          cases hp'
          have hw : (t.funcs h).r3WState = .passed := by
            have hw := hg.wState
            unfold FuncR3.WState at hw
            rw [hp] at hw
            exact hw
          rw [hpost]
          exact ⟨rfl,hw⟩
        · exact absurd hrev hold

theorem going_start (hidle : (s.funcs h).phase = .idle) : Going py h [] s := by
  refine ⟨?_,fun hst => ?_,fun hrev => ?_⟩
  · unfold FuncR3.WState
    rw [hidle]
    trivial
  · cases hst
  · cases hrev

/-- A step of the loops lowers the bound. -/
theorem stepsLeft_step (hg : Going py h tr t) (hs : R3WriteBack.step py cfg t a = some v)
    (hsteady : steady py cfg h tr ⟨t,a,v⟩ = true)
    (hlim : cfg.r3MaxRounds ≠ -1 ∨ cfg.r3JMaxRounds ≠ -1) :
    stepsLeft cfg v.cancel (v.funcs h) + (if inLoop h ⟨t,a,v⟩ then 1 else 0) ≤
      stepsLeft cfg t.cancel (t.funcs h) := by
  have hdrop : ∀ f : FuncR3, stepsLeft cfg true f ≤ stepsLeft cfg t.cancel f := by
    intro f
    cases t.cancel with
    | true => exact Nat.le_refl _
    | false =>
      unfold stepsLeft
      refine Nat.add_le_add (Nat.zero_le _) ?_
      cases f.phase with
      | w again => cases limitedByW cfg <;> simp [rank]
      | judging => cases limitedByW cfg <;> simp [rank]
      | j => simp [rank]
      | _ => exact Nat.le_refl _
  rcases step_func hs h with ⟨hnone,hsame⟩ | ⟨b,hb,hstep⟩
  · have hloop : inLoop h ⟨t,a,v⟩ = false := by
      unfold inLoop
      dsimp only
      rw [hnone]
    rw [hloop,hsame]
    rcases step_cancel hs with heq | ⟨-,hv,-⟩
    · rw [heq]
      exact Nat.le_refl _
    · rw [hv]
      exact hdrop _
  · have hloop : inLoop h ⟨t,a,v⟩ = b.isTurn := by
      unfold inLoop
      dsimp only
      rw [hb]
      cases b <;> rfl
    have hcancel : v.cancel = t.cancel := by
      rcases step_cancel hs with heq | ⟨rfl,-⟩
      · exact heq
      · cases hb
    rw [hloop,hcancel]
    exact hstep.stepsLeft_le hg.wState (keeps_of_steady hsteady hb) hlim

end Keeps

/-- The loops of R3 make progress in every run in which R3-W is not called again with its budget
used up, does not fail where it has no budget, and is not contradicted by the judge when it has
ruled the function out. -/
theorem steady_run_progresses {py : PyRuntime} {cfg : Config} {h : String} {s u : Sys}
    {tr : List (Event Sys Act)} (hidle : (s.funcs h).phase = .idle)
    (hrun : Run (step py cfg) s tr u)
    (hsteady : Along (fun hist e => steady py cfg h hist e = true) tr) :
    Progresses py cfg h s tr u := by
  have hgoing : Going py h tr u :=
    hrun.invariant (J := fun tr t => Going py h tr t) hsteady (going_start hidle)
      fun tr t a v hj ha hs => hj.step hs ha
  refine ⟨?_,?_,hgoing.settled⟩
  · refine hrun.along_of_invariant (J := fun tr t => Going py h tr t) hsteady (going_start hidle)
      (fun tr t a v hj ha hs => hj.step hs ha) ?_
    intro tr t a v hj ha hs passed hact
    have hact : funcAct h a = some (.judged passed) := hact
    have hjudging : (t.funcs h).phase = .judging := by
      rcases step_func hs h with ⟨hnone,-⟩ | ⟨b,hb,hstep⟩
      · rw [hnone] at hact
        cases hact
      · rw [hb] at hact
        cases hact
        exact hstep.judging
    by_contra hst
    rw [Bool.not_eq_false] at hst
    have hallow := hj.fresh hst
    rw [hjudging] at hallow
    cases hallow
  · intro hlim
    have hbound : Going py h tr u ∧ tr.countP (inLoop h) + stepsLeft cfg u.cancel (u.funcs h) ≤
        stepsLeft cfg s.cancel (s.funcs h) := by
      refine hrun.invariant (J := fun tr t => Going py h tr t ∧ tr.countP (inLoop h) +
        stepsLeft cfg t.cancel (t.funcs h) ≤ stepsLeft cfg s.cancel (s.funcs h)) hsteady
        ⟨going_start hidle,by simp⟩ ?_
      rintro tr t a v ⟨hj,hle⟩ ha hs
      refine ⟨hj.step hs ha,?_⟩
      have hstep := stepsLeft_step hj hs ha hlim
      rw [List.countP_cons]
      omega
    have hstart : stepsLeft cfg s.cancel (s.funcs h) ≤ 10 * turnsLeft cfg (s.funcs h) + 12 := by
      unfold stepsLeft
      rw [hidle]
      refine Nat.add_le_add ?_ (Nat.le_refl 12)
      split <;> omega
    omega

/-! ## Two limits -/

/-- One completed run of R3-W with this analysis. -/
def workerRun (h : String) (analysis : List (String × PyJson)) : List Act :=
  [.test h,.mark h true,.answered h (.parsed analysis)] ++
    (if hasInput analysis then [.store h none (.finite 1)] else []) ++ [.record h true true,.saved h true]

def saysKeep : List (String × PyJson) := [("decision",.str "keep")]

def saysNoInput : List (String × PyJson) := [("has_external_input",.bool false)]

/-- The judge rejects the first answer, and the worker then finds that there is no input. -/
theorem second_answer_ends_loop : ∃ tr u, Run (step plainRuntime ⟨3,-1⟩) {} tr u ∧
    (revised plainRuntime "a" tr).2 = true ∧ (u.funcs "a").phase.isFinished = true ∧
      Progresses plainRuntime ⟨3,-1⟩ "a" {} tr u := by
  obtain ⟨tr,u,hr,hp⟩ := exists_run_of_replay (step plainRuntime ⟨3,-1⟩) {}
    ([.enter "a"] ++ workerRun "a" saysKeep ++ [.test "a",.judged "a" false] ++
      workerRun "a" saysNoInput ++ [.test "a",.judged "a" true,.test "a"])
    (p := fun tr (u : Sys) =>
      decide (Along (fun hist e => steady plainRuntime ⟨3,-1⟩ "a" hist e = true) tr) &&
        (revised plainRuntime "a" tr).2 && (u.funcs "a").phase.isFinished) (by decide +kernel)
  rw [Bool.and_eq_true,Bool.and_eq_true,decide_eq_true_iff] at hp
  exact ⟨tr,u,hr,hp.1.2,hp.2,steady_run_progresses rfl hr hp.1.1⟩

/-- The worker has used up its only round, and the judge has rejected the answer. -/
structure Spent (h : String) (s : Sys) : Prop where
  phase : (s.funcs h).phase = .w true
  attempts : (s.funcs h).r3WAttempts = 1
  wState : (s.funcs h).r3WState = .pending
  jState : (s.funcs h).r3JState = .failed
  cancel : s.cancel = false

/-- The next judgement comes without an answer, and leads back to the same place. -/
theorem Spent.again {h : String} {s : Sys} (hs : Spent h s) (py : PyRuntime) :
    ∃ tr u, Run (step py ⟨1,-1⟩) s tr u ∧ tr.countP (inLoop h) = 3 ∧ Spent h u := by
  let f₁ := { s.funcs h with phase := .j }
  let f₂ := { f₁ with r3JState := .running, r3JAttempts := f₁.r3JAttempts + 1, phase := .judging }
  let f₃ := { f₂ with r3JState := .failed, r3WState := .pending, phase := .w true }
  have h₁ : step py ⟨1,-1⟩ s (.test h) = some (setFunc s h f₁) := by
    have htest : R3WriteBack.test ⟨1,-1⟩ s.cancel (s.funcs h) = some f₁ := by
      unfold R3WriteBack.test
      rw [hs.phase,hs.attempts,hs.cancel]
      simp [R4Loop.shouldContinue,exitW,f₁]
    simp only [step,htest,Option.map_some]
  have h₂ : step py ⟨1,-1⟩ (setFunc s h f₁) (.test h) =
      some (setFunc (setFunc s h f₁) h f₂) := by
    have htest : R3WriteBack.test ⟨1,-1⟩ (setFunc s h f₁).cancel f₁ = some f₂ := by
      have hc : (setFunc s h f₁).cancel = false := hs.cancel
      have hj : f₁.r3JState = .failed := hs.jState
      unfold R3WriteBack.test
      rw [hc]
      simp [R4Loop.shouldContinue,f₁,f₂,hs.jState]
    simp only [step,setFunc_self,htest,Option.map_some]
  have h₃ : step py ⟨1,-1⟩ (setFunc (setFunc s h f₁) h f₂) (.judged h false) =
      some (setFunc (setFunc (setFunc s h f₁) h f₂) h f₃) := by
    simp [step,f₂,f₃]
  refine ⟨_,_,.next (.next (.next .refl h₁) h₂) h₃,?_,?_⟩
  · simp [inLoop,funcAct]
  · constructor
    · rw [setFunc_self]
    · rw [setFunc_self]
      exact hs.attempts
    · rw [setFunc_self]
    · rw [setFunc_self]
    · exact hs.cancel

/-- So the judge is called for ever. -/
theorem Spent.endless {h : String} {s : Sys} (hs : Spent h s) (py : PyRuntime) (n : ℕ) :
    ∃ tr u, Run (step py ⟨1,-1⟩) s tr u ∧ n ≤ tr.countP (inLoop h) ∧ Spent h u := by
  induction n with
  | zero => exact ⟨[],s,.refl,Nat.zero_le _,hs⟩
  | succ n ih =>
    obtain ⟨tr,t,hr,hn,ht⟩ := ih
    obtain ⟨tr',u,hr',hn',hu⟩ := ht.again py
    refine ⟨tr' ++ tr,u,hr.trans hr',?_,hu⟩
    rw [List.countP_append,hn']
    omega

/-- The last step is a judgement of an answer that was judged before. -/
def judgesStale (h : String) : List (Event Sys Act) → Bool
  | [] => false
  | e :: hist =>
    match funcAct h e.act with
    | some (.judged _) => stale h hist
    | _ => false

/-- With one round for the worker and no limit for the judge, the judge judges one answer twice,
and the loop has no end; and a worker that withdraws its answer is judged and sent back. -/
theorem judge_without_worker :
    (∃ tr u, Run (step plainRuntime ⟨1,-1⟩) {} tr u ∧ ¬Along (fun hist e => ∀ passed,
      funcAct "a" e.act = some (.judged passed) → stale "a" hist = false) tr) ∧
    (∀ n, ∃ tr u, Run (step plainRuntime ⟨1,-1⟩) {} tr u ∧ n ≤ tr.countP (inLoop "a")) ∧
    ∃ tr u, Run (step plainRuntime ⟨2,-1⟩) {} tr u ∧ (revised plainRuntime "a" tr).2 = true ∧
      (u.funcs "a").r3WState = .pending := by
  have hspent : ∃ tr u, Run (step plainRuntime ⟨1,-1⟩) {} tr u ∧ Spent "a" u := by
    obtain ⟨tr,u,hr,hp⟩ := exists_run_of_replay (step plainRuntime ⟨1,-1⟩) {}
      ([.enter "a"] ++ workerRun "a" saysKeep ++ [.test "a",.judged "a" false])
      (p := fun tr (u : Sys) =>
        (match (u.funcs "a").phase with | .w again => again | _ => false) &&
          (u.funcs "a").r3WAttempts == 1 && (u.funcs "a").r3WState == .pending &&
          (u.funcs "a").r3JState == .failed && !u.cancel) (by decide +kernel)
    simp only [Bool.and_eq_true,beq_iff_eq,Bool.not_eq_true'] at hp
    obtain ⟨⟨⟨⟨hphase,hattempts⟩,hw⟩,hj⟩,hc⟩ := hp
    refine ⟨tr,u,hr,⟨?_,hattempts,hw,hj,hc⟩⟩
    split at hphase
    · rename_i again hagain
      rw [hagain,hphase]
    · cases hphase
  obtain ⟨tr,u,hr,hu⟩ := hspent
  refine ⟨?_,fun n => ?_,?_⟩
  · obtain ⟨tr,u,hr,hp⟩ := exists_run_of_replay (step plainRuntime ⟨1,-1⟩) {}
      ([.enter "a"] ++ workerRun "a" saysKeep ++
        [.test "a",.judged "a" false,.test "a",.test "a",.judged "a" false])
      (p := fun tr (_ : Sys) => judgesStale "a" tr) (by decide)
    refine ⟨tr,u,hr,fun hall => ?_⟩
    cases tr with
    | nil => cases hp
    | cons e hist =>
      unfold judgesStale at hp
      dsimp only at hp
      split at hp
      · rename_i passed hact
        have hfresh := hall.1 passed hact
        rw [hfresh] at hp
        cases hp
      · cases hp
  · obtain ⟨tr',v,hr',hn,-⟩ := hu.endless plainRuntime n
    refine ⟨tr' ++ tr,v,hr.trans hr',?_⟩
    rw [List.countP_append]
    omega
  · obtain ⟨tr,u,hr,hp⟩ := exists_run_of_replay (step plainRuntime ⟨2,-1⟩) {}
      ([.enter "a"] ++ workerRun "a" saysKeep ++ [.test "a",.judged "a" false] ++
        workerRun "a" saysNoInput ++ [.test "a",.judged "a" false])
      (p := fun tr (u : Sys) =>
        (revised plainRuntime "a" tr).2 && (u.funcs "a").r3WState == .pending) (by decide +kernel)
    rw [Bool.and_eq_true,beq_iff_eq] at hp
    exact ⟨tr,u,hr,hp⟩

end R3WriteBack
end EntryAnalyse
