import EntryAnalyse.ModuleLoader
import EntryAnalyse.R3Progress

/-! What the judge of R2 rules out and what comes after it. Its verdicts SKIP and DISCARD leave
the function failed, DELETE removes it from the database; the loop of R2 then ends like a loop that
has used up its rounds, and what follows is a gate that reads one state of the function. -/
namespace EntryAnalyse
namespace R2Rulings

open PyJson Runs

/-! ## The verdicts -/

def jVerdictDelete : String := "__DELETE__"

def jVerdictSkip : String := "__SKIP__"

def jVerdictDiscard : String := "__DISCARD__"

/-- What `_r2_j_script_check` decides without an agent. -/
inductive ScriptVerdict
  | pass | passDelete | passSkip

/-- `(passed, feedback)` of a decision of the script. -/
def scriptResult (reason : String) : ScriptVerdict → Bool × String
  | .passDelete => (true,jVerdictDelete ++ reason)
  | .passSkip => (false,jVerdictSkip ++ reason)
  | .pass => (true,"[script] " ++ reason)

inductive Ruling
  | delete | skip | discard

/-- The ruling that the feedback of the script or the agent begins with. -/
def rulingOf (feedback : String) : Option Ruling :=
  if ModuleLoader.startsWith feedback jVerdictDelete then some .delete
  else if ModuleLoader.startsWith feedback jVerdictSkip then some .skip
  else if ModuleLoader.startsWith feedback jVerdictDiscard then some .discard
  else none

/-! ## R2 -/

/-- Where the coroutine of a function stands before R3: before R2, in the comparison of the bodies,
at the head of the loop, in a call of the judge or the worker, at the forced pass, at the gate,
in a batch of the fast mode, in R3 or later, or out. -/
inductive Phase
  | start
  | fast
  | head
  | judging
  | worker
  | forcing
  | gate
  | batch
  | cleared
  | left
  deriving DecidableEq

/-- The fields of `FunctionState` that R2 reads or writes, and the coroutine. -/
structure FuncR2 where
  phase : Phase := .start
  r2WState : NodeState := .pending
  r2WAttempts : ℕ := 0
  r2JState : NodeState := .pending
  r2JAttempts : ℕ := 0
  r2SourceIncomplete : Bool := false

/-- `skipsR2` is the super-fast engine in its modes, which takes R2 as passed. -/
structure Config where
  r2MaxRounds : ℤ
  r3 : R3WriteBack.Config
  fastMode : Bool := false
  skipsR2 : Bool := false
  singleFile : Bool := false
  outDir : Bool := true

section Stage

variable (cfg : Config) (cancel : Bool)

/-- `_func_pipeline` up to the first await of `_run_r2`. -/
def begins (f : FuncR2) : FuncR2 :=
  if cancel then { f with phase := .left }
  else if f.r2JState = .passed then { f with phase := .gate }
  else if cfg.skipsR2 then { f with r2JState := .passed, r2JAttempts := 1, phase := .gate }
  else if f.r2SourceIncomplete then { f with phase := .gate }
  else { f with phase := .fast }

/-- The comparison of the bodies; what fails after its verdict leads to the loop. -/
def compared (matched saved : Bool) (f : FuncR2) : FuncR2 :=
  if matched then { f with
    r2JState := .passed, r2JAttempts := 1, phase := if saved then .gate else .head }
  else { f with phase := .head }

/-- The head of the loop, up to the call of the judge. -/
def test (f : FuncR2) : FuncR2 :=
  if R4Loop.shouldContinue f.r2JAttempts cfg.r2MaxRounds cancel && f.r2JState != .passed then
    { f with r2JState := .running, r2JAttempts := f.r2JAttempts + 1, phase := .judging }
  else { f with phase := .forcing }

/-- The end of `_run_r2_j` with what it returns. If saving the verdict raises, the function is
failed and the call returns `False`. -/
def judged (r : Bool × String) (ok : Bool) (f : FuncR2) : FuncR2 × Bool :=
  match rulingOf r.2 with
  | some .skip | some .discard =>
    ({ f with r2SourceIncomplete := true, r2JState := .failed },ok)
  | some .delete => ({ f with r2JState := if ok then .passed else .failed },ok)
  | none => ({ f with r2JState := if ok && r.1 then .passed else .failed },ok && r.1)

/-- What the loop does with the answer of `_run_r2_j`. -/
def afterJ (f : FuncR2) (returned : Bool) : FuncR2 :=
  if returned then { f with phase := .forcing }
  else if cancel then { f with phase := .gate }
  else if R4Loop.shouldContinue f.r2JAttempts cfg.r2MaxRounds cancel then
    { f with r2WState := .running, r2WAttempts := f.r2WAttempts + 1, phase := .worker }
  else { f with phase := .forcing }

/-- The end of `_run_r2_w`. -/
def worked (incomplete ok : Bool) (f : FuncR2) : FuncR2 :=
  { f with
    r2SourceIncomplete := f.r2SourceIncomplete || incomplete
    r2WState := if ok then .passed else .failed
    phase := if cancel then .gate else .head }

/-- What stands after the loop. -/
def force (f : FuncR2) : FuncR2 := { f with r2JState := .passed, phase := .gate }

end Stage

/-! ## The pipeline of the functions -/

/-- The functions before R3, in R3, and what R4 and R5 leave. -/
structure Sys where
  r2 : String → FuncR2 := fun _ => {}
  r3 : R3WriteBack.Sys := {}
  r4Passed : String → Bool := fun _ => false
  reported : String → Bool := fun _ => false

def setR2 (s : Sys) (h : String) (f : FuncR2) : Sys :=
  { s with r2 := Function.update s.r2 h f }

/-- The function whose coroutine takes a step of R3. -/
def owner : R3WriteBack.Act → Option String
  | .enter h | .test h | .mark h _ | .answered h _ | .callFailed h | .store h _ _ | .storeFailed h
  | .record h _ _ | .saved h _ | .judged h _ | .dies h | .quickPath h _ _ => some h
  | .deleteFunction _ | .beside _ | .ccStart | .ccBuild _ | .ccFails _ | .ccSet | .cancel => none

/-- R3 is entered at the gate; its other steps are those of functions that have entered it, of the
call-chain phase, of the workers that change the database, and of the event. -/
def mayRun (s : Sys) : R3WriteBack.Act → Bool
  | .enter _ => false
  | a => (owner a).all (fun h => (s.r2 h).phase = .cleared)

/-- A verdict comes from the script or from an agent. Deleting the row, writing a decision and
saving the state succeed as given. -/
inductive Act
  | start (h : String)
  | compared (h : String) (matched saved : Bool)
  | test (h : String)
  | judged (h : String) (r : Bool × String) (deleted ok : Bool)
  | judgeFails (h : String)
  | worked (h : String) (incomplete ok : Bool)
  | force (h : String)
  | gate (h : String)
  | batch (h : String) (keep stored : Bool)
  | dies (h : String)
  | r3 (a : R3WriteBack.Act)
  | r4 (h : String) (keep stored : Bool)
  | report (h : String)

def decisionOf (keep : Bool) : R3WriteBack.Decision := if keep then .keep else .filter

/-- What the batch of the fast mode leaves. -/
def batched (s : R3WriteBack.Sys) (h : String) (keep stored : Bool) : R3WriteBack.Sys :=
  { R3WriteBack.setFunc s h { s.funcs h with r4Decision := some (decisionOf keep) } with
    db := if stored then
      s.db.setFastModeResult h (decisionOf keep).text (if keep then 1 else 0) else s.db }

/-- A DELETE removes the row, unless that raises. -/
def removed (s : R3WriteBack.Sys) (h : String) (r : Bool × String) (deleted : Bool) :
    R3WriteBack.Sys :=
  match rulingOf r.2,deleted with
  | some .delete,true => { s with db := s.db.deleteFunction h }
  | _,_ => s

section Step

variable (py : PyRuntime) (cfg : Config)

/-- `_run_r3_analysis` is called. -/
def enterR3 (s : Sys) (h : String) (r3 : R3WriteBack.Sys) : Option Sys :=
  (R3WriteBack.step py cfg.r3 r3 (.enter h)).map fun t =>
    { setR2 s h { s.r2 h with phase := .cleared } with r3 := t }

/-- The gate: nothing is awaited between its tests and the call of R3. -/
def gate (s : Sys) (h : String) : Option Sys :=
  if s.r3.cancel = true ∨ (s.r2 h).r2JState ≠ .passed then
    some (setR2 s h { s.r2 h with phase := .left })
  else if cfg.fastMode then some (setR2 s h { s.r2 h with phase := .batch })
  else enterR3 py cfg s h s.r3

def step (s : Sys) : Act → Option Sys
  | .start h =>
    if (s.r2 h).phase = .start then some (setR2 s h (begins cfg s.r3.cancel (s.r2 h))) else none
  | .compared h matched saved =>
    if (s.r2 h).phase = .fast then some (setR2 s h (compared matched saved (s.r2 h))) else none
  | .test h =>
    if (s.r2 h).phase = .head then some (setR2 s h (test cfg s.r3.cancel (s.r2 h))) else none
  | .judged h r deleted ok =>
    if (s.r2 h).phase = .judging then
      let j := judged r ok (s.r2 h)
      some { setR2 s h (afterJ cfg s.r3.cancel j.1 j.2) with r3 := removed s.r3 h r deleted }
    else none
  | .judgeFails h =>
    if (s.r2 h).phase = .judging then
      some (setR2 s h (afterJ cfg s.r3.cancel { s.r2 h with r2JState := .failed } false))
    else none
  | .worked h incomplete ok =>
    if (s.r2 h).phase = .worker then
      some (setR2 s h (worked s.r3.cancel incomplete ok (s.r2 h)))
    else none
  | .force h => if (s.r2 h).phase = .forcing then some (setR2 s h (force (s.r2 h))) else none
  | .gate h => if (s.r2 h).phase = .gate then gate py cfg s h else none
  | .batch h keep stored =>
    if (s.r2 h).phase = .batch then
      if keep then enterR3 py cfg s h (batched s.r3 h true stored)
      else some { setR2 s h { s.r2 h with phase := .left } with r3 := batched s.r3 h false stored }
    else none
  | .dies h =>
    if (s.r2 h).phase ≠ .cleared then some (setR2 s h { s.r2 h with phase := .left }) else none
  | .r3 a =>
    if mayRun s a = true then
      (R3WriteBack.step py cfg.r3 s.r3 a).map (fun t => { s with r3 := t })
    else none
  | .r4 h keep stored =>
    if (s.r3.funcs h).phase.isFinished = true ∧ s.r3.ccDone = true ∧ s.r3.cancel = false ∧
        (s.r3.funcs h).r4Decision = some .keep ∧ s.r4Passed h = false then
      some { s with
        r3 := { R3WriteBack.setFunc s.r3 h
            { s.r3.funcs h with r4Decision := some (decisionOf keep) } with
          db := if stored then s.r3.db.updateR4Decision h (decisionOf keep).text else s.r3.db }
        r4Passed := Function.update s.r4Passed h true }
    else none
  | .report h =>
    if cfg.outDir = true ∧ (s.r3.funcs h).phase.isFinished = true ∧ s.r3.ccDone = true ∧
        (s.r3.funcs h).r4Decision = some .keep ∧ (s.r4Passed h || cfg.singleFile) = true then
      some { s with reported := Function.update s.reported h true }
    else none

end Step

/-- What the run returns: a cancelled run nothing, any other at most the rows to keep. -/
def finalEntries (s : Sys) : List (List (String × PyJson)) :=
  if s.r3.cancel then [] else s.r3.db.getKeepEntries

/-! ## The property -/

/-- The judge has given the function one of the three verdicts. -/
def ruledOut (h : String) (tr : List (Event Sys Act)) : Bool :=
  watch (fun g e => g ||
    match e.act with
    | .judged k r _ _ => k == h && (rulingOf r.2).isSome
    | _ => false) false tr

/-- The function is not in R3. -/
def outside : R3WriteBack.Phase → Bool
  | .idle | .left => true
  | _ => false

/-- A function that is ruled out does not enter R3, gets no analysis there, no report, and no
place among the final entries. -/
structure StaysOut (tr : List (Event Sys Act)) (u : Sys) : Prop where
  entry : Along (fun hist e => ∀ h, ruledOut h hist = true →
    outside (e.pre.r3.funcs h).phase = true → outside (e.post.r3.funcs h).phase = true) tr
  analysis : Along (fun hist e => ∀ h, ruledOut h hist = true →
    ∀ a, e.act ≠ .r3 (.answered h a)) tr
  report : ∀ h, ruledOut h tr = true → u.reported h = false
  final : ∀ h, ruledOut h tr = true → ∀ e ∈ finalEntries u, FuncDb.hasHash h e = false

/-- A function that is ruled out is stopped by the cancel event, or by its batch. -/
def stopped (cfg : Config) (hist : List (Event Sys Act)) (e : Event Sys Act) : Bool :=
  match e.act with
  | .gate h => !ruledOut h hist || e.pre.r3.cancel || cfg.fastMode
  | .batch h keep _ => !ruledOut h hist || e.pre.r3.cancel || !keep
  | _ => true

/-! ## What R3 does to the other functions -/

section R3

variable {py : PyRuntime} {cfg : R3WriteBack.Config} {s v : R3WriteBack.Sys} {h k : String}
  {a : R3WriteBack.Act}

theorem owner_of_funcAct {b : R3WriteBack.FuncAct} (hb : R3WriteBack.funcAct h a = some b) :
    owner a = some h := by
  cases a with
  | enter k | test k | mark k | answered k | callFailed k | store k | storeFailed k | record k
  | saved k | judged k | dies k =>
    by_cases hk : k = h
    · exact congrArg some hk
    · simp [R3WriteBack.funcAct,hk] at hb
  | deleteFunction | beside | ccStart | ccBuild | ccFails | ccSet | quickPath | cancel => cases hb

/-- A function that has left stays out. -/
theorem left_of_funcStep {f f' : R3WriteBack.FuncR3} {cancel : Bool} {b : R3WriteBack.FuncAct}
    (hs : R3WriteBack.FuncStep py cfg cancel f b f') (hf : f.phase = .left) : f'.phase = .left := by
  cases hs with
  | dies | leaves => rfl
  | test ht =>
    unfold R3WriteBack.test at ht
    rw [hf] at ht
    cases ht
  | skips hp | begins hp | mark hp | answered _ hp | callFailed hp | store hp
  | storeFailed hp | record hp | saved hp | saveFailed hp | approved hp | rejected hp =>
    rw [hf] at hp
    cases hp

theorem decision_of_ne {db : FuncDb} {f : FunctionRow → FunctionRow}
    {hf : ∀ r, (f r).funcHash = r.funcHash} (hne : k ≠ h) :
    R3WriteBack.decision (db.updateFunctions h f hf) k = R3WriteBack.decision db k := by
  unfold R3WriteBack.decision
  rw [FuncDb.lookup_updateFunctions,if_neg hne]

theorem decision_of_deleteFunction {db : FuncDb} {d : String}
    (hd : R3WriteBack.decision (db.deleteFunction h) k = some d) :
    R3WriteBack.decision db k = some d := by
  unfold R3WriteBack.decision FuncDb.deleteFunction at *
  by_cases hk : k = h
  · subst hk
    obtain ⟨r,hr,-⟩ := Option.bind_eq_some_iff.mp hd
    obtain ⟨hmem,hkey⟩ := KeyedTable.lookup_eq_some_iff.mp hr
    have hno := (List.mem_filter.mp hmem).2
    simp [hkey] at hno
  · rwa [KeyedTable.lookup_deleteWhere_of_ne _ hk] at hd

/-- A row gets its decision from a step of its own function. -/
theorem decision_of_step (hs : R3WriteBack.step py cfg s a = some v) {d : String}
    (hd : R3WriteBack.decision v.db k = some d) :
    R3WriteBack.decision s.db k = some d ∨ owner a = some k := by
  cases a with
  | record h dbWritten nodeWritten =>
    by_cases hk : k = h
    · exact .inr (congrArg some hk.symm)
    · simp only [R3WriteBack.step] at hs
      split at hs
      · cases hs
        refine .inl ?_
        cases dbWritten with
        | true => rwa [if_pos rfl,FuncDb.updateR3Decision,decision_of_ne hk] at hd
        | false => exact hd
      · cases hs
  | store h role confidence =>
    simp only [R3WriteBack.step] at hs
    split at hs
    · cases hs
      refine .inl (Eq.trans (Eq.symm ?_) hd)
      refine R3WriteBack.column_updateFunctions s.db h ?_ k
      exact fun _ => rfl
    · cases hs
  | deleteFunction h =>
    simp only [R3WriteBack.step] at hs
    split at hs
    · cases hs
      exact .inl (decision_of_deleteFunction hd)
    · cases hs
  | beside w =>
    obtain ⟨hw,rfl⟩ := guarded hs
    rw [R3WriteBack.decision_beside py hw] at hd
    exact .inl hd
  | test h =>
    simp only [R3WriteBack.step,Option.map_eq_some_iff] at hs
    obtain ⟨f,-,rfl⟩ := hs
    exact .inl hd
  | enter h | answered h | callFailed h | storeFailed h =>
    simp only [R3WriteBack.step] at hs
    split at hs
    · cases hs
      exact .inl hd
    · cases hs
  | mark h =>
    simp only [R3WriteBack.step] at hs
    split at hs
    · split at hs <;> cases hs <;> exact .inl hd
    · cases hs
  | dies h =>
    simp only [R3WriteBack.step] at hs
    split at hs
    · cases hs
    · cases hs
      exact .inl hd
  | saved h | judged h =>
    simp only [R3WriteBack.step] at hs
    split at hs
    · split at hs <;> cases hs <;> exact .inl hd
    · cases hs
  | ccStart | ccBuild | ccSet =>
    obtain ⟨-,rfl⟩ := guarded hs
    exact .inl hd
  | ccFails p =>
    obtain ⟨-,rfl⟩ := guarded hs
    cases p <;> exact .inl hd
  | quickPath h =>
    simp only [R3WriteBack.step] at hs
    split at hs
    · obtain ⟨-,rfl⟩ := guarded hs
      exact .inl hd
    · cases hs
  | cancel =>
    cases hs
    exact .inl hd

/-- The functions that do not take the step stay as they are. -/
theorem func_of_step (hs : R3WriteBack.step py cfg s a = some v) (ho : owner a ≠ some h) :
    v.funcs h = s.funcs h := by
  rcases R3WriteBack.step_func hs h with ⟨-,hsame⟩ | ⟨b,hb,-⟩
  · exact hsame
  · exact absurd (owner_of_funcAct hb) ho

end R3

/-! ## What a step does to the functions before R3 -/

section Steps

variable {py : PyRuntime} {cfg : Config} {s v : Sys} {a : Act} {k : String}

/-- The gate is reached with a pass, unless the task is cancelled. -/
structure Open (s : Sys) : Prop where
  fresh : ∀ h, (s.r2 h).phase = .start → (s.r2 h).r2SourceIncomplete = false
  gate : ∀ h, (s.r2 h).phase = .gate → (s.r2 h).r2JState = .passed ∨ s.r3.cancel = true

/-- The function `k` moves on before R3, with the state `f`; it enters R3; or R3, R4 and R5 go on. -/
inductive StepKind (py : PyRuntime) (cfg : Config) (s v : Sys) : Act → Prop
  | moves {a : Act} {k : String} {f : FuncR2} : (s.r2 k).phase ≠ .cleared → f.phase ≠ .cleared →
      f.phase ≠ .start → (f.phase = .gate → f.r2JState = .passed ∨ s.r3.cancel = true) →
      v.r2 = Function.update s.r2 k f → v.r3.cancel = s.r3.cancel →
      (∀ h, (v.r3.funcs h).phase = (s.r3.funcs h).phase) →
      (∀ h, R3WriteBack.decision v.r3.db h = some "keep" →
        R3WriteBack.decision s.r3.db h = some "keep") →
      v.reported = s.reported → (∀ b, a ≠ .r3 b) → StepKind py cfg s v a
  | enters {a : Act} {k : String} {f : FuncR2} : (s.r2 k).phase ≠ .cleared → f.phase = .cleared →
      v.r2 = Function.update s.r2 k f → v.r3.cancel = s.r3.cancel →
      (∀ h, h ≠ k → (v.r3.funcs h).phase = (s.r3.funcs h).phase) →
      (s.r3.cancel = true → (v.r3.funcs k).phase = .left) →
      (s.r3.cancel = false → outside (v.r3.funcs k).phase = false) →
      (∀ h, h ≠ k → R3WriteBack.decision v.r3.db h = some "keep" →
        R3WriteBack.decision s.r3.db h = some "keep") →
      v.reported = s.reported →
      (a = .gate k ∧ s.r3.cancel = false ∧ cfg.fastMode = false ∨ ∃ stored, a = .batch k true stored) →
      StepKind py cfg s v a
  | inR3 {b : R3WriteBack.Act} : mayRun s b = true →
      R3WriteBack.step py cfg.r3 s.r3 b = some v.r3 → v.r2 = s.r2 → v.reported = s.reported →
      StepKind py cfg s v (.r3 b)
  | inR4 {k : String} {keep stored : Bool} : outside (s.r3.funcs k).phase = false →
      v.r2 = s.r2 → v.r3.cancel = s.r3.cancel →
      (∀ h, (v.r3.funcs h).phase = (s.r3.funcs h).phase) →
      (∀ h, R3WriteBack.decision v.r3.db h = R3WriteBack.decision s.r3.db h) →
      v.reported = s.reported → StepKind py cfg s v (.r4 k keep stored)
  | inR5 {k : String} : outside (s.r3.funcs k).phase = false → v.r2 = s.r2 → v.r3 = s.r3 →
      v.reported = Function.update s.reported k true → StepKind py cfg s v (.report k)

theorem setFunc_phase (s : R3WriteBack.Sys) (k h : String) (f : R3WriteBack.FuncR3)
    (hf : f.phase = (s.funcs k).phase) :
    ((R3WriteBack.setFunc s k f).funcs h).phase = (s.funcs h).phase := by
  by_cases hk : k = h
  · subst hk
    rw [R3WriteBack.setFunc_self,hf]
  · rw [R3WriteBack.setFunc_of_ne s f hk]

/-- The call of `_run_r3_analysis`. -/
theorem enter_phase {r v : R3WriteBack.Sys} (hs : R3WriteBack.step py cfg.r3 r (.enter k) = some v) :
    (r.funcs k).phase = .idle ∧ v.cancel = r.cancel ∧ v.db = r.db ∧
      (∀ h, h ≠ k → v.funcs h = r.funcs h) ∧ (r.cancel = true → (v.funcs k).phase = .left) ∧
      (r.cancel = false → outside (v.funcs k).phase = false) := by
  simp only [R3WriteBack.step] at hs
  split at hs
  · rename_i hidle
    cases hs
    refine ⟨hidle,rfl,rfl,fun h hh => R3WriteBack.setFunc_of_ne _ _ (Ne.symm hh),fun hc => ?_,
      fun hc => ?_⟩
    · rw [R3WriteBack.setFunc_self,if_pos hc]
    · rw [R3WriteBack.setFunc_self,hc,if_neg Bool.false_ne_true]
      split
      · unfold R3WriteBack.afterW
        rw [if_neg Bool.false_ne_true]
        repeat' split
        all_goals rfl
      · rfl
  · cases hs

theorem batched_keep {r : R3WriteBack.Sys} {keep stored : Bool} {h : String}
    (hne : keep = true → h ≠ k)
    (hd : R3WriteBack.decision (batched r k keep stored).db h = some "keep") :
    R3WriteBack.decision r.db h = some "keep" := by
  unfold batched at hd
  cases stored with
  | false => exact hd
  | true =>
    by_cases hk : h = k
    · subst hk
      cases keep with
      | true => exact absurd rfl (hne rfl)
      | false =>
        unfold R3WriteBack.decision FuncDb.setFastModeResult at hd
        dsimp only at hd
        rw [if_pos rfl,FuncDb.lookup_updateFunctions,if_pos rfl] at hd
        obtain ⟨r',hr',heq⟩ := Option.bind_eq_some_iff.mp hd
        obtain ⟨r'',-,rfl⟩ := Option.map_eq_some_iff.mp hr'
        simp [decisionOf,R3WriteBack.Decision.text] at heq
    · rwa [FuncDb.setFastModeResult,if_pos rfl,decision_of_ne hk] at hd

/-- A step of R2 that only sets the function's state. -/
theorem StepKind.ofR2 {f : FuncR2} (ha : ∀ b, a ≠ .r3 b) (hk : (s.r2 k).phase ≠ .cleared)
    (hf : f.phase ≠ .cleared) (hstart : f.phase ≠ .start)
    (hgate : f.phase = .gate → f.r2JState = .passed ∨ s.r3.cancel = true) :
    StepKind py cfg s (setR2 s k f) a :=
  .moves hk hf hstart hgate rfl rfl (fun _ => rfl) (fun _ => id) rfl ha

theorem phase_begins (cfg : Config) (cancel : Bool) (f : FuncR2) :
    (begins cfg cancel f).phase ≠ .cleared ∧ (begins cfg cancel f).phase ≠ .start := by
  unfold begins
  repeat' split
  all_goals exact ⟨nofun,nofun⟩

theorem gate_begins {cancel : Bool} {f : FuncR2} (hf : f.r2SourceIncomplete = false)
    (hg : (begins cfg cancel f).phase = .gate) : (begins cfg cancel f).r2JState = .passed := by
  unfold begins at *
  split at hg
  · cases hg
  · rename_i hc
    rw [if_neg hc]
    split at hg
    · rename_i hp
      rw [if_pos hp]
      exact hp
    · rename_i hp
      rw [if_neg hp]
      split at hg
      · rename_i hskip
        rw [if_pos hskip]
      · rw [hf] at hg
        cases hg

theorem phase_afterJ (cfg : Config) (cancel : Bool) (f : FuncR2) (returned : Bool) :
    (afterJ cfg cancel f returned).phase ≠ .cleared ∧
      (afterJ cfg cancel f returned).phase ≠ .start ∧
      ((afterJ cfg cancel f returned).phase = .gate → cancel = true) := by
  unfold afterJ
  split
  · exact ⟨nofun,nofun,nofun⟩
  · split
    · rename_i hc
      exact ⟨nofun,nofun,fun _ => hc⟩
    · split <;> exact ⟨nofun,nofun,nofun⟩

/-- Entering R3 from a state that differs from `s` at most in what the batch has left. -/
theorem StepKind.ofEnter {r : R3WriteBack.Sys} (hk : (s.r2 k).phase ≠ .cleared)
    (hs : enterR3 py cfg s k r = some v) (hcancel : r.cancel = s.r3.cancel)
    (hfuncs : ∀ h, (r.funcs h).phase = (s.r3.funcs h).phase)
    (hdb : ∀ h, h ≠ k → R3WriteBack.decision r.db h = some "keep" →
      R3WriteBack.decision s.r3.db h = some "keep")
    (ha : a = .gate k ∧ s.r3.cancel = false ∧ cfg.fastMode = false ∨
      ∃ stored, a = .batch k true stored) : StepKind py cfg s v a := by
  obtain ⟨t,ht,rfl⟩ := Option.map_eq_some_iff.mp hs
  obtain ⟨-,hc,hd,hother,hleft,hin⟩ := enter_phase ht
  refine .enters hk rfl rfl (hc.trans hcancel) ?_ ?_ ?_ ?_ rfl ha
  · intro h hh
    rw [← hfuncs h]
    exact congrArg R3WriteBack.FuncR3.phase (hother h hh)
  · intro hcs
    exact hleft (hcancel.trans hcs)
  · intro hcs
    exact hin (hcancel.trans hcs)
  · intro h hh hkeep
    refine hdb h hh ?_
    rw [← hd]
    exact hkeep

theorem outside_of_finished {p : R3WriteBack.Phase} (hp : p.isFinished = true) :
    outside p = false := by
  cases p with
  | finished => rfl
  | _ => cases hp

theorem step_kind (ho : Open s) (hs : step py cfg s a = some v) : StepKind py cfg s v a := by
  cases a with
  | start h =>
    obtain ⟨hp,rfl⟩ := guarded hs
    obtain ⟨hcl,hst⟩ := phase_begins cfg s.r3.cancel (s.r2 h)
    refine .ofR2 (fun _ h => by cases h) (by rw [hp]; nofun) hcl hst fun hg => .inl ?_
    exact gate_begins (ho.fresh h hp) hg
  | compared h matched saved =>
    obtain ⟨hp,rfl⟩ := guarded hs
    refine .ofR2 (fun _ h => by cases h) (by rw [hp]; nofun) ?_ ?_ ?_
    · cases matched <;> cases saved <;> nofun
    · cases matched <;> cases saved <;> nofun
    · cases matched with
      | true => exact fun _ => .inl rfl
      | false => nofun
  | test h =>
    obtain ⟨hp,rfl⟩ := guarded hs
    refine .ofR2 (fun _ h => by cases h) (by rw [hp]; nofun) ?_ ?_ ?_
    all_goals
      unfold test
      split <;> nofun
  | judged h r deleted ok =>
    obtain ⟨hp,rfl⟩ := guarded hs
    obtain ⟨hcl,hst,hg⟩ := phase_afterJ cfg s.r3.cancel (judged r ok (s.r2 h)).1
      (judged r ok (s.r2 h)).2
    refine .moves (by rw [hp]; nofun) hcl hst (fun h => .inr (hg h)) rfl ?_ ?_ ?_ rfl
      (fun _ h => by cases h)
    · unfold removed
      dsimp only
      split <;> rfl
    · intro h'
      unfold removed
      dsimp only
      split <;> rfl
    · intro h' hkeep
      unfold removed at hkeep
      dsimp only at hkeep
      split at hkeep
      · exact decision_of_deleteFunction hkeep
      · exact hkeep
  | judgeFails h =>
    obtain ⟨hp,rfl⟩ := guarded hs
    obtain ⟨hcl,hst,hg⟩ := phase_afterJ cfg s.r3.cancel
      { s.r2 h with r2JState := .failed } false
    exact .ofR2 (fun _ h => by cases h) (by rw [hp]; nofun) hcl hst fun h => .inr (hg h)
  | worked h incomplete ok =>
    obtain ⟨hp,rfl⟩ := guarded hs
    refine .ofR2 (fun _ h => by cases h) (by rw [hp]; nofun) ?_ ?_ ?_
    · unfold worked
      dsimp only
      split <;> nofun
    · unfold worked
      dsimp only
      split <;> nofun
    · unfold worked
      dsimp only
      intro hg
      by_cases hc : s.r3.cancel = true
      · exact .inr hc
      · rw [if_neg hc] at hg
        cases hg
  | force h =>
    obtain ⟨hp,rfl⟩ := guarded hs
    exact .ofR2 (fun _ h => by cases h) (by rw [hp]; nofun) nofun nofun fun _ => .inl rfl
  | gate h =>
    have hp : (s.r2 h).phase = .gate := by
      by_contra hne
      simp [step,hne] at hs
    rw [step,if_pos hp,gate] at hs
    split at hs
    · cases hs
      exact .ofR2 (fun _ h => by cases h) (by rw [hp]; nofun) nofun nofun nofun
    · rename_i hno
      split at hs
      · cases hs
        exact .ofR2 (fun _ h => by cases h) (by rw [hp]; nofun) nofun nofun nofun
      · rename_i hfast
        rw [not_or,Bool.not_eq_true] at hno
        rw [Bool.not_eq_true] at hfast
        exact .ofEnter (by rw [hp]; nofun) hs rfl (fun _ => rfl) (fun _ _ => id)
          (.inl ⟨rfl,hno.1,hfast⟩)
  | batch h keep stored =>
    have hp : (s.r2 h).phase = .batch := by
      by_contra hne
      simp [step,hne] at hs
    rw [step,if_pos hp] at hs
    cases keep with
    | true =>
      refine .ofEnter (by rw [hp]; nofun) hs rfl ?_ ?_ (.inr ⟨stored,rfl⟩)
      · exact fun h' => setFunc_phase s.r3 h h' _ rfl
      · exact fun h' hh hkeep => batched_keep (fun _ => hh) hkeep
    | false =>
      cases hs
      refine .moves (f := { s.r2 h with phase := .left }) (by rw [hp]; nofun) nofun nofun nofun rfl
        rfl ?_ ?_ rfl (fun _ h => by cases h)
      · exact fun h' => setFunc_phase s.r3 h h' _ rfl
      · intro h' hkeep
        have hkeep : R3WriteBack.decision (batched s.r3 h false stored).db h' = some "keep" := hkeep
        exact batched_keep (fun hk => absurd hk Bool.false_ne_true) hkeep
  | dies h =>
    obtain ⟨hp,rfl⟩ := guarded hs
    exact .ofR2 (fun _ h => by cases h) hp nofun nofun nofun
  | r3 b =>
    simp only [step] at hs
    split at hs
    · rename_i hmay
      obtain ⟨t,ht,rfl⟩ := Option.map_eq_some_iff.mp hs
      exact .inR3 hmay ht rfl rfl
    · cases hs
  | r4 h keep stored =>
    obtain ⟨hp,rfl⟩ := guarded hs
    refine .inR4 (outside_of_finished hp.1) rfl rfl ?_ ?_ rfl
    · exact fun h' => setFunc_phase s.r3 h h' _ rfl
    · intro h'
      cases stored with
      | false => rfl
      | true =>
        refine R3WriteBack.column_updateFunctions s.r3.db h ?_ h'
        exact fun _ => rfl
  | report h =>
    obtain ⟨hp,rfl⟩ := guarded hs
    exact .inR5 (outside_of_finished hp.2.1) rfl rfl rfl

/-- At the gate of an uncancelled task every function is let in, unless a batch comes first. -/
theorem gate_enters (ho : Open s) (hc : s.r3.cancel = false) (hfast : cfg.fastMode = false)
    (hs : step py cfg s (.gate k) = some v) :
    outside (s.r3.funcs k).phase = true ∧ outside (v.r3.funcs k).phase = false := by
  have hp : (s.r2 k).phase = .gate := by
    by_contra hne
    simp [step,hne] at hs
  have hpass : (s.r2 k).r2JState = .passed := by
    rcases ho.gate k hp with hpass | hcancel
    · exact hpass
    · rw [hc] at hcancel
      cases hcancel
  rw [step,if_pos hp,gate,if_neg (by simp [hc,hpass]),hfast,if_neg Bool.false_ne_true] at hs
  obtain ⟨t,ht,rfl⟩ := Option.map_eq_some_iff.mp hs
  obtain ⟨hidle,-,-,-,-,hin⟩ := enter_phase ht
  refine ⟨?_,hin hc⟩
  rw [hidle]
  rfl

theorem batch_enters {stored : Bool} (hc : s.r3.cancel = false)
    (hs : step py cfg s (.batch k true stored) = some v) :
    outside (s.r3.funcs k).phase = true ∧ outside (v.r3.funcs k).phase = false := by
  have hp : (s.r2 k).phase = .batch := by
    by_contra hne
    simp [step,hne] at hs
  rw [step,if_pos hp,if_pos rfl] at hs
  obtain ⟨t,ht,rfl⟩ := Option.map_eq_some_iff.mp hs
  obtain ⟨hidle,-,-,-,-,hin⟩ := enter_phase ht
  refine ⟨?_,hin hc⟩
  have hself : (batched s.r3 k true stored).funcs k =
      { s.r3.funcs k with r4Decision := some (decisionOf true) } := R3WriteBack.setFunc_self _ _ _
  rw [hself] at hidle
  have hidle : (s.r3.funcs k).phase = .idle := hidle
  rw [hidle]
  rfl

/-! ## The invariants -/

theorem open_start : Open {} where
  fresh _ _ := rfl
  gate _ h := by cases h

theorem cancel_of_step {r t : R3WriteBack.Sys} {b : R3WriteBack.Act}
    (hs : R3WriteBack.step py cfg.r3 r b = some t) (hc : r.cancel = true) : t.cancel = true := by
  rcases R3WriteBack.step_cancel hs with hsame | ⟨-,hset,-⟩
  · rw [hsame,hc]
  · exact hset

theorem Open.step (ho : Open s) (hs : step py cfg s a = some v) : Open v := by
  cases step_kind ho hs with
  | @moves _ k f _ _ hstart hgate hr2 hcancel =>
    refine ⟨fun h hp => ?_,fun h hp => ?_⟩
    · rw [hr2] at hp ⊢
      by_cases hk : h = k
      · subst hk
        rw [Function.update_self] at hp
        exact absurd hp hstart
      · rw [Function.update_of_ne hk] at hp ⊢
        exact ho.fresh h hp
    · rw [hr2] at hp ⊢
      rw [hcancel]
      by_cases hk : h = k
      · subst hk
        rw [Function.update_self] at hp ⊢
        exact hgate hp
      · rw [Function.update_of_ne hk] at hp ⊢
        exact ho.gate h hp
  | @enters _ k f _ hcleared hr2 hcancel =>
    refine ⟨fun h hp => ?_,fun h hp => ?_⟩
    · rw [hr2] at hp ⊢
      by_cases hk : h = k
      · subst hk
        rw [Function.update_self,hcleared] at hp
        cases hp
      · rw [Function.update_of_ne hk] at hp ⊢
        exact ho.fresh h hp
    · rw [hr2] at hp ⊢
      rw [hcancel]
      by_cases hk : h = k
      · subst hk
        rw [Function.update_self,hcleared] at hp
        cases hp
      · rw [Function.update_of_ne hk] at hp ⊢
        exact ho.gate h hp
  | inR3 _ hr3 hr2 =>
    refine ⟨?_,fun h hp => ?_⟩
    · rw [hr2]
      exact ho.fresh
    · rw [hr2] at hp ⊢
      exact (ho.gate h hp).imp_right (cancel_of_step hr3)
  | inR4 _ hr2 hcancel =>
    refine ⟨?_,?_⟩
    · rw [hr2]
      exact ho.fresh
    · rw [hr2,hcancel]
      exact ho.gate
  | inR5 _ hr2 hr3 =>
    refine ⟨?_,?_⟩
    · rw [hr2]
      exact ho.fresh
    · rw [hr2,hr3]
      exact ho.gate

/-- What R3 and later stages have of a function. -/
structure Untouched (s : Sys) (h : String) : Prop where
  phase : (s.r3.funcs h).phase = .idle
  decision : R3WriteBack.decision s.r3.db h ≠ some "keep"
  reported : s.reported h = false

/-- A function that has not been let in is untouched, and one that is ruled out was let in at most
by its batch after the task was cancelled. -/
structure Held (tr : List (Event Sys Act)) (s : Sys) : Prop where
  gate : Open s
  untouched : ∀ h, (s.r2 h).phase ≠ .cleared → Untouched s h
  ruled : ∀ h, ruledOut h tr = true → (s.r2 h).phase = .cleared →
    s.r3.cancel = true ∧ (s.r3.funcs h).phase = .left ∧ s.reported h = false

theorem held_start : Held [] {} where
  gate := open_start
  untouched _ _ := ⟨rfl,nofun,rfl⟩
  ruled _ hr _ := by cases hr

variable {tr : List (Event Sys Act)} {h : String}

/-- A verdict is given to a function that is being judged. -/
theorem ruledOut_cons (hs : R2Rulings.step py cfg s a = some v)
    (hr : ruledOut h (⟨s,a,v⟩ :: tr) = true) :
    ruledOut h tr = true ∨ (s.r2 h).phase = .judging := by
  unfold ruledOut at hr
  rw [watch_cons,Bool.or_eq_true] at hr
  rcases hr with hold | hnew
  · exact .inl hold
  · refine .inr ?_
    dsimp only at hnew
    split at hnew
    · rw [Bool.and_eq_true,beq_iff_eq] at hnew
      rw [← hnew.1]
      exact (guarded hs).1
    · cases hnew

theorem Held.step (hh : Held tr s) (hstop : stopped cfg tr ⟨s,a,v⟩ = true)
    (hs : R2Rulings.step py cfg s a = some v) : Held (⟨s,a,v⟩ :: tr) v := by
  have hold : ∀ h, ruledOut h (⟨s,a,v⟩ :: tr) = true → (s.r2 h).phase = .cleared →
      ruledOut h tr = true := by
    intro h hr hp
    refine (ruledOut_cons hs hr).resolve_right fun hj => ?_
    rw [hp] at hj
    cases hj
  cases step_kind hh.gate hs with
  | @moves _ k f hk hcleared _ _ hr2 hcancel hfuncs hdb hrep =>
    refine ⟨hh.gate.step hs,fun h hp => ?_,fun h hr hp => ?_⟩
    · have hpre : (s.r2 h).phase ≠ .cleared := by
        by_cases heq : h = k
        · rw [heq]
          exact hk
        · rwa [hr2,Function.update_of_ne heq] at hp
      obtain ⟨hidle,hdec,hrepd⟩ := hh.untouched h hpre
      refine ⟨?_,fun hkeep => hdec (hdb h hkeep),?_⟩
      · rw [hfuncs,hidle]
      · rw [hrep,hrepd]
    · have heq : h ≠ k := by
        rintro rfl
        rw [hr2,Function.update_self] at hp
        exact hcleared hp
      rw [hr2,Function.update_of_ne heq] at hp
      rw [hcancel,hfuncs,hrep]
      exact hh.ruled h (hold h hr hp) hp
  | @enters _ k f hk hcleared hr2 hcancel hfuncs hleft hin hdb hrep hact =>
    refine ⟨hh.gate.step hs,fun h hp => ?_,fun h hr hp => ?_⟩
    · have heq : h ≠ k := by
        rintro rfl
        rw [hr2,Function.update_self] at hp
        exact hp hcleared
      rw [hr2,Function.update_of_ne heq] at hp
      obtain ⟨hidle,hdec,hrepd⟩ := hh.untouched h hp
      refine ⟨?_,fun hkeep => hdec (hdb h heq hkeep),?_⟩
      · rw [hfuncs h heq,hidle]
      · rw [hrep,hrepd]
    · rw [hcancel,hrep]
      by_cases heq : h = k
      · subst heq
        have hruled : ruledOut h tr = true := by
          refine (ruledOut_cons hs hr).resolve_right fun hj => ?_
          rcases hact with ⟨rfl,-,-⟩ | ⟨stored,rfl⟩
          · simp [R2Rulings.step,hj] at hs
          · simp [R2Rulings.step,hj] at hs
        have hc : s.r3.cancel = true := by
          rcases hact with ⟨rfl,hc,hfast⟩ | ⟨stored,rfl⟩
          · simp [stopped,hruled,hc,hfast] at hstop
          · simpa [stopped,hruled] using hstop
        exact ⟨hc,hleft hc,(hh.untouched h hk).reported⟩
      · rw [hr2,Function.update_of_ne heq] at hp
        rw [hfuncs h heq]
        exact hh.ruled h (hold h hr hp) hp
  | @inR3 b hmay hr3 hr2 hrep =>
    have howner : ∀ h, (s.r2 h).phase ≠ .cleared → owner b ≠ some h := by
      intro h hp ho
      have hall : (owner b).all (fun h => decide ((s.r2 h).phase = .cleared)) = true := by
        cases b with
        | enter => cases hmay
        | _ => exact hmay
      rw [ho] at hall
      exact hp (of_decide_eq_true hall)
    refine ⟨hh.gate.step hs,fun h hp => ?_,fun h hr hp => ?_⟩
    · rw [hr2] at hp
      obtain ⟨hidle,hdec,hrepd⟩ := hh.untouched h hp
      refine ⟨?_,fun hkeep => ?_,?_⟩
      · rw [func_of_step hr3 (howner h hp),hidle]
      · rcases decision_of_step hr3 hkeep with hkeep | ho
        · exact hdec hkeep
        · exact howner h hp ho
      · rw [hrep,hrepd]
    · rw [hr2] at hp
      obtain ⟨hc,hleft,hrepd⟩ := hh.ruled h (hold h hr hp) hp
      refine ⟨cancel_of_step hr3 hc,?_,?_⟩
      · rcases R3WriteBack.step_func hr3 h with ⟨-,hsame⟩ | ⟨b,-,hb⟩
        · rw [hsame,hleft]
        · exact left_of_funcStep hb hleft
      · rw [hrep,hrepd]
  | inR4 _ hr2 hcancel hfuncs hdb hrep =>
    refine ⟨hh.gate.step hs,fun h hp => ?_,fun h hr hp => ?_⟩
    · rw [hr2] at hp
      obtain ⟨hidle,hdec,hrepd⟩ := hh.untouched h hp
      refine ⟨?_,?_,?_⟩
      · rw [hfuncs,hidle]
      · rw [hdb]
        exact hdec
      · rw [hrep,hrepd]
    · rw [hr2] at hp
      rw [hcancel,hfuncs,hrep]
      exact hh.ruled h (hold h hr hp) hp
  | @inR5 k hin hr2 hr3 hrep =>
    refine ⟨hh.gate.step hs,fun h hp => ?_,fun h hr hp => ?_⟩
    · rw [hr2] at hp
      obtain ⟨hidle,hdec,hrepd⟩ := hh.untouched h hp
      have heq : h ≠ k := by
        rintro rfl
        rw [hidle] at hin
        cases hin
      refine ⟨?_,?_,?_⟩
      · rw [hr3,hidle]
      · rw [hr3]
        exact hdec
      · rw [hrep,Function.update_of_ne heq,hrepd]
    · rw [hr2] at hp
      obtain ⟨hc,hleft,hrepd⟩ := hh.ruled h (hold h hr hp) hp
      have heq : h ≠ k := by
        rintro rfl
        rw [hleft] at hin
        cases hin
      rw [hr3,hrep,Function.update_of_ne heq]
      exact ⟨hc,hleft,hrepd⟩

/-- A function that is ruled out is in R3 at no time. -/
theorem Held.outside (hh : Held tr s) (hr : ruledOut h tr = true) :
    R2Rulings.outside (s.r3.funcs h).phase = true := by
  by_cases hp : (s.r2 h).phase = .cleared
  · rw [(hh.ruled h hr hp).2.1]
    rfl
  · rw [(hh.untouched h hp).phase]
    rfl

theorem ruledOut_of_cons {e : Event Sys Act} (hr : ruledOut h tr = true) :
    ruledOut h (e :: tr) = true := by
  unfold ruledOut at hr ⊢
  rw [watch_cons,hr,Bool.true_or]

/-- A row without the decision to keep is not among the entries to keep. -/
theorem not_kept {db : FuncDb} (hd : R3WriteBack.decision db h ≠ some "keep") :
    ∀ e ∈ db.getKeepEntries, FuncDb.hasHash h e = false := by
  have hno : db.returns h = false := by
    unfold FuncDb.returns
    cases hl : db.functions.lookup h with
    | none => rfl
    | some r =>
      have hr : r.r3Decision ≠ some "keep" := by
        intro hr
        refine hd ?_
        rw [R3WriteBack.decision,hl,Option.bind_some,hr]
      simp [FuncDb.isKeepRow,hr]
  have hcount := FuncDb.countP_eq_returns db h
  rw [hno,Bool.toNat_false,List.countP_eq_zero] at hcount
  intro e he
  exact Bool.eq_false_iff.mpr (hcount e he)

theorem Held.final (hh : Held tr s) (hr : ruledOut h tr = true) :
    ∀ e ∈ finalEntries s, FuncDb.hasHash h e = false := by
  unfold finalEntries
  split
  · intro e he
    cases he
  · rename_i hc
    refine not_kept (hh.untouched h fun hp => hc ?_).decision
    exact (hh.ruled h hr hp).1

/-- A function that R2 rules out stays out of R3 and of what comes after it if and only if the
task is cancelled when the function comes to R3, or its batch filters it. -/
theorem ruled_out_stays_out_iff {u : Sys} (hr : Run (R2Rulings.step py cfg) {} tr u) :
    StaysOut tr u ↔ Along (fun hist e => stopped cfg hist e = true) tr := by
  constructor
  · intro hout
    refine hr.along_of_invariant (J := fun _ t => Open t) hout.entry open_start
      (fun _ _ _ _ ho _ hs => ho.step hs) ?_
    intro hist t a v ho hentry hs
    by_contra hstop
    cases a with
    | gate k =>
      simp only [stopped,Bool.or_eq_true,Bool.not_eq_true',not_or,Bool.not_eq_false,
        Bool.not_eq_true] at hstop
      obtain ⟨⟨hruled,hc⟩,hfast⟩ := hstop
      obtain ⟨hpre,hpost⟩ := gate_enters ho hc hfast hs
      have hno := hentry k hruled hpre
      dsimp only at hno
      rw [hpost] at hno
      cases hno
    | batch k keep stored =>
      simp only [stopped,Bool.or_eq_true,Bool.not_eq_true',not_or,Bool.not_eq_false,
        Bool.not_eq_true] at hstop
      obtain ⟨⟨hruled,hc⟩,rfl⟩ := hstop
      obtain ⟨hpre,hpost⟩ := batch_enters hc hs
      have hno := hentry k hruled hpre
      dsimp only at hno
      rw [hpost] at hno
      cases hno
    | _ => exact hstop rfl
  · intro hstops
    have hheld : Held tr u := hr.invariant (J := Held) hstops held_start
      fun _ _ _ _ hh hstop hs => hh.step hstop hs
    refine ⟨?_,?_,?_,fun h hruled => hheld.final hruled⟩
    · refine hr.along_of_invariant (J := Held) hstops held_start
        (fun _ _ _ _ hh hstop hs => hh.step hstop hs) ?_
      intro hist t a v hh hstop hs h hruled _
      exact (hh.step hstop hs).outside (ruledOut_of_cons hruled)
    · refine hr.along_of_invariant (J := Held) hstops held_start
        (fun _ _ _ _ hh hstop hs => hh.step hstop hs) ?_
      rintro hist t a v hh hstop hs h hruled b rfl
      have hout := hh.outside hruled
      simp only [R2Rulings.step] at hs
      split at hs
      · obtain ⟨r,hr3,-⟩ := Option.map_eq_some_iff.mp hs
        simp only [R3WriteBack.step] at hr3
        split at hr3
        · rename_i hasking
          rw [hasking] at hout
          cases hout
        · cases hr3
      · cases hs
    · intro h hruled
      by_cases hp : (u.r2 h).phase = .cleared
      · exact (hheld.ruled h hruled hp).2.2
      · exact (hheld.untouched h hp).reported

end Steps

/-! ## Three functions that are ruled out -/

/-- R2 of a function with one verdict of the script. -/
def judgedOnce (h : String) (v : ScriptVerdict) : List Act :=
  [.start h,.compared h false true,.test h,.judged h (scriptResult "" v) true true,.force h]

def unlimited : Config := { r2MaxRounds := -1, r3 := ⟨-1,-1⟩ }

/-- The function is skipped and forced to pass, and the task is then cancelled. -/
theorem skipped_and_cancelled : ∃ tr u, Run (step plainRuntime unlimited) {} tr u ∧
    ruledOut "a" tr = true ∧ (u.r2 "a").r2JState = .passed ∧ StaysOut tr u := by
  obtain ⟨tr,u,hr,hp⟩ := exists_run_of_replay (step plainRuntime unlimited) {}
    (judgedOnce "a" .passSkip ++ [.r3 .cancel,.gate "a"])
    (p := fun tr (u : Sys) =>
      decide (Along (fun hist e => stopped unlimited hist e = true) tr) && ruledOut "a" tr &&
        decide ((u.r2 "a").r2JState = .passed)) (by decide +kernel)
  simp only [Bool.and_eq_true,decide_eq_true_eq] at hp
  exact ⟨tr,u,hr,hp.1.2,hp.2,(ruled_out_stays_out_iff hr).mpr hp.1.1⟩

/-- R3 of a function with a judge that agrees, the call chain, R4 and the report. -/
def keptAndReported (h : String) : List Act :=
  let judge : List R3WriteBack.Act := [.test h,.judged h true,.test h]
  let callChain : List R3WriteBack.Act := [.ccStart,.ccBuild [],.ccSet]
  (R3WriteBack.workerRun h R3WriteBack.saysKeep ++ judge ++ callChain).map .r3 ++
    [.r4 h true true,.report h]

/-- A function with the verdict SKIP enters R3, and one with the verdict DELETE gets its report. -/
theorem ruled_out_go_on :
    (∃ tr u, Run (step plainRuntime unlimited) {} tr u ∧ ruledOut "a" tr = true ∧
      (u.r2 "a").r2SourceIncomplete = true ∧ ¬StaysOut tr u) ∧
    ∃ tr u, Run (step plainRuntime unlimited) {} tr u ∧ ruledOut "a" tr = true ∧
      u.reported "a" = true ∧ ¬StaysOut tr u := by
  constructor
  · obtain ⟨tr,u,hr,hp⟩ := exists_run_of_replay (step plainRuntime unlimited) {}
      (judgedOnce "a" .passSkip ++ [.gate "a"])
      (p := fun tr (u : Sys) => ruledOut "a" tr && (u.r2 "a").r2SourceIncomplete &&
        match tr with
        | e :: hist => ruledOut "a" hist && outside (e.pre.r3.funcs "a").phase &&
          !outside (e.post.r3.funcs "a").phase
        | [] => false) (by decide +kernel)
    rw [Bool.and_eq_true,Bool.and_eq_true] at hp
    obtain ⟨⟨hruled,hinc⟩,hlast⟩ := hp
    refine ⟨tr,u,hr,hruled,hinc,fun hout => ?_⟩
    cases tr with
    | nil => cases hlast
    | cons e hist =>
      dsimp only at hlast
      rw [Bool.and_eq_true,Bool.and_eq_true,Bool.not_eq_true'] at hlast
      have hpost := hout.entry.1 "a" hlast.1.1 hlast.1.2
      rw [hlast.2] at hpost
      cases hpost
  · obtain ⟨tr,u,hr,hp⟩ := exists_run_of_replay (step plainRuntime unlimited) {}
      (judgedOnce "a" .passDelete ++ [.gate "a"] ++ keptAndReported "a")
      (p := fun tr (u : Sys) => ruledOut "a" tr && u.reported "a") (by decide +kernel)
    rw [Bool.and_eq_true] at hp
    refine ⟨tr,u,hr,hp.1,hp.2,fun hout => ?_⟩
    have hno := hout.report "a" hp.1
    rw [hp.2] at hno
    cases hno

end R2Rulings
end EntryAnalyse
