import EntryAnalyse.R3Progress
import EntryAnalyse.R4Loop
import EntryAnalyse.Streams

/-! The report of one function. A worker writes it and a judge reviews it until the judge is content,
the worker fails, or the rounds are used up; how the loop has ended is not told from the state that it
leaves behind. -/
namespace EntryAnalyse
namespace ReportLoop

open Streams R4Loop

/-- The fields of `FunctionState` that the stage reads or writes. -/
structure FuncState where
  r5State : NodeState := .pending
  r5Attempts : ℕ := 0
  r5Path : String := ""
  deriving DecidableEq

/-- How a call of the judge ends: an exception, or the verdict that is parsed. -/
inductive Judgement
  | raised (text : String)
  | judged (passed : Bool) (feedback : String)
  deriving DecidableEq

/-- What the loop meets in a round: the cancel event at its head, the end of the worker's call, whether
the worker has written the report, and the judge. -/
structure Round where
  cancelled : Bool := false
  workerRaises : Bool := false
  written : Bool := true
  judge : Judgement := .judged true ""

/-- The prompt of the worker: all the data, or a message with the judge's feedback. -/
inductive Prompt
  | full
  | retry (feedback : String)
  deriving DecidableEq

/-- The variables of the loop; `func` is none when the pipeline state does not know the function. -/
structure Loop where
  func : Option FuncState
  attempts : ℕ
  feedback : String := ""
  written : Bool
  prompts : List Prompt := []
  verdicts : List Judgement := []
  ended : Bool := false

section Rounds

variable (reportOut : String) (reportFuncMax : ℤ)

def Loop.onFunc (s : Loop) (f : FuncState → FuncState) : Loop := { s with func := s.func.map f }

/-- What follows the loop. -/
def Loop.finish (s : Loop) : Loop :=
  { s.onFunc fun f =>
      if f.r5State ≠ .passed then
        { f with r5State := .passed, r5Path := if s.written then reportOut else f.r5Path }
      else f with
    ended := true }

/-- The part of a round up to the end of the worker's call. -/
def Loop.callWorker (s : Loop) (r : Round) : Loop :=
  let attempts := s.attempts + 1
  { s.onFunc fun f => { f with r5Attempts := attempts, r5State := .running } with
    attempts := attempts
    prompts := s.prompts ++ [if 1 < attempts then .retry s.feedback else .full]
    written := s.written || r.written }

/-- The judge's part of a round. -/
def Loop.callJudge (s : Loop) (judge : Judgement) : Loop :=
  let s := { s with verdicts := s.verdicts ++ [judge] }
  match judge with
  | .judged true _ =>
    (s.onFunc fun f => { f with r5State := .passed, r5Path := reportOut }).finish reportOut
  | .judged false feedback => { s with feedback := feedback }
  | .raised text =>
    { s.onFunc fun f => { f with r5State := .failed } with
      feedback := "judge exception: " ++ String.ofList (text.toList.take 300) }

/-- A round of `_run_report_for_func`. -/
def round (s : Loop) (r : Round) : Loop :=
  if s.ended then s
  else if shouldContinue s.attempts reportFuncMax r.cancelled = false then s.finish reportOut
  else
    let s := s.callWorker r
    if r.workerRaises then s.finish reportOut
    else if s.written then s.callJudge reportOut r.judge
    else { s with feedback := "报告文件未写出，请确认使用 write 工具将内容写入指定路径" }

/-- The state at the head of the loop; a function that has passed is left alone. -/
def enter (func : Option FuncState) (reportExists : Bool) : Loop where
  func := func
  attempts := (func.map FuncState.r5Attempts).getD 0
  written := reportExists
  ended := func.any (·.r5State = .passed)

/-- `_run_report_for_func` after `n` rounds. -/
def run (func : Option FuncState) (reportExists : Bool) (rounds : ℕ → Round) (n : ℕ) : Loop :=
  feed (round reportOut reportFuncMax) (enter func reportExists) rounds n

end Rounds

/-! ## The course of the loop -/

section Course

variable (limit : ℤ) (start : ℕ) (reportExists : Bool) (rounds : ℕ → Round)

/-- Whether there is a report before the round. -/
def reportBefore : ℕ → Bool
  | 0 => reportExists
  | n + 1 => reportBefore n || (rounds n).written

/-- The loop ends in the round, or before the worker is called in it. -/
inductive Ends (n : ℕ) : Prop
  | usedUp (h : shouldContinue (start + n) limit (rounds n).cancelled = false)
  | failed (h : (rounds n).workerRaises = true)
  | approved (feedback : String) (hw : reportBefore reportExists rounds (n + 1) = true)
      (h : (rounds n).judge = .judged true feedback)

/-- The feedback that the round leaves for the next one. -/
def feedbackOf (n : ℕ) : String :=
  if reportBefore reportExists rounds (n + 1) then
    match (rounds n).judge with
    | .judged _ feedback => feedback
    | .raised text => "judge exception: " ++ String.ofList (text.toList.take 300)
  else "报告文件未写出，请确认使用 write 工具将内容写入指定路径"

/-- The prompt of the round. -/
def promptOf : ℕ → Prompt
  | 0 => if start = 0 then .full else .retry ""
  | n + 1 => .retry (feedbackOf reportExists rounds n)

/-- The loop after `n` rounds that have not ended it. -/
structure Going (f : FuncState) (n : ℕ) (s : Loop) : Prop where
  ended : s.ended = false
  attempts : s.attempts = start + n
  written : s.written = reportBefore reportExists rounds n
  func : ∃ state, state ≠ .passed ∧ s.func = some { f with r5State := state, r5Attempts := start + n }
  prompts : s.prompts = (List.range n).map (promptOf start reportExists rounds)
  feedback : Prompt.retry s.feedback =
    if n = 0 then .retry "" else promptOf start reportExists rounds n
  verdicts : ∀ feedback, .judged true feedback ∉ s.verdicts

/-- How often the worker is called when the loop ends in the round. -/
def callsIn (n : ℕ) : ℕ :=
  if shouldContinue (start + n) limit (rounds n).cancelled then n + 1 else n

/-- The loop once it has ended in the round `n`. -/
structure Ended (reportOut : String) (f : FuncState) (n : ℕ) (s : Loop) : Prop where
  ended : s.ended = true
  prompts : s.prompts = (List.range (callsIn limit start rounds n)).map
    (promptOf start reportExists rounds)
  func : s.func = some {
    r5State := .passed
    r5Attempts := start + callsIn limit start rounds n
    r5Path := if reportBefore reportExists rounds (callsIn limit start rounds n) then reportOut
      else f.r5Path }
  approved : (∃ feedback, .judged true feedback ∈ s.verdicts) ↔
    shouldContinue (start + n) limit (rounds n).cancelled = true ∧
      (rounds n).workerRaises = false ∧ reportBefore reportExists rounds (n + 1) = true ∧
        ∃ feedback, (rounds n).judge = .judged true feedback

end Course

section Course

variable {reportOut : String} {limit : ℤ} {start : ℕ} {reportExists : Bool} {rounds : ℕ → Round}
  {f : FuncState} {n : ℕ} {s : Loop}

theorem going_enter (hf : f.r5State ≠ .passed) :
    Going f.r5Attempts reportExists rounds f 0 (enter (some f) reportExists) where
  ended := by simp [enter,hf]
  attempts := by simp [enter]
  written := rfl
  func := ⟨f.r5State,hf,rfl⟩
  prompts := rfl
  feedback := rfl
  verdicts := by simp [enter]

/-- The prompt that the worker gets in a round. -/
theorem Going.prompt (h : Going start reportExists rounds f n s) :
    (if 1 < s.attempts + 1 then Prompt.retry s.feedback else .full) =
      promptOf start reportExists rounds n := by
  rw [h.attempts]
  cases n with
  | zero =>
    by_cases hs : start = 0
    · simp [hs,promptOf]
    · have := h.feedback
      simp [promptOf,hs,Nat.pos_of_ne_zero hs] at this ⊢
      exact this
  | succ n =>
    have := h.feedback
    simp only [Nat.succ_ne_zero,if_false] at this
    rw [if_pos (by omega),this]

theorem Going.callWorker (h : Going start reportExists rounds f n s) :
    let t := s.callWorker (rounds n)
    t.ended = false ∧ t.attempts = start + (n + 1) ∧
      t.written = reportBefore reportExists rounds (n + 1) ∧
      t.func = some { f with r5State := .running, r5Attempts := start + (n + 1) } ∧
      t.prompts = (List.range (n + 1)).map (promptOf start reportExists rounds) ∧
      ∀ feedback, .judged true feedback ∉ t.verdicts := by
  obtain ⟨state,-,hfunc⟩ := h.func
  refine ⟨h.ended,?_,?_,?_,?_,h.verdicts⟩
  · simp [Loop.callWorker,h.attempts,add_assoc]
  · rw [reportBefore,← h.written]
    rfl
  · simp [Loop.callWorker,Loop.onFunc,hfunc,h.attempts,add_assoc]
  · rw [List.range_succ,List.map_append,← h.prompts,List.map_singleton,← h.prompt]
    rfl

theorem Going.goesOn (h : Going start reportExists rounds f n s)
    (hends : ¬Ends limit start reportExists rounds n) :
    Going start reportExists rounds f (n + 1) (round reportOut limit s (rounds n)) := by
  have hcont : shouldContinue s.attempts limit (rounds n).cancelled = true := by
    rw [h.attempts]
    by_contra hno
    exact hends (.usedUp (Bool.eq_false_iff.mpr hno))
  have hworker : (rounds n).workerRaises = false := by
    by_contra hno
    exact hends (.failed (Bool.eq_true_of_not_eq_false hno))
  obtain ⟨hended,hattempts,hwritten,hfunc,hprompts,hverdicts⟩ := h.callWorker
  simp only [ReportLoop.round,h.ended,Bool.false_eq_true,if_false,hcont,hworker,Bool.true_eq_false]
  by_cases hw : reportBefore reportExists rounds (n + 1) = true
  · rw [if_pos (hwritten.trans hw)]
    cases hjudge : (rounds n).judge with
    | judged passed feedback =>
      cases passed with
      | true => exact absurd (.approved feedback hw hjudge) hends
      | false =>
        exact {
          ended := hended
          attempts := hattempts
          written := hwritten
          func := ⟨.running,by decide,hfunc⟩
          prompts := hprompts
          feedback := by simp [promptOf,feedbackOf,hw,hjudge,Loop.callJudge]
          verdicts := by
            intro fb hin
            rcases List.mem_append.mp hin with hin | hin
            · exact hverdicts fb hin
            · simp at hin }
    | raised text =>
      exact {
        ended := hended
        attempts := hattempts
        written := hwritten
        func := ⟨.failed,by decide,by simp [Loop.callJudge,Loop.onFunc,hfunc]⟩
        prompts := hprompts
        feedback := by simp [promptOf,feedbackOf,hw,hjudge,Loop.callJudge]
        verdicts := by
          intro fb hin
          rcases List.mem_append.mp hin with hin | hin
          · exact hverdicts fb hin
          · simp at hin }
  · rw [if_neg fun hin => hw (hwritten.symm.trans hin)]
    exact {
      ended := hended
      attempts := hattempts
      written := hwritten
      func := ⟨.running,by decide,hfunc⟩
      prompts := hprompts
      feedback := by simp [promptOf,feedbackOf,hw]
      verdicts := hverdicts }

theorem finish_func {g : FuncState} (h : s.func = some g) (hg : g.r5State ≠ .passed) :
    (s.finish reportOut).func = some { g with
      r5State := .passed
      r5Path := if s.written then reportOut else g.r5Path } := by
  simp [Loop.finish,Loop.onFunc,h,hg]

theorem Going.ends (h : Going start reportExists rounds f n s)
    (hends : Ends limit start reportExists rounds n) (reportOut : String) :
    Ended limit start reportExists rounds reportOut f n (round reportOut limit s (rounds n)) := by
  cases hcont : shouldContinue (start + n) limit (rounds n).cancelled with
  | false =>
    have hcont' : shouldContinue s.attempts limit (rounds n).cancelled = false := h.attempts ▸ hcont
    obtain ⟨state,hstate,hfunc⟩ := h.func
    simp only [ReportLoop.round,h.ended,Bool.false_eq_true,if_false,hcont',if_true]
    exact {
      ended := rfl
      prompts := by
        simp only [callsIn,hcont,Bool.false_eq_true,if_false]
        exact h.prompts
      func := by
        simp only [callsIn,hcont,Bool.false_eq_true,if_false,← h.written]
        exact finish_func hfunc hstate
      approved := by
        simp only [hcont,Bool.false_eq_true,false_and,iff_false,not_exists]
        exact h.verdicts }
  | true =>
    have hcont' : shouldContinue s.attempts limit (rounds n).cancelled = true := h.attempts ▸ hcont
    obtain ⟨-,-,hwritten,hfunc,hprompts,hverdicts⟩ := h.callWorker
    simp only [ReportLoop.round,h.ended,Bool.false_eq_true,if_false,hcont',Bool.true_eq_false]
    cases hworker : (rounds n).workerRaises with
    | true =>
      exact {
        ended := rfl
        prompts := by
          simp only [callsIn,hcont,if_true]
          exact hprompts
        func := by
          simp only [callsIn,hcont,if_true,← hwritten]
          exact finish_func hfunc (NodeState.noConfusion : NodeState.running ≠ .passed)
        approved := by
          simp only [hworker,Bool.true_eq_false,false_and,and_false,iff_false,not_exists]
          exact hverdicts }
    | false =>
      cases hends with
      | usedUp hno => simp [hcont] at hno
      | failed hno => simp [hworker] at hno
      | approved feedback hw hjudge =>
        simp only [Bool.false_eq_true,if_false,hwritten.trans hw,if_true,hjudge]
        exact {
          ended := rfl
          prompts := by
            simp only [callsIn,hcont,if_true]
            exact hprompts
          func := by
            simp [Loop.callJudge,Loop.finish,Loop.onFunc,hfunc,callsIn,hcont,hw]
          approved := by
            simp only [hcont,hworker,hw,hjudge,true_and]
            exact ⟨fun _ => ⟨feedback,rfl⟩,fun _ => ⟨feedback,List.mem_append_right _
              (List.mem_singleton_self _)⟩⟩ }

theorem going_run (reportOut : String) (hf : f.r5State ≠ .passed)
    (h : ∀ i < n, ¬Ends limit f.r5Attempts reportExists rounds i) :
    Going f.r5Attempts reportExists rounds f n
      (run reportOut limit (some f) reportExists rounds n) := by
  induction n with
  | zero => exact going_enter hf
  | succ n ih =>
    exact (ih fun i hi => h i (Nat.lt_succ_of_lt hi)).goesOn (h n (Nat.lt_succ_self n))

theorem round_of_ended (s : Loop) (r : Round) (h : s.ended = true) :
    round reportOut limit s r = s := by
  simp [ReportLoop.round,h]

theorem ended_run (hf : f.r5State ≠ .passed) {k : ℕ}
    (hends : Ends limit f.r5Attempts reportExists rounds k)
    (hfirst : ∀ i < k, ¬Ends limit f.r5Attempts reportExists rounds i) (hn : k < n) :
    Ended limit f.r5Attempts reportExists rounds reportOut f k
      (run reportOut limit (some f) reportExists rounds n) := by
  have hend : Ended limit f.r5Attempts reportExists rounds reportOut f k
      (run reportOut limit (some f) reportExists rounds (k + 1)) :=
    (going_run reportOut hf hfirst).ends hends reportOut
  have hstay := feed_of_stopped (@round_of_ended reportOut limit) (n := k + 1) hend.ended hn
  rw [run,hstay]
  exact hend

theorem ends_of_limit (h : limit ≠ -1) :
    Ends limit start reportExists rounds (limit - start).toNat := by
  refine .usedUp ?_
  unfold shouldContinue
  split_ifs
  · rfl
  · rfl
  · exact decide_eq_false (by omega)

variable (reportOut limit reportExists rounds)

end Course

end ReportLoop
end EntryAnalyse
