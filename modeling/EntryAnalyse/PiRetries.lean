import EntryAnalyse.AgentResult
import EntryAnalyse.Streams

/-! The retries of an agent run. The inner loop starts one `pi` process after another and
retries errors of the API, each kind with a counter of its own; the outer loop retries crashes
and starts the inner one afresh. What the processes give is an endless stream of attempts. -/
namespace EntryAnalyse
namespace Runner

open Streams AgentResult

/-! ## One process -/

/-- What `_process_line` collects of the output of a process. -/
structure Seen where
  messages : List Message := []
  outputTokens : ℤ := 0
  error : Option String := none

def Seen.result (seen : Seen) : AgentResult where
  messages := seen.messages
  outputTokens := seen.outputTokens
  error := seen.error

/-- How one `pi` process ends: it cannot be started, it is silent for too long, its output
cannot be read, or it exits. -/
inductive Outcome
  | spawnError (timedOut : Bool) (text : String)
  | idleTimeout (seen : Seen)
  | readError (seen : Seen) (text : String)
  | exited (seen : Seen) (stderrText : String) (returncode : Option ℤ)

/-- The `except Exception` of the read loop. -/
def readException (seen : Seen) (text : String) : AgentResult :=
  { seen.result with error := some ("pi process read error: " ++ text), exitCode := -1 }

/-- What `_execute` returns, or the `OSError` that it raises. -/
def Outcome.execute : Outcome → Except (Bool × String) AgentResult
  | .spawnError timedOut text => .error (timedOut,text)
  -- the `TimeoutError` of a silent process is raised inside the read loop and caught there
  | .idleTimeout seen => .ok (readException seen "")
  | .readError seen text => .ok (readException seen text)
  | .exited seen stderrText returncode =>
    let r :=
      if stderrText = "" then seen.result
      else
        let r := checkStderrForFatal stderrText seen.result
        if r.hasError then r else { r with error := some stderrText }
    .ok { r with exitCode := returncode.getD 0 }

/-- The places where the loops read the cancel event. -/
inductive CancelPoint
  | timedOut | afterRun | emptySleep | queryEngineSleep | rateLimitSleep | apiTimeout | apiSleep
  | piError | shouldRetry | piSleep | loopHead
  deriving DecidableEq

structure Attempt where
  outcome : Outcome
  cancelled : CancelPoint → Bool := fun _ => false

/-- The arguments of `_run_with_pi_retry` that its decisions read. A limit below 0 is none. -/
structure Limits where
  maxRetries : ℤ
  piMaxRetries : ℤ
  timeoutMaxRetries : ℤ
  maxConsecutiveEmptyResponses : ℤ
  timeoutRetryEnabled : Bool := true
  timeoutSeconds : Option ℚ := none

/-! ## The inner loop -/

def queryEngine401MaxRetries : ℕ := 10

/-- The branches that retry. -/
inductive Branch
  | idleTimeout | emptyResponse | queryEngine401 | rateLimit | apiTimeout | api | crash
  deriving DecidableEq

structure Counters where
  apiAttempt : ℕ := 0
  timeoutFailures : ℕ := 0
  queryEngine401Failures : ℕ := 0
  emptyResponseFailures : ℕ := 0
  rateLimitStreak : ℕ := 0
  apiTimeoutCount : ℕ := 0
  deriving DecidableEq

/-- One pass of the inner loop: another process, a result, or an `OSError`. -/
inductive InnerStep
  | retry (branch : Branch) (counters : Counters)
  | done (result : AgentResult)
  | raised (text : String)

/-- `f"{x:.0f}"` of a positive number: the nearest integer, the even one of two. -/
def format0 (x : ℚ) : String :=
  let below := ⌊x⌋
  let rest := x - below
  toString (if rest < 1 / 2 ∨ (rest = 1 / 2 ∧ below % 2 = 0) then below else below + 1)

def idleTimeoutResult (timeoutSeconds : Option ℚ) : AgentResult where
  error := some (match timeoutSeconds with
    | some t => "agent run idle timed out after " ++ format0 t ++ "s"
    | none => "agent run idle timed out")
  exitCode := -1

/-- The count of a limit that is reached, where a negative limit is none. -/
def withinLimit (limit : ℤ) (n : ℕ) : Bool := limit < 0 || (n : ℤ) ≤ limit

section Inner

variable (lim : Limits) (c : Counters) (a : Attempt) (r : AgentResult)

/-- The `except asyncio.TimeoutError` around `_execute`. -/
def onTimeout : InnerStep :=
  let c := { c with timeoutFailures := c.timeoutFailures + 1 }
  let canRetry := lim.timeoutRetryEnabled && withinLimit lim.timeoutMaxRetries c.timeoutFailures
  if !canRetry || a.cancelled .timedOut then .done (idleTimeoutResult lim.timeoutSeconds)
  else .retry .idleTimeout c

def onEmptyResponse : InnerStep :=
  let c := { c with emptyResponseFailures := c.emptyResponseFailures + 1 }
  if lim.maxConsecutiveEmptyResponses = -1 ∨
      (c.emptyResponseFailures : ℤ) ≤ lim.maxConsecutiveEmptyResponses then
    if a.cancelled .emptySleep then .done r else .retry .emptyResponse c
  else
    .done { r with
      error := some ("upstream returned empty responses " ++ toString c.emptyResponseFailures ++
        " times in a row (limit=" ++ toString lim.maxConsecutiveEmptyResponses ++ ")"),
      exitCode := -1 }

def onQueryEngine401 : InnerStep :=
  let c := { c with queryEngine401Failures := c.queryEngine401Failures + 1 }
  if c.queryEngine401Failures ≤ queryEngine401MaxRetries then
    if a.cancelled .queryEngineSleep then .done r else .retry .queryEngine401 c
  else
    .done { r with
      error := some (r.error.getD "" ++ " [query engine 401 连续重试耗尽: " ++
        toString c.queryEngine401Failures ++ " 次失败]") }

def onApiError : InnerStep :=
  if r.isRateLimitError then
    if a.cancelled .rateLimitSleep then .done r
    else .retry .rateLimit { c with rateLimitStreak := c.rateLimitStreak + 1 }
  else
    let c := { c with rateLimitStreak := 0, apiAttempt := c.apiAttempt + 1 }
    if r.isTimeoutError then
      let c := { c with apiTimeoutCount := c.apiTimeoutCount + 1 }
      if !withinLimit lim.timeoutMaxRetries c.apiTimeoutCount || a.cancelled .apiTimeout then
        .done r
      else .retry .apiTimeout c
    -- `can_retry` is true here: `max_retries` stands in the label of the log line only
    else if a.cancelled .apiSleep then .done r
    else .retry .api { c with apiTimeoutCount := 0 }

/-- What the inner loop makes of a result. -/
def onResult : InnerStep :=
  let r := r.extractOutput
  if a.cancelled .afterRun then .done r
  else if r.isPiCrash then .done r
  else if r.isFatalError then .done r
  else if r.isEmptyResponse then onEmptyResponse lim c a r
  else
    let c := { c with emptyResponseFailures := 0 }
    if r.isRetryableQueryEngine401Error then onQueryEngine401 c a r
    else
      let c := { c with queryEngine401Failures := 0 }
      if r.isRetryableApiError then onApiError lim c a r else .done r

/-- One pass of the loop of `_run_with_api_retry`. -/
def apiRetryPass : InnerStep :=
  match a.outcome.execute with
  | .error (true,_) => onTimeout lim c a
  | .error (false,text) => .raised text
  | .ok r => onResult lim c a r

end Inner

/-! ## The outer loop -/

structure PiState where
  piAttempt : ℕ := 0
  inner : Counters := {}
  returned : Option AgentResult := none

/-- The `except` of the outer loop: the next state, and whether the inner loop is entered again. -/
def onPiError (lim : Limits) (s : PiState) (a : Attempt) (text : String) :
    PiState × Option Branch :=
  let s := { s with piAttempt := s.piAttempt + 1 }
  let returns (r : AgentResult) : PiState × Option Branch := ({ s with returned := some r },none)
  if a.cancelled .piError then returns { error := some ("cancelled after pi error: " ++ text) }
  else if matchesAny fatalPatterns (lower text) then
    returns { error := some text, exitCode := -1, fatal := true }
  else if a.cancelled .shouldRetry || !withinLimit lim.piMaxRetries s.piAttempt then
    returns
      { error := some ("pi process failed after " ++ toString s.piAttempt ++ " retries: " ++ text),
        exitCode := -1 }
  else if a.cancelled .piSleep then
    returns { error := some ("cancelled after pi error: " ++ text) }
  else if a.cancelled .loopHead then returns { error := some "cancelled" }
  else ({ s with inner := {} },some .crash)

/-- The text of the exception for a crash. -/
def crashText (r : AgentResult) : String :=
  "exit_code=" ++ toString r.exitCode ++ ": " ++
    (if r.hasError then r.error.getD "" else "(no error message)")

/-- One process more, and the branch by which it is retried. -/
def piTurn (lim : Limits) (s : PiState) (a : Attempt) : PiState × Option Branch :=
  if s.returned.isSome then (s,none)
  else
    match apiRetryPass lim s.inner a with
    | .retry branch c => ({ s with inner := c },some branch)
    | .raised text => onPiError lim s a text
    | .done r =>
      if r.isFatalError || r.fatal then ({ s with returned := some { r with fatal := true } },none)
      else if r.isPiCrash then onPiError lim s a (crashText r)
      else ({ s with returned := some r },none)

/-- The state of `_run_with_pi_retry` at its start. -/
def piStart (cancelled : Bool) : PiState :=
  if cancelled then { returned := some { error := some "cancelled" } } else {}

/-- The state after `n` processes. -/
def piRun (lim : Limits) (cancelled : Bool) (outs : ℕ → Attempt) : ℕ → PiState :=
  feed (fun s a => (piTurn lim s a).1) (piStart cancelled) outs

/-- The branch by which process `n` is retried. -/
def retriedBy (lim : Limits) (cancelled : Bool) (outs : ℕ → Attempt) (n : ℕ) : Option Branch :=
  (piTurn lim (piRun lim cancelled outs n) (outs n)).2

/-! ## What one pass can do -/

/-- A result that the inner loop takes for an error of the API other than a timeout or the rate
limit. -/
def isPlainApiError (r : AgentResult) : Bool :=
  !r.isPiCrash && !r.isFatalError && !r.isEmptyResponse && !r.isRetryableQueryEngine401Error &&
    r.isRetryableApiError && !r.isRateLimitError && !r.isTimeoutError

namespace Attempt

variable (a : Attempt)

/-- The process gives an error of the API, other than a timeout or the rate limit, and the task
is not cancelled while the retry waits. -/
def plainApiError : Bool :=
  match a.outcome.execute with
  | .error _ => false
  | .ok r => isPlainApiError r.extractOutput && !a.cancelled .afterRun && !a.cancelled .apiSleep

/-- The process gives an error of the rate limit. -/
def rateLimited : Bool :=
  match a.outcome.execute with
  | .error _ => false
  | .ok r => r.isRateLimitError

def idleTimeout : Bool :=
  match a.outcome with
  | .idleTimeout _ => true
  | _ => false

/-- The process is silent for too long before its first message, and the task is not cancelled
by the time the inner loop would be entered again. -/
def idleBeforeMessage : Bool :=
  match a.outcome with
  | .idleTimeout seen => seen.messages.isEmpty && !a.cancelled .piError &&
      !a.cancelled .shouldRetry && !a.cancelled .piSleep && !a.cancelled .loopHead
  | _ => false

end Attempt

/-- The retries of the inner loop: what each counter was, and what becomes of it. -/
inductive InnerRetry (lim : Limits) (c : Counters) (a : Attempt) : Branch → Counters → Prop
  | idleTimeout (h : withinLimit lim.timeoutMaxRetries (c.timeoutFailures + 1) = true) :
      InnerRetry lim c a .idleTimeout { c with timeoutFailures := c.timeoutFailures + 1 }
  | emptyResponse (h : lim.maxConsecutiveEmptyResponses = -1 ∨
        ((c.emptyResponseFailures + 1 : ℕ) : ℤ) ≤ lim.maxConsecutiveEmptyResponses) :
      InnerRetry lim c a .emptyResponse
        { c with emptyResponseFailures := c.emptyResponseFailures + 1 }
  | queryEngine401 (h : c.queryEngine401Failures + 1 ≤ queryEngine401MaxRetries) :
      InnerRetry lim c a .queryEngine401
        { c with
          emptyResponseFailures := 0, queryEngine401Failures := c.queryEngine401Failures + 1 }
  | rateLimit {c' : Counters} (h : a.rateLimited = true) : InnerRetry lim c a .rateLimit c'
  | apiTimeout {c' : Counters}
      (h : withinLimit lim.timeoutMaxRetries (c.apiTimeoutCount + 1) = true)
      (hcount : c'.apiTimeoutCount = c.apiTimeoutCount + 1)
      (hidle : c'.timeoutFailures = c.timeoutFailures) : InnerRetry lim c a .apiTimeout c'
  | api {c' : Counters} (h : a.plainApiError = true) : InnerRetry lim c a .api c'

section Inner

variable {lim : Limits} {c : Counters} {a : Attempt} {b : Branch} {c' : Counters}

theorem onTimeout_retry (h : onTimeout lim c a = .retry b c') : InnerRetry lim c a b c' := by
  unfold onTimeout at h
  dsimp only at h
  split at h
  · cases h
  · rename_i hno
    simp only [Bool.or_eq_true,Bool.not_eq_true',Bool.and_eq_false_iff,not_or,
      Bool.not_eq_false] at hno
    cases h
    exact .idleTimeout hno.1.2

theorem onEmptyResponse_retry {r : AgentResult} (h : onEmptyResponse lim c a r = .retry b c') :
    InnerRetry lim c a b c' := by
  unfold onEmptyResponse at h
  dsimp only at h
  split at h
  · rename_i hlim
    split at h
    · cases h
    · cases h
      exact .emptyResponse hlim
  · cases h

/-- A retry after a session error starts the count of empty responses again. -/
theorem onQueryEngine401_retry {r : AgentResult}
    (h : onQueryEngine401 { c with emptyResponseFailures := 0 } a r = .retry b c') :
    InnerRetry lim c a b c' := by
  unfold onQueryEngine401 at h
  dsimp only at h
  split at h
  · rename_i hlim
    split at h
    · cases h
    · cases h
      exact .queryEngine401 hlim
  · cases h

theorem onApiError_retry {r : AgentResult} {q e : ℕ}
    (hrate : r.isRateLimitError = true → a.rateLimited = true)
    (hplain : r.isRateLimitError = false → r.isTimeoutError = false →
      a.cancelled .apiSleep = false → a.plainApiError = true)
    (h : onApiError lim { c with emptyResponseFailures := e, queryEngine401Failures := q } a r =
      .retry b c') : InnerRetry lim c a b c' := by
  unfold onApiError at h
  dsimp only at h
  by_cases hr : r.isRateLimitError = true
  · rw [if_pos hr] at h
    split at h
    · cases h
    · cases h
      exact .rateLimit (hrate hr)
  · rw [if_neg hr] at h
    by_cases ht : r.isTimeoutError = true
    · rw [if_pos ht] at h
      split at h
      · cases h
      · rename_i hno
        simp only [Bool.or_eq_true,Bool.not_eq_true',not_or,Bool.not_eq_false] at hno
        cases h
        exact .apiTimeout hno.1 rfl rfl
    · rw [if_neg ht] at h
      split at h
      · cases h
      · rename_i hsleep
        cases h
        exact .api (hplain (Bool.eq_false_of_not_eq_true hr) (Bool.eq_false_of_not_eq_true ht)
          (Bool.eq_false_of_not_eq_true hsleep))

theorem onResult_retry {r : AgentResult} (ho : a.outcome.execute = .ok r)
    (h : onResult lim c a r = .retry b c') : InnerRetry lim c a b c' := by
  unfold onResult at h
  dsimp only at h
  by_cases hc : a.cancelled .afterRun = true
  · rw [if_pos hc] at h
    cases h
  rw [if_neg hc] at h
  by_cases hcrash : r.extractOutput.isPiCrash = true
  · rw [if_pos hcrash] at h
    cases h
  rw [if_neg hcrash] at h
  by_cases hfatal : r.extractOutput.isFatalError = true
  · rw [if_pos hfatal] at h
    cases h
  rw [if_neg hfatal] at h
  by_cases hempty : r.extractOutput.isEmptyResponse = true
  · rw [if_pos hempty] at h
    exact onEmptyResponse_retry h
  rw [if_neg hempty] at h
  by_cases h401 : r.extractOutput.isRetryableQueryEngine401Error = true
  · rw [if_pos h401] at h
    exact onQueryEngine401_retry h
  rw [if_neg h401] at h
  by_cases hapi : r.extractOutput.isRetryableApiError = true
  · rw [if_pos hapi] at h
    refine onApiError_retry (fun hr => ?_) (fun hr ht hsleep => ?_) h
    · rw [Attempt.rateLimited,ho]
      simpa using hr
    · rw [Attempt.plainApiError,ho]
      simp [isPlainApiError,hc,hcrash,hfatal,hempty,h401,hapi,ht,hsleep]
      simpa using hr
  · rw [if_neg hapi] at h
    cases h

/-- Every retry of the inner loop is one of the six. -/
theorem apiRetryPass_retry (h : apiRetryPass lim c a = .retry b c') :
    InnerRetry lim c a b c' := by
  unfold apiRetryPass at h
  cases ho : a.outcome.execute with
  | error e =>
    obtain ⟨timedOut,text⟩ := e
    rw [ho] at h
    cases timedOut with
    | true => exact onTimeout_retry h
    | false => cases h
  | ok r =>
    rw [ho] at h
    exact onResult_retry ho h

/-- An error of the API is always retried, whatever `max_retries` says. -/
theorem apiRetryPass_plainApiError (lim : Limits) (c : Counters) (h : a.plainApiError = true) :
    ∃ c', apiRetryPass lim c a = .retry .api c' := by
  rw [Attempt.plainApiError] at h
  cases ho : a.outcome.execute with
  | error e =>
    rw [ho] at h
    cases h
  | ok r =>
    rw [ho] at h
    simp only [isPlainApiError,Bool.and_eq_true,Bool.not_eq_true'] at h
    obtain ⟨⟨⟨⟨⟨⟨⟨⟨hcrash,hfatal⟩,hempty⟩,h401⟩,hapi⟩,hr⟩,ht⟩,hc⟩,hsleep⟩ := h
    simp [apiRetryPass,ho,onResult,onApiError,hcrash,hfatal,hempty,h401,hapi,hr,ht,hc,hsleep]

/-- The error of a process that was silent for too long belongs to no class. -/
theorem readException_text :
    retryableApiPatterns.any (containsText (lower ("pi process read error: " ++ ""))) = false ∧
      matchesAny fatalPatterns (lower ("pi process read error: " ++ "")) = false ∧
      matchesAny retryableQueryEngine401Patterns
        (lower ("pi process read error: " ++ "")) = false := by
  decide +kernel

section IdleTimeout

variable (seen : Seen)

theorem idle_errorText : (readException seen "").extractOutput.errorText =
    lower ("pi process read error: " ++ "") := by
  simp [errorText,readException]

theorem idle_not_fatal : (readException seen "").extractOutput.isFatalError = false := by
  simp only [isFatalError,idle_errorText,readException_text.2.1,Bool.and_false]

theorem idle_not_api : (readException seen "").extractOutput.isRetryableApiError = false := by
  simp only [isRetryableApiError,idle_errorText,readException_text.1,Bool.and_false]

theorem idle_isPiCrash :
    (readException seen "").extractOutput.isPiCrash = seen.messages.isEmpty := by
  rw [isPiCrash,idle_not_api,idle_not_fatal]
  simp [readException,Seen.result]

/-- The inner loop never retries a process that was silent for too long. -/
theorem apiRetryPass_idleTimeout (h : a.outcome = .idleTimeout seen) :
    apiRetryPass lim c a = .done (readException seen "").extractOutput := by
  have hempty : (readException seen "").extractOutput.isEmptyResponse = false := by
    simp [isEmptyResponse,readException]
  have h401 : (readException seen "").extractOutput.isRetryableQueryEngine401Error = false := by
    simp only [isRetryableQueryEngine401Error,idle_errorText,readException_text.2.2,
      Bool.and_false]
  simp only [apiRetryPass,h,Outcome.execute,onResult,idle_not_fatal,idle_not_api,hempty,h401,
    Bool.false_eq_true,if_false,ite_self]

end IdleTimeout

end Inner

/-! ## What one turn of the outer loop can do -/

/-- A turn of a call that has not returned: a retry of the inner loop, a crash that is retried,
or a return. -/
inductive PiMove (lim : Limits) (s : PiState) (a : Attempt) : PiState → Option Branch → Prop
  | inner {b : Branch} {c : Counters} (h : InnerRetry lim s.inner a b c) :
      PiMove lim s a { s with inner := c } (some b)
  | crash (h : withinLimit lim.piMaxRetries (s.piAttempt + 1) = true) :
      PiMove lim s a { s with piAttempt := s.piAttempt + 1, inner := {} } (some .crash)
  | returns {p : ℕ} {r : AgentResult} (h : s.piAttempt ≤ p) :
      PiMove lim s a { s with piAttempt := p, returned := some r } none

section Outer

variable {lim : Limits} {s : PiState} {a : Attempt}

/-- The outer loop returns, or it finds the task not cancelled four times and an attempt left. -/
theorem onPiError_cases (text : String) :
    (∃ r, onPiError lim s a text =
      ({ s with piAttempt := s.piAttempt + 1, returned := some r },none)) ∨
    ((a.cancelled .piError = false ∧ a.cancelled .shouldRetry = false ∧
        a.cancelled .piSleep = false ∧ a.cancelled .loopHead = false ∧
        withinLimit lim.piMaxRetries (s.piAttempt + 1) = true) ∧
      onPiError lim s a text =
        ({ s with piAttempt := s.piAttempt + 1, inner := {} },some .crash)) := by
  unfold onPiError
  dsimp only
  split
  · exact Or.inl ⟨_,rfl⟩
  · split
    · exact Or.inl ⟨_,rfl⟩
    · split
      · exact Or.inl ⟨_,rfl⟩
      · split
        · exact Or.inl ⟨_,rfl⟩
        · split
          · exact Or.inl ⟨_,rfl⟩
          · right
            simp_all

theorem onPiError_move (text : String) :
    PiMove lim s a (onPiError lim s a text).1 (onPiError lim s a text).2 := by
  rcases onPiError_cases text with ⟨r,hr⟩ | ⟨⟨-,-,-,-,hlim⟩,hr⟩
  · rw [hr]
    exact .returns (Nat.le_succ _)
  · rw [hr]
    exact .crash hlim

theorem piTurn_move (hs : s.returned = none) :
    PiMove lim s a (piTurn lim s a).1 (piTurn lim s a).2 := by
  unfold piTurn
  simp only [hs,Option.isSome_none,Bool.false_eq_true,if_false]
  cases hp : apiRetryPass lim s.inner a with
  | retry b c => exact hs ▸ .inner (apiRetryPass_retry hp)
  | raised text => exact onPiError_move text
  | done r =>
    dsimp only
    split
    · exact .returns le_rfl
    · split
      · exact onPiError_move _
      · exact .returns le_rfl

theorem piTurn_returned (lim : Limits) (a : Attempt) (hs : s.returned.isSome = true) : piTurn lim s a = (s,none) := by
  simp only [piTurn,hs,if_true]

/-- The exception that the outer loop makes of a silent process is not a fatal one. -/
theorem idle_crashText (seen : Seen) :
    matchesAny fatalPatterns (lower (crashText (readException seen "").extractOutput)) = false := by
  have hfixed : matchesAny fatalPatterns (lower ("exit_code=" ++ toString (-1 : ℤ) ++ ": " ++
      ("pi process read error: " ++ ""))) = false := by
    decide
  have herror : (readException seen "").extractOutput.error =
      some ("pi process read error: " ++ "") := by
    simp [readException]
  have hexit : (readException seen "").extractOutput.exitCode = -1 := by
    simp [readException]
  have hhas : (readException seen "").extractOutput.hasError = true := by
    rw [hasError,herror]
    decide
  rw [crashText,hhas,herror,hexit]
  exact hfixed

/-- A process that was silent before its first message is a crash to the outer loop. -/
theorem piTurn_idleTimeout (hs : s.returned = none) {seen : Seen}
    (h : a.outcome = .idleTimeout seen) :
    (piTurn lim s a).2 = if seen.messages.isEmpty then
      (onPiError lim s a (crashText (readException seen "").extractOutput)).2 else none := by
  have hfatal : (readException seen "").extractOutput.fatal = false := by
    unfold extractOutput
    split <;> rfl
  simp only [piTurn,hs,apiRetryPass_idleTimeout seen h,idle_not_fatal,hfatal,idle_isPiCrash,
    Option.isSome_none,Bool.or_self,Bool.false_eq_true,if_false]
  split <;> rfl

theorem piTurn_idleBeforeMessage (hs : s.returned = none) (h : a.idleBeforeMessage = true)
    (hlim : withinLimit lim.piMaxRetries (s.piAttempt + 1) = true) :
    (piTurn lim s a).2 = some .crash := by
  cases ho : a.outcome with
  | idleTimeout seen =>
    rw [Attempt.idleBeforeMessage,ho] at h
    simp only [Bool.and_eq_true,Bool.not_eq_true'] at h
    obtain ⟨⟨⟨⟨hempty,hpi⟩,hretry⟩,hsleep⟩,hhead⟩ := h
    rw [piTurn_idleTimeout hs ho,if_pos hempty]
    simp [onPiError,hpi,idle_crashText,hretry,hlim,hsleep,hhead]
  | _ =>
    rw [Attempt.idleBeforeMessage,ho] at h
    cases h

/-- A silent process is retried by the outer loop or not at all. -/
theorem piTurn_idle_retried (hs : s.returned = none) (h : a.idleTimeout = true)
    (hr : (piTurn lim s a).2 ≠ none) :
    a.idleBeforeMessage = true ∧ withinLimit lim.piMaxRetries (s.piAttempt + 1) = true := by
  cases ho : a.outcome with
  | idleTimeout seen =>
    rw [piTurn_idleTimeout hs ho] at hr
    by_cases hempty : seen.messages.isEmpty = true
    · rw [if_pos hempty] at hr
      rcases onPiError_cases (s := s)
          (crashText (readException seen "").extractOutput) with
        ⟨r,hret⟩ | ⟨⟨hpi,hretry,hsleep,hhead,hlim⟩,-⟩
      · rw [hret] at hr
        exact absurd rfl hr
      · simp [Attempt.idleBeforeMessage,ho,hempty,hpi,hretry,hsleep,hhead,hlim]
    · rw [if_neg hempty] at hr
      exact absurd rfl hr
  | _ =>
    rw [Attempt.idleTimeout,ho] at h
    cases h

end Outer

end Runner
end EntryAnalyse
