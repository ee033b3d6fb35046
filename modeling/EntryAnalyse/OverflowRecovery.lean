import EntryAnalyse.AgentResult
import EntryAnalyse.Streams

/-! The recovery of an agent run whose request does not fit the context of its model. Before
each run the size of the request is estimated; a request that is too large, or a run that the
model refuses as too large, is answered by a compaction of the session and another iteration. -/
namespace EntryAnalyse
namespace Runner

open Streams AgentResult

/-! ## The estimate -/

def defaultContextWindow : ℕ := 128000

def promptTokenOverhead : ℕ := 128

def contextWindowByModel : List (String × ℕ) :=
  [("gpt-5.4",128000),("gpt-5.4-mini",128000),("gpt-5.5",256000),("gpt-5.3-codex",128000),
    ("gpt-5.2",200000),("minimax/minimax-m2.5",163804),("minimax-m2.5",163804),
    ("minimax-m2.7",128000),("glm-5.1",128000),("zai-org/glm-5",128000)]

def estimateTokens (text : String) : ℕ :=
  if text = "" then 0
  else
    let asciiChars := text.toList.countP fun ch => decide (ch.toNat < 128)
    let nonAsciiChars := text.toList.length - asciiChars
    max 1 ((asciiChars + 3) / 4 + nonAsciiChars)

def modelContextWindow (model : String) : ℕ :=
  match contextWindowByModel.find? fun entry => containsText (lower (strip model)) entry.1 with
  | some entry => entry.2
  | none => defaultContextWindow

def singleInputTokenEstimate (systemPrompt prompt : String) : ℕ :=
  estimateTokens systemPrompt + estimateTokens prompt + promptTokenOverhead

def effectiveContextLimit (contextWindow proxyReservedTokens : ℕ) : ℕ :=
  max 1 (contextWindow - max proxyReservedTokens 4096 - 4096)

/-- Three quarters of what the context leaves for the request. -/
def preflightContextTokenLimit (contextWindow proxyReservedTokens : ℕ) : ℕ :=
  max 1 (effectiveContextLimit contextWindow proxyReservedTokens * 3 / 4)

def formatContextOverflowFailure (originalError : Option String)
    (contextWindow singleInputTokens singleInputLimit : ℕ) (compactionAttempted : Bool)
    (proxyReservedTokens : ℕ) : String :=
  let action := if compactionAttempted then "已先触发一次会话自动压缩并重试" else "未能触发会话自动压缩"
  let original := if originalError.getD "" = "" then "unknown" else originalError.getD ""
  action ++ "，但当前单次输入估算约 " ++ toString singleInputTokens ++ " tokens，" ++
    "超过有效预算阈值 75%: " ++ toString singleInputLimit ++ "/" ++ toString contextWindow ++
    "（proxy_reserved=" ++ toString (max proxyReservedTokens 4096) ++ "），" ++
    "本次请求不再继续重试。原始错误: " ++ original

theorem estimateTokens_replicate {c : Char} (hc : c.toNat < 128) {n : ℕ} (hn : 0 < n) :
    estimateTokens (String.ofList (List.replicate n c)) = max 1 ((n + 3) / 4) := by
  have hne : String.ofList (List.replicate n c) ≠ "" := by
    intro h
    have hnil := congrArg String.toList h
    rw [String.toList_ofList] at hnil
    have hlen := congrArg List.length hnil
    simp at hlen
    omega
  simp [estimateTokens,hne,List.countP_replicate,hc]

/-! ## The loop -/

/-- The arguments of a run that decide how the recovery goes on. -/
structure Request where
  prompt : String
  systemPrompt : String
  model : String
  sessionFile : Option String
  deriving DecidableEq

/-- One iteration's run of the agent: whether it finds the cancel event set at its start, and
its result if it does not. -/
structure Turn where
  cancelled : Bool
  result : AgentResult

/-- What the inner run returns: its loop reads the cancel event before anything else. -/
def Turn.runWithPiRetry (turn : Turn) : AgentResult :=
  if turn.cancelled then { error := some "cancelled" } else turn.result

structure RecoveryState where
  overflowAttempts : ℕ := 0
  returned : Option AgentResult := none

namespace Request

variable (q : Request)

def noSession : Bool := q.sessionFile.getD "" == ""

def preflightTokens : ℕ := singleInputTokenEstimate q.systemPrompt q.prompt

def preflightLimit : ℕ := preflightContextTokenLimit (modelContextWindow q.model) 0

/-- The result when the request is too large and there is no session to compact. -/
def preflightResult : AgentResult :=
  { contextWindow := modelContextWindow q.model,
    proxyReservedTokens := 4096,
    contextBudgetExceededPreflight := true,
    error := some (formatContextOverflowFailure
      (some "preflight_context_budget_exceeded_without_session")
      (modelContextWindow q.model) q.preflightTokens q.preflightLimit false 4096),
    contextOverflowFailedAfterCompaction := true }

/-- One iteration of `_run_with_context_overflow_recovery`. A compaction leaves nothing behind
that the loop reads: its result is dropped, and so is that of the run before it. -/
def iterate (s : RecoveryState) (turn : Turn) : RecoveryState :=
  if s.returned.isSome then s
  else if q.preflightLimit < q.preflightTokens then
    if q.noSession then { s with returned := some q.preflightResult }
    else { s with overflowAttempts := s.overflowAttempts + 1 }
  else
    let result := { turn.runWithPiRetry with contextWindow := modelContextWindow q.model }
    if !isContextOverflowError result.error then { s with returned := some result }
    else
      let overflow := parseContextOverflowDetails result.error
      let contextWindow :=
        if overflow.contextLength = 0 then modelContextWindow q.model else overflow.contextLength
      if q.noSession then
        { s with returned := some { result with
            contextWindow := contextWindow,
            proxyReservedTokens := overflow.proxyReservedTokens,
            contextOverflowFailedAfterCompaction := true } }
      else { s with overflowAttempts := s.overflowAttempts + 1 }

/-- The state after `n` iterations. -/
def recovery (turns : ℕ → Turn) : ℕ → RecoveryState := feed q.iterate {} turns

end Request

/-- That the recovery of a request ends: once the cancel event stays set it returns, and
whenever the loop goes on, the next runs can be such that an iteration passes the estimate or
returns. -/
structure RecoveryEnds (q : Request) : Prop where
  cancelled : ∀ turns : ℕ → Turn, (∃ N, ∀ n, N ≤ n → (turns n).cancelled = true) →
    ∃ n, (q.recovery turns n).returned.isSome = true
  progress : ∀ (turns : ℕ → Turn) (n : ℕ), (q.recovery turns n).returned = none →
    ∃ turns' : ℕ → Turn, (∀ k < n, turns' k = turns k) ∧ ∃ m, n ≤ m ∧
      (((q.recovery turns' m).returned = none ∧ q.preflightTokens ≤ q.preflightLimit) ∨
        (q.recovery turns' (m + 1)).returned.isSome = true)

section Recovery

variable {q : Request} {turns : ℕ → Turn}

theorem cancelled_no_overflow : isContextOverflowError (some "cancelled") = false := by
  decide +kernel

/-- An iteration whose request fits returns when its run finds the task cancelled. -/
theorem iterate_cancelled {s : RecoveryState} {turn : Turn}
    (hfits : q.preflightTokens ≤ q.preflightLimit) (hc : turn.cancelled = true) :
    (q.iterate s turn).returned.isSome = true := by
  unfold Request.iterate
  by_cases hs : s.returned.isSome
  · simp only [hs,if_true]
  · simp [hs,Nat.not_lt.mpr hfits,Turn.runWithPiRetry,hc,cancelled_no_overflow]

/-- Without a session every iteration returns. -/
theorem iterate_noSession {s : RecoveryState} {turn : Turn} (h : q.noSession = true) :
    (q.iterate s turn).returned.isSome = true := by
  unfold Request.iterate
  by_cases hs : s.returned.isSome
  · simp only [hs,if_true]
  · by_cases hfits : q.preflightLimit < q.preflightTokens
    · simp [hs,hfits,h]
    · simp only [hs,hfits,h,if_true,if_false,Bool.false_eq_true]
      split <;> rfl

/-- With a session, a request that is too large is compacted for again in every iteration. -/
theorem recovery_too_large (h : q.noSession = false)
    (hlarge : q.preflightLimit < q.preflightTokens) (n : ℕ) :
    q.recovery turns n = ⟨n,none⟩ := by
  induction n with
  | zero => rfl
  | succ n ih =>
    rw [Request.recovery] at ih ⊢
    rw [feed_succ,ih]
    simp [Request.iterate,hlarge,h]

end Recovery

/-- The recovery ends for exactly the requests that fit by the estimate or have no session. -/
theorem recoveryEnds_iff (q : Request) :
    RecoveryEnds q ↔ q.noSession = true ∨ q.preflightTokens ≤ q.preflightLimit := by
  constructor
  · intro h
    by_contra hno
    push Not at hno
    obtain ⟨hsession,hlarge⟩ := hno
    have hsession := Bool.eq_false_of_not_eq_true hsession
    obtain ⟨n,hn⟩ := h.cancelled (fun _ => ⟨true,{}⟩) ⟨0,fun _ _ => rfl⟩
    rw [recovery_too_large hsession hlarge] at hn
    exact absurd hn Bool.false_ne_true
  · intro h
    constructor
    · rintro turns ⟨N,hN⟩
      refine ⟨N + 1,?_⟩
      rcases h with hsession | hfits
      · exact iterate_noSession hsession
      · exact iterate_cancelled hfits (hN N le_rfl)
    · intro turns n hn
      refine ⟨turns,fun _ _ => rfl,n,le_rfl,?_⟩
      rcases h with hsession | hfits
      · exact Or.inr (iterate_noSession hsession)
      · exact Or.inl ⟨hn,hfits⟩

/-- A prompt of `n` letters in a session of `gpt-5.4`. -/
def repeatedPrompt (n : ℕ) : Request where
  prompt := String.ofList (List.replicate n 'a')
  systemPrompt := ""
  model := "gpt-5.4"
  sessionFile := some "/tmp/session.jsonl"

theorem repeatedPrompt_tokens {n : ℕ} (hn : 0 < n) :
    (repeatedPrompt n).preflightTokens = max 1 ((n + 3) / 4) + 128 := by
  have hempty : estimateTokens "" = 0 := rfl
  have hprompt := estimateTokens_replicate (show 'a'.toNat < 128 by decide) hn
  simp only [Request.preflightTokens,singleInputTokenEstimate,repeatedPrompt,promptTokenOverhead]
  rw [hempty,hprompt,Nat.zero_add]

theorem repeatedPrompt_limit (n : ℕ) : (repeatedPrompt n).preflightLimit = 89856 := by
  have hmodel : preflightContextTokenLimit (modelContextWindow "gpt-5.4") 0 = 89856 := by
    decide +kernel
  exact hmodel

/-- The session of a prompt of 400000 letters is compacted for ever: no later iteration passes
the estimate or returns, even when the task is cancelled from the start. -/
theorem compacted_forever :
    (∀ (turns : ℕ → Turn) (n : ℕ),
        ((repeatedPrompt 400000).recovery turns n).returned = none) ∧
      (repeatedPrompt 400000).preflightLimit < (repeatedPrompt 400000).preflightTokens ∧
      ¬∀ q, RecoveryEnds q := by
  have hsession : (repeatedPrompt 400000).noSession = false := rfl
  have hlarge : (repeatedPrompt 400000).preflightLimit <
      (repeatedPrompt 400000).preflightTokens := by
    rw [repeatedPrompt_limit,repeatedPrompt_tokens (by norm_num)]
    norm_num
  refine ⟨fun turns n => ?_,hlarge,fun h => ?_⟩
  · rw [recovery_too_large hsession hlarge]
  · obtain ⟨n,hn⟩ := (h (repeatedPrompt 400000)).cancelled (fun _ => ⟨true,{}⟩)
      ⟨0,fun _ _ => rfl⟩
    rw [recovery_too_large hsession hlarge] at hn
    exact absurd hn Bool.false_ne_true

end Runner
end EntryAnalyse
