import EntryAnalyse.PiRetries

/-! What the limits of the retries bound. Every retry lowers one digit of a number whose digits
are what is left of the limits, the digit of a counter that the retry resets standing behind it;
only the errors of the API that are no timeouts have no digit of their own in the code. -/
namespace EntryAnalyse
namespace Runner

open Streams AgentResult

/-- All limits are finite. -/
structure Limits.Finite (lim : Limits) : Prop where
  maxRetries : 0 ≤ lim.maxRetries
  piMaxRetries : 0 ≤ lim.piMaxRetries
  timeoutMaxRetries : 0 ≤ lim.timeoutMaxRetries
  maxConsecutiveEmptyResponses : 0 ≤ lim.maxConsecutiveEmptyResponses

/-- A bound on the processes of a call that keeps its limits. -/
def spawnBound (lim : Limits) : ℕ :=
  (lim.piMaxRetries.toNat + lim.maxRetries.toNat + 1) * (2 * lim.timeoutMaxRetries.toNat + 1) *
    (queryEngine401MaxRetries + 1) * (lim.maxConsecutiveEmptyResponses.toNat + 1)

/-- The number of processes, out of the first `n`, that a branch retried. -/
def retriesBy (lim : Limits) (cancelled : Bool) (outs : ℕ → Attempt) (b : Branch) (n : ℕ) : ℕ :=
  Nat.count (fun k => retriedBy lim cancelled outs k = some b) n

/-- The retry budgets of a call for one stream of processes. -/
structure Budgets (lim : Limits) (cancelled : Bool) (outs : ℕ → Attempt) : Prop where
  returns : ∃ n ≤ spawnBound lim, (piRun lim cancelled outs n).returned.isSome = true
  api : ∀ n, (retriesBy lim cancelled outs .api n : ℤ) ≤ lim.maxRetries
  idleTimeout : ∀ n, (Nat.count (fun k => (outs k).idleTimeout = true ∧
    retriedBy lim cancelled outs k ≠ none) n : ℤ) ≤ lim.timeoutMaxRetries
  notCrash : ∀ k, (outs k).idleTimeout = true → retriedBy lim cancelled outs k ≠ some .crash
  crash : ∀ n, (retriesBy lim cancelled outs .crash n : ℤ) ≤ lim.piMaxRetries

/-- The outcomes stay within what the code limits: no more plain errors of the API than
`max_retries`, and none but the last crash is a silence before the first message. -/
structure WithinLimits (lim : Limits) (cancelled : Bool) (outs : ℕ → Attempt) : Prop where
  api : ∀ n, (Nat.count (fun k => (piRun lim cancelled outs k).returned.isNone = true ∧
    (outs k).plainApiError = true) n : ℤ) ≤ lim.maxRetries
  idleTimeout : ∀ n, (piRun lim cancelled outs n).returned.isNone = true →
    (outs n).idleBeforeMessage = true → lim.piMaxRetries ≤ (piRun lim cancelled outs n).piAttempt

/-! ## The rank -/

section Rank

variable (lim : Limits)

/-- What is left of the limits of the two kinds of timeouts. -/
def timeoutsLeft (c : Counters) : ℕ :=
  (lim.timeoutMaxRetries.toNat - c.apiTimeoutCount) +
    (lim.timeoutMaxRetries.toNat - c.timeoutFailures)

/-- What is left of the limits inside one call of the inner loop, below the errors of the API. -/
def innerRank (front : ℕ) (c : Counters) : ℕ :=
  ((front * (2 * lim.timeoutMaxRetries.toNat + 1) + timeoutsLeft lim c) *
      (queryEngine401MaxRetries + 1) +
        (queryEngine401MaxRetries - c.queryEngine401Failures)) *
    (lim.maxConsecutiveEmptyResponses.toNat + 1) +
      (lim.maxConsecutiveEmptyResponses.toNat - c.emptyResponseFailures)

variable {lim} {front front' : ℕ} {c c' : Counters}

theorem timeoutsLeft_le (c : Counters) :
    timeoutsLeft lim c ≤ 2 * lim.timeoutMaxRetries.toNat := by
  unfold timeoutsLeft
  omega

theorem innerRank_lt_of_front (h : front' < front) :
    innerRank lim front' c' < innerRank lim front c :=
  radix_lt_of_front (radix_lt_of_front (radix_lt_of_front h (timeoutsLeft_le c'))
    (Nat.sub_le _ _)) (Nat.sub_le _ _)

theorem innerRank_lt_of_timeouts (h : timeoutsLeft lim c' < timeoutsLeft lim c) :
    innerRank lim front c' < innerRank lim front c :=
  radix_lt_of_front (radix_lt_of_front (radix_lt_of_digit le_rfl h)
    (Nat.sub_le _ _)) (Nat.sub_le _ _)

theorem innerRank_lt_bound (h : front ≤ lim.piMaxRetries.toNat + lim.maxRetries.toNat) :
    innerRank lim front c < spawnBound lim :=
  radix_lt_bound (radix_lt_bound (radix_lt_bound (Nat.lt_succ_of_le h) (timeoutsLeft_le c))
    (Nat.sub_le _ _)) (Nat.sub_le _ _)

theorem withinLimit_iff {limit : ℤ} (h : 0 ≤ limit) {n : ℕ} :
    withinLimit limit n = true ↔ n ≤ limit.toNat := by
  simp only [withinLimit,Bool.or_eq_true,decide_eq_true_eq]
  omega

/-- Every retry of the inner loop but that of a plain error of the API lowers the rank. -/
theorem InnerRetry.rank_lt {a : Attempt} {b : Branch} (hlim : lim.Finite)
    (hrate : a.rateLimited = false) (h : InnerRetry lim c a b c') (hb : b ≠ .api) :
    innerRank lim front c' < innerRank lim front c := by
  have htimeout := hlim.timeoutMaxRetries
  have hempty := hlim.maxConsecutiveEmptyResponses
  cases h with
  | idleTimeout h =>
    rw [withinLimit_iff htimeout] at h
    refine innerRank_lt_of_timeouts ?_
    simp only [timeoutsLeft]
    omega
  | emptyResponse h =>
    refine radix_lt_of_digit le_rfl ?_
    dsimp only
    omega
  | queryEngine401 h =>
    refine radix_lt_of_front (radix_lt_of_digit le_rfl ?_) (Nat.sub_le _ _)
    dsimp only
    omega
  | rateLimit h =>
    rw [hrate] at h
    cases h
  | apiTimeout h hcount hidle =>
    rw [withinLimit_iff htimeout] at h
    refine innerRank_lt_of_timeouts ?_
    simp only [timeoutsLeft,hcount,hidle]
    omega
  | api h => exact absurd rfl hb

end Rank

/-! ## Runs -/

section Run

variable {lim : Limits} {cancelled : Bool} {outs : ℕ → Attempt} {n : ℕ}

theorem piRun_move (hn : (piRun lim cancelled outs n).returned = none) :
    PiMove lim (piRun lim cancelled outs n) (outs n) (piRun lim cancelled outs (n + 1))
      (retriedBy lim cancelled outs n) :=
  piTurn_move hn

theorem piRun_stays (hn : (piRun lim cancelled outs n).returned.isSome = true) :
    piRun lim cancelled outs (n + 1) = piRun lim cancelled outs n ∧
      retriedBy lim cancelled outs n = none := by
  have hturn := piTurn_returned lim (outs n) hn
  exact ⟨congrArg Prod.fst hturn,congrArg Prod.snd hturn⟩

/-- Only a call that has not returned retries. -/
theorem returned_of_retried {b : Branch} (h : retriedBy lim cancelled outs n = some b) :
    (piRun lim cancelled outs n).returned = none := by
  by_contra hs
  have hstays := piRun_stays (Option.ne_none_iff_isSome.mp hs)
  rw [hstays.2] at h
  cases h

/-- The plain errors of the API are the ones that the code retries without looking at a limit. -/
theorem retriedBy_api_iff : retriedBy lim cancelled outs n = some .api ↔
    (piRun lim cancelled outs n).returned.isNone = true ∧ (outs n).plainApiError = true := by
  constructor
  · intro h
    have hs := returned_of_retried h
    have hmove := piRun_move hs
    rw [h] at hmove
    generalize piRun lim cancelled outs (n + 1) = s' at hmove
    cases hmove with
    | inner h =>
      cases h with
      | api h => exact ⟨by rw [hs]; rfl,h⟩
  · rintro ⟨hs,ha⟩
    obtain ⟨c,hc⟩ := apiRetryPass_plainApiError lim
      (piRun lim cancelled outs n).inner ha
    rw [Option.isNone_iff_eq_none] at hs
    simp only [retriedBy,piTurn,hs,hc,Option.isSome_none,Bool.false_eq_true,if_false]

theorem retriesBy_succ (lim : Limits) (cancelled : Bool) (outs : ℕ → Attempt) (b : Branch)
    (n : ℕ) : retriesBy lim cancelled outs b (n + 1) = retriesBy lim cancelled outs b n +
      if retriedBy lim cancelled outs n = some b then 1 else 0 :=
  Nat.count_succ _ n

theorem piAttempt_mono : (piRun lim cancelled outs n).piAttempt ≤
    (piRun lim cancelled outs (n + 1)).piAttempt := by
  by_cases hs : (piRun lim cancelled outs n).returned = none
  · have hmove := piRun_move hs
    generalize retriedBy lim cancelled outs n = b at hmove
    generalize piRun lim cancelled outs (n + 1) = s' at hmove ⊢
    cases hmove with
    | inner h => exact le_rfl
    | crash h => exact Nat.le_succ _
    | returns h => exact h
  · rw [(piRun_stays (Option.ne_none_iff_isSome.mp hs)).1]

/-- The crashes that are retried keep the limit of the outer loop, whatever comes. -/
theorem crash_retries_le (hlim : lim.Finite) (n : ℕ) :
    (retriesBy lim cancelled outs .crash n : ℤ) ≤ lim.piMaxRetries := by
  have hle := count_le_of_counter (p := fun k => retriedBy lim cancelled outs k = some .crash)
    (f := fun k => (piRun lim cancelled outs k).piAttempt)
    (m := lim.piMaxRetries.toNat) (fun _ => piAttempt_mono) ?_ n
  · have hpos := hlim.piMaxRetries
    unfold retriesBy
    omega
  · intro k hk
    have hmove := piRun_move (returned_of_retried hk)
    rw [hk] at hmove
    generalize piRun lim cancelled outs (k + 1) = s' at hmove ⊢
    cases hmove with
    | inner h => cases h
    | crash h => exact ⟨Nat.lt_succ_self _,(withinLimit_iff hlim.piMaxRetries).mp h⟩

/-- What is left of the limits after `n` processes. -/
def runRank (lim : Limits) (cancelled : Bool) (outs : ℕ → Attempt) (n : ℕ) : ℕ :=
  innerRank lim
    ((lim.piMaxRetries.toNat - (piRun lim cancelled outs n).piAttempt) +
      (lim.maxRetries.toNat - retriesBy lim cancelled outs .api n))
    (piRun lim cancelled outs n).inner

/-- As long as the retries of plain errors of the API keep their limit, every process but the
last lowers the rank. -/
theorem runRank_descends (hlim : lim.Finite) (hrate : (outs n).rateLimited = false)
    (hapi : ∀ n, (retriesBy lim cancelled outs .api n : ℤ) ≤ lim.maxRetries)
    (hn : (piRun lim cancelled outs n).returned = none) :
    (piRun lim cancelled outs (n + 1)).returned.isSome = true ∨
      runRank lim cancelled outs (n + 1) < runRank lim cancelled outs n := by
  have hmove := piRun_move hn
  have hnext := hapi (n + 1)
  have hsucc := retriesBy_succ lim cancelled outs .api n
  unfold runRank
  generalize retriesBy lim cancelled outs .api (n + 1) = k' at hnext hsucc ⊢
  generalize retriesBy lim cancelled outs .api n = k at hsucc ⊢
  generalize piRun lim cancelled outs (n + 1) = s' at hmove ⊢
  generalize retriedBy lim cancelled outs n = b at hmove hsucc
  cases hmove with
  | returns h => exact Or.inl rfl
  | crash h =>
    right
    rw [withinLimit_iff hlim.piMaxRetries] at h
    rw [if_neg (by decide)] at hsucc
    refine innerRank_lt_of_front ?_
    dsimp only
    omega
  | @inner branch c h =>
    right
    by_cases hb : branch = .api
    · rw [hb,if_pos rfl] at hsucc
      refine innerRank_lt_of_front ?_
      dsimp only
      omega
    · rw [if_neg fun heq => hb (Option.some.inj heq)] at hsucc
      rw [hsucc]
      exact h.rank_lt hlim hrate hb

/-- A call whose retries of plain errors of the API keep their limit returns in time. -/
theorem returns_in_time (hlim : lim.Finite) (hrate : ∀ n, (outs n).rateLimited = false)
    (hapi : ∀ n, (retriesBy lim cancelled outs .api n : ℤ) ≤ lim.maxRetries) :
    ∃ n ≤ spawnBound lim, (piRun lim cancelled outs n).returned.isSome = true := by
  obtain ⟨n,hle,hn⟩ := exists_le_of_descent (f := runRank lim cancelled outs)
    (P := fun n => (piRun lim cancelled outs n).returned.isSome = true)
    (fun n hn => runRank_descends hlim (hrate n) hapi (Option.not_isSome_iff_eq_none.mp hn))
  have hstart : runRank lim cancelled outs 0 < spawnBound lim := by
    refine innerRank_lt_bound ?_
    omega
  exact ⟨n,by omega,hn⟩

/-- Nothing but plain errors of the API: the call never returns, whatever its limits are. -/
theorem never_returns_of_plainApiError (h : ∀ n, (outs n).plainApiError = true) (n : ℕ) :
    (piRun lim false outs n).returned = none := by
  induction n with
  | zero => rfl
  | succ n ih =>
    obtain ⟨c,hc⟩ := apiRetryPass_plainApiError lim
      (piRun lim false outs n).inner (h n)
    rw [piRun,feed_succ,← piRun]
    simp only [piTurn,ih,hc,Option.isSome_none,Bool.false_eq_true,if_false]

/-- A silent process that is retried is retried as a crash. -/
theorem idle_retried_as_crash (hidle : (outs n).idleTimeout = true)
    (hr : retriedBy lim cancelled outs n ≠ none) :
    retriedBy lim cancelled outs n = some .crash := by
  have hs : (piRun lim cancelled outs n).returned = none := by
    obtain ⟨b,hb⟩ := Option.ne_none_iff_exists'.mp hr
    exact returned_of_retried hb
  obtain ⟨hbefore,hlim⟩ := piTurn_idle_retried hs hidle hr
  exact piTurn_idleBeforeMessage hs hbefore hlim

end Run

/-- With finite limits and no error of the rate limit, a call keeps its retry budgets iff its
outcomes stay within what the code limits. -/
theorem budgets_iff (lim : Limits) (cancelled : Bool) (outs : ℕ → Attempt) (hlim : lim.Finite)
    (hrate : ∀ n, (outs n).rateLimited = false) :
    Budgets lim cancelled outs ↔ WithinLimits lim cancelled outs := by
  have hcount : ∀ n, retriesBy lim cancelled outs .api n =
      Nat.count (fun k => (piRun lim cancelled outs k).returned.isNone = true ∧
        (outs k).plainApiError = true) n := by
    intro n
    simp only [retriesBy,retriedBy_api_iff]
  constructor
  · intro h
    constructor
    · intro n
      rw [← hcount]
      exact h.api n
    · intro n hs hidle
      by_contra hless
      have hlimit : withinLimit lim.piMaxRetries
          ((piRun lim cancelled outs n).piAttempt + 1) = true := by
        rw [withinLimit_iff hlim.piMaxRetries]
        omega
      have hidle' : (outs n).idleTimeout = true := by
        unfold Attempt.idleBeforeMessage at hidle
        unfold Attempt.idleTimeout
        split at hidle
        · rfl
        · cases hidle
      exact h.notCrash n hidle'
        (piTurn_idleBeforeMessage (Option.isNone_iff_eq_none.mp hs) hidle hlimit)
  · intro h
    have hapi : ∀ n, (retriesBy lim cancelled outs .api n : ℤ) ≤ lim.maxRetries := by
      intro n
      rw [hcount]
      exact h.api n
    have hidle : ∀ k, (outs k).idleTimeout = true → retriedBy lim cancelled outs k = none := by
      intro k hk
      by_contra hr
      have hs := returned_of_retried (idle_retried_as_crash hk hr)
      obtain ⟨hbefore,hleft⟩ := piTurn_idle_retried hs hk hr
      have hused := h.idleTimeout k (by rw [hs]; rfl) hbefore
      rw [withinLimit_iff hlim.piMaxRetries] at hleft
      omega
    refine ⟨returns_in_time hlim hrate hapi,hapi,fun n => ?_,fun k hk hc => ?_,
      crash_retries_le hlim⟩
    · have hle := count_le_of_counter (p := fun k => (outs k).idleTimeout = true ∧
        retriedBy lim cancelled outs k ≠ none) (f := fun _ => 0)
        (m := lim.timeoutMaxRetries.toNat) (fun _ => le_rfl)
        (fun k hk => absurd (hidle k hk.1) hk.2) n
      have hpos := hlim.timeoutMaxRetries
      omega
    · rw [hidle k hk] at hc
      cases hc

/-- A process that crashes each time it is started, with two retries for crashes. -/
theorem crashing_keeps_budgets : Budgets ⟨0,2,0,0,true,none⟩ false
    (fun _ => ⟨.exited {} "" (some 1),fun _ => false⟩) := by
  have hrate : (⟨.exited {} "" (some 1),fun _ => false⟩ : Attempt).rateLimited = false := by
    decide
  have hplain : (⟨.exited {} "" (some 1),fun _ => false⟩ : Attempt).plainApiError = false := by
    decide
  have hidle : (⟨.exited {} "" (some 1),fun _ => false⟩ : Attempt).idleBeforeMessage = false := rfl
  refine (budgets_iff _ _ _ ⟨le_rfl,by decide,le_rfl,le_rfl⟩ fun _ => hrate).mpr ⟨fun n => ?_,?_⟩
  · simp [hplain]
  · intro n _ h
    rw [hidle] at h
    cases h

/-- An upstream that answers 503 each time is asked for ever although no retry is allowed, and a
process that is silent from the start is retried as a crash. -/
theorem budgets_broken :
    (∀ n, (piRun ⟨0,0,0,0,true,none⟩ false (fun _ =>
      ⟨.exited {} "HTTP 503" (some 1),fun _ => false⟩) n).returned = none) ∧
    retriedBy ⟨0,1,0,0,true,some 3600⟩ false (fun _ => ⟨.idleTimeout {},fun _ => false⟩) 0 =
      some .crash ∧
    ¬∀ (lim : Limits) (cancelled : Bool) (outs : ℕ → Attempt), lim.Finite →
      (∀ n, (outs n).rateLimited = false) → Budgets lim cancelled outs := by
  have hrate : (⟨.exited {} "HTTP 503" (some 1),fun _ => false⟩ :
      Attempt).rateLimited = false := by
    decide
  have hplain : (⟨.exited {} "HTTP 503" (some 1),fun _ => false⟩ :
      Attempt).plainApiError = true := by
    decide +kernel
  refine ⟨never_returns_of_plainApiError fun _ => hplain,
    piTurn_idleBeforeMessage rfl rfl (by decide),fun h => ?_⟩
  obtain ⟨n,-,hn⟩ := (h ⟨0,0,0,0,true,none⟩ false _ ⟨le_rfl,le_rfl,le_rfl,le_rfl⟩
    fun _ => hrate).returns
  rw [never_returns_of_plainApiError fun _ => hplain] at hn
  cases hn

end Runner
end EntryAnalyse
