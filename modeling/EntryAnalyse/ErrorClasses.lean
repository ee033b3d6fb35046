import EntryAnalyse.PiRetries

/-! The classes of results between which the two retry loops decide, and how texts of errors fall
into them. -/
namespace EntryAnalyse
namespace Runner

open AgentResult

inductive Verdict
  | success | contextOverflow | fatal | emptyResponse | retryableApi | crash | unknown
  deriving DecidableEq

/-- The class of a result, by the order in which the loops ask. A crash is fatal after all when
the text of its exception is. -/
def verdict (r : AgentResult) : Verdict :=
  if r.isPiCrash then
    if matchesAny fatalPatterns (lower (crashText r)) then .fatal else .crash
  else if r.isFatalError then .fatal
  else if r.isEmptyResponse then .emptyResponse
  else if r.isRetryableQueryEngine401Error || r.isRetryableApiError then .retryableApi
  else if isContextOverflowError r.error then .contextOverflow
  else if r.exitCode == 0 && !r.hasError then .success
  else .unknown

/-- What a class makes of a pass of the inner loop. -/
def passOf (lim : Limits) (c : Counters) (a : Attempt) (r : AgentResult) : Verdict → InnerStep
  | .emptyResponse => onEmptyResponse lim c a r
  | .retryableApi =>
    let c := { c with emptyResponseFailures := 0 }
    if r.isRetryableQueryEngine401Error then onQueryEngine401 c a r
    else onApiError lim { c with queryEngine401Failures := 0 } a r
  | _ => .done r

/-- The loops do with the result what its class says, and nothing else: the inner loop retries
the empty and the retryable ones, the outer loop ends at the fatal ones, starts again after a
crash and returns the others. -/
def Driven (lim : Limits) (s : PiState) (a : Attempt) (r : AgentResult) (v : Verdict) : Prop :=
  apiRetryPass lim s.inner a = passOf lim s.inner a r v ∧
    match v with
    | .emptyResponse | .retryableApi =>
      ∀ b c, passOf lim s.inner a r v = .retry b c → piTurn lim s a = ({ s with inner := c },some b)
    | .fatal => (piTurn lim s a).2 = none ∧
        ∃ r', (piTurn lim s a).1.returned = some r' ∧ r'.fatal = true
    | .crash => piTurn lim s a = onPiError lim s a (crashText r) ∧
        ∀ r', (piTurn lim s a).1.returned = some r' → r'.fatal = false
    | .contextOverflow | .success | .unknown =>
      piTurn lim s a = ({ s with returned := some r },none)

/-- A pattern is in the text, in whatever case. -/
def containsAnyCase (text pattern : String) : Bool := containsText (lower text) (lower pattern)

/-- What the classes promise of a result. -/
structure WellClassed (a : Attempt) (r : AgentResult) : Prop where
  driven : ∀ lim s, s.returned = none → (∀ p, a.cancelled p = false) →
    Driven lim s a r (verdict r)
  retryable : (∃ p ∈ retryableApiPatterns, containsAnyCase (r.error.getD "") p = true) →
    matchesAny fatalPatterns r.errorText = false → verdict r = .retryableApi
  overflow : isContextOverflowError r.error = true → verdict r ≠ .fatal

/-- The patterns that stand in capitals. -/
def capitalPatterns : List String := ["ECONNREFUSED","ECONNRESET","ETIMEDOUT","ENOTFOUND"]

/-- A text of the API that is recognised. -/
def saysRetryable (r : AgentResult) : Bool := retryableApiPatterns.any (containsText r.errorText)

/-- The results that are classed as they should be: with a code of the network in the text there
is also another pattern of the API, a fatal one, or one of the query engine in an answer that has
messages; and an overflow that ends the process without a message names nothing fatal. -/
structure ClassedWell (r : AgentResult) : Prop where
  network : (∃ p ∈ capitalPatterns, containsAnyCase (r.error.getD "") p = true) →
    matchesAny fatalPatterns r.errorText = true ∨ saysRetryable r = true ∨
      matchesAny retryableQueryEngine401Patterns r.errorText = true ∧
        (r.exitCode = 0 ∨ r.messages ≠ [])
  overflow : isContextOverflowError r.error = true → r.exitCode ≠ 0 → r.messages = [] →
    saysRetryable r = true ∨ matchesAny fatalPatterns (lower (crashText r)) = false

section Loops

variable {lim : Limits} {s : PiState} {a : Attempt} {r : AgentResult}

theorem execute_fatal (h : a.outcome.execute = .ok r) : r.fatal = false := by
  cases hout : a.outcome with
  | spawnError timedOut text => rw [hout] at h; cases h
  | idleTimeout seen => rw [hout] at h; cases h; rfl
  | readError seen text => rw [hout] at h; cases h; rfl
  | exited seen stderrText returncode =>
    rw [hout] at h
    unfold Outcome.execute at h
    cases h
    dsimp only
    unfold checkStderrForFatal
    split
    · rfl
    · dsimp only
      split <;> split <;> rfl

theorem extractOutput_fatal : r.extractOutput.fatal = r.fatal := by
  unfold extractOutput
  split <;> rfl

theorem fatal_not_crash (h : r.isPiCrash = true) : r.isFatalError = false := by
  unfold isPiCrash at h
  simp only [Bool.and_eq_true,Bool.not_eq_true'] at h
  exact h.2

/-- The inner loop follows the class. -/
theorem onResult_eq (calm : ∀ p, a.cancelled p = false) :
    onResult lim s.inner a r =
      passOf lim s.inner a r.extractOutput (verdict r.extractOutput) := by
  unfold onResult verdict
  simp only [calm,if_neg Bool.false_ne_true]
  cases r.extractOutput.isPiCrash with
  | true =>
    cases matchesAny fatalPatterns (lower (crashText r.extractOutput)) <;> rfl
  | false => cases r.extractOutput.isFatalError with
    | true => rfl
    | false => cases r.extractOutput.isEmptyResponse with
      | true => rfl
      | false =>
        cases qe : r.extractOutput.isRetryableQueryEngine401Error with
        | true => simp [passOf,qe]
        | false => cases r.extractOutput.isRetryableApiError with
          | true => simp [passOf,qe]
          | false =>
            cases isContextOverflowError r.extractOutput.error <;>
              cases r.extractOutput.exitCode == 0 && !r.extractOutput.hasError <;> rfl

/-- The outer loop passes on what the inner one retries. -/
theorem piTurn_retry {b : Branch} {c : Counters} (hs : s.returned = none)
    (h : apiRetryPass lim s.inner a = .retry b c) :
    piTurn lim s a = ({ s with inner := c },some b) := by
  simp only [piTurn,hs,h,Option.isSome_none,Bool.false_eq_true,if_false]

theorem piTurn_done (hs : s.returned = none) (h : apiRetryPass lim s.inner a = .done r)
    (hfatal : r.isFatalError = false) (hflag : r.fatal = false) :
    piTurn lim s a =
      if r.isPiCrash then onPiError lim s a (crashText r)
      else ({ s with returned := some r },none) := by
  simp only [piTurn,hs,h,hfatal,hflag,Option.isSome_none,Bool.or_self,Bool.false_eq_true,if_false]

/-- A text that is not fatal is never given back as fatal. -/
theorem onPiError_returned {text : String} {r' : AgentResult}
    (h : matchesAny fatalPatterns (lower text) = false)
    (hr : (onPiError lim s a text).1.returned = some r') (hs : s.returned = none) :
    r'.fatal = false := by
  unfold onPiError at hr
  simp only [h,Bool.false_eq_true,if_false] at hr
  split at hr
  · cases hr
    rfl
  · split at hr
    · cases hr
      rfl
    · split at hr
      · cases hr
        rfl
      · split at hr
        · cases hr
          rfl
        · rw [hs] at hr
          cases hr

theorem onPiError_fatal {text : String} (h : matchesAny fatalPatterns (lower text) = true)
    (calm : ∀ p, a.cancelled p = false) :
    onPiError lim s a text =
      ({ s with
          piAttempt := s.piAttempt + 1,
          returned := some { error := some text, exitCode := -1, fatal := true } },none) := by
  simp only [onPiError,calm,h,Bool.false_eq_true,if_false,if_true]

/-- The loops follow the class of a result. -/
theorem driven (h : a.outcome.execute = .ok r) (hs : s.returned = none)
    (calm : ∀ p, a.cancelled p = false) :
    Driven lim s a r.extractOutput (verdict r.extractOutput) := by
  have hpass : apiRetryPass lim s.inner a =
      passOf lim s.inner a r.extractOutput (verdict r.extractOutput) := by
    rw [← onResult_eq calm,apiRetryPass,h]
  have hflag : r.extractOutput.fatal = false := extractOutput_fatal.trans (execute_fatal h)
  refine ⟨hpass,?_⟩
  generalize r.extractOutput = r at hpass hflag
  cases hcrash : r.isPiCrash with
  | true =>
    have hfatal := fatal_not_crash hcrash
    have hturn (hd : apiRetryPass lim s.inner a = .done r) :
        piTurn lim s a = onPiError lim s a (crashText r) := by
      rw [piTurn_done hs hd hfatal hflag,if_pos hcrash]
    cases htext : matchesAny fatalPatterns (lower (crashText r)) with
    | true =>
      have hv : verdict r = .fatal := by simp [verdict,hcrash,htext]
      rw [hv] at hpass ⊢
      rw [hturn hpass,onPiError_fatal htext calm]
      exact ⟨rfl,_,rfl,rfl⟩
    | false =>
      have hv : verdict r = .crash := by simp [verdict,hcrash,htext]
      rw [hv] at hpass ⊢
      refine ⟨hturn hpass,fun r' hr => ?_⟩
      rw [hturn hpass] at hr
      exact onPiError_returned htext hr hs
  | false =>
    cases hfatal : r.isFatalError with
    | true =>
      have hv : verdict r = .fatal := by simp [verdict,hcrash,hfatal]
      rw [hv] at hpass ⊢
      have hturn : piTurn lim s a =
          ({ s with returned := some { r with fatal := true } },none) := by
        have hd : apiRetryPass lim s.inner a = .done r := hpass
        simp [piTurn,hs,hd,hfatal]
      rw [hturn]
      exact ⟨rfl,_,rfl,rfl⟩
    | false =>
      have hturn (hd : apiRetryPass lim s.inner a = .done r) :
          piTurn lim s a = ({ s with returned := some r },none) := by
        rw [piTurn_done hs hd hfatal hflag,hcrash,if_neg Bool.false_ne_true]
      cases hv : verdict r with
      | success | contextOverflow | unknown =>
        rw [hv] at hpass
        exact hturn hpass
      | emptyResponse | retryableApi =>
        rw [hv] at hpass
        exact fun b c hb => piTurn_retry hs (hpass.trans hb)
      | fatal =>
        exfalso
        revert hv
        simp only [verdict,hcrash,hfatal,Bool.false_eq_true,if_false]
        split_ifs <;> decide
      | crash =>
        exfalso
        revert hv
        simp only [verdict,hcrash,hfatal,Bool.false_eq_true,if_false]
        split_ifs <;> decide

end Loops

/-! ## Texts in any case -/

theorem toLower_isUpper (c : Char) : c.toLower.isUpper = false := by
  unfold Char.isUpper Char.toLower
  split <;> grind [UInt32.toNat_add,Char.toNat_val]

/-- A text in lower case has no capitals. -/
theorem lower_isUpper {s : String} {c : Char} (h : c ∈ (lower s).toList) : c.isUpper = false := by
  unfold lower at h
  rw [String.toList_ofList,List.mem_flatMap] at h
  obtain ⟨d,-,hc⟩ := h
  split at hc
  · rw [List.mem_singleton.mp hc]
    rfl
  · split at hc
    · rcases List.mem_cons.mp hc with rfl | hc
      · rfl
      · rw [List.mem_singleton.mp hc]
        decide
    · rw [List.mem_singleton.mp hc]
      exact toLower_isUpper d

/-- The patterns in capitals are in no text that the loops look at. -/
theorem capital_not_contained {p : String} (hp : p ∈ capitalPatterns) (s : String) :
    containsText (lower s) p = false := by
  have hcap : p.toList.any Char.isUpper = true := by
    revert p
    decide
  obtain ⟨c,hc,hup⟩ := List.any_eq_true.mp hcap
  unfold containsText
  rw [decide_eq_false_iff_not]
  intro hin
  rw [lower_isUpper (hin.subset hc)] at hup
  cases hup

theorem capital_retryable {p : String} (hp : p ∈ capitalPatterns) : p ∈ retryableApiPatterns := by
  revert p
  decide

theorem toList_lower (s : String) : (lower s).toList = s.toList.flatMap fun c =>
    if c.toNat = 0x212A then ['k']
    else if c.toNat = 0x130 then ['i',Char.ofNat 0x307]
    else [c.toLower] := by
  unfold lower
  rw [String.toList_ofList]

/-- The other patterns are compared as they stand. -/
theorem lower_pattern {p : String} (hp : p ∈ retryableApiPatterns) :
    p ∈ capitalPatterns ∨ lower p = p := by
  have hall : (retryableApiPatterns.all fun p => capitalPatterns.contains p ||
      p.toList.all fun c => c.toNat != 0x212A && c.toNat != 0x130 && c.toLower == c) = true := by
    decide +kernel
  have hplain := Bool.or_eq_true_iff.mp (List.all_eq_true.mp hall p hp)
  refine (hplain.imp_left List.contains_iff_mem.mp).imp_right fun h => ?_
  rw [← String.toList_inj,toList_lower]
  have hmap : p.toList.flatMap (fun c => if c.toNat = 0x212A then ['k']
      else if c.toNat = 0x130 then ['i',Char.ofNat 0x307] else [c.toLower]) =
      p.toList.flatMap fun c => [c] := by
    refine List.flatMap_congr fun c hc => ?_
    have hsame := List.all_eq_true.mp h c hc
    simp only [Bool.and_eq_true,bne_iff_ne,beq_iff_eq] at hsame
    rw [if_neg hsame.1.1,if_neg hsame.1.2,hsame.2]
  rw [hmap,List.flatMap_singleton']

/-! ## When the classes are right -/

section Classes

variable {r : AgentResult}

theorem errorText_of_none (h : r.hasError = false) : r.errorText = "" := by
  have hempty : r.error.getD "" = "" := by simpa [hasError] using h
  rw [errorText,hempty]
  decide

/-- Only the empty pattern stands in a text that is empty. -/
theorem eq_empty_of_contained {p : String} (h : containsText "" (lower p) = true) : p = "" := by
  have hnil : (lower p).toList = [] := List.infix_nil.mp (of_decide_eq_true h)
  rw [toList_lower,List.flatMap_eq_nil_iff] at hnil
  rw [← String.toList_eq_nil_iff,List.eq_nil_iff_forall_not_mem]
  intro c hc
  have hone := hnil c hc
  split at hone
  · cases hone
  · split at hone <;> cases hone

theorem hasError_of_contains {p : String} (hp : p ∈ retryableApiPatterns)
    (h : containsAnyCase (r.error.getD "") p = true) : r.hasError = true := by
  by_contra hno
  rw [containsAnyCase,← errorText,errorText_of_none (Bool.eq_false_of_not_eq_true hno)] at h
  rw [eq_empty_of_contained h] at hp
  revert hp
  decide

theorem isRetryableApiError_eq : r.isRetryableApiError = saysRetryable r := by
  unfold isRetryableApiError saysRetryable
  cases herror : r.hasError with
  | true => simp
  | false =>
    rw [errorText_of_none herror]
    have hno : (retryableApiPatterns.any (containsText "")) = false := by decide
    rw [hno,Bool.and_false]

/-- A text that says it and names nothing fatal is retried. -/
theorem verdict_of_saysRetryable (h : saysRetryable r = true)
    (hfatal : matchesAny fatalPatterns r.errorText = false) : verdict r = .retryableApi := by
  have hapi : r.isRetryableApiError = true := isRetryableApiError_eq.trans h
  have herror : r.hasError = true := by
    by_contra hno
    have hnot : saysRetryable r = false := by
      rw [saysRetryable,errorText_of_none (Bool.eq_false_of_not_eq_true hno)]
      decide
    rw [hnot] at h
    cases h
  simp [verdict,isPiCrash,isFatalError,isEmptyResponse,hapi,hfatal,herror]

/-- A text that names neither is retried for the sake of the query engine only, and that not when
the process ended without a message. -/
theorem verdict_of_not_saysRetryable (h : saysRetryable r = false) (herror : r.hasError = true)
    (hfatal : matchesAny fatalPatterns r.errorText = false) :
    verdict r = .retryableApi ↔ matchesAny retryableQueryEngine401Patterns r.errorText = true ∧
      (r.exitCode = 0 ∨ r.messages ≠ []) := by
  have hapi : r.isRetryableApiError = false := isRetryableApiError_eq.trans h
  have hqe : r.isRetryableQueryEngine401Error =
      matchesAny retryableQueryEngine401Patterns r.errorText := by
    simp [isRetryableQueryEngine401Error,herror]
  have hnot : r.isFatalError = false := by simp [isFatalError,hfatal]
  have hempty : r.isEmptyResponse = false := by simp [isEmptyResponse,herror]
  have hcrash : r.isPiCrash = true ↔ ¬ (r.exitCode = 0 ∨ r.messages ≠ []) := by
    simp [isPiCrash,hapi,hnot]
  rw [← hqe]
  cases hc : r.isPiCrash with
  | true =>
    simp only [verdict,hc,if_true,hcrash.mp hc,and_false,iff_false]
    split <;> decide
  | false =>
    have hlive : r.exitCode = 0 ∨ r.messages ≠ [] := by
      by_contra hno
      rw [hcrash.mpr hno] at hc
      cases hc
    simp only [verdict,hc,hnot,hempty,hapi,hlive,Bool.or_false,Bool.false_eq_true,if_false,and_true]
    cases r.isRetryableQueryEngine401Error with
    | true => simp
    | false =>
      simp only [Bool.false_eq_true,if_false,iff_false]
      split_ifs <;> decide

/-- An overflow is fatal to the outer loop only, by the text that it makes of a crash. -/
theorem verdict_of_overflow (h : isContextOverflowError r.error = true) :
    verdict r = .fatal ↔ r.exitCode ≠ 0 ∧ r.messages = [] ∧ saysRetryable r = false ∧
      matchesAny fatalPatterns (lower (crashText r)) = true := by
  have hnot : r.isFatalError = false := by simp [isFatalError,h]
  have hcrash : r.isPiCrash = true ↔
      r.exitCode ≠ 0 ∧ r.messages = [] ∧ saysRetryable r = false := by
    simp [isPiCrash,hnot,isRetryableApiError_eq,and_assoc]
  cases hc : r.isPiCrash with
  | true =>
    have hall := hcrash.mp hc
    simp only [verdict,hc,if_true,hall,true_and,ne_eq,not_false_eq_true]
    split <;> simp_all
  | false =>
    have hno : ¬ (r.exitCode ≠ 0 ∧ r.messages = [] ∧ saysRetryable r = false) := by
      rw [← hcrash,hc]
      exact Bool.false_ne_true
    have hlive : verdict r ≠ .fatal := by
      simp only [verdict,hc,hnot,Bool.false_eq_true,if_false]
      split_ifs <;> decide
    constructor
    · exact fun hv => absurd hv hlive
    · rintro ⟨hx,hm,hs,-⟩
      exact absurd ⟨hx,hm,hs⟩ hno

theorem retryable_iff :
    ((∃ p ∈ retryableApiPatterns, containsAnyCase (r.error.getD "") p = true) →
        matchesAny fatalPatterns r.errorText = false → verdict r = .retryableApi) ↔
      ((∃ p ∈ capitalPatterns, containsAnyCase (r.error.getD "") p = true) →
        matchesAny fatalPatterns r.errorText = true ∨ saysRetryable r = true ∨
          matchesAny retryableQueryEngine401Patterns r.errorText = true ∧
            (r.exitCode = 0 ∨ r.messages ≠ [])) := by
  constructor
  · rintro hall ⟨p,hp,hin⟩
    have hmem := capital_retryable hp
    cases hfatal : matchesAny fatalPatterns r.errorText with
    | true => exact Or.inl rfl
    | false => cases hsaid : saysRetryable r with
      | true => exact Or.inr (Or.inl rfl)
      | false =>
        have hv := hall ⟨p,hmem,hin⟩ hfatal
        rw [verdict_of_not_saysRetryable hsaid (hasError_of_contains hmem hin) hfatal] at hv
        exact Or.inr (Or.inr hv)
  · rintro hall ⟨p,hp,hin⟩ hfatal
    cases hsaid : saysRetryable r with
    | true => exact verdict_of_saysRetryable hsaid hfatal
    | false =>
      rw [verdict_of_not_saysRetryable hsaid (hasError_of_contains hp hin) hfatal]
      rcases lower_pattern hp with hcap | heq
      · rcases hall ⟨p,hcap,hin⟩ with h | h | h
        · rw [hfatal] at h
          cases h
        · rw [hsaid] at h
          cases h
        · exact h
      · exfalso
        rw [containsAnyCase,heq] at hin
        have hyes : saysRetryable r = true := List.any_eq_true.mpr ⟨p,hp,hin⟩
        rw [hsaid] at hyes
        cases hyes

end Classes

/-- The classes of the results are right exactly when the codes of the network are not all that
says so, and an overflow is not a crash that names something fatal. -/
theorem error_classes_iff (a : Attempt) (r : AgentResult) (h : a.outcome.execute = .ok r) :
    WellClassed a r.extractOutput ↔ ClassedWell r.extractOutput := by
  constructor
  · intro w
    refine ⟨retryable_iff.mp w.retryable,fun hover hx hm => ?_⟩
    cases hsaid : saysRetryable r.extractOutput with
    | true => exact Or.inl rfl
    | false =>
      right
      have hno := w.overflow hover
      rw [Ne,verdict_of_overflow hover] at hno
      by_contra hyes
      exact hno ⟨hx,hm,hsaid,Bool.eq_true_of_not_eq_false hyes⟩
  · intro w
    refine ⟨fun lim s hs calm => driven h hs calm,retryable_iff.mpr w.network,fun hover hv => ?_⟩
    obtain ⟨hx,hm,hsaid,hyes⟩ := (verdict_of_overflow hover).mp hv
    rcases w.overflow hover hx hm with h | h
    · rw [hsaid] at h
      cases h
    · rw [hyes] at h
      cases h

/-- A connection that the proxy closes. -/
def hungUp : AgentResult where
  error := some "socket hang up (ECONNRESET)"
  exitCode := 1

theorem hung_up_well_classed : WellClassed ⟨.exited {} "socket hang up (ECONNRESET)" (some 1),
    fun _ => false⟩ hungUp.extractOutput ↔ ClassedWell hungUp.extractOutput :=
  error_classes_iff _ _ (by rfl)

/-- A connection that is refused. -/
def refused : Attempt where
  outcome := .exited {} "connect ECONNREFUSED 127.0.0.1:443" (some 1)

/-- Its error, as the patterns are compared with it. -/
def refusedText : List Char :=
  ['c','o','n','n','e','c','t',' ','e','c','o','n','n','r','e','f','u','s','e','d',' ',
    '1','2','7','.','0','.','0','.','1',':','4','4','3']

/-- It is a crash, as far as the loops can see. -/
theorem refused_connection_misclassed :
    ¬ ∀ a r, a.outcome.execute = .ok r → WellClassed a r.extractOutput := by
  intro hall
  have htext : (lower "connect ECONNREFUSED 127.0.0.1:443").toList = refusedText := by
    rw [toList_lower,show "connect ECONNREFUSED 127.0.0.1:443".toList =
      ['c','o','n','n','e','c','t',' ','E','C','O','N','N','R','E','F','U','S','E','D',' ',
        '1','2','7','.','0','.','0','.','1',':','4','4','3'] from String.toList_ofList]
    rfl
  have hin : containsText (lower "connect ECONNREFUSED 127.0.0.1:443") =
      fun p => decide (p.toList <:+: refusedText) := by
    funext p
    unfold containsText
    rw [htext]
  have hcode : containsAnyCase "connect ECONNREFUSED 127.0.0.1:443" "ECONNREFUSED" = true := by
    unfold containsAnyCase
    rw [hin]
    dsimp only
    rw [toList_lower,show "ECONNREFUSED".toList =
      ['E','C','O','N','N','R','E','F','U','S','E','D'] from String.toList_ofList]
    decide
  have hfatal : matchesAny fatalPatterns (lower "connect ECONNREFUSED 127.0.0.1:443") = false := by
    unfold matchesAny
    rw [hin]
    decide +kernel
  have hsays : retryableApiPatterns.any
      (containsText (lower "connect ECONNREFUSED 127.0.0.1:443")) = false := by
    rw [hin]
    decide +kernel
  have hv := (hall refused { error := some "connect ECONNREFUSED 127.0.0.1:443", exitCode := 1 }
    (by rfl)).retryable ⟨"ECONNREFUSED",by decide,hcode⟩ hfatal
  have hquery := (verdict_of_not_saysRetryable
    (r := { error := some "connect ECONNREFUSED 127.0.0.1:443", exitCode := 1 }) hsays
    (by decide) hfatal).mp hv
  rcases hquery.2 with h | h
  · cases h
  · exact h rfl

end Runner
end EntryAnalyse
