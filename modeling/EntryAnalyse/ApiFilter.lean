import EntryAnalyse.EntryAnswers

/-! The filter in front of the agents, which asks a model by a direct call whether a function is an
entry. It is asked again after errors and unreadable answers, and keeps or skips the function when
that does not help. -/
namespace EntryAnalyse
namespace ApiFilter

open PyJson Runner Patterns ParameterNames EntryAnswers

/-! ## `api_filter_function` -/

/-- The values of the module that come from the environment. -/
structure Config where
  maxRetries : ℤ := 2
  maxTimeouts : ℤ := 2
  parseMaxRetries : ℤ := 1
  skipOnTimeout : Bool := true
  skipOnParseFailure : Bool := true
  maxBodyChars : ℤ := 3000

inductive Raised
  | timeoutError | clientResponseError | clientError | other
  deriving DecidableEq

inductive ErrorKind
  | cancelled | providerError | parseError | timeout | httpError | transportError
  deriving DecidableEq

def classifyError : Raised → ErrorKind
  | .timeoutError => .timeout
  | .clientResponseError => .httpError
  | _ => .transportError

/-- What `_call_llm_once` gives. -/
inductive Reply
  | text (s : String)
  | raised (e : Raised) (message : String)

/-- A call of the function: the body, what the file of the models gives, and what the loop meets
at each attempt. -/
structure Call where
  body : String := ""
  cancelledAtStart : Bool := false
  providerError : Option String := none
  cancelled : ℕ → Bool := fun _ => false
  reply : ℕ → Reply

/-- The fields of the result but for the duration. -/
structure Result where
  completed : Bool
  isEntry : Option Bool
  skipped : Bool := false
  skipReason : String := ""
  errorKind : Option ErrorKind := none
  errorMessage : String := ""
  attempts : ℕ
  deriving DecidableEq

/-- A result that keeps the function. -/
def kept (kind : Option ErrorKind) (message : String) (attempts : ℕ) : Result where
  completed := false
  isEntry := some true
  errorKind := kind
  errorMessage := strip message
  attempts := attempts

def ioWords : List String :=
  ["recv","recvfrom","recvmsg","accept","mq_receive","msgrcv","msgreceive","msgread"]

def ioCalls : List String :=
  ["fread","fgets","getline","pread","readv","ioctl","readdir","opendir","scandir",
    "yajl_tree_parse","json_tokener_parse","cjson_parse"]

/-- `body[:n]`. -/
def sliceTo (n : ℤ) (cs : Text) : Text :=
  if 0 ≤ n then cs.take n.toNat else cs.take (cs.length - (-n).toNat)

def bodyCapped (cfg : Config) (body : String) : Text :=
  let capped := sliceTo cfg.maxBodyChars body.toList
  if (body.toList.length : ℤ) > cfg.maxBodyChars then
    capped ++ ("\n... (truncated, total " ++ toString body.toList.length ++ " chars)").toList
  else capped

section Filter

variable (k : Letters) (cfg : Config) (call : Call)

/-- `_prefilter_is_entry`: there is no path to `some false`. -/
def prefilterIsEntry (body : Text) : Option Bool :=
  if mentions k.toWordChars (ioWords.map (fun w => word w ++ [.boundary]) ++
      ioCalls.map fun w => word w ++ [.spaces,.oneOf (· == '(')]) body then some true
  else none

/-- The variables of the loop, before an attempt. -/
structure Pass where
  attempt : ℕ := 1
  timeoutFailures : ℕ := 0
  parseFailures : ℕ := 0

inductive Step
  | retry (s : Pass)
  | finish (r : Result)

def maxAttempts : ℕ := (max 1 (cfg.maxRetries + 1)).toNat

def onUnparseable (s : Pass) : Step :=
  let s := { s with parseFailures := s.parseFailures + 1 }
  if (s.parseFailures : ℤ) ≤ cfg.parseMaxRetries ∧ s.attempt < maxAttempts cfg then
    .retry { s with attempt := s.attempt + 1 }
  else if cfg.skipOnParseFailure then
    .finish
      { completed := false, isEntry := none, skipped := true, skipReason := "parse_error",
        errorKind := some .parseError, errorMessage := "unparseable response",
        attempts := s.attempt }
  else .finish (kept (some .parseError) "unparseable response" s.attempt)

/-- The `except` of the loop. -/
def onRaised (s : Pass) (e : Raised) (message : String) : Step :=
  let kind := classifyError e
  let s :=
    if kind = .timeout then { s with timeoutFailures := s.timeoutFailures + 1 } else s
  if kind = .timeout ∧ cfg.skipOnTimeout ∧ cfg.maxTimeouts ≤ s.timeoutFailures then
    .finish
      { completed := false, isEntry := none, skipped := true, skipReason := "timeout",
        errorKind := some .timeout, errorMessage := strip message, attempts := s.attempt }
  else if s.attempt < maxAttempts cfg then .retry { s with attempt := s.attempt + 1 }
  else .finish (kept (some kind) message s.attempt)

def onReply (s : Pass) : Reply → Step
  | .text answer =>
    match parseIsEntry k answer with
    | none => onUnparseable cfg s
    | some v => .finish { completed := true, isEntry := some v, attempts := s.attempt }
  | .raised e message => onRaised cfg s e message

/-- What the function returns, and the replies that it got. -/
structure Run where
  result : Result
  replies : List Reply := []

/-- The passes that are left. -/
def loop : ℕ → Pass → Run
  | 0,_ => { result := kept none "" 0 }
  | n + 1,s =>
    if call.cancelled s.attempt then
      { result := kept (some .cancelled) "cancelled" (s.attempt - 1) }
    else
      let reply := call.reply s.attempt
      match onReply k cfg s reply with
      | .retry s' =>
        let rest := loop n s'
        { rest with replies := reply :: rest.replies }
      | .finish r => { result := r, replies := [reply] }

def apiFilterFunction : Run :=
  if call.cancelledAtStart then { result := kept (some .cancelled) "cancelled" 0 }
  else
    match prefilterIsEntry k (bodyCapped cfg call.body) with
    | some v => { result := { completed := true, isEntry := some v, attempts := 0 } }
    | none =>
      match call.providerError with
      | some message => { result := kept (some .providerError) message 0 }
      | none => loop k cfg call (maxAttempts cfg) {}

end Filter

/-! ## Failing open -/

section FailOpen

variable (k : Letters) (loads : String → Option PyJson) (cfg : Config) (call : Call)

/-- The response states that the function is no entry, and not that it is one. -/
def Negative (text : String) : Prop :=
  ∃ body, Answer text body ∧ States k loads body false ∧ ¬States k loads body true

def isTimeout : Reply → Bool
  | .raised .timeoutError _ => true
  | _ => false

def isUnparseable : Reply → Bool
  | .text answer => (parseIsEntry k answer).isNone
  | _ => false

/-- What a run promises: few enough attempts, no entry lost but for a negative verdict or a skip
whose switch is on and whose limit is reached. -/
structure FailOpen (run : Run) : Prop where
  attempts : run.replies.length ≤ (cfg.maxRetries + 1).toNat
  negative : run.result.isEntry = some false →
    ∃ text, Reply.text text ∈ run.replies ∧ Negative k loads text
  skipped : run.result.skipped = true →
    run.result.skipReason = "timeout" ∧ cfg.skipOnTimeout = true ∧
        cfg.maxTimeouts ≤ run.replies.countP isTimeout ∨
      run.result.skipReason = "parse_error" ∧ cfg.skipOnParseFailure = true ∧
        cfg.parseMaxRetries < run.replies.countP (isUnparseable k)
  kept : run.result.skipped = false → run.result.isEntry ≠ some false →
    run.result.isEntry = some true

/-- The function reaches the loop. -/
def Asks : Prop :=
  call.cancelledAtStart = false ∧ prefilterIsEntry k (bodyCapped cfg call.body) = none ∧
    call.providerError = none

/-- The passes that a run comes to, with the replies before them. -/
inductive Reached : List Reply → Pass → Prop
  | start : Reached [] {}
  | retry {replies : List Reply} {s s' : Pass} (h : Reached replies s)
      (live : call.cancelled s.attempt = false)
      (next : onReply k cfg s (call.reply s.attempt) = .retry s') :
      Reached (replies ++ [call.reply s.attempt]) s'

/-- The runs that fail open: the limit of the retries is not negative, no text is read as a
negative verdict before one states it, and the last attempt is not the first ones' only unreadable
answer. -/
structure Careful : Prop where
  retries : Asks k cfg call → 0 ≤ cfg.maxRetries ∨ call.cancelled 1 = true
  negative : Asks k cfg call → ∀ replies s text, Reached k cfg call replies s →
    call.cancelled s.attempt = false → call.reply s.attempt = .text text →
    parseIsEntry k text = some false →
    ∃ earlier, Reply.text earlier ∈ replies ++ [.text text] ∧ Negative k loads earlier
  unparseable : Asks k cfg call → cfg.skipOnParseFailure = true → ∀ replies s text,
    Reached k cfg call replies s → call.cancelled s.attempt = false →
    call.reply s.attempt = .text text → parseIsEntry k text = none →
    s.attempt < maxAttempts cfg ∨ cfg.parseMaxRetries < s.parseFailures + 1

end FailOpen

/-! ## What a pass can do -/

section Passes

variable {k : Letters} {loads : String → Option PyJson} {cfg : Config} {call : Call}
  {s s' : Pass} {reply : Reply} {r : Result}

/-- A pass that is followed by another. -/
structure Advances (k : Letters) (cfg : Config) (s : Pass) (reply : Reply) (s' : Pass) : Prop where
  attempt : s'.attempt = s.attempt + 1
  bound : s.attempt < maxAttempts cfg
  timeouts : s'.timeoutFailures = s.timeoutFailures + [reply].countP isTimeout
  parses : s'.parseFailures = s.parseFailures + [reply].countP (isUnparseable k)

/-- A pass that ends the loop. -/
structure Ends (k : Letters) (cfg : Config) (s : Pass) (reply : Reply) (r : Result) : Prop where
  negative : r.isEntry = some false →
    ∃ answer, reply = .text answer ∧ parseIsEntry k answer = some false
  skipped : r.skipped = true →
    r.skipReason = "timeout" ∧ cfg.skipOnTimeout = true ∧
        cfg.maxTimeouts ≤ (s.timeoutFailures + [reply].countP isTimeout : ℕ) ∨
      r.skipReason = "parse_error" ∧ cfg.skipOnParseFailure = true ∧
        (∃ answer, reply = .text answer ∧ parseIsEntry k answer = none) ∧
        ¬((s.parseFailures + 1 : ℕ) ≤ cfg.parseMaxRetries ∧ s.attempt < maxAttempts cfg)
  kept : r.skipped = false → r.isEntry ≠ some false → r.isEntry = some true

/-- What a pass does with a reply. -/
def Does (k : Letters) (cfg : Config) (s : Pass) (reply : Reply) : Step → Prop
  | .retry s' => Advances k cfg s reply s'
  | .finish r => Ends k cfg s reply r

theorem countP_isTimeout (e : Raised) (message : String) :
    [Reply.raised e message].countP isTimeout = if classifyError e = .timeout then 1 else 0 := by
  cases e <;> rfl

theorem onRaised_does (e : Raised) (message : String) :
    Does k cfg s (.raised e message) (onRaised cfg s e message) := by
  have hcount := countP_isTimeout e message
  unfold onRaised
  by_cases hkind : classifyError e = .timeout
  · rw [if_pos hkind] at hcount
    simp only [hkind,if_true,true_and]
    split
    · rename_i hskip
      refine ⟨nofun,fun _ => Or.inl ⟨rfl,hskip.1,?_⟩,nofun⟩
      rw [hcount]
      exact hskip.2
    · split
      · rename_i hmore
        exact ⟨rfl,hmore,by rw [hcount],rfl⟩
      · exact ⟨nofun,nofun,fun _ _ => rfl⟩
  · rw [if_neg hkind] at hcount
    simp only [hkind,if_false,false_and]
    split
    · rename_i hmore
      exact ⟨rfl,hmore,by rw [hcount]; rfl,rfl⟩
    · exact ⟨nofun,nofun,fun _ _ => rfl⟩

theorem onUnparseable_does {answer : String} (h : parseIsEntry k answer = none) :
    Does k cfg s (.text answer) (onUnparseable cfg s) := by
  have hcount : [Reply.text answer].countP (isUnparseable k) = 1 := by
    simp [isUnparseable,h]
  unfold onUnparseable
  dsimp only
  split
  · rename_i hmore
    exact ⟨rfl,hmore.2,rfl,by rw [hcount]⟩
  · rename_i hlast
    split
    · rename_i hswitch
      exact ⟨nofun,fun _ => Or.inr ⟨rfl,hswitch,⟨answer,rfl,h⟩,hlast⟩,nofun⟩
    · exact ⟨nofun,nofun,fun _ _ => rfl⟩

theorem onReply_none {answer : String} (h : parseIsEntry k answer = none) :
    onReply k cfg s (.text answer) = onUnparseable cfg s := by
  unfold onReply
  simp only [h]

theorem onReply_some {answer : String} {v : Bool} (h : parseIsEntry k answer = some v) :
    onReply k cfg s (.text answer) =
      .finish { completed := true, isEntry := some v, attempts := s.attempt } := by
  unfold onReply
  simp only [h]

/-- A pass counts its reply and goes on within the limit, or ends the loop for a reason. -/
theorem onReply_does (k : Letters) (cfg : Config) (s : Pass) (reply : Reply) :
    Does k cfg s reply (onReply k cfg s reply) := by
  cases reply with
  | raised e message => exact onRaised_does e message
  | text answer =>
    cases hparse : parseIsEntry k answer with
    | none =>
      rw [onReply_none hparse]
      exact onUnparseable_does hparse
    | some v =>
      rw [onReply_some hparse]
      cases v with
      | true => exact ⟨nofun,nofun,fun _ _ => rfl⟩
      | false => exact ⟨fun _ => ⟨answer,rfl,hparse⟩,nofun,fun _ h => absurd rfl h⟩

/-- What the variables of the loop count. -/
structure Counts (k : Letters) (cfg : Config) (replies : List Reply) (s : Pass) : Prop where
  attempt : s.attempt = replies.length + 1
  bound : s.attempt ≤ maxAttempts cfg
  timeouts : s.timeoutFailures = replies.countP isTimeout
  parses : s.parseFailures = replies.countP (isUnparseable k)

theorem one_le_maxAttempts (cfg : Config) : 1 ≤ maxAttempts cfg := by
  unfold maxAttempts
  omega

/-- One pass more. -/
theorem Counts.next {replies : List Reply} (h : Counts k cfg replies s)
    (adv : Advances k cfg s reply s') : Counts k cfg (replies ++ [reply]) s' := by
  refine ⟨?_,?_,?_,?_⟩
  · rw [adv.attempt,h.attempt,List.length_append,List.length_singleton]
  · rw [adv.attempt]
    exact adv.bound
  · rw [adv.timeouts,h.timeouts,List.countP_append]
  · rw [adv.parses,h.parses,List.countP_append]

theorem Reached.counts {replies : List Reply} (h : Reached k cfg call replies s) :
    Counts k cfg replies s := by
  induction h with
  | start => exact ⟨rfl,one_le_maxAttempts cfg,rfl,rfl⟩
  | @retry replies s s' h live next ih =>
    have hdoes := onReply_does k cfg s (call.reply s.attempt)
    rw [next] at hdoes
    exact ih.next hdoes

/-- The run, as what is left of it after a pass. -/
def Leads (k : Letters) (cfg : Config) (call : Call) (replies : List Reply) (n : ℕ)
    (s : Pass) : Prop :=
  s.attempt + n = maxAttempts cfg + 1 ∧
    loop k cfg call (maxAttempts cfg) {} =
      { loop k cfg call n s with replies := replies ++ (loop k cfg call n s).replies }

theorem Leads.succ {replies : List Reply} {n : ℕ} (h : Leads k cfg call replies n s)
    (hs : Counts k cfg replies s) : ∃ m, n = m + 1 := by
  have hpos : n ≠ 0 := by
    rintro rfl
    have hlen := h.1
    have hbound := hs.bound
    omega
  exact ⟨n - 1,by omega⟩

theorem Reached.leads {replies : List Reply} (h : Reached k cfg call replies s) :
    ∃ n, Leads k cfg call replies n s := by
  induction h with
  | start => exact ⟨maxAttempts cfg,Nat.add_comm _ _,rfl⟩
  | @retry replies s s' h live next ih =>
    obtain ⟨n,hleads⟩ := ih
    obtain ⟨m,rfl⟩ := hleads.succ h.counts
    have hdoes := onReply_does k cfg s (call.reply s.attempt)
    rw [next] at hdoes
    have hadv : s'.attempt = s.attempt + 1 := hdoes.attempt
    refine ⟨m,?_,?_⟩
    · have hlen := hleads.1
      omega
    · rw [hleads.2,loop]
      simp only [live,next,Bool.false_eq_true,if_false,List.append_assoc,List.singleton_append]

/-- A pass that ends the loop gives the result of the run. -/
theorem Reached.finish {replies : List Reply} (h : Reached k cfg call replies s)
    (live : call.cancelled s.attempt = false)
    (ends : onReply k cfg s (call.reply s.attempt) = .finish r) :
    loop k cfg call (maxAttempts cfg) {} = ⟨r,replies ++ [call.reply s.attempt]⟩ := by
  obtain ⟨n,hleads⟩ := h.leads
  obtain ⟨m,rfl⟩ := hleads.succ h.counts
  rw [hleads.2,loop]
  simp only [live,ends,Bool.false_eq_true,if_false]

theorem Reached.cancel {replies : List Reply} (h : Reached k cfg call replies s)
    (cancelled : call.cancelled s.attempt = true) : loop k cfg call (maxAttempts cfg) {} =
      ⟨ApiFilter.kept (some .cancelled) "cancelled" (s.attempt - 1),replies⟩ := by
  obtain ⟨n,hleads⟩ := h.leads
  obtain ⟨m,rfl⟩ := hleads.succ h.counts
  rw [hleads.2,loop]
  simp only [cancelled,if_true,List.append_nil]

/-- Every run comes to a pass that ends it. -/
theorem exists_end (k : Letters) (cfg : Config) (call : Call) :
    ∃ replies s, Reached k cfg call replies s ∧
      (call.cancelled s.attempt = true ∨ call.cancelled s.attempt = false ∧
        ∃ r, onReply k cfg s (call.reply s.attempt) = .finish r) := by
  have hgo (n : ℕ) : ∀ replies s, Reached k cfg call replies s →
      maxAttempts cfg - s.attempt = n → ∃ replies s, Reached k cfg call replies s ∧
        (call.cancelled s.attempt = true ∨ call.cancelled s.attempt = false ∧
          ∃ r, onReply k cfg s (call.reply s.attempt) = .finish r) := by
    induction n using Nat.strong_induction_on with
    | _ n ih =>
      intro replies s h hlen
      cases live : call.cancelled s.attempt with
      | true => exact ⟨replies,s,h,Or.inl live⟩
      | false =>
        have hdoes := onReply_does k cfg s (call.reply s.attempt)
        cases next : onReply k cfg s (call.reply s.attempt) with
        | finish r => exact ⟨replies,s,h,Or.inr ⟨live,r,next⟩⟩
        | retry s' =>
          rw [next] at hdoes
          have hadv : s'.attempt = s.attempt + 1 := hdoes.attempt
          have hbound : s.attempt < maxAttempts cfg := hdoes.bound
          exact ih (maxAttempts cfg - s'.attempt) (by omega) _ s' (.retry h live next) rfl
  exact hgo _ [] {} .start rfl

end Passes

/-! ## When it fails open -/

section Runs

variable {k : Letters} {loads : String → Option PyJson} {cfg : Config} {call : Call}

theorem run_of_asks (h : Asks k cfg call) :
    apiFilterFunction k cfg call = loop k cfg call (maxAttempts cfg) {} := by
  obtain ⟨hstart,hpre,hprovider⟩ := h
  rw [apiFilterFunction,hstart,hpre,hprovider,if_neg Bool.false_ne_true]

/-- A function that is not asked about is kept. -/
theorem failOpen_of_not_asks (h : ¬Asks k cfg call) :
    FailOpen k loads cfg (apiFilterFunction k cfg call) := by
  have hkept (kind : Option ErrorKind) (message : String) :
      FailOpen k loads cfg { result := kept kind message 0 } :=
    ⟨Nat.zero_le _,nofun,nofun,fun _ _ => rfl⟩
  unfold apiFilterFunction
  cases hstart : call.cancelledAtStart with
  | true => exact hkept _ _
  | false =>
    rw [if_neg Bool.false_ne_true]
    cases hpre : prefilterIsEntry k (bodyCapped cfg call.body) with
    | some v =>
      have hv : v = true := by
        unfold prefilterIsEntry at hpre
        split at hpre
        · exact (Option.some.inj hpre).symm
        · cases hpre
      subst hv
      exact ⟨Nat.zero_le _,nofun,nofun,fun _ _ => rfl⟩
    | none =>
      cases hprovider : call.providerError with
      | some message => exact hkept _ _
      | none => exact absurd ⟨hstart,hpre,hprovider⟩ h

theorem careful_of_failOpen (ha : Asks k cfg call)
    (w : FailOpen k loads cfg (apiFilterFunction k cfg call)) : Careful k loads cfg call := by
  rw [run_of_asks ha] at w
  refine ⟨fun _ => ?_,fun _ replies s text h live htext hparse => ?_,
    fun _ hswitch replies s text h live htext hparse => ?_⟩
  · cases live : call.cancelled 1 with
    | true => exact Or.inr rfl
    | false =>
      left
      by_contra hneg
      have hnone : (cfg.maxRetries + 1).toNat = 0 := by omega
      have hlen := w.attempts
      obtain ⟨replies,s,h,hend⟩ := exists_end k cfg call
      have hcounts := h.counts
      rcases hend with hcancel | ⟨hlive,r,hr⟩
      · rw [h.cancel hcancel,hnone] at hlen
        have hzero : replies.length = 0 := Nat.le_zero.mp hlen
        have hfirst := hcounts.attempt
        rw [hzero] at hfirst
        rw [hfirst,live] at hcancel
        cases hcancel
      · rw [h.finish hlive hr,hnone,List.length_append] at hlen
        exact absurd hlen (by simp)
  · have hfinish : onReply k cfg s (call.reply s.attempt) =
        .finish { completed := true, isEntry := some false, attempts := s.attempt } := by
      rw [htext,onReply_some hparse]
    have hneg := w.negative
    rw [h.finish live hfinish,htext] at hneg
    exact hneg rfl
  · by_contra hno
    obtain ⟨hlast,hfew⟩ := not_or.mp hno
    have hfinish : onReply k cfg s (call.reply s.attempt) = .finish
        { completed := false, isEntry := none, skipped := true, skipReason := "parse_error",
          errorKind := some .parseError, errorMessage := "unparseable response",
          attempts := s.attempt } := by
      rw [htext,onReply_none hparse,onUnparseable]
      dsimp only
      rw [if_neg fun hmore => hlast hmore.2,if_pos hswitch]
    have hskip := w.skipped
    rw [h.finish live hfinish,htext] at hskip
    rcases hskip rfl with ⟨hreason,-⟩ | ⟨-,-,hcount⟩
    · exact absurd (show "parse_error" = "timeout" from hreason) (by decide)
    · have hone : [Reply.text text].countP (isUnparseable k) = 1 := by
        simp [isUnparseable,hparse]
      rw [List.countP_append,← h.counts.parses,hone] at hcount
      omega

theorem failOpen_of_careful (ha : Asks k cfg call) (w : Careful k loads cfg call) :
    FailOpen k loads cfg (apiFilterFunction k cfg call) := by
  rw [run_of_asks ha]
  rcases w.retries ha with hpos | hfirst
  · obtain ⟨replies,s,h,hend⟩ := exists_end k cfg call
    have hcounts := h.counts
    have hmax : replies.length + 1 ≤ (cfg.maxRetries + 1).toNat := by
      have hbound := hcounts.bound
      rw [hcounts.attempt,maxAttempts] at hbound
      omega
    rcases hend with hcancel | ⟨live,r,hr⟩
    · rw [h.cancel hcancel]
      exact ⟨Nat.le_of_succ_le hmax,nofun,nofun,fun _ _ => rfl⟩
    · have hdoes := onReply_does k cfg s (call.reply s.attempt)
      rw [hr] at hdoes
      have ends : Ends k cfg s (call.reply s.attempt) r := hdoes
      rw [h.finish live hr]
      refine ⟨?_,fun hfalse => ?_,fun hskip => ?_,ends.kept⟩
      · rw [List.length_append,List.length_singleton]
        exact hmax
      · obtain ⟨text,htext,hparse⟩ := ends.negative hfalse
        have hneg := w.negative ha replies s text h live htext hparse
        rw [htext]
        exact hneg
      · rcases ends.skipped hskip with ⟨hreason,hswitch,hlimit⟩ |
          ⟨hreason,hswitch,⟨text,htext,hparse⟩,hover⟩
        · left
          rw [hcounts.timeouts,← List.countP_append] at hlimit
          exact ⟨hreason,hswitch,hlimit⟩
        · right
          refine ⟨hreason,hswitch,?_⟩
          have hone : [Reply.text text].countP (isUnparseable k) = 1 := by
            simp [isUnparseable,hparse]
          rw [htext,List.countP_append,← hcounts.parses,hone]
          rcases w.unparseable ha hswitch replies s text h live htext hparse with hmore | hlimit
          · by_contra hfew
            exact hover ⟨not_lt.mp hfew,hmore⟩
          · exact hlimit
  · have hcancel : call.cancelled ({} : Pass).attempt = true := hfirst
    rw [Reached.start.cancel hcancel]
    exact ⟨Nat.zero_le _,nofun,nofun,fun _ _ => rfl⟩

theorem failOpen_iff : FailOpen k loads cfg (apiFilterFunction k cfg call) ↔
    Careful k loads cfg call := by
  by_cases ha : Asks k cfg call
  · exact ⟨careful_of_failOpen ha,failOpen_of_careful ha⟩
  · exact iff_of_true (failOpen_of_not_asks ha)
      ⟨fun h => absurd h ha,fun h => absurd h ha,fun h => absurd h ha⟩

end Runs

end ApiFilter
end EntryAnalyse
