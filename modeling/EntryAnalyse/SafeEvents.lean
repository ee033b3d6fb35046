import EntryAnalyse.PyText
import EntryAnalyse.Savepoints

/-! `_safe_create_task_event`: a timeline event is recorded inside the transaction of a caller
that has changed its task row and commits afterwards. -/
namespace EntryAnalyse
namespace SafeEvents

open PyJson Savepoints

/-- `_USER_TIMELINE_EVENT_TYPES`. -/
def userTimelineEventTypes : List String :=
  ["task_created","task_create_deduplicated","task_started","task_finished","task_passed",
   "task_failed","task_cancel_requested","task_cancelled","task_deleted","task_retried",
   "task_resumed","task_dispatched","task_dispatch_skipped_no_capacity","task_lease_taken_over",
   "task_requeued_after_expired_lease_reconcile","task_waiting_parent_observe",
   "task_requeued_after_invalid_owner_reconcile",
   "task_requeued_after_orphaned_running_reconcile","task_requeued_after_dispatch_timeout",
   "task_owner_recovered_after_restart","task_manual_continue","task_manual_retry",
   "task_manual_cancel","task_manual_delete","task_manual_requeue",
   "task_agent_process_manual_kill","abnormal_reason_recorded","task_database_failure",
   "task_dispatch_failed","task_lease_lost","task_runtime_interrupted",
   "task_rate_limited_retrying","task_api_retrying","task_fatal_retrying","api_filter_started",
   "api_filter_timed_out","api_filter_skipped","api_filter_failed"]

/-- `should_persist_user_timeline_event`; both answers for an internal event are `False`,
whatever its source. -/
def shouldPersistUserTimelineEvent (eventType source : String) : Bool :=
  let normalizedType := strip eventType
  if normalizedType.isEmpty then false
  else if userTimelineEventTypes.contains normalizedType then true
  else if ["entry_analyse","worker","system"].contains (strip source) then false
  else false

/-- The keyword arguments of `_create_task_event` that go into the row. -/
structure EventArgs where
  taskId : String
  projectId : String
  eventType : String
  message : String
  source : String := "entry_analyse"
  level : String := "info"
  stageKey : Option String := none
  fileHash : Option String := none
  funcHash : Option String := none
  filePath : Option String := none
  functionName : Option String := none
  attempt : Option ℤ := none
  status : Option String := none
  dedupeKey : Option String := none
  deriving DecidableEq, Repr

/-- A row of the task's timeline. -/
structure TaskEvent extends EventArgs where
  id : String
  payloadJson : String
  createdAt : String
  deriving DecidableEq, Repr

/-- `str(part or "")` of a number. -/
def numberPart : Option ℤ → String
  | none => ""
  | some n => if n = 0 then "" else toString n

/-- `DB_TIMELINE_EVENT_LIMIT`. -/
def dbTimelineEventLimit : ℕ := 10000

/-- What the database or Python raises in the course of an insertion. -/
inductive Error where
  | operationalError
  | integrityError
  | other (text : String)
  deriving DecidableEq, Repr

/-- A change of the database made through the session: the caller's own, the new event, or the
removal of the oldest events. -/
inductive Change (κ : Type) where
  | caller (change : κ)
  | event (row : TaskEvent)
  | trim (ids : List String)
  deriving DecidableEq, Repr

/-- What the world answers during one call: each statement's reply, in the order in which the
call may make them, and the values the call takes from outside. -/
structure Replies where
  flush : Except Error Unit
  savepoint : Except Error Unit
  /-- The first event with the same key. -/
  duplicate : Except Error (Option String)
  /-- The merged payload as stored. -/
  payload : Except Error String
  insert : Except Error Unit
  count : Except Error ℕ
  oldest : Except Error (List String)
  delete : Except Error ℕ
  prepare : Except Error Unit
  release : Except Error Unit
  nestedRollback : Except Error Unit
  rollback : Except Error Unit
  sha1 : String → String
  keyUuid : String
  idUuid : String
  now : String

/-- `_event_dedupe_key`. -/
def eventDedupeKey (w : Replies) (parts : List String) : String :=
  let raw := "::".intercalate ((parts.map strip).filter fun part => !part.isEmpty)
  let raw := if raw.isEmpty then w.keyUuid else raw
  if raw.length > 255 then w.sha1 raw else raw

/-- The key under which an event is recorded once. -/
def keyOf (w : Replies) (e : EventArgs) : String :=
  let given := strip (e.dedupeKey.getD "")
  if given.isEmpty then
    eventDedupeKey w [e.taskId,e.source,e.eventType,e.stageKey.getD "",e.fileHash.getD "",
      e.funcHash.getD "",e.filePath.getD "",e.functionName.getD "",numberPart e.attempt,
      e.status.getD "",e.message]
  else given

/-- What is awaited from outside the session: a value, or an exception. -/
def await {κ β : Type} (reply : Except Error β) : Action (Change κ) Error β := fun s =>
  (Reply.lift reply, s)

variable {κ : Type}

/-- `_trim_task_timeline_events` with the limit of the service. -/
def trimTaskTimelineEvents (w : Replies) : Action (Change κ) Error ℕ := do
  let total ← query w.count
  let trimCount := total - dbTimelineEventLimit
  if trimCount = 0 then return 0
  let oldEventIds ← query w.oldest
  if oldEventIds.isEmpty then return 0
  execute (.trim oldEventIds) w.delete

/-- `_create_task_event`. -/
def createTaskEvent (w : Replies) (e : EventArgs) : Action (Change κ) Error Unit := do
  if !shouldPersistUserTimelineEvent e.eventType e.source then return
  let key := keyOf w e
  if (← query w.duplicate).isSome then return
  let payload ← await w.payload
  add (.event { e with
    dedupeKey := some key, id := String.ofList (w.idUuid.toList.take 16),
    payloadJson := payload, createdAt := w.now })
  flush w.insert
  let _ ← trimTaskTimelineEvents w

/-- The exceptions that are swallowed. -/
def ignoring (x : Action (Change κ) Error Unit) : Action (Change κ) Error Unit :=
  try x catch _ => pure ()

/-- The `except` branch of `_safe_create_task_event`. -/
def recover (w : Replies) (raised : Failure Error) : Action (Change κ) Error Unit := do
  ignoring do
    if ← Savepoints.isActive then rollbackNested w.nestedRollback
  ignoring do
    if raised = .raised .operationalError then rollback w.rollback

/-- `_safe_create_task_event`; `hasBeginNested` is false of the sessions that tests put in its
place. -/
def safeCreateTaskEvent (hasBeginNested : Bool) (w : Replies) (e : EventArgs) :
    Action (Change κ) Error Unit := do
  if !hasBeginNested then return
  beginNested w.flush w.savepoint
  try
    createTaskEvent w e
    commitNested w.prepare w.release
  catch raised => recover w raised

/-- The changes among `changes` that are the caller's. -/
def callers (changes : List (Change κ)) : List κ :=
  changes.filterMap fun
    | .caller change => some change
    | _ => none

@[simp] theorem callers_append (xs ys : List (Change κ)) :
    callers (xs ++ ys) = callers xs ++ callers ys := List.filterMap_append

/-- Inside the savepoint that the call opened around the transactions `outer`. -/
structure Inside (committed : List (Change κ)) (outer : List (List (Change κ)))
    (s : Session (Change κ)) : Prop where
  kept : s.committed = committed
  own : ∃ own, s.frames = own :: outer ∧ callers own = []
  sent : s.pending = []

/-- Inside the savepoint, which takes statements. -/
def Ready (committed : List (Change κ)) (outer : List (List (Change κ)))
    (s : Session (Change κ)) : Prop :=
  Inside committed outer s ∧ s.failed = false

/-- How the attempt of a trim ends. -/
def trimming (w : Replies) : Except Error ℕ := do
  let total ← w.count
  let trimCount := total - dbTimelineEventLimit
  if trimCount = 0 then return 0
  let oldEventIds ← w.oldest
  if oldEventIds.isEmpty then return 0
  w.delete

/-- How the attempt to create an event ends. -/
def creation (w : Replies) (e : EventArgs) : Except Error Unit := do
  if !shouldPersistUserTimelineEvent e.eventType e.source then return
  if (← w.duplicate).isSome then return
  let _ ← w.payload
  w.insert
  let _ ← trimming w

/-- How the attempt to record an event ends: the first error among the replies that it takes. -/
def attempt (w : Replies) (e : EventArgs) : Except Error Unit := do
  creation w e
  w.release

theorem on_ignoring (x : Action (Change κ) Error Unit) (s : Session (Change κ)) :
    (ignoring x).on s = (.ok (), (x.on s).2) := by
  change Action.on (tryCatch x fun _ => pure ()) s = _
  rw [on_tryCatch]
  rcases x.on s with ⟨_ | _, _⟩ <;> rfl

section Steps

variable {committed : List (Change κ)} {outer : List (List (Change κ))}

theorem query_runs {β : Type} (reply : Except Error β) :
    Runs (Ready committed outer) (Inside committed outer) (query reply) reply := by
  rintro ⟨_,_,_,_⟩ ⟨⟨rfl,⟨own,rfl,none⟩,rfl⟩,rfl⟩
  exact ⟨rfl,⟨rfl,⟨own,rfl,none⟩,rfl⟩,fun _ _ => ⟨⟨rfl,⟨own,rfl,none⟩,rfl⟩,rfl⟩⟩

theorem await_runs {β : Type} (reply : Except Error β) :
    Runs (Ready committed outer) (Inside committed outer) (await reply) reply :=
  fun _ ready => ⟨rfl,ready.1,fun _ _ => ready⟩

theorem execute_runs {β : Type} {change : Change κ} (foreign : callers [change] = [])
    (reply : Except Error β) :
    Runs (Ready committed outer) (Inside committed outer) (execute change reply) reply := by
  rintro ⟨_,_,_,_⟩ ⟨⟨rfl,⟨own,rfl,none⟩,rfl⟩,rfl⟩
  have more : callers (own ++ [change]) = [] := by simp [none,foreign]
  cases reply with
  | error e => exact ⟨rfl,⟨rfl,⟨own,rfl,none⟩,rfl⟩,fun _ ok => nomatch ok⟩
  | ok b =>
    exact ⟨rfl,⟨rfl,⟨own ++ [change],rfl,more⟩,rfl⟩,
      fun _ _ => ⟨⟨rfl,⟨own ++ [change],rfl,more⟩,rfl⟩,rfl⟩⟩

theorem addFlush_runs {change : Change κ} (foreign : callers [change] = [])
    (reply : Except Error Unit) :
    Runs (Ready committed outer) (Inside committed outer) (do add change; flush reply) reply := by
  rintro ⟨_,_,_,_⟩ ⟨⟨rfl,⟨own,rfl,none⟩,rfl⟩,rfl⟩
  have more : callers (own ++ [change]) = [] := by simp [none,foreign]
  cases reply with
  | error e => exact ⟨rfl,⟨rfl,⟨[],rfl,rfl⟩,rfl⟩,fun _ ok => nomatch ok⟩
  | ok b =>
    exact ⟨rfl,⟨rfl,⟨own ++ [change],rfl,more⟩,rfl⟩,
      fun _ _ => ⟨⟨rfl,⟨own ++ [change],rfl,more⟩,rfl⟩,rfl⟩⟩

theorem pure_runs {β : Type} (b : β) :
    Runs (Ready committed outer) (Inside committed outer)
      (pure b : Action (Change κ) Error β) (.ok b) :=
  Runs.pure (fun _ ready => ready.1) b

theorem trim_runs (w : Replies) :
    Runs (Ready committed outer) (Inside committed outer) (trimTaskTimelineEvents w)
      (trimming w) := by
  refine (query_runs w.count).bind fun total => ?_
  refine Runs.ite _ (pure_runs 0) ?_
  refine (query_runs w.oldest).bind fun ids => ?_
  exact Runs.ite _ (pure_runs 0) (execute_runs rfl w.delete)

theorem create_runs (w : Replies) (e : EventArgs) :
    Runs (Ready committed outer) (Inside committed outer) (createTaskEvent w e)
      (creation w e) := by
  refine Runs.ite _ (pure_runs ()) ?_
  refine (query_runs w.duplicate).bind fun found => ?_
  refine Runs.ite _ (pure_runs ()) ?_
  refine (await_runs w.payload).bind fun payload => ?_
  rw [← bind_assoc]
  refine (addFlush_runs rfl w.insert).bind fun _ => ?_
  exact (trim_runs w).bind fun _ => pure_runs ()

/-- After a creation that went well the savepoint is released into the caller's transaction, or
it waits for a rollback. -/
theorem commitNested_on (w : Replies) {s : Session (Change κ)} (ready : Ready committed outer s)
    (around : outer ≠ []) :
    ∃ t, (commitNested w.prepare w.release).on s = (Reply.lift w.release, t) ∧
      t.committed = committed ∧ t.pending = [] ∧
      (w.release = .ok () → callers (sent t.frames) = callers (sent outer)) ∧
      (w.release ≠ .ok () → Inside committed outer t) := by
  obtain ⟨c,fs,failed,pend⟩ := s
  obtain ⟨⟨rfl,⟨own,rfl,none⟩,rfl⟩,rfl⟩ := ready
  obtain ⟨last,rest,rfl⟩ := List.exists_cons_of_ne_nil around
  cases w.release with
  | ok =>
    refine ⟨_,rfl,rfl,rfl,fun _ => ?_,fun h => absurd rfl h⟩
    simp [sent,none]
  | error e =>
    refine ⟨_,rfl,rfl,rfl,fun h => ?_,fun _ => ⟨rfl,⟨own,rfl,none⟩,rfl⟩⟩
    cases h

/-- The whole attempt ends as its replies say: released, or still inside the savepoint. -/
theorem attempt_on (w : Replies) (e : EventArgs) {s : Session (Change κ)}
    (ready : Ready committed outer s) (around : outer ≠ []) :
    ∃ t, Action.on (do createTaskEvent w e; commitNested w.prepare w.release) s =
        (Reply.lift (attempt w e), t) ∧
      (attempt w e = .ok () → t.committed = committed ∧ callers t.changes = callers (sent outer)) ∧
      (attempt w e ≠ .ok () → Inside committed outer t) := by
  obtain ⟨result,inside,again⟩ := create_runs w e s ready
  rcases h : (createTaskEvent w e).on s with ⟨a,u⟩
  rw [h] at result inside again
  rw [on_bind,h]
  unfold attempt
  cases made : creation w e with
  | error e =>
    rw [made] at result
    obtain rfl : a = .error (.raised e) := result
    exact ⟨u,rfl,(fun ok => nomatch ok),fun _ => inside⟩
  | ok =>
    rw [made] at result
    obtain rfl : a = .ok () := result
    obtain ⟨t,commits,kept,none,released,refused⟩ :=
      commitNested_on w (again () made) around
    refine ⟨t,commits,fun ok => ⟨kept,?_⟩,refused⟩
    rw [Session.changes,none,List.append_nil]
    exact released ok

/-- The error branch never raises; only an `OperationalError` costs the transactions around the
savepoint. -/
theorem recover_on (w : Replies) (raised : Failure Error) {s : Session (Change κ)}
    (inside : Inside committed outer s) :
    ∃ t, (recover w raised).on s = (.ok (), t) ∧ t.committed = committed ∧
      (raised = .raised .operationalError → t = ⟨committed,[],false,[]⟩) ∧
      (raised ≠ .raised .operationalError →
        t.failed = true ∨ t.frames = outer ∧ t.pending = []) := by
  obtain ⟨c,fs,failed,pend⟩ := s
  obtain ⟨rfl,⟨own,rfl,none⟩,rfl⟩ := inside
  unfold recover
  rw [on_bind,on_ignoring]
  dsimp only
  rw [on_ignoring]
  by_cases lost : raised = .raised .operationalError
  · refine ⟨_,rfl,?_,fun _ => ?_,fun h => absurd lost h⟩
    all_goals rw [if_pos lost]; cases failed <;> rfl
  · refine ⟨_,rfl,?_,(fun h => absurd h lost),fun _ => ?_⟩
    · rw [if_neg lost]
      cases failed <;> rfl
    · rw [if_neg lost]
      cases failed with
      | true => exact .inl rfl
      | false => exact .inr ⟨rfl,rfl⟩

end Steps

/-- The caller's changes so far, committed or not, are `all`, unless its transaction can only be
rolled back. -/
def Holds (all : List κ) (s : Session (Change κ)) : Prop :=
  s.failed = true ∨ callers s.committed ++ callers s.changes = all

/-- The calls that cost the caller nothing: the savepoint opens, and an `OperationalError` meets
no change of the caller. -/
def Harmless (hasBeginNested : Bool) (w : Replies) (e : EventArgs) (s : Session (Change κ)) :
    Prop :=
  hasBeginNested = false ∨ s.Opens w.flush w.savepoint ∧
    (attempt w e = .error .operationalError → callers s.changes = [])

theorem safeCreate_none (w : Replies) (e : EventArgs) (s : Session (Change κ)) :
    (safeCreateTaskEvent false w e).on s = (.ok (), s) := rfl

/-- A call whose savepoint opens returns, and only an `OperationalError` drops the changes that
were open. -/
theorem safeCreate_opens {w : Replies} {e : EventArgs} {s : Session (Change κ)}
    (opens : s.Opens w.flush w.savepoint) :
    ∃ t, (safeCreateTaskEvent true w e).on s = (.ok (), t) ∧ t.committed = s.committed ∧
      (attempt w e = .error .operationalError → t = ⟨s.committed,[],false,[]⟩) ∧
      (attempt w e ≠ .error .operationalError →
        t.failed = true ∨ callers t.changes = callers s.changes) := by
  obtain ⟨outer,around,sentAll,begins⟩ := beginNested_opens opens
  have ready : Ready s.committed outer ⟨s.committed,[] :: outer,false,[]⟩ :=
    ⟨⟨rfl,⟨[],rfl,rfl⟩,rfl⟩,rfl⟩
  obtain ⟨u,ends,done,undone⟩ := attempt_on w e ready around
  have runs : (safeCreateTaskEvent true w e).on s =
      match (Reply.lift (attempt w e), u) with
      | (.ok b, t) => (.ok b, t)
      | (.error raised, t) => (recover w raised).on t := by
    change Action.on (do beginNested w.flush w.savepoint; tryCatch _ (recover w)) s = _
    rw [on_bind,begins]
    dsimp only
    rw [on_tryCatch,ends]
    cases attempt w e <;> rfl
  rw [runs]
  cases attempted : attempt w e with
  | ok =>
    obtain ⟨kept,all⟩ := done attempted
    refine ⟨u,rfl,kept,(fun lost => nomatch lost),fun _ => .inr ?_⟩
    rw [all,sentAll]
  | error raised =>
    obtain ⟨t,recovers,kept,lost,saved⟩ := recover_on w (.raised raised)
      (undone (by rw [attempted]; exact fun ok => nomatch ok))
    refine ⟨t,recovers,kept,fun h => lost (by cases h; rfl),fun h => ?_⟩
    have other : Failure.raised raised ≠ .raised .operationalError := by
      rintro ⟨⟩
      exact h rfl
    refine (saved other).imp_right fun ⟨frames,nothing⟩ => ?_
    rw [Session.changes,frames,nothing,List.append_nil,sentAll]

theorem safeCreate_raises {w : Replies} {e : EventArgs} {s : Session (Change κ)}
    (closed : ¬ s.Opens w.flush w.savepoint) :
    ((safeCreateTaskEvent true w e).on s).1 ≠ .ok () := by
  obtain ⟨error,t,begins⟩ := beginNested_raises closed
  have raises : (safeCreateTaskEvent true w e).on s = (.error error, t) := by
    change Action.on (do beginNested w.flush w.savepoint; _) s = _
    rw [on_bind,begins]
  rw [raises]
  exact fun ok => nomatch ok

/-- A call that costs nothing returns and keeps what the caller has changed. -/
theorem holds_of_harmless {hasBeginNested : Bool} {w : Replies} {e : EventArgs}
    {s : Session (Change κ)} {all : List κ} (harmless : Harmless hasBeginNested w e s)
    (holds : Holds all s) :
    ∃ t, (safeCreateTaskEvent hasBeginNested w e).on s = (.ok (), t) ∧ Holds all t := by
  cases hasBeginNested with
  | false => exact ⟨s,rfl,holds⟩
  | true =>
    obtain ⟨opens,spared⟩ := harmless.resolve_left (fun h => nomatch h)
    obtain ⟨t,returns,kept,lost,saved⟩ := safeCreate_opens (e := e) opens
    have open' : callers s.committed ++ callers s.changes = all :=
      holds.resolve_left (by rw [opens.1]; exact Bool.false_ne_true)
    refine ⟨t,returns,?_⟩
    by_cases dropped : attempt w e = .error .operationalError
    · right
      rw [spared dropped] at open'
      rw [lost dropped]
      exact open'
    · refine (saved dropped).imp_right fun same => ?_
      rw [kept,same,open']

/-- A commit that returns has committed all of the caller's changes. -/
theorem committed_of_holds {all : List κ} {s u : Session (Change κ)}
    {flushed done : Except Error Unit} (holds : Holds all s)
    (commits : (commit flushed done).on s = (.ok (), u)) : callers u.committed = all := by
  rcases holds with waiting | open'
  · rw [commit_failed waiting] at commits
    exact nomatch commits
  · rw [commit_ok commits,callers_append,open']

/-- The session after the caller has made further changes. -/
def changed (further : List κ) (s : Session (Change κ)) : Session (Change κ) :=
  { s with pending := s.pending ++ further.map .caller }

theorem callers_map (further : List κ) : callers (further.map .caller) = further := by
  induction further with
  | nil => rfl
  | cons change further ih => exact congrArg (change :: ·) ih

theorem Holds.changed {all : List κ} {s : Session (Change κ)} (holds : Holds all s)
    (further : List κ) : Holds (all ++ further) (changed further s) := by
  refine holds.imp_right fun open' => ?_
  rw [← open']
  simp [SafeEvents.changed,Session.changes,callers_map]

/-- What the caller relies on: the call returns, and a commit after it that returns, with
whatever the caller changes in between, has committed all of the caller's changes. -/
def Recorded (hasBeginNested : Bool) (w : Replies) (e : EventArgs) (s : Session (Change κ)) :
    Prop :=
  ∃ t, (safeCreateTaskEvent hasBeginNested w e).on s = (.ok (), t) ∧
    ∀ (further : List κ) (flushed done : Except Error Unit) (u : Session (Change κ)),
      (commit flushed done).on (changed further t) = (.ok (), u) →
        callers u.committed = callers s.committed ++ callers s.changes ++ further

/-- One step of a caller before its commit: it changes rows, or it records an event. -/
inductive Step (κ : Type) where
  | change (further : List κ)
  | record (w : Replies) (e : EventArgs)

/-- The caller's own changes in a step. -/
def Step.changes : Step κ → List κ
  | .change further => further
  | .record _ _ => []

/-- A step leads from one session to another and returns. -/
inductive StepsTo (hasBeginNested : Bool) : Step κ → Session (Change κ) → Session (Change κ) → Prop
  | change (further : List κ) (s : Session (Change κ)) :
      StepsTo hasBeginNested (.change further) s (changed further s)
  | record {w : Replies} {e : EventArgs} {s t : Session (Change κ)}
      (returns : (safeCreateTaskEvent hasBeginNested w e).on s = (.ok (), t)) :
      StepsTo hasBeginNested (.record w e) s t

/-- A run of a caller whose every call meets `Harmless`. -/
inductive HarmlessRun (hasBeginNested : Bool) :
    List (Step κ) → Session (Change κ) → Session (Change κ) → Prop
  | done (s : Session (Change κ)) : HarmlessRun hasBeginNested [] s s
  | step {first : Step κ} {rest : List (Step κ)} {s t u : Session (Change κ)}
      (steps : StepsTo hasBeginNested first s t)
      (harmless : ∀ w e, first = .record w e → Harmless hasBeginNested w e s)
      (run : HarmlessRun hasBeginNested rest t u) :
      HarmlessRun hasBeginNested (first :: rest) s u

theorem StepsTo.holds {hasBeginNested : Bool} {step : Step κ} {s t : Session (Change κ)}
    {all : List κ} (steps : StepsTo hasBeginNested step s t)
    (harmless : ∀ w e, step = .record w e → Harmless hasBeginNested w e s)
    (holds : Holds all s) : Holds (all ++ step.changes) t := by
  cases steps with
  | change further => exact holds.changed further
  | @record w e s t returns =>
    obtain ⟨t',returns',kept⟩ := holds_of_harmless (harmless w e rfl) holds
    obtain rfl : t' = t := by
      rw [returns] at returns'
      cases returns'
      rfl
    rw [Step.changes,List.append_nil]
    exact kept

/-- Over a whole run of the caller the changes accumulate in order, and a commit at its end that
returns has committed them all. -/
theorem HarmlessRun.committed {hasBeginNested : Bool} {steps : List (Step κ)}
    {s t u : Session (Change κ)} {flushed done : Except Error Unit}
    (run : HarmlessRun hasBeginNested steps s t)
    (commits : (commit flushed done).on t = (.ok (), u)) {all : List κ} (holds : Holds all s) :
    callers u.committed = all ++ steps.flatMap Step.changes := by
  induction run generalizing all with
  | done s => simpa using committed_of_holds holds commits
  | step steps harmless run ih => simpa using ih commits (steps.holds harmless holds)

/-- The terminal status that `run_task` writes before its event. -/
def failing : Session (Change String) :=
  ⟨[],[[]],false,[.caller "status=failed"]⟩

/-- The connection is lost when the event is inserted; the session is rolled back and works
again. -/
def lost : Replies :=
  { flush := .ok (), savepoint := .ok (), duplicate := .ok none, payload := .ok "\x7b\x7d",
    insert := .error .operationalError, count := .ok 0, oldest := .ok [], delete := .ok 0,
    prepare := .ok (), release := .ok (), nestedRollback := .ok (), rollback := .ok (),
    sha1 := id, keyUuid := "", idUuid := "0123456789abcdef", now := "" }

/-- The event of the failure. -/
def failure : EventArgs :=
  { taskId := "t", projectId := "p", eventType := "task_failed", message := "failed" }

end SafeEvents
end EntryAnalyse
