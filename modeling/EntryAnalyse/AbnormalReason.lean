import EntryAnalyse.Runs
import EntryAnalyse.TaskRunner
import EntryAnalyse.TaskService
import EntryAnalyse.AgentResult

/-! The abnormal reason of a task: computed from its row, stored there by some of the paths that
end a task, and returned from there as long as it is stored. The calls and the runs of one task
follow one another in any order; each commit is a step. -/
namespace EntryAnalyse
namespace AbnormalReason

open Runs Runner

/-! ## The reason -/

def statusText : TaskStatus → String
  | .pending => "pending"
  | .running => "running"
  | .passed => "passed"
  | .failed => "failed"
  | .error => "error"
  | .cancelled => "cancelled"

/-- Membership in `{"failed","error","cancelled"}`. -/
def isAbnormal : TaskStatus → Bool
  | .failed | .error | .cancelled => true
  | .pending | .running | .passed => false

/-- The parts of the dictionary that are not the same for every task. -/
structure Reason where
  category : String
  code : String
  title : String
  message : String
  status : TaskStatus
  stageName : Option String
  itemKey : Option String
  firstSeenAt : Option ℤ
  lastSeenAt : Option ℤ
  evidence : List (String × String × String)
  deriving DecidableEq

/-- An event of `stages_json`; a key that is missing reads as the empty text. -/
structure StageEvent where
  error : String := ""
  event : String := ""
  message : String := ""
  stage : String := ""
  stageName : String := ""
  deriving DecidableEq

/-- What is read of run/result.json. -/
structure RunResult where
  error : String := ""
  completionReason : String := ""
  deriving DecidableEq

/-- The columns of the task that the reason is computed from, and the one that stores it. `NULL`
reads as the empty text in `error`. -/
structure ReasonRow where
  status : TaskStatus := .pending
  error : String := ""
  cancelRequested : Bool := false
  latestAbnormalReasonJson : Option Reason := none
  events : List StageEvent := []
  moduleName : Option String := none
  startedAt : Option ℤ := none
  finishedAt : Option ℤ := none
  updatedAt : ℤ := 0
  deriving DecidableEq

def latestEvent (events : List StageEvent) : Option StageEvent :=
  events.reverse.find? fun e => e.error != "" || e.event != ""

/-- The first text that is not empty. -/
def firstText (texts : List String) : String := (texts.find? (· != "")).getD ""

/-- `message`, from the row, the result and the latest event. -/
def reasonMessage (error : String) (result : Option RunResult) (latest : Option StageEvent) :
    String :=
  strip (firstText [error,(result.map RunResult.error).getD "",
    (result.map RunResult.completionReason).getD "",(latest.map StageEvent.error).getD "",
    (latest.map StageEvent.message).getD ""])

/-- `code`, `category` and `title`. -/
def classify (status : TaskStatus) (cancelRequested : Bool) (message : String) :
    String × String × String :=
  let has := containsText (lower message)
  if status = .cancelled ∨ cancelRequested then ("user_cancelled","cancel","任务已取消")
  else if has "lease" || containsText message "租约" then ("lease_lost","runtime","任务租约丢失")
  else if has "cancel" || containsText message "取消" then
    ("runtime_interrupted","runtime","运行时中断")
  else if has "dispatch" || containsText message "调度" then
    ("dispatch_failed","runtime","调度失败")
  else if containsText message "找不到模块" || has "files.list" then
    ("module_descriptor_missing","input","模块描述文件缺失")
  else
    (if status = .error then "unknown_abnormal" else "orchestration_failed","orchestration",
      "任务异常结束")

def abnormalEvidence (key label value : String) : List (String × String × String) :=
  if strip value = "" then [] else [(key,label,strip value)]

def nonEmpty (text : String) : Option String := if text = "" then none else some text

/-- The dictionary that `_task_abnormal_reason` builds where none is stored. -/
def buildReason (row : ReasonRow) (result : Option RunResult) : Reason :=
  let latest := latestEvent row.events
  let message := reasonMessage row.error result latest
  let c := classify row.status row.cancelRequested message
  { category := c.2.1
    code := c.1
    title := c.2.2
    message := if message = "" then "任务以非正常状态结束。" else message
    status := row.status
    stageName := latest.bind fun e => nonEmpty (strip (firstText [e.stage,e.stageName]))
    itemKey := row.moduleName
    firstSeenAt := row.startedAt
    lastSeenAt := row.finishedAt.or (some row.updatedAt)
    evidence := abnormalEvidence "status" "状态" (statusText row.status) ++
      abnormalEvidence "module_name" "模块" (row.moduleName.getD "") ++
      abnormalEvidence "error" "原始错误" row.error }

/-- `_task_abnormal_reason`. -/
def taskAbnormalReason (row : ReasonRow) (result : Option RunResult) : Option Reason :=
  if isAbnormal row.status then
    match row.latestAbnormalReasonJson with
    | some reason => some reason
    | none => some (buildReason row result)
  else none

/-- `_abnormal_reason_event`. -/
def abnormalReasonEvent (reason : Reason) : StageEvent :=
  { event := "abnormal_reason_recorded"
    message := if reason.title = "" then "任务异常结束" else reason.title }

/-- `_sync_task_abnormal_reason` and `_record_abnormal_reason`. -/
def syncAndRecord (result : Option RunResult) (row : ReasonRow) : ReasonRow :=
  let reason := taskAbnormalReason row result
  let events :=
    match reason with
    | some r => if row.latestAbnormalReasonJson = reason then [] else [abnormalReasonEvent r]
    | none => []
  { row with latestAbnormalReasonJson := reason, events := row.events ++ events }

/-! ## Steps -/

/-- The row, the result file, and whether the file is of the run that goes on or went last. -/
structure Sys where
  row : ReasonRow
  result : Option RunResult := none
  own : Bool := false

/-- A task as `create_task` leaves it. -/
def created (moduleName : Option String) (now : ℤ) : Sys :=
  ⟨{ moduleName := moduleName, updatedAt := now },none,false⟩

/-- The commits of one task. `reset` is the dispatcher's; `cancelRequest` and `cancelFinal` are the
two commits of `cancel_task`, `requeueCancel` and `requeuePending` those of `restart_task` and
`resume_task`. -/
inductive Act
  | claim (now : ℤ)
  | step0 (now : ℤ)
  | step2 (now : ℤ)
  | writeResult (r : RunResult)
  | step3 (now : ℤ) (err : String)
  | step10 (now : ℤ) (r : TaskRunner.FinalResult)
  | ensureError (now : ℤ) (err : String)
  | reset (now : ℤ)
  | cancelRequest (now : ℤ)
  | cancelFinal (now : ℤ)
  | requeueCancel (k : TaskService.Requeue) (now : ℤ)
  | requeuePending (now : ℤ)

def step3Row (now : ℤ) (err : String) (row : ReasonRow) : ReasonRow :=
  { row with
    status := .failed
    error := "LLM 运行时准备失败: " ++ TaskRunner.clip 400 err
    finishedAt := some now
    updatedAt := now }

def step10Row (now : ℤ) (r : TaskRunner.FinalResult) (row : ReasonRow) : ReasonRow :=
  { row with
    status := r.status
    error := r.error.getD ""
    finishedAt := some now
    cancelRequested := false
    updatedAt := now }

def ensureRow (now : ℤ) (err : String) (row : ReasonRow) : ReasonRow :=
  { row with
    status := .error
    error := "celery task 异常: " ++ TaskRunner.clip 400 err
    finishedAt := some now
    updatedAt := now }

/-- The object of the first commit of `cancel_task`, before the reason is synchronised. -/
def cancelRequestRow (now : ℤ) (row : ReasonRow) : ReasonRow :=
  if row.status = .pending then
    { row with cancelRequested := true, status := .cancelled, finishedAt := some now, updatedAt := now }
  else { row with cancelRequested := true, updatedAt := now }

def cancelFinalRow (now : ℤ) (row : ReasonRow) : ReasonRow :=
  { row with status := .cancelled, finishedAt := some now, updatedAt := now }

def requeueCancelRow (k : TaskService.Requeue) (now : ℤ) (row : ReasonRow) : ReasonRow :=
  { row with
    status := .cancelled
    finishedAt := some now
    cancelRequested := match k with
      | .restartTask => true
      | .resumeTask => row.cancelRequested
    updatedAt := now }

/-- The fields that a restart clears; the reason is not among them. -/
def requeuePendingRow (now : ℤ) (row : ReasonRow) : ReasonRow :=
  { row with
    status := .pending
    startedAt := none
    finishedAt := none
    error := ""
    cancelRequested := false
    updatedAt := now }

def step (s : Sys) : Act → Option Sys
  | .claim now =>
    if s.row.status = .pending ∨ s.row.status = .running then
      some { s with row := { s.row with status := .running, updatedAt := now }, own := false }
    else none
  | .step0 now =>
    if s.row.status = .running then
      some { s with row := { s.row with startedAt := some now, updatedAt := now } }
    else none
  | .step2 now =>
    if s.row.status = .running then
      some ⟨{ s.row with error := "", finishedAt := none, updatedAt := now },none,true⟩
    else none
  | .writeResult r =>
    if s.row.status = .running then some { s with result := some r, own := true } else none
  | .step3 now err =>
    if s.row.status = .running then some { s with row := step3Row now err s.row } else none
  | .step10 now r =>
    if s.row.status = .running then
      some { s with row := syncAndRecord s.result (step10Row now r s.row) }
    else none
  | .ensureError now err =>
    if s.row.status = .pending ∨ s.row.status = .running then
      some { s with row := ensureRow now err s.row }
    else none
  | .reset now =>
    if s.row.status = .running then
      some { s with row := { s.row with status := .pending, updatedAt := now }, own := false }
    else none
  | .cancelRequest now =>
    if s.row.status = .pending ∨ s.row.status = .running then
      some { s with row := syncAndRecord s.result (cancelRequestRow now s.row) }
    else none
  | .cancelFinal now =>
    if s.row.status = .running ∧ s.row.cancelRequested then
      some { s with row := cancelFinalRow now s.row }
    else none
  | .requeueCancel k now =>
    if s.row.status = .pending ∨ s.row.status = .running then
      some { s with row := requeueCancelRow k now s.row }
    else none
  | .requeuePending now =>
    if s.row.status.isTerminal then
      some { s with row := requeuePendingRow now s.row, own := false }
    else none

/-! ## The property -/

/-- The reason from what the run, or the cancellation, has left itself: its status and error, and
the result file if it is its own. -/
def ownReason (s : Sys) : Reason :=
  buildReason { s.row with events := [] } (if s.own then s.result else none)

/-- The reason that is returned for the task, and the one that is stored if any is, is its own. -/
def Owns (s : Sys) : Prop :=
  isAbnormal s.row.status = true → taskAbnormalReason s.row s.result = some (ownReason s) ∧
    (s.row.latestAbnormalReasonJson = none ∨ s.row.latestAbnormalReasonJson = some (ownReason s))

def RunResult.hasText (r : RunResult) : Bool := r.error != "" || r.completionReason != ""

/-- Nothing of an earlier run comes into the reason: none is stored, and the message is the error,
or of the run's own result file, or there is neither a foreign result nor an event. -/
def Untouched (s : Sys) (error : String) : Prop :=
  s.row.latestAbnormalReasonJson = none ∧
    (error ≠ "" ∨ (s.own = true ∧ s.result.any RunResult.hasText = true) ∨
      ((s.own = true ∨ s.result.any RunResult.hasText = false) ∧ latestEvent s.row.events = none))

instance (s : Sys) (error : String) : Decidable (Untouched s error) :=
  inferInstanceAs (Decidable (_ ∧ _))

/-- The commits that end the task abnormally find nothing of an earlier run. -/
def CleanAct (s : Sys) : Act → Prop
  | .step3 .. | .ensureError .. => s.row.latestAbnormalReasonJson = none
  | .step10 _ r => r.status ≠ .passed → Untouched s (r.error.getD "")
  | .cancelRequest _ => s.row.status = .pending → Untouched s s.row.error
  | .cancelFinal _ | .requeueCancel .. => Untouched s s.row.error
  | _ => True

instance (s : Sys) : (a : Act) → Decidable (CleanAct s a)
  | .step3 .. | .ensureError .. => inferInstanceAs (Decidable (_ = none))
  | .step10 .. | .cancelRequest _ => inferInstanceAs (Decidable (_ → Untouched _ _))
  | .cancelFinal _ | .requeueCancel .. => inferInstanceAs (Decidable (Untouched _ _))
  | .claim _ | .step0 _ | .step2 _ | .writeResult _ | .reset _ | .requeuePending _ =>
    inferInstanceAs (Decidable True)

def Clean (e : Event Sys Act) : Prop := CleanAct e.pre e.act

instance (e : Event Sys Act) : Decidable (Clean e) := inferInstanceAs (Decidable (CleanAct _ _))

/-! ## Steps that find nothing of an earlier run -/

theorem firstText_cons (t : String) (texts : List String) :
    firstText (t :: texts) = if t = "" then firstText texts else t := by
  unfold firstText
  by_cases ht : t = ""
  · rw [if_pos ht,List.find?_cons_of_neg (by simp [ht])]
  · rw [if_neg ht,List.find?_cons_of_pos (by simp [ht])]
    rfl

theorem reasonMessage_of_error {error : String} (h : error ≠ "") (result : Option RunResult)
    (latest : Option StageEvent) : reasonMessage error result latest = strip error := by
  unfold reasonMessage
  rw [firstText_cons,if_neg h]

theorem reasonMessage_of_result {r : RunResult} (h : r.hasText = true) (error : String)
    (latest : Option StageEvent) :
    reasonMessage error (some r) latest = reasonMessage error (some r) none := by
  unfold RunResult.hasText at h
  simp only [Bool.or_eq_true,bne_iff_ne] at h
  unfold reasonMessage
  simp only [firstText_cons,Option.map_some,Option.getD_some]
  by_cases herror : error = ""
  · by_cases hr : r.error = ""
    · have hreason : r.completionReason ≠ "" := h.resolve_left fun h => h hr
      rw [if_pos herror,if_pos hr,if_neg hreason,if_pos herror,if_pos hr,if_neg hreason]
    · rw [if_pos herror,if_neg hr,if_pos herror,if_neg hr]
  · rw [if_neg herror,if_neg herror]

theorem reasonMessage_of_blank {r : RunResult} (h : r.hasText = false) (error : String)
    (latest : Option StageEvent) :
    reasonMessage error (some r) latest = reasonMessage error none latest := by
  unfold RunResult.hasText at h
  simp only [Bool.or_eq_false_iff,bne_eq_false_iff_eq] at h
  unfold reasonMessage
  rw [Option.map_some,Option.map_some,Option.getD_some,Option.getD_some,h.1,h.2]
  rfl

variable {s u : Sys} {row : ReasonRow}

/-- The message comes from the run itself. -/
theorem Untouched.message {error : String} (h : Untouched s error) :
    reasonMessage error s.result (latestEvent s.row.events) =
      reasonMessage error (if s.own then s.result else none) none := by
  obtain ⟨-,herror | ⟨hown,hres⟩ | ⟨hres,hevents⟩⟩ := h
  · rw [reasonMessage_of_error herror,reasonMessage_of_error herror]
  · rw [if_pos hown]
    cases hr : s.result with
    | none =>
      rw [hr] at hres
      cases hres
    | some r =>
      rw [hr,Option.any_some] at hres
      exact reasonMessage_of_result hres error _
  · rw [hevents]
    by_cases hown : s.own = true
    · rw [if_pos hown]
    · rw [if_neg hown]
      cases hr : s.result with
      | none => rfl
      | some r =>
        have hblank := hres.resolve_left hown
        rw [hr,Option.any_some] at hblank
        exact reasonMessage_of_blank hblank error none

/-- The events of the tasks are those that are recorded here; they name no stage. -/
def Unstaged (row : ReasonRow) : Prop :=
  ∀ e ∈ row.events, e.stage = "" ∧ e.stageName = ""

theorem latestEvent_mem {events : List StageEvent} {e : StageEvent}
    (h : latestEvent events = some e) : e ∈ events :=
  List.mem_reverse.mp (List.mem_of_find?_eq_some h)

theorem stageName_none (h : Unstaged row) :
    ((latestEvent row.events).bind fun e =>
      nonEmpty (strip (firstText [e.stage,e.stageName]))) = none := by
  cases hl : latestEvent row.events with
  | none => rfl
  | some e =>
    obtain ⟨hstage,hname⟩ := h e (latestEvent_mem hl)
    rw [Option.bind_some,hstage,hname]
    decide

/-- Where nothing is stored the reason is the run's own. -/
theorem buildReason_own (hu : Untouched s row.error) (hevents : row.events = s.row.events)
    (hstage : Unstaged row) :
    buildReason row s.result =
      buildReason { row with events := [] } (if s.own then s.result else none) := by
  have hmessage : reasonMessage row.error s.result (latestEvent row.events) =
      reasonMessage row.error (if s.own then s.result else none) (latestEvent []) := by
    rw [hevents]
    exact hu.message
  unfold buildReason
  dsimp only
  rw [hmessage,stageName_none hstage]
  rfl

theorem syncAndRecord_status (result : Option RunResult) (row : ReasonRow) :
    (syncAndRecord result row).status = row.status := rfl

theorem unstaged_sync (h : Unstaged row) (result : Option RunResult) :
    Unstaged (syncAndRecord result row) := by
  intro e he
  unfold syncAndRecord at he
  dsimp only at he
  rcases List.mem_append.mp he with he | he
  · exact h e he
  · split at he
    · split at he
      · cases he
      · rw [List.mem_singleton.mp he]
        exact ⟨rfl,rfl⟩
    · cases he

/-- An abnormal end that does not synchronise. -/
theorem owns_of_unsynced (hu : Untouched s row.error) (hevents : row.events = s.row.events)
    (hstage : Unstaged row)
    (hstored : row.latestAbnormalReasonJson = s.row.latestAbnormalReasonJson) :
    Owns { s with row := row } := by
  intro hab
  have hnone : row.latestAbnormalReasonJson = none := hstored.trans hu.1
  refine ⟨?_,Or.inl hnone⟩
  unfold taskAbnormalReason
  rw [if_pos hab]
  dsimp only
  rw [hnone]
  exact congrArg some (buildReason_own hu hevents hstage)

/-- An abnormal end that synchronises. -/
theorem owns_of_synced (hu : isAbnormal row.status = true → Untouched s row.error)
    (hevents : row.events = s.row.events) (hstage : Unstaged row)
    (hstored : row.latestAbnormalReasonJson = s.row.latestAbnormalReasonJson) :
    Owns { s with row := syncAndRecord s.result row } := by
  intro hab
  have hab : isAbnormal row.status = true := hab
  have hu := hu hab
  have hnone : row.latestAbnormalReasonJson = none := hstored.trans hu.1
  have hown : ownReason { s with row := syncAndRecord s.result row } =
      buildReason row s.result := (buildReason_own hu hevents hstage).symm
  have hreason : taskAbnormalReason row s.result = some (buildReason row s.result) := by
    unfold taskAbnormalReason
    rw [if_pos hab,hnone]
  have hlatest : (syncAndRecord s.result row).latestAbnormalReasonJson =
      some (buildReason row s.result) := hreason
  refine ⟨?_,Or.inr (hlatest.trans (congrArg some hown.symm))⟩
  unfold taskAbnormalReason
  dsimp only
  rw [syncAndRecord_status,if_pos hab,hlatest,hown]

theorem owns_of_normal (h : isAbnormal u.row.status = false) : Owns u := by
  intro hab
  rw [h] at hab
  cases hab

theorem clip_error (front err : String) (h : front ≠ "") :
    front ++ TaskRunner.clip 400 err ≠ "" := by
  intro heq
  rw [String.append_eq_empty_iff] at heq
  exact h heq.1

/-! ## Runs -/

theorem step_unstaged {a : Act} (h : Unstaged s.row) (hs : step s a = some u) : Unstaged u.row := by
  cases a with
  | step10 now r =>
    obtain ⟨-,rfl⟩ := guarded hs
    have hrow : Unstaged (step10Row now r s.row) := h
    exact unstaged_sync hrow _
  | cancelRequest now =>
    obtain ⟨-,rfl⟩ := guarded hs
    have hrow : Unstaged (cancelRequestRow now s.row) := by
      unfold cancelRequestRow
      split <;> exact h
    exact unstaged_sync hrow _
  | claim | step0 | step2 | writeResult | step3 | ensureError | reset | cancelFinal
  | requeueCancel | requeuePending =>
    obtain ⟨-,rfl⟩ := guarded hs
    exact h

/-- A step keeps the reason the task's own. -/
theorem step_owns {a : Act} (h : Unstaged s.row) (hs : step s a = some u) (hc : CleanAct s a) :
    Owns u := by
  cases a with
  | claim | step0 | step2 | writeResult | reset | requeuePending =>
    obtain ⟨hg,rfl⟩ := guarded hs
    refine owns_of_normal ?_
    simp_all [isAbnormal,requeuePendingRow]
  | step3 now err =>
    obtain ⟨-,rfl⟩ := guarded hs
    have hc : s.row.latestAbnormalReasonJson = none := hc
    exact owns_of_unsynced ⟨hc,Or.inl (clip_error _ err (by decide))⟩ rfl h rfl
  | ensureError now err =>
    obtain ⟨-,rfl⟩ := guarded hs
    have hc : s.row.latestAbnormalReasonJson = none := hc
    exact owns_of_unsynced ⟨hc,Or.inl (clip_error _ err (by decide))⟩ rfl h rfl
  | step10 now r =>
    obtain ⟨-,rfl⟩ := guarded hs
    refine owns_of_synced (fun hab => hc fun hpassed => ?_) rfl h rfl
    have hab : isAbnormal r.status = true := hab
    rw [hpassed] at hab
    cases hab
  | cancelRequest now =>
    obtain ⟨hg,rfl⟩ := guarded hs
    by_cases hp : s.row.status = .pending
    · have hrow : cancelRequestRow now s.row = { s.row with
          cancelRequested := true, status := .cancelled, finishedAt := some now,
          updatedAt := now } := if_pos hp
      rw [hrow]
      exact owns_of_synced (fun _ => hc hp) rfl h rfl
    · have hrow : cancelRequestRow now s.row =
          { s.row with cancelRequested := true, updatedAt := now } := if_neg hp
      refine owns_of_normal ?_
      have hrun := hg.resolve_left hp
      rw [hrow]
      exact (congrArg isAbnormal hrun).trans rfl
  | cancelFinal now =>
    obtain ⟨-,rfl⟩ := guarded hs
    exact owns_of_unsynced hc rfl h rfl
  | requeueCancel k now =>
    obtain ⟨-,rfl⟩ := guarded hs
    exact owns_of_unsynced hc rfl h rfl

/-- In every run whose abnormal ends find nothing of an earlier run, the reason that is returned,
and stored, is always that of the run or cancellation that has ended the task. -/
theorem clean_run_owns {moduleName : Option String} {now : ℤ} {tr : List (Event Sys Act)} {u : Sys}
    (hr : Run step (created moduleName now) tr u) (hc : ∀ e ∈ tr, Clean e) : Owns u := by
  have hall : Unstaged u.row ∧ Owns u := by
    refine hr.invariant (J := fun _ s => Unstaged s.row ∧ Owns s) (along_forall.mpr hc) ?_ ?_
    · exact ⟨List.forall_mem_nil _,owns_of_normal rfl⟩
    · intro tr s a v hj hq hs
      exact ⟨step_unstaged hj.1 hs,step_owns hj.1 hs hq⟩
  exact hall.2

/-- A run of the worker, at the times from `now` on. -/
def wholeRun (now : ℤ) (r : TaskRunner.FinalResult) : List Act :=
  [.claim now,.step0 now,.step2 (now + 1),.step10 (now + 2) r]

/-- A run fails after one that has passed, and the reason is its own. -/
theorem clean_restart_owns :
    ∃ tr u, Run step (created (some "net") 0) tr u ∧ (∀ e ∈ tr, Clean e) ∧
      u.row.status = .failed ∧ Owns u := by
  obtain ⟨tr,u,hr,hp⟩ := exists_run_of_replay step (created (some "net") 0)
    (p := fun tr u => decide (∀ e ∈ tr, Clean e) && u.row.status == .failed)
    (wholeRun 1 ⟨.passed,none,rfl⟩ ++
      .requeuePending 4 :: wholeRun 5 ⟨.failed,some "no agent",rfl⟩) (by decide +kernel)
  simp only [Bool.and_eq_true,decide_eq_true_eq,beq_iff_eq] at hp
  exact ⟨tr,u,hr,hp.1,hp.2,clean_run_owns hr hp.1⟩

/-- A restart keeps the reason of the first run, and it is returned for the second. -/
theorem stale_reason :
    ∃ tr u, Run step (created (some "net") 0) tr u ∧ u.row.status = .failed ∧
      u.row.error = "no agent" ∧
      (taskAbnormalReason u.row u.result).map Reason.message = some "bad input" ∧ ¬Owns u := by
  obtain ⟨tr,u,hr,hp⟩ := exists_run_of_replay step (created (some "net") 0)
    (p := fun _ u => u.row.status == .failed && u.row.error == "no agent" &&
      (taskAbnormalReason u.row u.result).map Reason.message == some "bad input" &&
      (ownReason u).message == "no agent")
    (wholeRun 1 ⟨.failed,some "bad input",rfl⟩ ++
      .requeuePending 4 :: wholeRun 5 ⟨.failed,some "no agent",rfl⟩) (by decide +kernel)
  simp only [Bool.and_eq_true,beq_iff_eq] at hp
  obtain ⟨⟨⟨hstatus,herror⟩,hmessage⟩,hown⟩ := hp
  refine ⟨tr,u,hr,hstatus,herror,hmessage,fun h => ?_⟩
  have hsame := (h (by rw [hstatus]; rfl)).1
  rw [hsame,Option.map_some,hown] at hmessage
  revert hmessage
  decide

end AbnormalReason
end EntryAnalyse
