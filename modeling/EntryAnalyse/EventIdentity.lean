import EntryAnalyse.SafeEvents

/-! Which events of a task's timeline are taken for the same: the key of an event, the keys that
the callers of `_create_task_event` pass, and what is suppressed in a run of calls. -/
namespace EntryAnalyse
namespace EventIdentity

open PyJson SafeEvents

/-! ## Joined parts -/

/-- A part that can be read back from the joined ones. -/
structure Plain (part : List Char) : Prop where
  filled : part ≠ []
  inside : ¬[':',':'] <:+: part
  behind : part.getLast? ≠ some ':'

def joined (parts : List (List Char)) : List Char := [':',':'].intercalate parts

@[simp] theorem joined_nil : joined [] = [] := rfl

@[simp] theorem joined_singleton (x : List Char) : joined [x] = x := by simp [joined]

theorem joined_cons_cons (x y : List Char) (parts : List (List Char)) :
    joined (x :: y :: parts) = x ++ ':' :: ':' :: joined (y :: parts) := by
  simp [joined,List.intercalate_cons_cons]

/-- The first part ends at the first separator. -/
theorem head_eq {x y a b : List Char} (hx : Plain x) (hy : Plain y)
    (h : x ++ ':' :: ':' :: a = y ++ ':' :: ':' :: b) : x = y ∧ a = b := by
  have shorter : ∀ {x y a b : List Char}, Plain y →
      x ++ ':' :: ':' :: a = y ++ ':' :: ':' :: b → x <+: y → x = y := by
    rintro x y a b hy h ⟨rest,rfl⟩
    rw [List.append_assoc] at h
    have h := List.append_cancel_left h
    match rest, h with
    | [],_ => exact (List.append_nil x).symm
    | [c],h =>
      -- the part would end with a colon
      obtain rfl := (List.cons.inj h).1
      exact absurd List.getLast?_concat hy.behind
    | c :: d :: rest,h =>
      obtain rfl := (List.cons.inj h).1
      obtain rfl := (List.cons.inj (List.cons.inj h).2).1
      exact absurd ⟨x,rest,by simp⟩ hy.inside
  have same : x = y := by
    rcases List.prefix_or_prefix_of_prefix (h ▸ List.prefix_append x _) (List.prefix_append y _)
      with le | le
    · exact shorter hy h le
    · exact (shorter hx h.symm le).symm
  subst same
  exact ⟨rfl,(List.cons.inj (List.cons.inj (List.append_cancel_left h)).2).2⟩

theorem not_joined_of_plain {x y z : List Char} {parts : List (List Char)} (hy : Plain y) :
    joined (x :: z :: parts) ≠ y := by
  intro h
  rw [joined_cons_cons] at h
  exact hy.inside ⟨x,joined (z :: parts),by rw [← h]; simp⟩

/-- Plain parts are read back from the joined text. -/
theorem joined_injective {xs ys : List (List Char)} (hx : ∀ x ∈ xs, Plain x)
    (hy : ∀ y ∈ ys, Plain y) (h : joined xs = joined ys) : xs = ys := by
  induction xs generalizing ys with
  | nil =>
    cases ys with
    | nil => rfl
    | cons y ys =>
      have plain := hy y List.mem_cons_self
      cases ys with
      | nil =>
        rw [joined_singleton] at h
        exact absurd h.symm plain.filled
      | cons z ys =>
        rw [joined_cons_cons] at h
        exact absurd h.symm (by simp)
  | cons x xs ih =>
    have plain := hx x List.mem_cons_self
    cases ys with
    | nil =>
      cases xs with
      | nil =>
        rw [joined_singleton] at h
        exact absurd h plain.filled
      | cons x' xs =>
        rw [joined_cons_cons] at h
        exact absurd h (by simp)
    | cons y ys =>
      have plain' := hy y List.mem_cons_self
      cases xs with
      | nil =>
        rw [joined_singleton] at h
        cases ys with
        | nil =>
          rw [joined_singleton] at h
          rw [h]
        | cons y' ys => exact absurd h.symm (not_joined_of_plain plain)
      | cons x' xs =>
        cases ys with
        | nil =>
          rw [joined_singleton] at h
          exact absurd h (not_joined_of_plain plain')
        | cons y' ys =>
          rw [joined_cons_cons,joined_cons_cons] at h
          obtain ⟨rfl,rest⟩ := head_eq plain plain' h
          rw [ih (fun z hz => hx z (List.mem_cons_of_mem x hz))
            (fun z hz => hy z (List.mem_cons_of_mem x hz)) rest]

/-! ## The calls -/

/-- An argument of `_event_dedupe_key`. -/
inductive Part
  | text (s : Option String)
  | number (n : Option ℤ)
  deriving DecidableEq

/-- `str(part or "").strip()`. -/
def Part.shown : Part → String
  | .text s => strip (s.getD "")
  | .number n => strip (numberPart n)

/-- The calls of `_create_task_event`, with what varies of their identifying fields. Time stamps
are given as their texts. -/
inductive Call
  | timelineCleared (existingCount : ℤ) (updatedAt status : Option String)
  | timelineEventDeleted (id eventType createdAt : Option String)
  | stageEvent (eventType : String) (stageKey fileHash funcHash : Option String)
    (attempt : Option ℤ) (status : Option String) (message : String) (ts : Option String)
  | createDeduplicated (parentTaskId parentStageName parentStageItem : Option String)
  | created (taskName : String)
  | restartCancelled
  | retried (updatedAt status : Option String)
  | resumed (updatedAt status : Option String)
  | cancelRequested (updatedAt status : Option String)
  | pendingCancelled
  | abnormalReason (code message : Option String) (title : String)
  | runningCancelled
  | schedulerCancelled (now : Option String)
  | schedulerRetried (updatedAt : Option String)
  | waitingParentObserve (reason previousOwnerPod updatedAt : Option String)
  | requeued (reason previousOwnerPod updatedAt : Option String)
  | terminateIgnored (now : Option String)
  | terminated (now : Option String)
  | started (podName : Option String)
  | runtimeFailed (finishedAt : Option String) (error : String)
  | finished (status : String) (finishedAt : Option String) (message : String)
  | agentKilled (eventType message : String)
  deriving DecidableEq

def word (s : String) : Part := .text (some s)

/-- The type, the source and the message of the event, and what is passed to `_event_dedupe_key`
behind the task's id; for `agentKilled` it is `_create_task_event` that passes it. -/
def Call.fields : Call → String × String × String × List Part
  | .timelineCleared n t s => ("task_timeline_cleared","entry_analyse","任务时间线已清空",
      [word "task_timeline_cleared",.number (some n),.text t,.text s])
  | .timelineEventDeleted i e t => ("task_timeline_event_deleted","entry_analyse","任务时间线事件已删除",
      [word "task_timeline_event_deleted",.text i,.text e,.text t])
  | .stageEvent e k f g n s m t => (e,"entry_analyse",m,
      [word e,.text k,.text f,.text g,.number n,.text s,word m,.text t])
  | .createDeduplicated p s i => ("task_create_deduplicated","system","复用已有入口分析任务",
      [word "task_create_deduplicated",.text p,.text s,.text i])
  | .created n => ("task_created","entry_analyse","任务已创建: " ++ n,[word "task_created"])
  | .restartCancelled => ("task_cancelled","entry_analyse","重启任务：自动取消运行中任务",
      [word "task_cancelled",word "restart"])
  | .retried t s => ("task_retried","entry_analyse","任务已重试，等待重新调度",
      [word "task_retried",.text t,.text s])
  | .resumed t s => ("task_resumed","entry_analyse","任务已恢复，等待重新调度",
      [word "task_resumed",.text t,.text s])
  | .cancelRequested t s => ("task_cancel_requested","entry_analyse","任务已请求取消",
      [word "task_cancel_requested",.text t,.text s])
  | .pendingCancelled => ("task_cancelled","entry_analyse","任务已在排队阶段取消",
      [word "task_cancelled",word "pending"])
  | .abnormalReason c m t => ("abnormal_reason_recorded","entry_analyse",t,
      [word "abnormal_reason_recorded",.text c,.text m])
  | .runningCancelled => ("task_cancelled","entry_analyse","任务已取消（revoke）",
      [word "task_cancelled",word "running"])
  | .schedulerCancelled t => ("task_cancelled","system","任务已由调度器取消",
      [word "task_cancelled",word "scheduler_command",.text t])
  | .schedulerRetried t => ("task_retried","entry_analyse","任务已由调度器重启",
      [word "task_retried",word "scheduler",.text t])
  | .waitingParentObserve r p t => ("task_waiting_parent_observe","system",
      "任务租约失效，等待父任务恢复观测，不自动重排",
      [word "task_waiting_parent_observe",.text r,.text p,.text t])
  | .requeued r p t => ("task_requeued_after_expired_lease_reconcile","system",
      "任务租约过期，已回收到待执行队列",
      [word "task_requeued_after_expired_lease_reconcile",.text r,.text p,.text t])
  | .terminateIgnored t => ("task_terminate_ignored","system",
      "worker 收到 TERMINATE 但 cancel_requested=0（被 restart 清掉）",
      [word "task_terminate_ignored",word "wc",.text t])
  | .terminated t => ("task_cancelled","system","任务已终止",
      [word "task_cancelled",word "wc",.text t])
  | .started p => ("task_started","worker","任务已开始执行",[word "task_started",.text p])
  | .runtimeFailed t e => ("task_failed","worker",e,
      [word "task_failed",.text t,word "llm_runtime"])
  | .finished s t m => (if s = "passed" then "task_passed" else "task_failed","worker",m,
      [word s,.text t,word "terminal"])
  | .agentKilled e m => (e,"agent_observability",m,
      [word "agent_observability",word e,.text none,.text none,.text none,.text none,.text none,
        .number none,word "manual_action",word m])

def Call.eventType (c : Call) : String := c.fields.1

/-- The identifying fields. -/
def Call.identity (c : Call) : List Part := c.fields.2.2.2

/-- The call gives no key of its own. -/
def Call.isUnkeyed : Call → Bool
  | .agentKilled _ _ => true
  | _ => false

/-- A cancellation, restart or retry of the task. -/
def Call.isOperation : Call → Bool
  | .restartCancelled | .retried _ _ | .resumed _ _ | .cancelRequested _ _ | .pendingCancelled
  | .runningCancelled | .schedulerCancelled _ | .schedulerRetried _ | .terminated _ => true
  | _ => false

variable (w : Replies) (taskId projectId : String)

/-- The arguments of the event. -/
def Call.event (c : Call) : EventArgs where
  taskId := taskId
  projectId := projectId
  eventType := c.eventType
  message := c.fields.2.2.1
  source := c.fields.2.1
  status := if c.isUnkeyed then some "manual_action" else none
  dedupeKey :=
    if c.isUnkeyed then none
    else some (eventDedupeKey w (taskId :: c.identity.map Part.shown))

/-- The key under which the event is recorded. -/
def Call.key (c : Call) : String := keyOf w (c.event w taskId projectId)

/-! ## The timeline -/

/-- What happens to the timeline of the task: a call, or the removal of events (it is cleared, one
is deleted, or the oldest are trimmed). -/
inductive Step
  | call (c : Call)
  | remove (stays : Call → Bool)

/-- The event is one that the timeline holds. -/
def Call.persists (c : Call) : Bool := shouldPersistUserTimelineEvent c.eventType c.fields.2.1

/-- `_create_task_event` on the events of the task that are there. -/
def record (events : List Call) (c : Call) : List Call :=
  if !c.persists then events
  else if events.any fun a => a.key w taskId projectId == c.key w taskId projectId then events
  else events ++ [c]

def step (events : List Call) : Step → List Call
  | .call c => record w taskId projectId events c
  | .remove stays => events.filter stays

/-- A call is suppressed only for one of the same kind with the same identifying fields, and none
is that is a cancellation, restart or retry. -/
def CallRight (events : List Call) : Step → Prop
  | .call c => c.persists = true → ∀ a ∈ events,
      a.key w taskId projectId = c.key w taskId projectId →
        a.eventType = c.eventType ∧ a.identity = c.identity ∧ c.isOperation = false
  | .remove _ => True

/-- Every call of the run is right. -/
def RunRight : List Call → List Step → Prop
  | _,[] => True
  | events,s :: run => CallRight w taskId projectId events s ∧
      RunRight (step w taskId projectId events s) run

/-- The parts of a call that are not blank. -/
def Call.said (c : Call) : List String := (c.identity.map Part.shown).filter fun s => !s.isEmpty

/-- No event that is there says what the call says, unless it is the same one again, and not a
cancellation, restart or retry. -/
def CallFresh (events : List Call) : Step → Prop
  | .call c => c.persists = true → ∀ a ∈ events, a.said = c.said →
      a.eventType = c.eventType ∧ a.identity = c.identity ∧ c.isOperation = false
  | .remove _ => True

def RunFresh : List Call → List Step → Prop
  | _,[] => True
  | events,s :: run => CallFresh events s ∧ RunFresh (step w taskId projectId events s) run

/-- A task's id or a call whose parts hold no `::` and do not end with a colon, and are not too
long to be stored as they are. -/
structure CallPlain (c : Call) : Prop where
  task : Plain (strip taskId).toList
  parts : ∀ s ∈ c.said, Plain s.toList
  short : (strip taskId).length + (c.said.map fun s => 2 + s.length).sum ≤ 255

/-- All calls of the run are plain. -/
def RunPlain (run : List Step) : Prop := ∀ c, .call c ∈ run → CallPlain taskId c

section Keys

variable {w taskId projectId}

theorem toList_intercalate (parts : List String) :
    ("::".intercalate parts).toList = joined (parts.map String.toList) := by
  induction parts with
  | nil => rfl
  | cons x parts ih =>
    cases parts with
    | nil => simp
    | cons y parts =>
      rw [String.intercalate_cons_cons,String.toList_append,String.toList_append,ih,List.map_cons,
        List.map_cons,List.map_cons,joined_cons_cons]
      simp

theorem length_intercalate (x : String) (parts : List String) :
    ("::".intercalate (x :: parts)).length =
      x.length + (parts.map fun s => 2 + s.length).sum := by
  induction parts generalizing x with
  | nil => simp
  | cons y parts ih =>
    rw [String.intercalate_cons_cons,String.length_append,String.length_append,ih,List.map_cons,
      List.sum_cons]
    simp only [show "::".length = 2 by decide]
    omega

/-- The joined text begins with the first part and ends with one of them. -/
theorem joined_ends {x : List Char} {parts : List (List Char)} (filled : ∀ y ∈ x :: parts, y ≠ []) :
    (joined (x :: parts)).head? = x.head? ∧
      ∃ y ∈ x :: parts, (joined (x :: parts)).getLast? = y.getLast? := by
  induction parts generalizing x with
  | nil => exact ⟨by rw [joined_singleton],x,List.mem_cons_self,by rw [joined_singleton]⟩
  | cons y parts ih =>
    obtain ⟨-,z,hz,last⟩ := ih fun z hz => filled z (List.mem_cons_of_mem x hz)
    have some := filled x List.mem_cons_self
    rw [joined_cons_cons]
    refine ⟨List.head?_append_of_ne_nil _ some,z,List.mem_cons_of_mem x hz,?_⟩
    have rest : joined (y :: parts) ≠ [] := by
      intro nil
      rw [nil] at last
      exact filled z (List.mem_cons_of_mem x hz) (List.getLast?_eq_none_iff.mp last.symm)
    rw [← last,List.getLast?_append_of_ne_nil _ (List.cons_ne_nil _ _),List.getLast?_cons_cons]
    exact List.getLast?_append_of_ne_nil [':'] rest

theorem strip_shown (p : Part) : strip p.shown = p.shown := by
  cases p <;> exact strip_strip _

theorem trim_of_strip {s : String} (h : strip s = s) : PyText.trim s.toList = s.toList := by
  rw [← PyText.toList_strip,h]

theorem strip_intercalate {x : String} {parts : List String}
    (h : ∀ s ∈ x :: parts, strip s = s ∧ s.toList ≠ []) :
    strip ("::".intercalate (x :: parts)) = "::".intercalate (x :: parts) := by
  rw [← String.toList_inj,PyText.toList_strip,toList_intercalate,List.map_cons,
    PyText.trim_eq_self_iff]
  have filled : ∀ y ∈ x.toList :: parts.map String.toList, y ≠ [] := by
    rw [← List.map_cons]
    exact List.forall_mem_map.mpr fun s hs => (h s hs).2
  obtain ⟨first,y,hy,last⟩ := joined_ends filled
  rw [first,last]
  rw [← List.map_cons] at hy
  obtain ⟨s,hs,rfl⟩ := List.mem_map.mp hy
  exact ⟨(PyText.trim_eq_self_iff.mp (trim_of_strip (h x List.mem_cons_self).1)).1,
    (PyText.trim_eq_self_iff.mp (trim_of_strip (h s hs).1)).2⟩

theorem isEmpty_iff_toList (s : String) : s.isEmpty = true ↔ s.toList = [] := by
  rw [String.isEmpty_iff,← String.toList_inj,String.toList_empty]

/-- The joined text of a plain call is not empty. -/
theorem filled {c : Call} (plain : CallPlain taskId c) :
    ("::".intercalate (strip taskId :: c.said)).isEmpty = false := by
  have parts : ∀ y ∈ (strip taskId).toList :: c.said.map String.toList, y ≠ [] := by
    rw [← List.map_cons]
    refine List.forall_mem_map.mpr fun s hs => ?_
    rcases List.mem_cons.mp hs with rfl | hs
    · exact plain.task.filled
    · exact (plain.parts s hs).filled
  rw [Bool.eq_false_iff,ne_eq,isEmpty_iff_toList,toList_intercalate,List.map_cons]
  intro nil
  have first := (joined_ends parts).1
  rw [nil] at first
  exact plain.task.filled (List.head?_eq_none_iff.mp first.symm)

/-- The key of plain parts is their joined text. -/
theorem eventDedupeKey_eq {c : Call} (plain : CallPlain taskId c) {parts : List String}
    (h : parts.map strip = c.identity.map Part.shown) :
    eventDedupeKey w (taskId :: parts) = "::".intercalate (strip taskId :: c.said) := by
  have task : (strip taskId).isEmpty = false := by
    rw [Bool.eq_false_iff,ne_eq,isEmpty_iff_toList]
    exact plain.task.filled
  have kept : ((taskId :: parts).map strip).filter (fun s => !s.isEmpty) =
      strip taskId :: c.said := by
    rw [List.map_cons,List.filter_cons_of_pos (by simp [task]),h]
    rfl
  have short : ¬("::".intercalate (strip taskId :: c.said)).length > 255 := by
    rw [length_intercalate]
    exact not_lt.mpr plain.short
  unfold eventDedupeKey
  rw [kept]
  simp [filled plain,short]

theorem strip_empty : strip "" = "" := by decide

/-- The fallback passes the same parts, unstripped. -/
theorem key_killed {e m : String} (plain : CallPlain taskId (.agentKilled e m)) :
    (Call.agentKilled e m).key w taskId projectId =
      "::".intercalate (strip taskId :: (Call.agentKilled e m).said) := by
  have passed : ["agent_observability",e,"","","","","","","manual_action",m].map strip =
      (Call.agentKilled e m).identity.map Part.shown := rfl
  have key := @eventDedupeKey_eq w taskId _ plain _ passed
  rw [← key]
  have none : (strip ((none : Option String).getD "")).isEmpty = true := by
    rw [Option.getD_none,strip_empty]
    rfl
  unfold Call.key keyOf
  exact if_pos none

theorem key_eq {c : Call} (plain : CallPlain taskId c) :
    c.key w taskId projectId = "::".intercalate (strip taskId :: c.said) := by
  have shown : (c.identity.map Part.shown).map strip = c.identity.map Part.shown := by
    rw [List.map_map]
    exact List.map_congr_left fun p _ => strip_shown p
  have stripped : strip ("::".intercalate (strip taskId :: c.said)) =
      "::".intercalate (strip taskId :: c.said) := by
    refine strip_intercalate fun s hs => ?_
    rcases List.mem_cons.mp hs with rfl | hs
    · exact ⟨strip_strip _,plain.task.filled⟩
    · refine ⟨?_,(plain.parts s hs).filled⟩
      obtain ⟨p,-,rfl⟩ := List.mem_map.mp (List.mem_of_mem_filter hs)
      exact strip_shown p
  cases unkeyed : c.isUnkeyed with
  | true =>
    cases c with
    | agentKilled e m => exact key_killed plain
    | _ => cases unkeyed
  | false =>
    have given : (c.event w taskId projectId).dedupeKey =
        some ("::".intercalate (strip taskId :: c.said)) := by
      have key : (c.event w taskId projectId).dedupeKey = if c.isUnkeyed then none
          else some (eventDedupeKey w (taskId :: c.identity.map Part.shown)) := rfl
      rw [key,unkeyed,if_neg Bool.false_ne_true,eventDedupeKey_eq plain shown]
    rw [Call.key,keyOf,given,Option.getD_some,stripped,filled plain]
    rfl

/-- Two plain calls have the same key iff they say the same. -/
theorem key_eq_iff {a c : Call} (ha : CallPlain taskId a) (hc : CallPlain taskId c) :
    a.key w taskId projectId = c.key w taskId projectId ↔ a.said = c.said := by
  rw [key_eq ha,key_eq hc]
  constructor
  · intro h
    have texts := congrArg String.toList h
    rw [toList_intercalate,toList_intercalate] at texts
    have plain : ∀ {c : Call}, CallPlain taskId c →
        ∀ x ∈ (strip taskId :: c.said).map String.toList, Plain x := by
      intro c hc
      refine List.forall_mem_map.mpr fun s hs => ?_
      rcases List.mem_cons.mp hs with rfl | hs
      · exact hc.task
      · exact hc.parts s hs
    have parts := joined_injective (plain ha) (plain hc) texts
    exact (List.cons.inj (List.map_injective_iff.mpr (fun _ _ => String.toList_inj.mp) parts)).2
  · exact fun h => by rw [h]

end Keys

section Runs

variable {w taskId projectId} {events : List Call}

theorem callRight_iff {s : Step} (there : ∀ a ∈ events, CallPlain taskId a)
    (plain : ∀ c, s = .call c → CallPlain taskId c) :
    CallRight w taskId projectId events s ↔ CallFresh events s := by
  cases s with
  | remove stays => exact Iff.rfl
  | call c =>
    refine imp_congr Iff.rfl (forall₂_congr fun a ha => ?_)
    rw [key_eq_iff (there a ha) (plain c rfl)]

theorem mem_record {a c : Call} (h : a ∈ record w taskId projectId events c) :
    a ∈ events ∨ a = c := by
  unfold record at h
  generalize (!c.persists) = internal at h
  generalize (events.any fun a => a.key w taskId projectId == c.key w taskId projectId) = old at h
  cases internal with
  | true => exact .inl h
  | false => cases old with
    | true => exact .inl h
    | false => exact (List.mem_append.mp h).imp_right List.mem_singleton.mp

theorem subset_record (c : Call) : events ⊆ record w taskId projectId events c := by
  intro a ha
  unfold record
  split
  · exact ha
  · split
    · exact ha
    · exact List.mem_append_left _ ha

/-- Only plain calls get into the timeline. -/
theorem step_plain {s : Step} (there : ∀ a ∈ events, CallPlain taskId a)
    (plain : ∀ c, s = .call c → CallPlain taskId c) :
    ∀ a ∈ step w taskId projectId events s, CallPlain taskId a := by
  intro a ha
  cases s with
  | remove stays => exact there a (List.mem_of_mem_filter ha)
  | call c =>
    rcases mem_record ha with old | rfl
    · exact there a old
    · exact plain a rfl

theorem runRight_iff {run : List Step} (there : ∀ a ∈ events, CallPlain taskId a)
    (plain : RunPlain taskId run) :
    RunRight w taskId projectId events run ↔ RunFresh w taskId projectId events run := by
  induction run generalizing events with
  | nil => exact Iff.rfl
  | cons s run ih =>
    have first : ∀ c, s = .call c → CallPlain taskId c := fun c eq =>
      plain c (List.mem_cons.mpr (.inl eq.symm))
    have there' : ∀ a ∈ step w taskId projectId events s, CallPlain taskId a :=
      step_plain there first
    have rest := ih there' fun c hc => plain c (List.mem_cons_of_mem s hc)
    rw [RunRight,RunFresh,callRight_iff there first,rest]

end Runs

/-- A database that answers everything at once. -/
def quiet : Replies where
  flush := .ok ()
  savepoint := .ok ()
  duplicate := .ok none
  payload := .ok "\x7b\x7d"
  insert := .ok ()
  count := .ok 0
  oldest := .ok []
  delete := .ok 0
  prepare := .ok ()
  release := .ok ()
  nestedRollback := .ok ()
  rollback := .ok ()
  sha1 := fun _ => "da39a3ee5e6b4b0d3255bfef95601890afd80709"
  keyUuid := "0123456789abcdef0123456789abcdef"
  idUuid := "0123456789abcdef"
  now := "2026-01-01 00:00:00"

theorem plain_pendingCancelled : CallPlain "eat_1" .pendingCancelled := by
  refine ⟨⟨by decide,by decide,by decide⟩,?_,by decide⟩
  have said : Call.pendingCancelled.said = ["task_cancelled","pending"] := by decide
  rw [said]
  refine List.forall_mem_cons.mpr ⟨⟨by decide,by decide,by decide⟩,?_⟩
  exact List.forall_mem_singleton.mpr ⟨by decide,by decide,by decide⟩

end EventIdentity
end EntryAnalyse
