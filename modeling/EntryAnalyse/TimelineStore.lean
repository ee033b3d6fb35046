import Mathlib.Data.Prod.Lex
import Mathlib.Data.String.Basic
import EntryAnalyse.ConfigFields
import EntryAnalyse.Newest
import EntryAnalyse.SafeEvents

/-! The table behind the timelines of the tasks: what `_create_task_event`, the clearing of a timeline
and the deletion of an event make of it, and that a task keeps its newest events. Texts are compared
as they are; a call that the database refuses changes nothing. -/
namespace EntryAnalyse
namespace TimelineStore

open PyJson SafeEvents Newest

/-! ## The operations -/

/-- `order_by(created_at.asc(), id.asc())`; time stamps have one format. -/
def rank (r : TaskEvent) : String ×ₗ String := toLex (r.createdAt,r.id)

/-- `filter(task_id == task_id)`. -/
def ofTask (taskId : String) (rows : List TaskEvent) : List TaskEvent :=
  rows.filter fun r => r.taskId = taskId

/-- `_trim_task_timeline_events`; a limit of zero is none. -/
def trimTaskTimelineEvents (limit : ℕ) (taskId : String) (rows : List TaskEvent) :
    List TaskEvent :=
  let trimCount := (ofTask taskId rows).length - limit
  if limit = 0 ∨ trimCount = 0 then rows
  else
    let oldEventIds :=
      (((ofTask taskId rows).mergeSort fun a b => decide (rank a ≤ rank b)).take trimCount).map (·.id)
    rows.filter fun r => !oldEventIds.contains r.id

/-- `uuid.uuid4().hex[:16]`. -/
def newId (w : Replies) : String := String.ofList (w.idUuid.toList.take 16)

/-- The row that `_create_task_event` inserts. The two columns are unique. -/
def inserted (w : Replies) (e : EventArgs) (rows : List TaskEvent) : Option TaskEvent :=
  if !shouldPersistUserTimelineEvent e.eventType e.source then none
  else if rows.any fun r => r.dedupeKey = some (keyOf w e) then none
  else match w.payload with
    | .error _ => none
    | .ok payload =>
      if rows.any fun r => r.id = newId w then none
      else some { e with
        dedupeKey := some (keyOf w e), id := newId w, payloadJson := payload, createdAt := w.now }

/-- `_safe_create_task_event`. -/
def createTaskEvent (w : Replies) (e : EventArgs) (rows : List TaskEvent) : List TaskEvent :=
  match inserted w e rows with
  | none => rows
  | some row => trimTaskTimelineEvents dbTimelineEventLimit e.taskId (rows ++ [row])

/-- What the operations read of a task's row. -/
structure Task where
  taskId : String
  projectId : String
  status : Option String := none
  inputPath : Option String := none
  updatedAt : Option String := none

/-- `str(s or "").strip() or None`. -/
def filled (s : Option String) : Option String :=
  let text := strip (s.getD "")
  if text.isEmpty then none else some text

/-- `clear_task_timeline`, with the number of events it returns. -/
def clearTaskTimeline (w : Replies) (task : Task) (rows : List TaskEvent) : List TaskEvent × ℕ :=
  let existingCount := (ofTask task.taskId rows).length
  let rows := createTaskEvent w
    { taskId := task.taskId
      projectId := task.projectId
      eventType := "task_timeline_cleared"
      message := "任务时间线已清空"
      status := filled task.status
      stageKey := some "entry_analysis"
      filePath := filled task.inputPath
      dedupeKey := some (eventDedupeKey w [task.taskId,"task_timeline_cleared",
        numberPart (some existingCount),task.updatedAt.getD "",task.status.getD ""]) } rows
  (rows.filter fun r => r.taskId ≠ task.taskId,(ofTask task.taskId rows).length)

/-- `delete_task_timeline_event`. -/
def deleteTaskTimelineEvent (w : Replies) (task : Task) (eventId : String)
    (rows : List TaskEvent) : List TaskEvent × ℕ :=
  let target := rows.find? fun r => r.taskId = task.taskId ∧ r.id = eventId
  let rows := match target with
    | none => rows
    | some target => createTaskEvent w
        { taskId := task.taskId
          projectId := task.projectId
          eventType := "task_timeline_event_deleted"
          message := "任务时间线事件已删除"
          status := filled task.status
          stageKey := some "entry_analysis"
          filePath := filled task.inputPath
          dedupeKey := some (eventDedupeKey w [task.taskId,"task_timeline_event_deleted",target.id,
            target.eventType,target.createdAt]) } rows
  (rows.filter fun r => ¬(r.taskId = task.taskId ∧ r.id = eventId),
    (rows.filter fun r => r.taskId = task.taskId ∧ r.id = eventId).length)

/-- What happens to the table: a call, or the removal of a task with its events. -/
inductive Act
  | create (w : Replies) (e : EventArgs)
  | clear (w : Replies) (task : Task)
  | delete (w : Replies) (task : Task) (eventId : String)
  | deleteTask (taskId : String)

def step (rows : List TaskEvent) : Act → List TaskEvent
  | .create w e => createTaskEvent w e rows
  | .clear w task => (clearTaskTimeline w task rows).1
  | .delete w task eventId => (deleteTaskTimelineEvent w task eventId rows).1
  | .deleteTask taskId => rows.filter fun r => r.taskId ≠ taskId

def run (rows : List TaskEvent) (acts : List Act) : List TaskEvent := acts.foldl step rows

/-! ## The table in every run -/

/-- Rows have their own ids and keys, and no task has more events than the limit. -/
structure Sound (rows : List TaskEvent) : Prop where
  ids : (rows.map (·.id)).Nodup
  keys : (rows.map (·.dedupeKey)).Nodup
  types : ∀ r ∈ rows, strip r.eventType ∈ userTimelineEventTypes
  few : ∀ taskId, (ofTask taskId rows).length ≤ dbTimelineEventLimit

theorem sound_nil : Sound [] where
  ids := by simp
  keys := by simp
  types := by simp
  few := by simp [ofTask]

section Table

variable {rows : List TaskEvent} {w : Replies} {e : EventArgs} {row r : TaskEvent}
  {taskId other : String}

theorem mem_ofTask : r ∈ ofTask taskId rows ↔ r ∈ rows ∧ r.taskId = taskId := by simp [ofTask]

theorem rank_injOn (h : (rows.map (·.id)).Nodup) :
    Set.InjOn rank {r | r ∈ rows} := by
  intro a ha b hb hab
  exact List.inj_on_of_nodup_map h ha hb (congrArg (fun p => (ofLex p).2) hab)

/-- The events of a task in ascending order. -/
theorem sorted_ofTask (h : (rows.map (·.id)).Nodup) :
    ((ofTask taskId rows).mergeSort fun a b => decide (rank a ≤ rank b)).Pairwise
      fun a b => rank a < rank b := by
  have hle := @List.pairwise_mergeSort _ (fun a b : TaskEvent => decide (rank a ≤ rank b))
    (fun a b c hab hbc => by simpa using le_trans (by simpa using hab) (by simpa using hbc))
    (fun a b => by simpa using le_total (rank a) (rank b)) (ofTask taskId rows)
  have hnodup : ((ofTask taskId rows).mergeSort fun a b => decide (rank a ≤ rank b)).Nodup :=
    (List.mergeSort_perm _ _).nodup_iff.mpr ((List.Nodup.of_map _ h).filter _)
  refine (hle.and hnodup).imp_of_mem fun {a b} ha hb hab => ?_
  rw [List.mem_mergeSort,mem_ofTask] at ha hb
  refine lt_of_le_of_ne (by simpa using hab.1) fun heq => hab.2 ?_
  exact rank_injOn h ha.1 hb.1 heq

/-- The oldest events of the task go, and nothing else. -/
theorem mem_trim {k : ℕ} (hk : 0 < k) (h : (rows.map (·.id)).Nodup) :
    r ∈ trimTaskTimelineEvents k taskId rows ↔ r ∈ rows ∧ (r.taskId = taskId →
      r ∈ newest rank k (ofTask taskId rows).toFinset) := by
  let sorted := (ofTask taskId rows).mergeSort fun a b => decide (rank a ≤ rank b)
  have hlen : sorted.length = (ofTask taskId rows).length := List.length_mergeSort _
  have hset : sorted.toFinset = (ofTask taskId rows).toFinset := by
    ext x
    simp [sorted]
  simp only [trimTaskTimelineEvents]
  split_ifs with hcount
  · have hall : newest rank k (ofTask taskId rows).toFinset =
        (ofTask taskId rows).toFinset :=
      newest_of_card_le ((List.toFinset_card_le _).trans (by omega))
    rw [hall]
    exact ⟨fun hr => ⟨hr,fun ht => List.mem_toFinset.mpr (mem_ofTask.mpr ⟨hr,ht⟩)⟩,fun hr => hr.1⟩
  · rw [List.mem_filter]
    refine and_congr_right fun hr => ?_
    have hsorted : sorted.Pairwise fun a b => rank a < rank b := sorted_ofTask h
    have hnodup : sorted.Nodup := hsorted.imp fun hab => ne_of_apply_ne rank hab.ne
    have hold : (sorted.take ((ofTask taskId rows).length - k)).map (·.id) =
        (sorted.take (sorted.length - k)).map (·.id) := by rw [hlen]
    -- a row is among the deleted ids when it is one of the oldest itself
    have hmem : r.id ∈ (sorted.take (sorted.length - k)).map (·.id) ↔
        r ∈ sorted.take (sorted.length - k) := by
      constructor
      · intro hid
        obtain ⟨x,hx,hxid⟩ := List.mem_map.mp hid
        have hxr : x ∈ rows := (mem_ofTask.mp (List.mem_mergeSort.mp (List.mem_of_mem_take hx))).1
        rwa [List.inj_on_of_nodup_map h hr hxr hxid.symm]
      · exact fun hr => List.mem_map_of_mem hr
    have hsplit : r ∉ sorted.take (sorted.length - k) ↔
        (r.taskId = taskId → r ∈ sorted.drop (sorted.length - k)) := by
      constructor
      · intro hnot ht
        have hr' : r ∈ sorted := List.mem_mergeSort.mpr (mem_ofTask.mpr ⟨hr,ht⟩)
        rw [← List.take_append_drop (sorted.length - k) sorted] at hr'
        exact (List.mem_append.mp hr').resolve_left hnot
      · intro hdrop htake
        have ht := (mem_ofTask.mp (List.mem_mergeSort.mp (List.mem_of_mem_take htake))).2
        exact List.disjoint_take_drop hnodup le_rfl htake (hdrop ht)
    rw [hold,← hset,← mem_drop_iff hsorted,← hsplit,← hmem]
    simp

theorem trim_sublist (k : ℕ) : (trimTaskTimelineEvents k taskId rows).Sublist rows := by
  simp only [trimTaskTimelineEvents]
  split_ifs
  · exact List.Sublist.refl _
  · exact List.filter_sublist

/-- What is inserted belongs to the task and has an id and a key of its own. -/
theorem inserted_spec (h : inserted w e rows = some row) :
    row.taskId = e.taskId ∧ strip row.eventType ∈ userTimelineEventTypes ∧
      row.dedupeKey = some (keyOf w e) ∧ row.id ∉ rows.map (·.id) ∧
      row.dedupeKey ∉ rows.map (·.dedupeKey) := by
  simp only [inserted] at h
  split_ifs at h with htype hkey hid
  · split at h <;> cases h
  split at h
  · cases h
  · cases h
    refine ⟨rfl,?_,rfl,?_,?_⟩
    · simp only [shouldPersistUserTimelineEvent] at htype
      split_ifs at htype <;> simp_all
    · simpa using hid
    · simpa using hkey

theorem nodup_insert {α : Type} [DecidableEq α] (f : TaskEvent → α) (h : (rows.map f).Nodup)
    (hrow : f row ∉ rows.map f) : ((rows ++ [row]).map f).Nodup := by
  rw [List.map_append,List.nodup_append]
  refine ⟨h,by simp,?_⟩
  rintro x hx y hy rfl
  obtain rfl : x = f row := by simpa using hy
  exact hrow hx

theorem create_none (h : inserted w e rows = none) : createTaskEvent w e rows = rows := by
  simp only [createTaskEvent,h]

theorem create_some (h : inserted w e rows = some row) :
    createTaskEvent w e rows =
      trimTaskTimelineEvents dbTimelineEventLimit e.taskId (rows ++ [row]) := by
  simp only [createTaskEvent,h]

theorem limit_pos : 0 < dbTimelineEventLimit := by decide

/-- The events of the task after an insertion are the newest of those before and the new one. -/
theorem ofTask_create (hs : Sound rows) (h : inserted w e rows = some row) :
    (ofTask taskId (createTaskEvent w e rows)).toFinset =
      if taskId = e.taskId then
        newest rank dbTimelineEventLimit (insert row (ofTask taskId rows).toFinset)
      else (ofTask taskId rows).toFinset := by
  obtain ⟨htask,-,-,hid,-⟩ := inserted_spec h
  have hids := nodup_insert (·.id) hs.ids hid
  have hnew : (ofTask e.taskId (rows ++ [row])).toFinset =
      insert row (ofTask e.taskId rows).toFinset := by
    ext x
    simp only [List.mem_toFinset,mem_ofTask,List.mem_append,List.mem_singleton,Finset.mem_insert]
    grind
  ext x
  rw [List.mem_toFinset,mem_ofTask,create_some h,mem_trim limit_pos hids]
  split_ifs with ht
  · subst ht
    rw [← hnew]
    constructor
    · rintro ⟨⟨hx,hnewest⟩,hxt⟩
      exact hnewest hxt
    · intro hx
      have hmem := mem_ofTask.mp (List.mem_toFinset.mp (newest_subset hx))
      exact ⟨⟨hmem.1,fun _ => hx⟩,hmem.2⟩
  · rw [List.mem_toFinset,mem_ofTask,List.mem_append,List.mem_singleton]
    grind

theorem Sound.sublist {rows' : List TaskEvent} (hs : Sound rows) (h : rows'.Sublist rows) :
    Sound rows' where
  ids := hs.ids.sublist (h.map _)
  keys := hs.keys.sublist (h.map _)
  types r hr := hs.types r (h.subset hr)
  few taskId := ((h.filter _).length_le).trans (hs.few taskId)

theorem length_ofTask (h : (rows.map (·.id)).Nodup) :
    (ofTask taskId rows).length = (ofTask taskId rows).toFinset.card :=
  (List.toFinset_card_of_nodup ((List.Nodup.of_map _ h).filter _)).symm

theorem Sound.create (hs : Sound rows) : Sound (createTaskEvent w e rows) := by
  cases h : inserted w e rows with
  | none => rwa [create_none h]
  | some row =>
    obtain ⟨htask,htype,-,hid,hkey⟩ := inserted_spec h
    have hsub : (createTaskEvent w e rows).Sublist (rows ++ [row]) :=
      create_some h ▸ trim_sublist _
    have hids := (nodup_insert (·.id) hs.ids hid).sublist (hsub.map _)
    refine ⟨hids,(nodup_insert (·.dedupeKey) hs.keys hkey).sublist (hsub.map _),?_,?_⟩
    · intro r hr
      rcases List.mem_append.mp (hsub.subset hr) with hr | hr
      · exact hs.types r hr
      · rwa [List.mem_singleton.mp hr]
    · intro taskId
      rw [length_ofTask hids,ofTask_create hs h]
      split_ifs with ht
      · apply card_newest_le
        refine (rank_injOn (nodup_insert (·.id) hs.ids hid)).mono fun x hx => ?_
        simp only [Finset.coe_insert,List.coe_toFinset,Set.mem_insert_iff,Set.mem_ofPred_eq,
          mem_ofTask] at hx
        rcases hx with rfl | hx
        · exact List.mem_append_right _ List.mem_cons_self
        · exact List.mem_append_left _ hx.1
      · rw [← length_ofTask hs.ids]
        exact hs.few taskId

theorem clearing_not_persisted (source : String) :
    shouldPersistUserTimelineEvent "task_timeline_cleared" source = false := by
  have hstrip : strip "task_timeline_cleared" = "task_timeline_cleared" :=
    strip_of_ends (c := 't') (e := 'd') (by decide) (by decide) (by simp) (by simp)
  simp [shouldPersistUserTimelineEvent,hstrip,userTimelineEventTypes]

theorem deletion_not_persisted (source : String) :
    shouldPersistUserTimelineEvent "task_timeline_event_deleted" source = false := by
  have hstrip : strip "task_timeline_event_deleted" = "task_timeline_event_deleted" :=
    strip_of_ends (c := 't') (e := 'd') (by decide) (by decide) (by simp) (by simp)
  simp [shouldPersistUserTimelineEvent,hstrip,userTimelineEventTypes]

/-- The event that says so is not one that the timeline holds. -/
theorem clear_eq (w : Replies) (task : Task) :
    clearTaskTimeline w task rows =
      (rows.filter fun r => r.taskId ≠ task.taskId,(ofTask task.taskId rows).length) := by
  simp only [clearTaskTimeline]
  rw [create_none]
  simp only [inserted]
  rw [if_pos (by simp [clearing_not_persisted])]

theorem delete_eq (w : Replies) (task : Task) (eventId : String) :
    deleteTaskTimelineEvent w task eventId rows =
      (rows.filter fun r => ¬(r.taskId = task.taskId ∧ r.id = eventId),
        (rows.filter fun r => r.taskId = task.taskId ∧ r.id = eventId).length) := by
  simp only [deleteTaskTimelineEvent]
  split
  · rfl
  · rw [create_none]
    simp only [inserted]
    rw [if_pos (by simp [deletion_not_persisted])]

end Table

/-! ## The session -/

/-- What the database answers when the table is `rows`, and otherwise accepts all. -/
def answers (w : Replies) (e : EventArgs) (rows : List TaskEvent) : Replies :=
  let after := match inserted w e rows with
    | none => rows
    | some row => rows ++ [row]
  let trimCount := (ofTask e.taskId after).length - dbTimelineEventLimit
  let oldEventIds :=
    (((ofTask e.taskId after).mergeSort fun a b => decide (rank a ≤ rank b)).take trimCount).map
      (·.id)
  { w with
    duplicate := .ok ((rows.find? fun r => r.dedupeKey = some (keyOf w e)).map (·.id))
    insert := if rows.any fun r => r.id = newId w then .error .integrityError else .ok ()
    count := .ok (ofTask e.taskId after).length
    oldest := .ok oldEventIds
    delete := .ok oldEventIds.length }

/-- The table after a change. -/
def apply {κ : Type} (rows : List TaskEvent) : Change κ → List TaskEvent
  | .caller _ => rows
  | .event row => rows ++ [row]
  | .trim ids => rows.filter fun r => !ids.contains r.id

section Session

open Savepoints

variable {κ : Type} {committed own : List (Change κ)} {outer : List (List (Change κ))}

/-- Inside a savepoint that takes statements. -/
abbrev within (committed own : List (Change κ)) (outer : List (List (Change κ))) :
    Session (Change κ) := ⟨committed,own :: outer,false,[]⟩

theorem on_bind_ok {β γ : Type} {x : Action (Change κ) Error β} {f : β → Action (Change κ) Error γ}
    {s u : Session (Change κ)} {b : β} (h : x.on s = (.ok b,u)) : (x >>= f).on s = (f b).on u := by
  rw [on_bind,h]

theorem query_on {β : Type} (b : β) :
    (query (.ok b) : Action (Change κ) Error β).on (within committed own outer) =
      (.ok b,within committed own outer) := rfl

theorem execute_on {β : Type} (change : Change κ) (b : β) :
    (execute change (.ok b) : Action (Change κ) Error β).on (within committed own outer) =
      (.ok b,within committed (own ++ [change]) outer) := rfl

theorem await_on {β : Type} (b : β) :
    (await (.ok b) : Action (Change κ) Error β).on (within committed own outer) =
      (.ok b,within committed own outer) := rfl

theorem add_on (change : Change κ) :
    (add change : Action (Change κ) Error Unit).on (within committed own outer) =
      (.ok (),⟨committed,own :: outer,false,[change]⟩) := rfl

theorem flush_on (change : Change κ) :
    (flush (.ok ()) : Action (Change κ) Error Unit).on ⟨committed,own :: outer,false,[change]⟩ =
      (.ok (),within committed (own ++ [change]) outer) := rfl

theorem trim_on (w : Replies) (e : EventArgs) {row : TaskEvent} {rows : List TaskEvent}
    (h : inserted w e rows = some row) : ∃ n δ,
    (SafeEvents.trimTaskTimelineEvents (answers w e rows)).on (within committed own outer) =
        (.ok n,within committed (own ++ δ) outer) ∧
      δ.foldl apply (rows ++ [row]) =
        trimTaskTimelineEvents dbTimelineEventLimit e.taskId (rows ++ [row]) := by
  simp only [SafeEvents.trimTaskTimelineEvents,answers,h,on_bind,query_on,trimTaskTimelineEvents]
  have hpos := limit_pos
  generalize dbTimelineEventLimit = k at hpos ⊢
  by_cases hcount : (ofTask e.taskId (rows ++ [row])).length - k = 0
  · refine ⟨0,[],?_,?_⟩
    · simp [hcount]
    · simp [hcount]
  · have hsome : ((ofTask e.taskId (rows ++ [row])).mergeSort
        fun a b => decide (rank a ≤ rank b)).take
          ((ofTask e.taskId (rows ++ [row])).length - k) ≠ [] := by
      intro hnil
      have := congrArg List.length hnil
      simp at this
      omega
    rw [if_neg hcount,if_neg (by omega)]
    simp only [on_bind,query_on]
    rw [if_neg (by simpa using hsome)]
    exact ⟨_,[.trim _],execute_on _ _,rfl⟩

/-- Inside the savepoint, `_create_task_event` sends the changes that make of the table what the model
makes of it, or it raises, and the table is to stay as it was. -/
theorem create_refines (w : Replies) (e : EventArgs) (rows : List TaskEvent) :
    (∃ δ, (SafeEvents.createTaskEvent (answers w e rows) e).on (within committed own outer) =
        (.ok (),within committed (own ++ δ) outer) ∧
      δ.foldl apply rows = createTaskEvent w e rows) ∨
    (∃ raised s, (SafeEvents.createTaskEvent (answers w e rows) e).on (within committed own outer) =
        (.error raised,s)) ∧ createTaskEvent w e rows = rows := by
  have hkey : keyOf (answers w e rows) e = keyOf w e := rfl
  have hdup : (answers w e rows).duplicate =
      .ok ((rows.find? fun r => r.dedupeKey = some (keyOf w e)).map (·.id)) := rfl
  have hpay : (answers w e rows).payload = w.payload := rfl
  have hins : (answers w e rows).insert =
      if rows.any fun r => r.id = newId w then .error .integrityError else .ok () := rfl
  have hsome : ((rows.find? fun r => r.dedupeKey = some (keyOf w e)).map (·.id)).isSome =
      rows.any fun r => r.dedupeKey = some (keyOf w e) := by
    rw [Option.isSome_map,Bool.eq_iff_iff,List.find?_isSome,List.any_eq_true]
  have hnew : String.ofList ((answers w e rows).idUuid.toList.take 16) = newId w := rfl
  have hnow : (answers w e rows).now = w.now := rfl
  have htrim (row : TaskEvent) (hrow : inserted w e rows = some row) :=
    @trim_on κ committed (own ++ [.event row]) outer w e _ _ hrow
  generalize answers w e rows = a at hkey hdup hpay hins hnew hnow htrim ⊢
  simp only [SafeEvents.createTaskEvent,hkey,hdup,hpay,hins,hnew,hnow]
  generalize (SafeEvents.trimTaskTimelineEvents a : Action (Change κ) Error ℕ) = trim at htrim ⊢
  by_cases htype : shouldPersistUserTimelineEvent e.eventType e.source = true
  · rw [if_neg (by simp [htype])]
    simp only [on_bind,query_on,hsome]
    by_cases hany : (rows.any fun r => r.dedupeKey = some (keyOf w e)) = true
    · rw [if_pos hany]
      refine .inl ⟨[],by rw [List.append_nil]; rfl,?_⟩
      rw [create_none (by simp only [inserted,htype,hany]; rfl)]
      rfl
    · rw [if_neg hany]
      cases hpayload : w.payload with
      | error raised =>
        refine .inr ⟨⟨.raised raised,_,rfl⟩,create_none ?_⟩
        simp only [inserted,hpayload]
        split_ifs <;> rfl
      | ok payload =>
        by_cases hid : (rows.any fun r => r.id = newId w) = true
        · refine .inr ⟨?_,create_none ?_⟩
          · rw [if_pos hid]
            exact ⟨_,_,rfl⟩
          · simp only [inserted,hid]
            split_ifs <;> first | rfl | (split <;> rfl)
        · let row : TaskEvent := { e with
            dedupeKey := some (keyOf w e), id := newId w, payloadJson := payload, createdAt := w.now }
          have hrow : inserted w e rows = some row := by
            simp only [inserted,hpayload]
            rw [if_neg (by simp [htype]),if_neg hany,if_neg hid]
          obtain ⟨n,δ,hrun,htable⟩ := htrim row hrow
          refine .inl ⟨.event row :: δ,?_,?_⟩
          · rw [if_neg hid,List.append_cons,on_bind_ok (await_on payload),on_bind_ok (add_on _),
              on_bind_ok (flush_on _),on_bind_ok hrun]
            rfl
          · rw [create_some hrow,← htable]
            rfl
  · refine .inl ⟨[],?_,?_⟩
    · rw [if_pos (by simpa using htype),List.append_nil]
      rfl
    · rw [create_none (by simp only [inserted]; rw [if_pos (by simpa using htype)])]
      rfl

end Session

/-! ## Runs -/

/-- The act takes events of the task away. -/
def Act.removes (taskId : String) : Act → Prop
  | .create _ _ => False
  | .clear _ task | .delete _ task _ => task.taskId = taskId
  | .deleteTask t => t = taskId

/-- The event of the task that the act inserts. -/
def Act.accepts (taskId : String) (rows : List TaskEvent) : Act → Option TaskEvent
  | .create w e => if e.taskId = taskId then inserted w e rows else none
  | _ => none

/-- The events of the task that are inserted in a run. -/
def accepted (taskId : String) : List TaskEvent → List Act → Finset TaskEvent
  | _,[] => ∅
  | rows,a :: acts => (a.accepts taskId rows).toFinset ∪ accepted taskId (step rows a) acts

theorem Sound.step {rows : List TaskEvent} (hs : Sound rows) (a : Act) :
    Sound (TimelineStore.step rows a) := by
  cases a with
  | create w e =>
    simp only [TimelineStore.step]
    exact hs.create
  | clear w task =>
    simp only [TimelineStore.step,clear_eq]
    exact hs.sublist List.filter_sublist
  | delete w task eventId =>
    simp only [TimelineStore.step,delete_eq]
    exact hs.sublist List.filter_sublist
  | deleteTask taskId => exact hs.sublist List.filter_sublist

theorem sound_run {rows : List TaskEvent} (hs : Sound rows) (acts : List Act) :
    Sound (run rows acts) := by
  induction acts generalizing rows with
  | nil => exact hs
  | cons a acts ih => exact ih (hs.step a)

/-- A step keeps the newest of the task's events and what it inserts. -/
theorem ofTask_step {rows : List TaskEvent} {taskId : String} (hs : Sound rows) {a : Act}
    (ha : ¬a.removes taskId) :
    (ofTask taskId (step rows a)).toFinset = newest rank dbTimelineEventLimit
      ((ofTask taskId rows).toFinset ∪ (a.accepts taskId rows).toFinset) := by
  have hfew : newest rank dbTimelineEventLimit (ofTask taskId rows).toFinset =
      (ofTask taskId rows).toFinset :=
    newest_of_card_le (length_ofTask hs.ids ▸ hs.few taskId)
  have hkeep {p : TaskEvent → Bool} (hp : ∀ r ∈ rows, r.taskId = taskId → p r = true) :
      (ofTask taskId (rows.filter p)).toFinset = (ofTask taskId rows).toFinset := by
    ext x
    simp only [List.mem_toFinset,mem_ofTask,List.mem_filter]
    grind
  cases a with
  | create w e =>
    cases h : inserted w e rows with
    | none => simp [step,create_none h,Act.accepts,h,hfew]
    | some row =>
      simp only [step,Act.accepts]
      rw [ofTask_create hs h]
      by_cases ht : taskId = e.taskId
      · have hset : insert row (ofTask taskId rows).toFinset =
            (ofTask taskId rows).toFinset ∪ (some row).toFinset := by
          ext x
          simp
        rw [if_pos ht,if_pos ht.symm,h,hset]
      · rw [if_neg ht,if_neg (Ne.symm ht)]
        simp [hfew]
  | clear w task =>
    simp only [step,clear_eq,Act.accepts]
    rw [hkeep (by simpa [Act.removes] using fun r _ hr => hr ▸ Ne.symm ha)]
    simp [hfew]
  | delete w task eventId =>
    simp only [step,delete_eq,Act.accepts]
    rw [hkeep (by
      intro r _ hr
      have hne : taskId ≠ task.taskId := Ne.symm ha
      simp [hr,hne])]
    simp [hfew]
  | deleteTask t =>
    simp only [step,Act.accepts]
    rw [hkeep (by simpa [Act.removes] using fun r _ hr => hr ▸ Ne.symm ha)]
    simp [hfew]

theorem ofTask_run {rows : List TaskEvent} {taskId : String} (hs : Sound rows) {acts : List Act}
    (h : ∀ a ∈ acts, ¬a.removes taskId) :
    (ofTask taskId (run rows acts)).toFinset = newest rank dbTimelineEventLimit
      ((ofTask taskId rows).toFinset ∪ accepted taskId rows acts) := by
  induction acts generalizing rows with
  | nil =>
    simpa [accepted,run] using
      (newest_of_card_le (length_ofTask hs.ids ▸ hs.few taskId)).symm
  | cons a acts ih =>
    have hrest := ih (hs.step a) fun b hb => h b (List.mem_cons_of_mem a hb)
    calc (ofTask taskId (run (step rows a) acts)).toFinset
        = newest rank dbTimelineEventLimit
            ((ofTask taskId (step rows a)).toFinset ∪ accepted taskId (step rows a) acts) := hrest
      _ = newest rank dbTimelineEventLimit
            (((ofTask taskId rows).toFinset ∪ (a.accepts taskId rows).toFinset) ∪
              accepted taskId (step rows a) acts) := by
          rw [ofTask_step hs (h a List.mem_cons_self),newest_union]
      _ = newest rank dbTimelineEventLimit
            ((ofTask taskId rows).toFinset ∪ accepted taskId rows (a :: acts)) := by
          rw [accepted,Finset.union_assoc]

/-- In every run the rows have ids and keys of their own, and a task has the newest of the events it
had when events of its were last taken away and those inserted since. -/
theorem timeline_keeps_newest (before acts : List Act) (taskId : String)
    (h : ∀ a ∈ acts, ¬a.removes taskId) :
    Sound (run [] (before ++ acts)) ∧
      (ofTask taskId (run [] (before ++ acts))).toFinset = newest rank dbTimelineEventLimit
        ((ofTask taskId (run [] before)).toFinset ∪ accepted taskId (run [] before) acts) := by
  have happend : run [] (before ++ acts) = run (run [] before) acts := List.foldl_append
  exact ⟨sound_run sound_nil _,happend ▸ ofTask_run (sound_run sound_nil before) h⟩

theorem timeline_keeps_newest_other :
    Sound (run [] ([Act.create lost failure] ++ [.deleteTask "u"])) ∧
      (ofTask "t" (run [] ([Act.create lost failure] ++ [.deleteTask "u"]))).toFinset =
        newest rank dbTimelineEventLimit ((ofTask "t" (run [] [.create lost failure])).toFinset ∪
          accepted "t" (run [] [.create lost failure]) [.deleteTask "u"]) :=
  timeline_keeps_newest [.create lost failure] [.deleteTask "u"] "t" (by simp [Act.removes])

end TimelineStore
end EntryAnalyse
