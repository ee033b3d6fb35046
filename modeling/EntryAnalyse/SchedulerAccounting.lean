import EntryAnalyse.SchedulerService

/-! The scheduler's books: which worker has a task that the database shows as running, and when
its slot comes back. -/
namespace EntryAnalyse
namespace SchedulerService

open Runs

/-! ## What the books must show -/

/-- The scheduler has set the task to running with an owner, and nobody has written its row
since. -/
def Assigned (s : State) (taskId : String) : Prop :=
  ∃ r ∈ s.rows.rows, r.taskId = taskId ∧ r.status = .running ∧ r.ownerPod.isSome = true ∧
    taskId ∈ s.launched

/-- Exactly one registered worker has the task in its set. -/
def Held (workers : List Worker) (taskId : String) : Prop :=
  ∃ w ∈ workers, taskId ∈ w.tasks ∧ ∀ other ∈ workers, taskId ∈ other.tasks → other = w

/-- The slots of a worker that the scheduler accounts for. -/
def load (w : Worker) : ℤ := w.freeSlots + w.tasks.card

/-- No worker's slots change but with its tasks. -/
def Balanced (s v : State) : Prop :=
  ∀ w ∈ s.workers.rows, ∀ w' ∈ v.workers.rows, w'.pod = w.pod → load w' = load w

/-- A task that finishes, is rejected or is cancelled gives back one slot, and only when it leaves
the worker's set. -/
def GivesBack (e : Event State Act) : Prop :=
  match e.act with
  | .message _ (.done _) | .cancel _ | .restart _ => Balanced e.pre e.post
  | .message _ (.status _ state) => state = "rejected" → Balanced e.pre e.post
  | _ => True

/-- The tasks of a worker that leaves the registry are pending, or at their end. -/
def Requeued (e : Event State Act) : Prop :=
  ∀ w ∈ e.pre.workers.rows, (∀ w' ∈ e.post.workers.rows, w'.pod ≠ w.pod) →
    ∀ r ∈ e.post.rows.rows, r.taskId ∈ w.tasks → r.status = .pending ∨ r.status.isTerminal = true

def NoRaise (e : Event State Act) : Prop :=
  ∀ conn msg pod, e.act = .message conn msg → e.pre.serving conn = some pod →
    ∃ handled, handleWorkerMsg e.pre conn pod msg = .ok handled

structure Accounted (tr : List (Event State Act)) (s : State) : Prop where
  handled : ∀ e ∈ tr, NoRaise e
  owned : ∀ taskId, Assigned s taskId → Held s.workers.rows taskId
  givesBack : ∀ e ∈ tr, GivesBack e
  requeued : ∀ e ∈ tr, Requeued e

/-! ## The steps that keep them -/

/-- The counted slot of the task is there to be given back, or all slots are free. -/
def SlotFits (w : Worker) (taskId : String) : Prop :=
  if taskId ∈ w.tasks then w.freeSlots < w.capacity else w.freeSlots = w.capacity

def StatusFits (s : State) (w : Worker) (taskId : Option String) (state : String) : Prop :=
  ∀ tid ∈ truthy taskId,
    (state = "running" → Assigned s tid → tid ∈ w.tasks) ∧ (state = "rejected" → tid ∉ w.tasks)

def DoneFits (s : State) (w : Worker) (taskId : Option String) : Prop :=
  match truthy taskId with
  | some tid => SlotFits w tid ∧ (tid ∈ w.tasks → ¬ Assigned s tid)
  | none => w.freeSlots = w.capacity

/-- A message of a registered worker that agrees with the books. -/
def MessageFits (s : State) (w : Worker) : Message → Prop
  | .status taskId state => StatusFits s w taskId state
  | .done taskId => DoneFits s w taskId
  | _ => True

/-- A new entry takes no assigned tasks away, and other messages come from registered workers and
agree with the books. -/
def HarmlessMessage (s : State) (pod : Option String) : Message → Prop
  | .hello name _ _ => ∀ w ∈ s.workers.rows, w.pod = name → ∀ taskId ∈ w.tasks, ¬ Assigned s taskId
  | msg => ∀ name ∈ pod, ∃ w ∈ s.workers.rows, w.pod = name ∧ MessageFits s w msg

/-- All tasks that run are put back in one go. -/
def Requeueable (batch : ℕ) (s : State) (taskIds : Finset String) : Prop :=
  (s.rows.rows.filter fun r => r.taskId ∈ taskIds ∧ r.status = .running).length ≤ batch ∧
    ∀ r ∈ s.rows.rows, r.taskId ∈ taskIds → r.status = .running → r.parentOrchestrated = false

/-- The worker that a command releases the task from has the slot to give back. -/
def CommandFits (s : State) (taskId : String) : Prop :=
  ∀ pod ∈ s.owner taskId, pod ≠ "" → ∀ w ∈ s.workers.rows, w.pod = pod → SlotFits w taskId

def Harmless (batch : ℕ) (e : Event State Act) : Prop :=
  match e.act with
  | .message conn msg => ∀ pod ∈ e.pre.serving conn, HarmlessMessage e.pre pod msg
  | .disconnect conn => ∀ pod ∈ e.pre.serving conn, ∀ name ∈ truthy pod, ∀ w ∈ e.pre.workers.rows,
    w.pod = name → w.conn = conn → Requeueable batch e.pre (tasksOf (lost e.pre [name]))
  | .reclaim pods => Requeueable batch e.pre (tasksOf (lost e.pre pods))
  | .register thread => ∀ w ∈ e.pre.workers.rows, w.pod = thread.pod →
    Assigned e.pre thread.taskId → thread.taskId ∈ w.tasks
  | .commit thread => Held e.pre.workers.rows thread.taskId
  | .cancel taskId => ∀ r ∈ e.pre.rows.lookup taskId,
    ¬ (r.isDeleted ∨ r.status.isTerminal ∨ r.status = .pending) → CommandFits e.pre taskId
  | .restart taskId => ∀ r ∈ e.pre.rows.lookup taskId,
    ¬ (r.isDeleted ∨ r.status = .pending ∨ r.status = .running) → CommandFits e.pre taskId
  | _ => True

section
variable {batch : ℕ} {s v : State} {taskId tid pod : String} {w : Worker}

/-! ## Assignments -/

/-- A worker list that changes entry by entry, none of them for the task. -/
theorem Held.map {workers : List Worker} {g : Worker → Worker} (h : Held workers taskId)
    (hg : ∀ w ∈ workers, taskId ∈ (g w).tasks ↔ taskId ∈ w.tasks) :
    Held (workers.map g) taskId := by
  obtain ⟨w,hw,htask,honly⟩ := h
  refine ⟨g w,List.mem_map_of_mem hw,(hg w hw).mpr htask,fun other hother hotherTask => ?_⟩
  obtain ⟨v,hv,rfl⟩ := List.mem_map.mp hother
  rw [honly v hv ((hg v hv).mp hotherTask)]

theorem Held.filter {workers : List Worker} {p : Worker → Bool} (h : Held workers taskId)
    (hp : ∀ w ∈ workers, taskId ∈ w.tasks → p w = true) : Held (workers.filter p) taskId := by
  obtain ⟨w,hw,htask,honly⟩ := h
  refine ⟨w,List.mem_filter.mpr ⟨hw,hp w hw htask⟩,htask,fun other hother => ?_⟩
  exact honly other (List.mem_filter.mp hother).1

/-- A change of one pod's entry that leaves the task where it is. -/
theorem held_onWorker {f : Worker → Worker} {hf : ∀ w, (f w).pod = w.pod}
    (h : Held s.workers.rows taskId)
    (hkeep : ∀ w ∈ s.workers.rows, w.pod = pod → (taskId ∈ (f w).tasks ↔ taskId ∈ w.tasks)) :
    Held (s.onWorker pod f hf).workers.rows taskId := by
  refine h.map fun w hw => ?_
  split_ifs with hpod
  · exact hkeep w hw (of_decide_eq_true hpod)
  · rfl

theorem assigned_iff_of_rows (hrows : v.rows = s.rows) (hlaunched : v.launched = s.launched) :
    Assigned v taskId ↔ Assigned s taskId := by
  unfold Assigned
  rw [hrows,hlaunched]

/-- Writing a row takes its task out of the assigned ones and leaves the others. -/
theorem assigned_onRow {f : Row → Row} {hf : ∀ r, (f r).taskId = r.taskId}
    (h : Assigned (s.onRow tid f hf) taskId) : taskId ≠ tid ∧ Assigned s taskId := by
  obtain ⟨r,hr,rfl,hstatus,howner,hlaunched⟩ := h
  obtain ⟨hne,hlaunched⟩ := Finset.mem_erase.mp hlaunched
  obtain ⟨old,hold,rfl⟩ := List.mem_map.mp hr
  split_ifs at hne hlaunched hstatus howner ⊢ with htid
  · exact absurd ((hf old).trans (of_decide_eq_true htid)) hne
  · exact ⟨hne,old,hold,rfl,hstatus,howner,hlaunched⟩

/-! ## Slots -/

/-- Slots do not change when no load does. -/
theorem balanced_onWorker {f : Worker → Worker} {hf : ∀ w, (f w).pod = w.pod}
    (h : ∀ w ∈ s.workers.rows, w.pod = pod → load (f w) = load w) :
    Balanced s (s.onWorker pod f hf) := by
  intro w hw w' hw' hpod
  obtain ⟨u,hu,rfl⟩ := List.mem_map.mp hw'
  have hsame : u = w := by
    refine List.inj_on_of_nodup_map s.workers.nodup hu hw ?_
    split_ifs at hpod
    · exact (hf u).symm.trans hpod
    · exact hpod
  rw [← hsame]
  split_ifs with hu'
  · exact h u hu (of_decide_eq_true hu')
  · rfl

/-- A slot comes back with its task. -/
theorem load_release (h : SlotFits w tid) : load ((w.discard tid).giveBack) = load w := by
  unfold SlotFits at h
  unfold load Worker.giveBack Worker.discard
  split_ifs at h with htask
  · have hcard := Finset.card_erase_add_one htask
    simp only
    rw [min_eq_right (by omega),← hcard]
    push_cast
    ring
  · simp only
    rw [Finset.erase_eq_of_notMem htask,h,min_eq_left (by omega)]

theorem load_giveBack (h : w.freeSlots = w.capacity) : load w.giveBack = load w := by
  unfold load Worker.giveBack
  simp only
  rw [h,min_eq_left (by omega)]

theorem discard_of_notMem (h : tid ∉ w.tasks) : w.discard tid = w := by
  unfold Worker.discard
  rw [Finset.erase_eq_of_notMem h]

/-- The one entry of a pod. -/
theorem entry_unique {u : Worker} (hw : w ∈ s.workers.rows) (hu : u ∈ s.workers.rows)
    (hpod : u.pod = w.pod) : u = w :=
  List.inj_on_of_nodup_map s.workers.nodup hu hw hpod

/-! ## Messages -/

/-- Every assigned task is held. -/
def AllHeld (s : State) : Prop := ∀ taskId, Assigned s taskId → Held s.workers.rows taskId

/-- The registered pods stay registered. -/
def Keeps (s v : State) : Prop := ∀ w ∈ s.workers.rows, ∃ w' ∈ v.workers.rows, w'.pod = w.pod

theorem Keeps.refl (s : State) : Keeps s s := fun w hw => ⟨w,hw,rfl⟩

theorem keeps_onWorker (s : State) (pod : String) (f : Worker → Worker)
    (hf : ∀ w, (f w).pod = w.pod) : Keeps s (s.onWorker pod f hf) := by
  intro w hw
  refine ⟨_,List.mem_map_of_mem hw,?_⟩
  split_ifs
  · exact hf w
  · rfl

variable {msg : Message} {conn : ℕ}

/-- Only the entry of the sending pod is met. -/
theorem of_entry {P : Worker → Prop} (hw : w ∈ s.workers.rows) (hpod : w.pod = pod) (h : P w) :
    ∀ u ∈ s.workers.rows, u.pod = pod → P u := by
  intro u hu hupod
  rwa [entry_unique hw hu (hupod.trans hpod.symm)]

/-- No message writes a row. -/
theorem handleRegistered_rows : (handleRegistered s pod w msg).state.rows = s.rows ∧
    (handleRegistered s pod w msg).state.launched = s.launched := by
  cases msg with
  | status tid state =>
    show (onStatus s pod tid state).state.rows = _ ∧ (onStatus s pod tid state).state.launched = _
    unfold onStatus
    split
    · exact ⟨rfl,rfl⟩
    · split_ifs <;> exact ⟨rfl,rfl⟩
  | done tid =>
    show (onDone s pod tid).state.rows = _ ∧ (onDone s pod tid).state.launched = _
    unfold onDone
    dsimp only
    split <;> exact ⟨rfl,rfl⟩
  | _ => exact ⟨rfl,rfl⟩

theorem onStatus_held {tid : Option String} {state : String} (hw : w ∈ s.workers.rows)
    (hpod : w.pod = pod) (hfits : StatusFits s w tid state)
    (hassigned : Assigned s taskId) (h : Held s.workers.rows taskId) :
    Held (onStatus s pod tid state).state.workers.rows taskId := by
  unfold onStatus
  cases htid : truthy tid with
  | none => exact h
  | some tid =>
    obtain ⟨hrunning,hrejected⟩ := hfits tid htid
    dsimp only
    split_ifs with hstate hstate'
    · refine held_onWorker (s := s.setOwner tid pod) h (of_entry hw hpod ?_)
      simp only [Worker.addTask,Finset.mem_insert,or_iff_right_iff_imp]
      rintro rfl
      exact hrunning hstate hassigned
    · refine held_onWorker (s := s.setOwner tid none) h (of_entry hw hpod ?_)
      rw [discard_of_notMem (hrejected hstate')]
    · exact h

theorem onDone_held {tid : Option String} (hw : w ∈ s.workers.rows) (hpod : w.pod = pod)
    (hfits : DoneFits s w tid) (hassigned : Assigned s taskId)
    (h : Held s.workers.rows taskId) : Held (onDone s pod tid).state.workers.rows taskId := by
  unfold onDone
  unfold DoneFits at hfits
  cases htid : truthy tid with
  | none => exact held_onWorker h fun _ _ _ => Iff.rfl
  | some tid =>
    rw [htid] at hfits
    refine held_onWorker (s := s.setOwner tid none) h (of_entry hw hpod ?_)
    simp only [Worker.giveBack,Worker.discard,Finset.mem_erase,and_iff_right_iff_imp]
    rintro htask rfl
    exact hfits.2 htask hassigned

theorem handleRegistered_held (hw : w ∈ s.workers.rows) (hpod : w.pod = pod)
    (hfits : MessageFits s w msg) (h : AllHeld s) :
    AllHeld (handleRegistered s pod w msg).state := by
  intro taskId hpost
  obtain ⟨hrows,hlaunched⟩ := @handleRegistered_rows s pod w msg
  have hassigned := (assigned_iff_of_rows hrows hlaunched).mp hpost
  have hheld := h taskId hassigned
  cases msg with
  | hello name capacity freeSlots => exact hheld
  | other => exact hheld
  | heartbeat freeSlots => exact held_onWorker hheld fun _ _ _ => Iff.rfl
  | status tid state => exact onStatus_held hw hpod hfits hassigned hheld
  | done tid => exact onDone_held hw hpod hfits hassigned hheld

theorem handleRegistered_keeps : Keeps s (handleRegistered s pod w msg).state := by
  cases msg with
  | hello name capacity freeSlots => exact Keeps.refl s
  | other => exact Keeps.refl s
  | heartbeat freeSlots => exact keeps_onWorker s pod _ _
  | status tid state =>
    show Keeps s (onStatus s pod tid state).state
    unfold onStatus
    cases truthy tid with
    | none => exact Keeps.refl s
    | some tid =>
      dsimp only
      split_ifs
      · exact keeps_onWorker (s.setOwner tid pod) pod _ _
      · exact keeps_onWorker (s.setOwner tid none) pod _ _
      · exact Keeps.refl s
  | done tid =>
    show Keeps s (onDone s pod tid).state
    unfold onDone
    cases truthy tid with
    | none => exact keeps_onWorker s pod _ _
    | some tid => exact keeps_onWorker (s.setOwner tid none) pod _ _

/-- Slots that nobody touches. -/
theorem balanced_refl (s : State) : Balanced s s :=
  fun w hw w' hw' hpod => by rw [entry_unique hw hw' hpod]

theorem balanced_releaseTask (h : CommandFits s tid) : Balanced s (releaseTask s tid) := by
  unfold releaseTask
  cases howner : s.owner tid with
  | none => exact balanced_refl s
  | some pod =>
    dsimp only
    split_ifs with hempty
    · exact balanced_refl s
    · exact balanced_onWorker fun w hw hpod => load_release (h pod howner hempty w hw hpod)

theorem onDone_balanced {tid : Option String} (hw : w ∈ s.workers.rows) (hpod : w.pod = pod)
    (hfits : DoneFits s w tid) : Balanced s (onDone s pod tid).state := by
  unfold onDone
  unfold DoneFits at hfits
  cases htid : truthy tid with
  | none =>
    rw [htid] at hfits
    exact balanced_onWorker (of_entry hw hpod (load_giveBack hfits))
  | some tid =>
    rw [htid] at hfits
    exact balanced_onWorker (s := s.setOwner tid none) (of_entry hw hpod (load_release hfits.1))

theorem onStatus_balanced {tid : Option String} (hw : w ∈ s.workers.rows) (hpod : w.pod = pod)
    (hfits : StatusFits s w tid "rejected") : Balanced s (onStatus s pod tid "rejected").state := by
  unfold onStatus
  cases htid : truthy tid with
  | none => exact balanced_refl s
  | some tid =>
    have hnot := (hfits tid htid).2 rfl
    refine balanced_onWorker (s := s.setOwner tid none) (of_entry hw hpod ?_)
    rw [discard_of_notMem hnot]

theorem hello_held {entry : Worker} (hnew : entry.tasks = ∅)
    (hlost : ∀ w ∈ s.workers.rows, w.pod = entry.pod → ∀ taskId ∈ w.tasks, ¬ Assigned s taskId)
    (h : AllHeld s) : AllHeld { s with workers := s.workers.insertOrReplace entry } := by
  intro taskId hassigned
  have hpre : Assigned s taskId := hassigned
  obtain ⟨w,hw,htask,honly⟩ := h taskId hpre
  refine ⟨w,KeyedTable.mem_rows_insertOrReplace.mpr (.inr ⟨hw,fun hpod => ?_⟩),htask,?_⟩
  · exact hlost w hw hpod taskId htask hpre
  · intro other hother hotherTask
    rcases KeyedTable.mem_rows_insertOrReplace.mp hother with rfl | ⟨hold,-⟩
    · rw [hnew] at hotherTask
      cases hotherTask
    · exact honly other hold hotherTask

theorem hello_keeps (s : State) (entry : Worker) :
    Keeps s { s with workers := s.workers.insertOrReplace entry } := by
  intro w hw
  by_cases hpod : w.pod = entry.pod
  · exact ⟨entry,KeyedTable.mem_rows_insertOrReplace.mpr (.inl rfl),hpod.symm⟩
  · exact ⟨w,KeyedTable.mem_rows_insertOrReplace.mpr (.inr ⟨hw,hpod⟩),rfl⟩

/-- What a message leaves, if it is handled. -/
structure Answered (s : State) (msg : Message) (handled : Handled) : Prop where
  held : AllHeld s → AllHeld handled.state
  keeps : Keeps s handled.state
  done : ∀ tid, msg = .done tid → Balanced s handled.state
  rejected : ∀ tid, msg = .status tid "rejected" → Balanced s handled.state

theorem answered_refl (s : State) (msg : Message) (pod : Option String) :
    Answered s msg { state := s, pod := pod } :=
  ⟨id,Keeps.refl s,fun _ _ => balanced_refl s,fun _ _ => balanced_refl s⟩

theorem answered_registered (hw : w ∈ s.workers.rows) (hpod : w.pod = pod)
    (hfits : MessageFits s w msg) : Answered s msg (handleRegistered s pod w msg) where
  held := handleRegistered_held hw hpod hfits
  keeps := handleRegistered_keeps
  done := by
    rintro tid rfl
    exact onDone_balanced hw hpod hfits
  rejected := by
    rintro tid rfl
    exact onStatus_balanced hw hpod hfits

theorem named_answered {name : Option String}
    (h : ∀ pod ∈ name, ∃ w ∈ s.workers.rows, w.pod = pod ∧ MessageFits s w msg) :
    ∃ handled, handleNamed s name msg = .ok handled ∧ Answered s msg handled := by
  unfold handleNamed
  cases name with
  | none => exact ⟨_,rfl,answered_refl s msg none⟩
  | some pod =>
    obtain ⟨w,hw,hpod,hfits⟩ := h pod rfl
    dsimp only
    rw [KeyedTable.lookup_eq_some_iff.mpr ⟨hw,hpod⟩]
    exact ⟨_,rfl,answered_registered hw hpod hfits⟩

/-- A harmless message is answered. -/
theorem message_answered (conn : ℕ) {name : Option String} (h : HarmlessMessage s name msg) :
    ∃ handled, handleWorkerMsg s conn name msg = .ok handled ∧ Answered s msg handled := by
  cases msg with
  | hello pod capacity freeSlots =>
    exact ⟨_,rfl,hello_held rfl h,hello_keeps s _,nofun,nofun⟩
  | _ => exact named_answered h

/-! ## Lost workers -/

/-- What a requeue makes of the rows, when it can take all that run. -/
theorem mem_requeueTasks {taskIds : Finset String} {reason : String} {x : Row}
    (h : Requeueable batch s taskIds)
    (hx : x ∈ (requeueTasks batch s taskIds reason).rows.rows) : ∃ r ∈ s.rows.rows,
      x.taskId = r.taskId ∧ ((r.taskId ∈ taskIds ∧ x.status = .pending) ∨
        (x = r ∧ (r.status = .running → r.taskId ∉ taskIds))) := by
  obtain ⟨r,hr,rfl⟩ := List.mem_map.mp hx
  have hall : running batch s taskIds =
      (s.rows.rows.filter fun r => r.taskId ∈ taskIds ∧ r.status = .running).map Row.taskId :=
    List.take_of_length_le (by rw [List.length_map]; exact h.1)
  refine ⟨r,hr,?_⟩
  split_ifs with hin
  · have hmem : r.taskId ∈ running batch s taskIds := of_decide_eq_true hin
    rw [hall] at hmem
    obtain ⟨u,hu,hsame⟩ := List.mem_map.mp hmem
    obtain ⟨hu,hrun⟩ := List.mem_filter.mp hu
    obtain ⟨hids,hstatus⟩ := of_decide_eq_true hrun
    have heq : u = r := List.inj_on_of_nodup_map s.rows.nodup hu hr hsame
    rw [heq] at hids hstatus
    refine ⟨taskId_requeueRow reason r,.inl ⟨hids,?_⟩⟩
    unfold requeueRow
    rw [if_neg (by rw [h.2 r hr hids hstatus]; exact Bool.false_ne_true)]
  · refine ⟨rfl,.inr ⟨rfl,fun hstatus hids => hin (decide_eq_true ?_)⟩⟩
    rw [hall]
    exact List.mem_map_of_mem (List.mem_filter.mpr ⟨hr,decide_eq_true ⟨hids,hstatus⟩⟩)

variable {pods : List String} {reason : String}

theorem mem_tasksOf_lost (hw : w ∈ s.workers.rows) (hpod : w.pod ∈ pods) (htask : taskId ∈ w.tasks) :
    taskId ∈ tasksOf (lost s pods) :=
  Finset.mem_biUnion.mpr ⟨w,List.mem_toFinset.mpr (List.mem_filter.mpr ⟨hw,decide_eq_true hpod⟩),
    htask⟩

theorem removeWorkers_held (hrequeue : Requeueable batch s (tasksOf (lost s pods)))
    (h : AllHeld s) : AllHeld (removeWorkers batch s pods reason) := by
  rintro taskId ⟨x,hx,rfl,hstatus,howner,hlaunched⟩
  obtain ⟨r,hr,-,⟨-,hpending⟩ | ⟨rfl,hkept⟩⟩ := mem_requeueTasks (s := { s with
    workers := s.workers.deleteWhere fun w => w.pod ∈ pods, owner := _ }) hrequeue hx
  · rw [hpending] at hstatus
    cases hstatus
  · refine (h x.taskId ⟨x,hr,rfl,hstatus,howner,hlaunched⟩).filter fun w hw htask => ?_
    have hpod : w.pod ∉ pods := fun hpod => hkept hstatus (mem_tasksOf_lost hw hpod htask)
    simpa using hpod

theorem removeWorkers_requeued (hrequeue : Requeueable batch s (tasksOf (lost s pods)))
    (hw : w ∈ s.workers.rows)
    (hgone : ∀ w' ∈ (removeWorkers batch s pods reason).workers.rows, w'.pod ≠ w.pod) :
    ∀ x ∈ (removeWorkers batch s pods reason).rows.rows, x.taskId ∈ w.tasks →
      x.status = .pending ∨ x.status.isTerminal = true := by
  intro x hx htask
  have hpod : w.pod ∈ pods := by
    by_contra hpod
    exact hgone w (List.mem_filter.mpr ⟨hw,by simpa using hpod⟩) rfl
  obtain ⟨r,hr,hid,⟨-,hpending⟩ | ⟨rfl,hkept⟩⟩ := mem_requeueTasks (s := { s with
    workers := s.workers.deleteWhere fun w => w.pod ∈ pods, owner := _ }) hrequeue hx
  · exact .inl hpending
  · cases hterminal : x.status.isTerminal with
    | true => exact .inr rfl
    | false =>
      rcases TaskStatus.not_terminal hterminal with hpending | hrunning
      · exact .inl hpending
      · exact absurd (mem_tasksOf_lost hw hpod htask) (hkept hrunning)

theorem endServing_held {name : Option String}
    (hrequeue : ∀ pod ∈ truthy name, ∀ w ∈ s.workers.rows, w.pod = pod → w.conn = conn →
      Requeueable batch s (tasksOf (lost s [pod])))
    (h : AllHeld s) : AllHeld (endServing batch s conn name) := by
  unfold endServing
  cases hname : truthy name with
  | none => exact h
  | some pod =>
    dsimp only
    unfold onWorkerDisconnect
    cases hw : s.workers.lookup pod with
    | none => exact h
    | some w =>
      obtain ⟨hmem,hpod⟩ := KeyedTable.lookup_eq_some_iff.mp hw
      dsimp only
      split_ifs with hconn
      · exact removeWorkers_held (hrequeue pod hname w hmem hpod hconn) h
      · exact h

/-! ## Dispatch -/

variable {thread : Dispatch}

theorem takeSlot_held (hfits : ∀ w ∈ s.workers.rows, w.pod = thread.pod →
    Assigned s thread.taskId → thread.taskId ∈ w.tasks) (h : AllHeld s) :
    AllHeld (takeSlot s thread) := by
  unfold takeSlot
  split
  · split_ifs
    · exact h
    · intro taskId hassigned
      have hpre : Assigned s taskId := hassigned
      refine held_onWorker (s := s.setOwner thread.taskId thread.pod) (h taskId hpre)
        fun w hw hpod => ?_
      simp only [Worker.assign,Worker.setFree,Worker.addTask,Finset.mem_insert,
        or_iff_right_iff_imp]
      rintro rfl
      exact hfits w hw hpod hpre
  · exact h

/-- The task of the thread becomes assigned, and no other. -/
theorem commitRow_held (hheld : Held s.workers.rows thread.taskId) (h : AllHeld s) :
    AllHeld (commitRow s thread) := by
  rintro taskId ⟨x,hx,rfl,hstatus,howner,hlaunched⟩
  by_cases hsame : x.taskId = thread.taskId
  · rw [hsame]
    exact hheld
  · obtain ⟨r,hr,rfl⟩ := List.mem_map.mp hx
    split_ifs at hstatus howner hlaunched hsame ⊢ with hid
    · exact absurd (of_decide_eq_true hid) hsame
    · exact h r.taskId ⟨r,hr,rfl,hstatus,howner,Finset.mem_of_mem_insert_of_ne hlaunched hsame⟩

/-! ## Commands -/

theorem releaseTask_held (hne : taskId ≠ tid) (h : Held s.workers.rows taskId) :
    Held (releaseTask s tid).workers.rows taskId := by
  unfold releaseTask
  cases s.owner tid with
  | none => exact h
  | some pod =>
    dsimp only
    split_ifs
    · exact h
    · refine held_onWorker (s := s.setOwner tid none) h fun w _ _ => ?_
      simp [Worker.giveBack,Worker.discard,hne]

theorem releaseTask_rows : (releaseTask s tid).rows = s.rows ∧
    (releaseTask s tid).launched = s.launched := by
  unfold releaseTask
  cases s.owner tid with
  | none => exact ⟨rfl,rfl⟩
  | some pod =>
    dsimp only
    split_ifs <;> exact ⟨rfl,rfl⟩

theorem releaseTask_keeps : Keeps s (releaseTask s tid) := by
  unfold releaseTask
  cases s.owner tid with
  | none => exact Keeps.refl s
  | some pod =>
    dsimp only
    split_ifs
    · exact Keeps.refl s
    · exact keeps_onWorker (s.setOwner tid none) pod _ _

/-- A command takes the task out of the assigned ones. -/
theorem command_held {f : Row → Row} {hf : ∀ r, (f r).taskId = r.taskId} (h : AllHeld s) :
    AllHeld ((releaseTask s tid).onRow tid f hf) := by
  intro taskId hassigned
  obtain ⟨hne,hassigned⟩ := assigned_onRow hassigned
  have hpre := (assigned_iff_of_rows releaseTask_rows.1 releaseTask_rows.2).mp hassigned
  exact releaseTask_held hne (h taskId hpre)

/-! ## Steps -/

variable {a : Act}

/-- A harmless step keeps the assigned tasks with their workers. -/
theorem allHeld_step (h : AllHeld s) (hharmless : Harmless batch ⟨s,a,v⟩)
    (hstep : step batch s a = some v) : AllHeld v := by
  cases a with
  | connect conn =>
    simp only [step] at hstep
    obtain ⟨-,rfl⟩ := Runs.guarded hstep
    exact h
  | message conn msg =>
    simp only [step] at hstep
    split at hstep
    · cases hstep
    · rename_i pod hserving
      obtain ⟨handled,hhandled,hanswered⟩ := message_answered conn (hharmless pod hserving)
      rw [hhandled] at hstep
      cases hstep
      exact hanswered.held h
  | disconnect conn =>
    simp only [step] at hstep
    split at hstep
    · cases hstep
    · rename_i pod hserving
      cases hstep
      exact endServing_held (hharmless pod hserving) h
  | reclaim pods =>
    simp only [step] at hstep
    cases hstep
    exact removeWorkers_held hharmless h
  | pick pod taskId =>
    simp only [step] at hstep
    obtain ⟨-,rfl⟩ := Runs.guarded hstep
    exact h
  | sendFails thread =>
    simp only [step] at hstep
    obtain ⟨-,rfl⟩ := Runs.guarded hstep
    exact h
  | register thread =>
    simp only [step] at hstep
    obtain ⟨-,rfl⟩ := Runs.guarded hstep
    exact takeSlot_held hharmless h
  | commit thread =>
    simp only [step] at hstep
    obtain ⟨-,rfl⟩ := Runs.guarded hstep
    exact commitRow_held hharmless h
  | cancel taskId =>
    simp only [step] at hstep
    cases hstep
    unfold cmdCancel
    split
    · exact h
    · split_ifs
      · exact h
      · exact command_held h
  | restart taskId =>
    simp only [step] at hstep
    cases hstep
    unfold cmdRestart
    split
    · exact h
    · split_ifs
      · exact h
      · exact command_held h
  | write row =>
    simp only [step] at hstep
    cases hstep
    rintro taskId ⟨x,hx,rfl,hstatus,howner,hlaunched⟩
    obtain ⟨hne,hlaunched⟩ := Finset.mem_erase.mp hlaunched
    rcases KeyedTable.mem_rows_insertOrReplace.mp hx with rfl | ⟨hold,-⟩
    · exact absurd rfl hne
    · exact h x.taskId ⟨x,hold,rfl,hstatus,howner,hlaunched⟩

/-- No harmless message raises. -/
theorem noRaise_step (hharmless : Harmless batch ⟨s,a,v⟩) : NoRaise ⟨s,a,v⟩ := by
  rintro conn msg pod rfl hserving
  obtain ⟨handled,hhandled,-⟩ := message_answered conn (hharmless pod hserving)
  exact ⟨handled,hhandled⟩

theorem givesBack_step (hharmless : Harmless batch ⟨s,a,v⟩) (hstep : step batch s a = some v) :
    GivesBack ⟨s,a,v⟩ := by
  have message {conn : ℕ} {msg : Message} (hharmless : Harmless batch ⟨s,.message conn msg,v⟩)
      (hstep : step batch s (.message conn msg) = some v) :
      ∃ handled, Answered s msg handled ∧ v.workers = handled.state.workers := by
    simp only [step] at hstep
    split at hstep
    · cases hstep
    · rename_i pod hserving
      obtain ⟨handled,hhandled,hanswered⟩ := message_answered conn (hharmless pod hserving)
      rw [hhandled] at hstep
      cases hstep
      exact ⟨handled,hanswered,rfl⟩
  cases a with
  | message conn msg =>
    obtain ⟨handled,hanswered,hworkers⟩ := message hharmless hstep
    cases msg with
    | done tid =>
      have hbalanced := hanswered.done tid rfl
      unfold Balanced at hbalanced
      rwa [← hworkers] at hbalanced
    | status tid state =>
      rintro rfl
      have hbalanced := hanswered.rejected tid rfl
      unfold Balanced at hbalanced
      rwa [← hworkers] at hbalanced
    | _ => trivial
  | cancel taskId =>
    simp only [step] at hstep
    cases hstep
    show Balanced s (cmdCancel s taskId)
    unfold cmdCancel
    split
    · exact balanced_refl s
    · rename_i r hr
      split_ifs with hends
      · exact balanced_refl s
      · exact balanced_releaseTask (hharmless r hr hends)
  | restart taskId =>
    simp only [step] at hstep
    cases hstep
    show Balanced s (cmdRestart s taskId)
    unfold cmdRestart
    split
    · exact balanced_refl s
    · rename_i r hr
      split_ifs with hends
      · exact balanced_refl s
      · exact balanced_releaseTask (hharmless r hr hends)
  | _ => trivial

theorem requeued_of_keeps (h : Keeps s v) : Requeued ⟨s,a,v⟩ := by
  intro w hw hgone
  obtain ⟨w',hw',hpod⟩ := h w hw
  exact absurd hpod (hgone w' hw')

theorem endServing_requeued {name : Option String} {conn : ℕ}
    (hrequeue : ∀ pod ∈ truthy name, ∀ w ∈ s.workers.rows, w.pod = pod → w.conn = conn →
      Requeueable batch s (tasksOf (lost s [pod]))) :
    Requeued ⟨s,a,endServing batch s conn name⟩ := by
  unfold endServing
  cases hname : truthy name with
  | none => exact requeued_of_keeps (Keeps.refl s)
  | some pod =>
    dsimp only
    unfold onWorkerDisconnect
    cases hw : s.workers.lookup pod with
    | none => exact requeued_of_keeps (Keeps.refl s)
    | some w =>
      obtain ⟨hmem,hpod⟩ := KeyedTable.lookup_eq_some_iff.mp hw
      dsimp only
      split_ifs with hconn
      · intro u hu hgone
        exact removeWorkers_requeued (hrequeue pod hname w hmem hpod hconn) hu hgone
      · exact requeued_of_keeps (Keeps.refl s)

theorem takeSlot_keeps : Keeps s (takeSlot s thread) := by
  unfold takeSlot
  split
  · split_ifs
    · exact Keeps.refl s
    · exact keeps_onWorker (s.setOwner thread.taskId thread.pod) thread.pod _ _
  · exact Keeps.refl s

theorem requeued_step (hharmless : Harmless batch ⟨s,a,v⟩) (hstep : step batch s a = some v) :
    Requeued ⟨s,a,v⟩ := by
  cases a with
  | connect conn =>
    simp only [step] at hstep
    obtain ⟨-,rfl⟩ := Runs.guarded hstep
    exact requeued_of_keeps (Keeps.refl s)
  | message conn msg =>
    simp only [step] at hstep
    split at hstep
    · cases hstep
    · rename_i pod hserving
      obtain ⟨handled,hhandled,hanswered⟩ := message_answered conn (hharmless pod hserving)
      rw [hhandled] at hstep
      cases hstep
      exact requeued_of_keeps hanswered.keeps
  | disconnect conn =>
    simp only [step] at hstep
    split at hstep
    · cases hstep
    · rename_i pod hserving
      cases hstep
      exact endServing_requeued (a := .disconnect conn) (hharmless pod hserving)
  | reclaim pods =>
    simp only [step] at hstep
    cases hstep
    exact fun w hw hgone => removeWorkers_requeued hharmless hw hgone
  | pick pod taskId =>
    simp only [step] at hstep
    obtain ⟨-,rfl⟩ := Runs.guarded hstep
    exact requeued_of_keeps (Keeps.refl s)
  | sendFails thread =>
    simp only [step] at hstep
    obtain ⟨-,rfl⟩ := Runs.guarded hstep
    exact requeued_of_keeps (Keeps.refl s)
  | register thread =>
    simp only [step] at hstep
    obtain ⟨-,rfl⟩ := Runs.guarded hstep
    exact requeued_of_keeps takeSlot_keeps
  | commit thread =>
    simp only [step] at hstep
    obtain ⟨-,rfl⟩ := Runs.guarded hstep
    exact requeued_of_keeps (Keeps.refl s)
  | cancel taskId =>
    simp only [step] at hstep
    cases hstep
    refine requeued_of_keeps ?_
    unfold cmdCancel
    split
    · exact Keeps.refl s
    · split_ifs
      · exact Keeps.refl s
      · exact releaseTask_keeps
  | restart taskId =>
    simp only [step] at hstep
    cases hstep
    refine requeued_of_keeps ?_
    unfold cmdRestart
    split
    · exact Keeps.refl s
    · split_ifs
      · exact Keeps.refl s
      · exact releaseTask_keeps
  | write row =>
    simp only [step] at hstep
    cases hstep
    exact requeued_of_keeps (Keeps.refl s)

end

/-! ## Runs -/

section
variable (s : State) (w : Worker) (taskId : String) (tid name : Option String) (batch : ℕ)

instance : Decidable (Assigned s taskId) :=
  inferInstanceAs (Decidable (∃ r ∈ s.rows.rows, _ ∧ _))

instance (workers : List Worker) : Decidable (Held workers taskId) :=
  inferInstanceAs (Decidable (∃ w ∈ workers, _ ∧ ∀ other ∈ workers, _ → _))

instance : Decidable (SlotFits w taskId) := by
  unfold SlotFits
  infer_instance

instance (state : String) : Decidable (StatusFits s w tid state) := by
  unfold StatusFits
  infer_instance

instance : Decidable (DoneFits s w tid) := by
  unfold DoneFits
  split <;> infer_instance

instance (msg : Message) : Decidable (MessageFits s w msg) := by
  unfold MessageFits
  split <;> infer_instance

instance (msg : Message) : Decidable (HarmlessMessage s name msg) := by
  unfold HarmlessMessage
  split <;> infer_instance

instance (taskIds : Finset String) : Decidable (Requeueable batch s taskIds) :=
  inferInstanceAs (Decidable (_ ∧ ∀ r ∈ s.rows.rows, _ → _ → _))

instance : Decidable (CommandFits s taskId) :=
  inferInstanceAs (Decidable (∀ pod ∈ s.owner taskId, _ → ∀ w ∈ s.workers.rows, _ → _))

instance : DecidablePred (Harmless batch) := fun e => by
  unfold Harmless
  split <;> infer_instance

end

end SchedulerService
end EntryAnalyse
