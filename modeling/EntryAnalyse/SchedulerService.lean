import EntryAnalyse.KeyedTable
import EntryAnalyse.Runs
import EntryAnalyse.TaskRow

/-! The task scheduler of the socket architecture: its registry of workers, the messages of the
workers, the dispatch threads, the commands, and the reclaiming of lost workers. A critical
section of the registry is one step; a dispatch is three of them, because the threads that
dispatch only meet in the registry and in the database. -/
namespace EntryAnalyse
namespace SchedulerService

/-- `_Worker`. Connections are numbered. -/
structure Worker where
  pod : String
  conn : ℕ
  capacity : ℤ
  freeSlots : ℤ
  tasks : Finset String := ∅
  closed : Bool := false
  deriving DecidableEq

/-- The columns of a task's row that the scheduler reads or writes. -/
structure Row where
  taskId : String
  status : TaskStatus := .pending
  isDeleted : Bool := false
  ownerPod : Option String := none
  cancelRequested : Bool := false
  /-- The row is one of a parent's items, which the parent starts again itself. -/
  parentOrchestrated : Bool := false
  createdAt : ℕ := 0
  error : String := ""
  deriving DecidableEq

inductive Message
  | hello (pod : String) (capacity freeSlots : Option ℤ)
  | heartbeat (freeSlots : Option ℤ)
  | status (taskId : Option String) (state : String)
  | done (taskId : Option String)
  /-- A message of another type. -/
  | other
  deriving DecidableEq

/-- A thread inside `_dispatch_one_to`, after its first database query. -/
structure Dispatch where
  pod : String
  taskId : String
  /-- LAUNCH is sent and the registry knows. -/
  registered : Bool := false
  deriving DecidableEq

structure State where
  workers : KeyedTable Worker.pod
  /-- `_task_owner`. -/
  owner : String → Option String
  rows : KeyedTable Row.taskId
  /-- The connections that are served, with the `pod` of the serving thread. -/
  serving : ℕ → Option (Option String)
  dispatching : List Dispatch
  /-- The tasks whose row the scheduler has set to running, and nobody has written since. -/
  launched : Finset String

/-- A scheduler that starts on a database. -/
def start (rows : KeyedTable Row.taskId) : State where
  workers := .empty
  owner _ := none
  rows := rows
  serving _ := none
  dispatching := []
  launched := ∅

/-! ## The registry -/

namespace Worker

variable (w : Worker)

def addTask (taskId : String) : Worker := { w with tasks := insert taskId w.tasks }

def discard (taskId : String) : Worker := { w with tasks := w.tasks.erase taskId }

/-- One slot more, up to the capacity. -/
def giveBack : Worker := { w with freeSlots := min w.capacity (w.freeSlots + 1) }

def setFree (freeSlots : ℤ) : Worker := { w with freeSlots := freeSlots }

def assign (taskId : String) : Worker :=
  (w.setFree (max 0 (w.freeSlots - 1))).addTask taskId

end Worker

namespace State

variable (s : State)

/-- Change the entry of a pod. -/
def onWorker (pod : String) (f : Worker → Worker) (hf : ∀ w, (f w).pod = w.pod) : State :=
  { s with workers := s.workers.updateWhere (fun w => w.pod = pod) f hf }

def setOwner (taskId : String) (pod : Option String) : State :=
  { s with owner := Function.update s.owner taskId pod }

/-- Change the row of a task, which the scheduler then no longer counts as launched. -/
def onRow (taskId : String) (f : Row → Row) (hf : ∀ r, (f r).taskId = r.taskId) : State :=
  { s with
    rows := s.rows.updateWhere (fun r => r.taskId = taskId) f hf
    launched := s.launched.erase taskId }

end State

/-! ## Messages of the workers -/

/-- What a message handler raises: a local variable that no branch has set. -/
inductive Raised
  | unboundLocal
  deriving DecidableEq

/-- The new state, the returned pod, the pod to dispatch to, and the task whose end is reported. -/
structure Handled where
  state : State
  pod : Option String
  triggered : Option String := none
  doneTask : Option String := none

/-- `if tid`. -/
def truthy (taskId : Option String) : Option String := taskId.filter (· ≠ "")

def onHeartbeat (s : State) (pod : String) (w : Worker) (freeSlots : Option ℤ) : Handled where
  state := s.onWorker pod (·.setFree (freeSlots.getD w.freeSlots)) fun _ => rfl
  pod := pod
  triggered := if w.freeSlots < freeSlots.getD w.freeSlots then some pod else none

def onStatus (s : State) (pod : String) (taskId : Option String) (state : String) : Handled :=
  match truthy taskId with
  | none => { state := s, pod := pod }
  | some tid =>
    if state = "running" then
      { state := (s.setOwner tid pod).onWorker pod (·.addTask tid) fun _ => rfl, pod := pod }
    else if state = "rejected" then
      { state := (s.setOwner tid none).onWorker pod (·.discard tid) fun _ => rfl
        pod := pod
        triggered := pod }
    else { state := s, pod := pod }

def onDone (s : State) (pod : String) (taskId : Option String) : Handled where
  state :=
    match truthy taskId with
    | none => s.onWorker pod Worker.giveBack fun _ => rfl
    | some tid =>
      (s.setOwner tid none).onWorker pod (fun w => (w.discard tid).giveBack) fun _ => rfl
  pod := pod
  triggered := pod
  doneTask := taskId

/-- The critical section of a message from a registered worker. -/
def handleRegistered (s : State) (pod : String) (w : Worker) : Message → Handled
  | .heartbeat freeSlots => onHeartbeat s pod w freeSlots
  | .status taskId state => onStatus s pod taskId state
  | .done taskId => onDone s pod taskId
  | _ => { state := s, pod := pod }

/-- A message on a connection that has said HELLO as `pod`. -/
def handleNamed (s : State) (pod : Option String) (msg : Message) : Except Raised Handled :=
  match pod with
  | none => .ok { state := s, pod := none }
  | some pod =>
    match s.workers.lookup pod with
    | none => .error .unboundLocal
    | some w => .ok (handleRegistered s pod w msg)

/-- `_handle_worker_msg`, up to the dispatch that it triggers. `pod` is the one of the serving
thread. -/
def handleWorkerMsg (s : State) (conn : ℕ) (pod : Option String) : Message → Except Raised Handled
  | .hello name capacity freeSlots =>
    let cap := if capacity.getD 0 = 0 then 1 else capacity.getD 0
    .ok {
      state := { s with workers := s.workers.insertOrReplace {
        pod := name, conn := conn, capacity := cap, freeSlots := freeSlots.getD cap } }
      pod := some name }
  | msg => handleNamed s pod msg

/-! ## Lost workers -/

/-- What happens to the row of a lost worker's task. -/
def requeueRow (reason : String) (r : Row) : Row :=
  if r.parentOrchestrated then { r with
    ownerPod := none
    error := if r.error = "" then "waiting_parent_observe: " ++ reason else r.error }
  else { r with
    status := .pending
    ownerPod := none
    error := if r.error = "" then "requeued: " ++ reason else r.error }

theorem taskId_requeueRow (reason : String) (r : Row) :
    (requeueRow reason r).taskId = r.taskId := by
  unfold requeueRow
  split <;> rfl

/-- The rows that a requeue finds, at most `batch` of them. -/
def running (batch : ℕ) (s : State) (taskIds : Finset String) : List String :=
  ((s.rows.rows.filter fun r => r.taskId ∈ taskIds ∧ r.status = .running).map Row.taskId).take batch

/-- `_requeue_tasks`, with `RECLAIM_BATCH_SIZE`. -/
def requeueTasks (batch : ℕ) (s : State) (taskIds : Finset String) (reason : String) : State :=
  { s with
    rows := s.rows.updateWhere (fun r => r.taskId ∈ running batch s taskIds) (requeueRow reason)
      (taskId_requeueRow reason) }

/-- The workers that are taken out of the registry. -/
def lost (s : State) (pods : List String) : List Worker :=
  s.workers.rows.filter fun w => w.pod ∈ pods

def tasksOf (workers : List Worker) : Finset String := workers.toFinset.biUnion Worker.tasks

/-- Take workers out of the registry and put their tasks back. -/
def removeWorkers (batch : ℕ) (s : State) (pods : List String) (reason : String) : State :=
  requeueTasks batch { s with
      workers := s.workers.deleteWhere fun w => w.pod ∈ pods
      owner := fun taskId =>
        if taskId ∈ tasksOf (lost s pods) then none else s.owner taskId }
    (tasksOf (lost s pods)) reason

/-- `_on_worker_disconnect`: only a worker that still has this connection is lost. -/
def onWorkerDisconnect (batch : ℕ) (s : State) (pod : String) (conn : ℕ) : State :=
  match s.workers.lookup pod with
  | some w =>
    if w.conn = conn then removeWorkers batch s [pod] ("worker_disconnect:" ++ pod) else s
  | none => s

/-- The end of `_serve_worker`. -/
def endServing (batch : ℕ) (s : State) (conn : ℕ) (pod : Option String) : State :=
  match truthy pod with
  | none => s
  | some pod => onWorkerDisconnect batch s pod conn

/-! ## Dispatch -/

/-- The registry after LAUNCH is sent: the worker may be gone by then. -/
def takeSlot (s : State) (thread : Dispatch) : State :=
  match s.workers.lookup thread.pod with
  | some w =>
    if w.closed then s
    else (s.setOwner thread.taskId thread.pod).onWorker thread.pod (·.assign thread.taskId)
      fun _ => rfl
  | none => s

/-- The row after LAUNCH is sent, whatever it has become. -/
def commitRow (s : State) (thread : Dispatch) : State :=
  { s with
    rows := s.rows.updateWhere (fun r => r.taskId = thread.taskId)
      (fun r => { r with status := .running, ownerPod := thread.pod }) fun _ => rfl
    launched := insert thread.taskId s.launched }

/-! ## Commands -/

/-- The slot that a command takes from the worker which the task is assigned to. -/
def releaseTask (s : State) (taskId : String) : State :=
  match s.owner taskId with
  | none => s.setOwner taskId none
  | some pod =>
    if pod = "" then s.setOwner taskId none
    else (s.setOwner taskId none).onWorker pod (fun w => (w.discard taskId).giveBack) fun _ => rfl

/-- `_cmd_cancel`. -/
def cmdCancel (s : State) (taskId : String) : State :=
  match s.rows.lookup taskId with
  | none => s
  | some r =>
    if r.isDeleted ∨ r.status.isTerminal ∨ r.status = .pending then s
    else (releaseTask s taskId).onRow taskId (fun r => { r with
      status := .cancelled
      cancelRequested := true
      ownerPod := none
      error := if r.error = "" then "任务已取消" else r.error }) fun _ => rfl

/-- `_cmd_restart`. A running task is only told to end; its restart comes back with a cancel
command before it. -/
def cmdRestart (s : State) (taskId : String) : State :=
  match s.rows.lookup taskId with
  | none => s
  | some r =>
    if r.isDeleted ∨ r.status = .pending ∨ r.status = .running then s
    else (releaseTask s taskId).onRow taskId (fun r => { r with
      status := .pending
      cancelRequested := false }) fun _ => rfl

/-! ## The system -/

inductive Act
  | connect (conn : ℕ)
  | message (conn : ℕ) (msg : Message)
  /-- The serving thread of a connection ends. -/
  | disconnect (conn : ℕ)
  /-- A round of the reclaim loop finds the heartbeats of these pods too old. -/
  | reclaim (pods : List String)
  /-- `_dispatch_one_to(pod)` finds a free slot and the oldest pending row. -/
  | pick (pod taskId : String)
  | sendFails (thread : Dispatch)
  /-- LAUNCH is sent, and the slot is taken. -/
  | register (thread : Dispatch)
  /-- The row is set to running. -/
  | commit (thread : Dispatch)
  | cancel (taskId : String)
  | restart (taskId : String)
  /-- Another program writes a row: a task is created, it ends, or its owner changes it. -/
  | write (row : Row)
  deriving DecidableEq

def oldestPending (s : State) (taskId : String) : Bool :=
  let pending := s.rows.rows.filter fun r => !r.isDeleted && r.status = .pending
  pending.any fun r => r.taskId = taskId && pending.all fun other => r.createdAt ≤ other.createdAt

def step (batch : ℕ) (s : State) : Act → Option State
  | .connect conn =>
    if s.serving conn = none then
      some { s with serving := Function.update s.serving conn (some none) }
    else none
  | .message conn msg =>
    match s.serving conn with
    | none => none
    | some pod =>
      match handleWorkerMsg s conn pod msg with
      -- The exception is logged and the thread goes on.
      | .error _ => some s
      | .ok handled => some { handled.state with
          serving := Function.update handled.state.serving conn (some handled.pod) }
  | .disconnect conn =>
    match s.serving conn with
    | none => none
    | some pod =>
      some { endServing batch s conn pod with serving := Function.update s.serving conn none }
  | .reclaim pods => some (removeWorkers batch s pods "worker_heartbeat_stale")
  | .pick pod taskId =>
    if (s.workers.lookup pod).any (fun w => !w.closed && 0 < w.freeSlots) ∧
        oldestPending s taskId then
      some { s with dispatching := { pod := pod, taskId := taskId } :: s.dispatching }
    else none
  | .sendFails thread =>
    if thread ∈ s.dispatching ∧ thread.registered = false then
      some { s with dispatching := s.dispatching.erase thread }
    else none
  | .register thread =>
    if thread ∈ s.dispatching ∧ thread.registered = false then
      some { takeSlot s thread with
        dispatching := { thread with registered := true } :: s.dispatching.erase thread }
    else none
  | .commit thread =>
    if thread ∈ s.dispatching ∧ thread.registered = true then
      some { commitRow s thread with dispatching := s.dispatching.erase thread }
    else none
  | .cancel taskId => some (cmdCancel s taskId)
  | .restart taskId => some (cmdRestart s taskId)
  | .write row => some { s with
      rows := s.rows.insertOrReplace row
      launched := s.launched.erase row.taskId }

end SchedulerService
end EntryAnalyse
