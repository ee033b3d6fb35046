import EntryAnalyse.TaskRow

/-! The writes of the API calls `cancel_task`, `restart_task` and `resume_task` of
app/service/task_service.py on the task row. Each call commits twice and reloads the row
object in between. -/
namespace EntryAnalyse
namespace TaskService

/-- The object of the first commit of `cancel_task`: the request alone for a running task,
the whole cancellation for a pending one. -/
def cancelRequestTarget (now : ℤ) (loaded : TaskRow) : TaskRow :=
  if loaded.status = .pending then
    { loaded with
      cancelRequested := true
      status := .cancelled
      finishedAt := some now
      ownerPod := none
      ownerPodIp := none
      leaseExpiresAt := none }
  else { loaded with cancelRequested := true }

/-- The object of the second commit, made when the reloaded row is running. -/
def cancelFinalTarget (now : ℤ) (loaded : TaskRow) : TaskRow :=
  { loaded with
    status := .cancelled
    finishedAt := some now
    celeryTaskId := none
    ownerPod := none
    ownerPodIp := none
    leaseExpiresAt := none
    executionEpoch := 0 }

/-- The two calls that put a task back into the queue. -/
inductive Requeue
  | restartTask | resumeTask
  deriving DecidableEq, Repr

/-- Both calls first cancel a task they find running or pending; only a restart also raises
the cancel request. -/
def requeueCancelTarget (k : Requeue) (now : ℤ) (loaded : TaskRow) : TaskRow :=
  { loaded with
    status := .cancelled
    finishedAt := some now
    cancelRequested := match k with
      | .restartTask => true
      | .resumeTask => loaded.cancelRequested }

/-- The object both calls commit last. -/
def requeuePendingTarget (loaded : TaskRow) : TaskRow :=
  { loaded with
    status := .pending
    celeryTaskId := none
    ownerPod := none
    ownerPodIp := none
    leaseExpiresAt := none
    executionEpoch := 0
    executionHeartbeatAt := none
    startedAt := none
    finishedAt := none
    error := none
    cancelRequested := false }

end TaskService
end EntryAnalyse
