import EntryAnalyse.TaskRow

/-! The writes an execution makes on its task row after the claim: Step 0, Step 2, the LLM
failure of Step 3 and Step 10 of `run_task`, and `_ensure_terminal_error` of
app/celery_tasks.py. Each loads the row first and writes it back later. -/
namespace EntryAnalyse
namespace TaskRunner

open TaskRow

/-- `text[:n]`. -/
def clip (n : ℕ) (text : String) : String := String.ofList (text.toList.take n)

/-- Step 0 goes on unless the row it read is cancelled or has a cancel request. -/
def step0Proceeds (row : TaskRow) : Bool :=
  !(decide (row.status = .cancelled) || row.cancelRequested)

/-- The object Step 0 commits. -/
def step0Target (now : ℤ) (pod : String) (ip : Option String) (loaded : TaskRow) : TaskRow :=
  { loaded with
    status := .running
    ownerPod := some pod
    ownerPodIp := ip
    startedAt := some now }

/-- Step 2 clears the runtime fields of the previous run. -/
def step2Target (loaded : TaskRow) : TaskRow :=
  { loaded with error := none, finishedAt := none }

/-- The failure write of Step 3, made when the LLM runtime cannot be prepared. -/
def step3Target (now : ℤ) (err : String) (loaded : TaskRow) : TaskRow :=
  { loaded with
    status := .failed
    error := some ("LLM 运行时准备失败: " ++ clip 400 err)
    finishedAt := some now
    ownerPod := none }

/-- What Step 10 reports: the status of the pipeline result, or `"error"` without one. A
`TaskResult` that `Orchestrator.execute` returns is never left pending or running. -/
structure FinalResult where
  status : TaskStatus
  error : Option String
  terminal : status.isTerminal = true

/-- The fields of the terminal UPDATE of Step 10. -/
def step10Fields (now : ℤ) (r : FinalResult) (row : TaskRow) : TaskRow :=
  { row with
    status := r.status
    error := r.error
    finishedAt := some now
    ownerPod := none
    ownerPodIp := none
    leaseExpiresAt := none
    executionHeartbeatAt := none
    celeryTaskId := none
    cancelRequested := false }

/-- Step 10 first loads the row by task id and owner. -/
def step10Loads (pod : String) (row : TaskRow) : Bool := decide (row.ownerPod = some pod)

/-- Step 10 after the load: the UPDATE guarded by owner and status, then the same values
assigned to the loaded object and flushed with the commit. `none` is the zero-row outcome,
which returns without a commit. -/
def step10Write (now : ℤ) (pod : String) (r : FinalResult) (loaded row : TaskRow) :
    Option TaskRow :=
  if row.ownerPod = some pod ∧ row.status = .running then
    some (flush loaded (step10Fields now r loaded) (step10Fields now r row))
  else none

/-- The object `_ensure_terminal_error` commits. -/
def ensureTarget (now : ℤ) (err : String) (loaded : TaskRow) : TaskRow :=
  { loaded with
    status := .error
    error := some ("celery task 异常: " ++ clip 400 err)
    finishedAt := some now }

/-- The flush that follows Step 10's UPDATE stores nothing new. -/
theorem step10_flush (now : ℤ) (r : FinalResult) (loaded row : TaskRow) :
    flush loaded (step10Fields now r loaded) (step10Fields now r row) = step10Fields now r row := by
  simp [flush,step10Fields]

theorem step10Write_eq_some {now : ℤ} {pod : String} {r : FinalResult}
    {loaded row row' : TaskRow} (h : step10Write now pod r loaded row = some row') :
    row.ownerPod = some pod ∧ row.status = .running ∧ row' = step10Fields now r row := by
  unfold step10Write at h
  split at h
  · rename_i hg
    rw [step10_flush] at h
    exact ⟨hg.1,hg.2,(Option.some.inj h).symm⟩
  · simp at h

end TaskRunner
end EntryAnalyse
