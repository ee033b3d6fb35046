import Mathlib.Tactic
import EntryAnalyse.ColumnWrite

/-! The committed row of one entry-analysis task, with the columns that dispatch, claim,
cancel and finish a task, and the write-back of a loaded row object. Columns that none of
these paths reads (paths, prompts, result documents, the cancel audit timestamps) are left
out. Readings of `now_local` are integers, in seconds; ids of queue messages are numbers, of
which only equality is ever used. -/
namespace EntryAnalyse

open ColumnWrite

/-- `TaskStatus` of app/models.py, the values of the status column. -/
inductive TaskStatus
  | pending | running | passed | failed | error | cancelled
  deriving DecidableEq, Repr

namespace TaskStatus

/-- Membership in `("passed","failed","error","cancelled")`, as several paths test it. -/
def isTerminal : TaskStatus → Bool
  | .passed | .failed | .error | .cancelled => true
  | .pending | .running => false

@[simp] theorem isTerminal_pending : TaskStatus.pending.isTerminal = false := rfl
@[simp] theorem isTerminal_running : TaskStatus.running.isTerminal = false := rfl
@[simp] theorem isTerminal_cancelled : TaskStatus.cancelled.isTerminal = true := rfl

theorem not_terminal {s : TaskStatus} (h : s.isTerminal = false) : s = .pending ∨ s = .running := by
  cases s <;> simp_all [isTerminal]

end TaskStatus

/-- The environment-configured periods: `EA_LEASE_TTL_SECONDS` and
`EA_DISPATCHER_STALE_HEARTBEAT_SECONDS`. -/
structure Settings where
  leaseTtl : ℤ := 90
  staleHeartbeat : ℤ := 600

/-- `AppEaTask`. -/
structure TaskRow where
  status : TaskStatus := .pending
  isDeleted : Bool := false
  celeryTaskId : Option ℕ := none
  ownerPod : Option String := none
  ownerPodIp : Option String := none
  leaseExpiresAt : Option ℤ := none
  executionEpoch : ℕ := 0
  executionHeartbeatAt : Option ℤ := none
  cancelRequested : Bool := false
  startedAt : Option ℤ := none
  finishedAt : Option ℤ := none
  error : Option String := none
  deriving DecidableEq, Repr

namespace TaskRow

/-- Flush of a row object loaded as `loaded` and assigned to until it reads `target`:
an `UPDATE ... WHERE id = ...` of the changed columns only, on the `current` row. -/
def flush (loaded target current : TaskRow) : TaskRow where
  status := flushColumn loaded.status target.status current.status
  isDeleted := flushColumn loaded.isDeleted target.isDeleted current.isDeleted
  celeryTaskId := flushColumn loaded.celeryTaskId target.celeryTaskId current.celeryTaskId
  ownerPod := flushColumn loaded.ownerPod target.ownerPod current.ownerPod
  ownerPodIp := flushColumn loaded.ownerPodIp target.ownerPodIp current.ownerPodIp
  leaseExpiresAt := flushColumn loaded.leaseExpiresAt target.leaseExpiresAt current.leaseExpiresAt
  executionEpoch := flushColumn loaded.executionEpoch target.executionEpoch current.executionEpoch
  executionHeartbeatAt :=
    flushColumn loaded.executionHeartbeatAt target.executionHeartbeatAt current.executionHeartbeatAt
  cancelRequested := flushColumn loaded.cancelRequested target.cancelRequested current.cancelRequested
  startedAt := flushColumn loaded.startedAt target.startedAt current.startedAt
  finishedAt := flushColumn loaded.finishedAt target.finishedAt current.finishedAt
  error := flushColumn loaded.error target.error current.error

section Flush

variable (l t c : TaskRow)

@[simp] theorem flush_status : (flush l t c).status = flushColumn l.status t.status c.status := rfl
@[simp] theorem flush_celeryTaskId :
    (flush l t c).celeryTaskId = flushColumn l.celeryTaskId t.celeryTaskId c.celeryTaskId := rfl
@[simp] theorem flush_ownerPod :
    (flush l t c).ownerPod = flushColumn l.ownerPod t.ownerPod c.ownerPod := rfl
@[simp] theorem flush_leaseExpiresAt :
    (flush l t c).leaseExpiresAt =
      flushColumn l.leaseExpiresAt t.leaseExpiresAt c.leaseExpiresAt := rfl
@[simp] theorem flush_executionEpoch :
    (flush l t c).executionEpoch =
      flushColumn l.executionEpoch t.executionEpoch c.executionEpoch := rfl

end Flush

/-- The row is running under the claim `(owner,epoch)`: the guard of `renew_lease`. -/
def heldBy (row : TaskRow) (owner : String) (epoch : ℕ) : Prop :=
  row.isDeleted = false ∧ row.status = .running ∧ row.ownerPod = some owner ∧
    row.executionEpoch = epoch

instance (row : TaskRow) (owner : String) (epoch : ℕ) : Decidable (row.heldBy owner epoch) :=
  inferInstanceAs (Decidable (_ ∧ _ ∧ _ ∧ _))

/-- A row carries at most one claim. -/
theorem heldBy_unique {row : TaskRow} {o o' : String} {e e' : ℕ} (h : row.heldBy o e)
    (h' : row.heldBy o' e') : o = o' ∧ e = e' :=
  ⟨Option.some.inj (h.2.2.1.symm.trans h'.2.2.1),h.2.2.2.symm.trans h'.2.2.2⟩

end TaskRow
end EntryAnalyse
