import EntryAnalyse.TaskRow

/-! The claim, the lease renewal and the clearing of dispatch fields, as
app/service/execution_coordinator.py performs them on one task row. `claim_specific_task`
is two steps: the candidate SELECT and the later guarded write. -/
namespace EntryAnalyse
namespace ExecutionCoordinator

/-- `lease_expires_at is None or lease_expires_at < now`. -/
def leaseExpired (now : ℤ) (row : TaskRow) : Bool :=
  match row.leaseExpiresAt with
  | none => true
  | some l => decide (l < now)

/-- What the candidate SELECT of `claim_specific_task` leaves behind: the caller's clock
reading, the status its UPDATE will expect, and the epoch it read. A finished task is no
candidate. -/
structure Candidate where
  now : ℤ
  expectedStatus : TaskStatus
  epoch : ℕ
  unfinished : expectedStatus.isTerminal = false
  deriving DecidableEq, Repr

/-- `claim_specific_task` up to the UPDATE: only a pending row, or a running row whose
lease has run out, is a candidate. -/
def claimCandidate (now : ℤ) (row : TaskRow) : Option Candidate :=
  if row.isDeleted then none
  else match row.status with
    | .pending => some ⟨now,.pending,row.executionEpoch,rfl⟩
    | .running =>
      if leaseExpired now row then some ⟨now,.running,row.executionEpoch,rfl⟩ else none
    | _ => none

/-- `new_epoch = int(candidate.execution_epoch or 0) + 1`. -/
def Candidate.newEpoch (c : Candidate) : ℕ := c.epoch + 1

/-- The `update_fields` of the claim; a takeover first puts the row back to pending. -/
def claimFields (c : Candidate) (owner : String) (ip : Option String) (deadline : ℤ)
    (row : TaskRow) : TaskRow :=
  { row with
    ownerPod := some owner
    ownerPodIp := ip
    leaseExpiresAt := some deadline
    executionHeartbeatAt := some c.now
    executionEpoch := c.newEpoch
    startedAt := some c.now
    finishedAt := none
    error := none
    cancelRequested := false
    status := if c.expectedStatus = .running then .pending else row.status }

/-- The write step: the UPDATE guarded by the expected status alone, the second UPDATE to
running, and the commit. `none` is the zero-row outcome. -/
def claimWrite (c : Candidate) (owner : String) (ip : Option String) (deadline : ℤ)
    (row : TaskRow) : Option TaskRow :=
  if row.isDeleted = false ∧ row.status = c.expectedStatus then
    some { claimFields c owner ip deadline row with status := .running }
  else none

/-- `renew_lease`: the row after the guarded UPDATE, and the result. -/
def renewLease (now ttl : ℤ) (owner : String) (epoch : ℕ) (row : TaskRow) : TaskRow × Bool :=
  if row.heldBy owner epoch then
    ({ row with leaseExpiresAt := some (now + ttl), executionHeartbeatAt := some now },true)
  else (row,false)

/-- `clear_running_dispatch_fields`: no guard besides the task id, and the status stays. -/
def clearRunningDispatchFields (row : TaskRow) : TaskRow :=
  { row with
    celeryTaskId := none
    ownerPod := none
    ownerPodIp := none
    leaseExpiresAt := none
    executionEpoch := 0 }

/-- Everything a claim that goes through does to the row. -/
theorem claimWrite_eq_some {c : Candidate} {owner : String} {ip : Option String}
    {deadline : ℤ} {row row' : TaskRow} (h : claimWrite c owner ip deadline row = some row') :
    row.isDeleted = false ∧ row.status = c.expectedStatus ∧
      row' = { claimFields c owner ip deadline row with status := .running } := by
  unfold claimWrite at h
  split at h
  · rename_i hg
    exact ⟨hg.1,hg.2,(Option.some.inj h).symm⟩
  · simp at h

/-- A claimant that is let in finds its own pod and epoch in the row. -/
theorem claimWrite_heldBy {c : Candidate} {owner : String} {ip : Option String}
    {deadline : ℤ} {row row' : TaskRow} (h : claimWrite c owner ip deadline row = some row') :
    row'.heldBy owner c.newEpoch := by
  obtain ⟨hd,-,rfl⟩ := claimWrite_eq_some h
  exact ⟨hd,rfl,rfl,rfl⟩

theorem renewLease_true_iff {now ttl : ℤ} {owner : String} {epoch : ℕ} {row : TaskRow} :
    (renewLease now ttl owner epoch row).2 = true ↔ row.heldBy owner epoch := by
  unfold renewLease
  split <;> simp_all

/-- A renewal touches only the lease and the heartbeat. -/
@[simp] theorem renewLease_status (now ttl : ℤ) (owner : String) (epoch : ℕ) (row : TaskRow) :
    (renewLease now ttl owner epoch row).1.status = row.status := by
  unfold renewLease; split <;> rfl
@[simp] theorem renewLease_isDeleted (now ttl : ℤ) (owner : String) (epoch : ℕ)
    (row : TaskRow) : (renewLease now ttl owner epoch row).1.isDeleted = row.isDeleted := by
  unfold renewLease; split <;> rfl
@[simp] theorem renewLease_ownerPod (now ttl : ℤ) (owner : String) (epoch : ℕ)
    (row : TaskRow) : (renewLease now ttl owner epoch row).1.ownerPod = row.ownerPod := by
  unfold renewLease; split <;> rfl
@[simp] theorem renewLease_executionEpoch (now ttl : ℤ) (owner : String) (epoch : ℕ)
    (row : TaskRow) :
    (renewLease now ttl owner epoch row).1.executionEpoch = row.executionEpoch := by
  unfold renewLease; split <;> rfl
@[simp] theorem renewLease_celeryTaskId (now ttl : ℤ) (owner : String) (epoch : ℕ)
    (row : TaskRow) :
    (renewLease now ttl owner epoch row).1.celeryTaskId = row.celeryTaskId := by
  unfold renewLease; split <;> rfl

/-- Whose claim the row carries is untouched by a renewal. -/
theorem renewLease_heldBy_iff (now ttl : ℤ) (owner o : String) (epoch e : ℕ)
    (row : TaskRow) :
    (renewLease now ttl owner epoch row).1.heldBy o e ↔ row.heldBy o e := by
  simp [TaskRow.heldBy]

end ExecutionCoordinator
end EntryAnalyse
