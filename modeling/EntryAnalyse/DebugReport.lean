import EntryAnalyse.TaskRow

/-! The committed row of one diagnosis report, with the statements that claim, renew, run, finish
and reset it. It is dispatched like a task, by a second copy of the same protocol. The snapshot of
the task that the runner stores in the report is left out, since nothing here reads it. -/
namespace EntryAnalyse

open ColumnWrite

/-- The values of the status column. -/
inductive DebugStatus
  | pending | running | passed | failed | skipped | error
  deriving DecidableEq, Repr

/-- The statuses with which a report is finished. -/
def DebugStatus.isTerminal : DebugStatus → Bool
  | .passed | .failed | .skipped | .error => true
  | .pending | .running => false

/-- The columns that hold what the diagnosis has found. -/
inductive ResultField
  | model | error | phenomenon | rootCause | solution | codeScene | patchCode | reportPath
  | rawOutput
  deriving DecidableEq, Repr

/-- `AppEaDebugReport`. -/
structure DebugRow where
  status : DebugStatus := .pending
  isDeleted : Bool := false
  celeryTaskId : Option ℕ := none
  ownerPod : Option String := none
  leaseExpiresAt : Option ℤ := none
  executionEpoch : ℕ := 0
  executionHeartbeatAt : Option ℤ := none
  startedAt : Option ℤ := none
  finishedAt : Option ℤ := none
  result : ResultField → Option String := fun _ => none

namespace DebugRow

/-- Flush of a row object loaded as `loaded` and assigned to until it reads `target`. -/
def flush (loaded target current : DebugRow) : DebugRow where
  status := flushColumn loaded.status target.status current.status
  isDeleted := flushColumn loaded.isDeleted target.isDeleted current.isDeleted
  celeryTaskId := flushColumn loaded.celeryTaskId target.celeryTaskId current.celeryTaskId
  ownerPod := flushColumn loaded.ownerPod target.ownerPod current.ownerPod
  leaseExpiresAt := flushColumn loaded.leaseExpiresAt target.leaseExpiresAt current.leaseExpiresAt
  executionEpoch := flushColumn loaded.executionEpoch target.executionEpoch current.executionEpoch
  executionHeartbeatAt :=
    flushColumn loaded.executionHeartbeatAt target.executionHeartbeatAt current.executionHeartbeatAt
  startedAt := flushColumn loaded.startedAt target.startedAt current.startedAt
  finishedAt := flushColumn loaded.finishedAt target.finishedAt current.finishedAt
  result := fun f => flushColumn (loaded.result f) (target.result f) (current.result f)

/-- The row is running under the claim `(owner,epoch)`: the guard of `renew_debug_lease`. -/
def heldBy (row : DebugRow) (owner : String) (epoch : ℕ) : Prop :=
  row.isDeleted = false ∧ row.status = .running ∧ row.ownerPod = some owner ∧
    row.executionEpoch = epoch

instance (row : DebugRow) (owner : String) (epoch : ℕ) : Decidable (row.heldBy owner epoch) :=
  inferInstanceAs (Decidable (_ ∧ _ ∧ _ ∧ _))

end DebugRow

namespace DebugReport

/-! ## `execution_coordinator` -/

/-- `lease_expires_at is None or lease_expires_at < now`. -/
def leaseExpired (now : ℤ) (row : DebugRow) : Bool :=
  match row.leaseExpiresAt with
  | none => true
  | some l => decide (l < now)

/-- What the SELECT of `claim_debug_report` leaves behind. -/
structure Candidate where
  now : ℤ
  expectedStatus : DebugStatus
  epoch : ℕ
  unfinished : expectedStatus.isTerminal = false
  deriving DecidableEq, Repr

/-- `claim_debug_report` up to the UPDATE. -/
def claimCandidate (now : ℤ) (row : DebugRow) : Option Candidate :=
  if row.isDeleted then none
  else match row.status with
    | .pending => some ⟨now,.pending,row.executionEpoch,rfl⟩
    | .running =>
      if leaseExpired now row then some ⟨now,.running,row.executionEpoch,rfl⟩ else none
    | _ => none

def Candidate.newEpoch (c : Candidate) : ℕ := c.epoch + 1

/-- The write step: the UPDATE guarded by the expected status alone, the second UPDATE to running,
and the commit. -/
def claimWrite (c : Candidate) (owner : String) (deadline : ℤ) (row : DebugRow) :
    Option DebugRow :=
  if row.isDeleted = false ∧ row.status = c.expectedStatus then
    some { row with
      ownerPod := some owner
      leaseExpiresAt := some deadline
      executionHeartbeatAt := some c.now
      executionEpoch := c.newEpoch
      startedAt := some c.now
      status := .running }
  else none

/-- `renew_debug_lease`: the row after the guarded UPDATE, and the result. -/
def renewDebugLease (now ttl : ℤ) (owner : String) (epoch : ℕ) (row : DebugRow) :
    DebugRow × Bool :=
  if row.heldBy owner epoch then
    ({ row with leaseExpiresAt := some (now + ttl), executionHeartbeatAt := some now },true)
  else (row,false)

/-- `clear_debug_dispatch_fields`: no guard besides the report id, and the status stays. -/
def clearDebugDispatchFields (row : DebugRow) : DebugRow :=
  { row with
    celeryTaskId := none
    ownerPod := none
    leaseExpiresAt := none
    executionEpoch := 0 }

/-! ## `debug_runner` and its fallback -/

/-- `_run_debug` marks the report as running, whatever it was. -/
def runTarget (now : ℤ) (pod : String) (loaded : DebugRow) : DebugRow :=
  { loaded with
    status := .running
    ownerPod := some pod
    startedAt := loaded.startedAt.or (some now) }

/-- What `_finish_report` is given; it is called with `passed`, `failed` and `skipped`. -/
structure Finding where
  status : DebugStatus
  result : ResultField → Option String
  terminal : status.isTerminal = true

/-- `_finish_report`. -/
def finishTarget (now : ℤ) (r : Finding) (loaded : DebugRow) : DebugRow :=
  { loaded with
    status := r.status
    finishedAt := some now
    result := r.result }

/-- Membership in `("passed","failed","error")`, as `_ensure_debug_terminal_error` tests it. -/
def knownTerminal : DebugStatus → Bool
  | .passed | .failed | .error => true
  | .pending | .running | .skipped => false

def ensureTarget (now : ℤ) (err : String) (loaded : DebugRow) : DebugRow :=
  { loaded with
    status := .error
    finishedAt := some now
    result := Function.update loaded.result .error
      (some ("debug celery 异常: " ++ String.ofList (err.toList.take 400))) }

/-! ## The dispatcher's rounds -/

def startupReset (row : DebugRow) : DebugRow :=
  if row.status = .running ∧ row.isDeleted = false then
    { row with
      status := .pending
      celeryTaskId := none
      ownerPod := none
      leaseExpiresAt := none
      executionEpoch := 0 }
  else row

/-- The rows `_debug_pump_once` publishes. -/
def pumpSelects (row : DebugRow) : Bool :=
  decide (row.status = .pending) && !row.isDeleted && decide (row.celeryTaskId = none)

def pumpTarget (cid : ℕ) (loaded : DebugRow) : DebugRow :=
  { loaded with celeryTaskId := some cid }

/-- `cid is not None and cid in active_ids`. -/
def inActive (activeIds : List ℕ) (row : DebugRow) : Bool :=
  match row.celeryTaskId with
  | none => false
  | some cid => decide (cid ∈ activeIds)

/-- `hb is None or (now - hb).total_seconds() > STALE_HEARTBEAT_SECONDS`. -/
def heartbeatStale (cfg : Settings) (now : ℤ) (row : DebugRow) : Bool :=
  match row.executionHeartbeatAt with
  | none => true
  | some hb => decide (now - hb > cfg.staleHeartbeat)

/-- The running rows `_debug_stale_once` loads and then decides to reset. -/
def staleResets (cfg : Settings) (now : ℤ) (activeIds : List ℕ) (row : DebugRow) : Bool :=
  decide (row.status = .running) && !row.isDeleted &&
    !(inActive activeIds row && !heartbeatStale cfg now row)

/-- The fields that both halves of the round clear. -/
def recoverTarget (loaded : DebugRow) : DebugRow :=
  { loaded with
    celeryTaskId := none
    ownerPod := none
    leaseExpiresAt := none
    executionEpoch := 0 }

def staleTarget (loaded : DebugRow) : DebugRow :=
  { recoverTarget loaded with status := .pending }

/-- The pending rows whose message id the second half of the round erases. -/
def recoverResets (activeIds : List ℕ) (row : DebugRow) : Bool :=
  decide (row.status = .pending) && !row.isDeleted && decide (row.celeryTaskId ≠ none) &&
    !inActive activeIds row

/-! ## What the statements do -/

theorem claimWrite_eq_some {c : Candidate} {owner : String} {deadline : ℤ} {row row' : DebugRow}
    (h : claimWrite c owner deadline row = some row') :
    row.isDeleted = false ∧ row.status = c.expectedStatus ∧ row'.status = .running ∧
      row'.ownerPod = some owner ∧ row'.executionEpoch = c.newEpoch ∧
      row'.isDeleted = row.isDeleted ∧ row'.result = row.result ∧
      row'.finishedAt = row.finishedAt := by
  unfold claimWrite at h
  split at h
  · rename_i hg
    cases h
    exact ⟨hg.1,hg.2,rfl,rfl,rfl,rfl,rfl,rfl⟩
  · cases h

theorem claimCandidate_unfinished {now : ℤ} {row : DebugRow} {c : Candidate}
    (h : claimCandidate now row = some c) : row.status = c.expectedStatus := by
  unfold claimCandidate at h
  split at h
  · cases h
  · split at h
    · rename_i hs
      cases h
      exact hs
    · rename_i hs
      split at h
      · cases h
        exact hs
      · cases h
    · cases h

end DebugReport
end EntryAnalyse
