import EntryAnalyse.TaskRow

/-! The rounds of app/dispatcher.py on one task row: the startup reset, the pump, the stale
scan and the recovery of pending rows whose message was lost. -/
namespace EntryAnalyse
namespace Dispatcher

/-- `_startup_reset`: two guarded UPDATEs in one transaction. -/
def startupReset (row : TaskRow) : TaskRow :=
  if row.status = .running ∧ row.isDeleted = false then
    { row with
      status := .pending
      celeryTaskId := none
      ownerPod := none
      ownerPodIp := none
      leaseExpiresAt := none
      executionEpoch := 0 }
  else if row.status = .pending ∧ row.isDeleted = false ∧ row.celeryTaskId ≠ none then
    { row with
      celeryTaskId := none
      ownerPod := none
      leaseExpiresAt := none
      executionEpoch := 0 }
  else row

/-- The rows `_pump_once` publishes. -/
def pumpSelects (row : TaskRow) : Bool :=
  decide (row.status = .pending) && !row.isDeleted && decide (row.celeryTaskId = none)

/-- The object `_pump_once` commits after a publish. -/
def pumpTarget (cid : ℕ) (loaded : TaskRow) : TaskRow :=
  { loaded with celeryTaskId := some cid }

/-- `cid is not None and cid in active_ids`. -/
def inActive (activeIds : List ℕ) (row : TaskRow) : Bool :=
  match row.celeryTaskId with
  | none => false
  | some cid => decide (cid ∈ activeIds)

/-- `hb is None or (now - hb).total_seconds() > STALE_HEARTBEAT_SECONDS`. -/
def heartbeatStale (cfg : Settings) (now : ℤ) (row : TaskRow) : Bool :=
  match row.executionHeartbeatAt with
  | none => true
  | some hb => decide (now - hb > cfg.staleHeartbeat)

/-- The running rows `_stale_once` loads and then decides to reset. -/
def staleResets (cfg : Settings) (now : ℤ) (activeIds : List ℕ) (row : TaskRow) : Bool :=
  decide (row.status = .running) && !row.isDeleted &&
    !(inActive activeIds row && !heartbeatStale cfg now row)

/-- The object `_stale_once` commits for such a row. -/
def staleTarget (loaded : TaskRow) : TaskRow :=
  { loaded with
    status := .pending
    celeryTaskId := none
    ownerPod := none
    ownerPodIp := none
    leaseExpiresAt := none
    executionEpoch := 0 }

/-- The pending rows whose message id `_recover_pending_stale_cid` erases. -/
def recoverResets (activeIds : List ℕ) (row : TaskRow) : Bool :=
  decide (row.status = .pending) && !row.isDeleted && decide (row.celeryTaskId ≠ none) &&
    !inActive activeIds row

/-- The object `_recover_pending_stale_cid` commits for such a row. -/
def recoverTarget (loaded : TaskRow) : TaskRow :=
  { loaded with
    celeryTaskId := none
    ownerPod := none
    ownerPodIp := none
    leaseExpiresAt := none
    executionEpoch := 0 }

theorem pumpSelects_iff {row : TaskRow} : pumpSelects row = true ↔
    row.status = .pending ∧ row.isDeleted = false ∧ row.celeryTaskId = none := by
  simp [pumpSelects,and_assoc]

theorem staleResets_iff {cfg : Settings} {now : ℤ} {ids : List ℕ} {row : TaskRow} :
    staleResets cfg now ids row = true ↔
      row.status = .running ∧ row.isDeleted = false ∧
        (inActive ids row = true → heartbeatStale cfg now row = true) := by
  simp only [staleResets,Bool.and_eq_true,decide_eq_true_eq,Bool.not_eq_true',and_assoc]
  cases inActive ids row <;> cases heartbeatStale cfg now row <;> simp

theorem recoverResets_iff {ids : List ℕ} {row : TaskRow} :
    recoverResets ids row = true ↔
      row.status = .pending ∧ row.isDeleted = false ∧ row.celeryTaskId ≠ none ∧
        inActive ids row = false := by
  simp [recoverResets,and_assoc]

/-- A heartbeat within the period at a later reading is within it at an earlier one. -/
theorem heartbeatStale_mono {cfg : Settings} {t now : ℤ} {row : TaskRow} (ht : t ≤ now)
    (h : heartbeatStale cfg now row = false) : heartbeatStale cfg t row = false := by
  unfold heartbeatStale at h ⊢
  cases hb : row.executionHeartbeatAt with
  | none => simp [hb] at h
  | some b =>
    simp only [hb,decide_eq_false_iff_not] at h ⊢
    omega

end Dispatcher
end EntryAnalyse
