import EntryAnalyse.ExecutionMoves

/-! The remaining writes of an execution whose task was claimed by another one since. None of
them compares the epoch, so each leaves the successor's row alone only under a condition of
its own, and the clearing of the dispatch fields and the terminal error never do. -/
namespace EntryAnalyse
namespace SupersededWrites

open Runs TaskRow ColumnWrite ExecutionCoordinator TaskRunner ExecutionSystem

variable {cfg : Settings}

/-- The columns that say in what state a task is and who works on it. -/
def dispatchColumns (row : TaskRow) :
    TaskStatus × Option String × Option ℤ × Option ℕ × ℕ :=
  (row.status,row.ownerPod,row.leaseExpiresAt,row.celeryTaskId,row.executionEpoch)

theorem dispatchColumns_eq_iff {r r' : TaskRow} : dispatchColumns r = dispatchColumns r' ↔
    r.status = r'.status ∧ r.ownerPod = r'.ownerPod ∧ r.leaseExpiresAt = r'.leaseExpiresAt ∧
      r.celeryTaskId = r'.celeryTaskId ∧ r.executionEpoch = r'.executionEpoch := by
  simp [dispatchColumns]

/-- The writes of an execution after its claim that touch these columns. -/
def isRemainingWrite : ExecAct → Bool
  | .clear | .ensureCommit _ | .step0Commit | .step3Commit _ | .step10Commit _ => true
  | _ => false

/-- A remaining write of an execution that was superseded, made while the row carries the
claim of the successor. -/
def isLate (cfg : Settings) (h : List (Event Sys Act)) (e : Event Sys Act) : Bool :=
  match e.act, claimants cfg h with
  | .exec a w, b :: earlier =>
    isRemainingWrite w && earlier.contains a && a != b && decide (e.pre.holds b)
  | _, _ => false

/-- When a remaining write of the execution `x` does no harm to a row that another execution
is running: never for the clearing and the terminal error; for Step 0 if its pod was the owner
when it loaded the row or is the owner now; for Step 3 if it loaded a failed row without an
owner; for Step 10 if its pod is not the owner. -/
def doesNoHarm (row : TaskRow) (x : Exec) : ExecAct → Bool
  | .clear | .ensureCommit _ => false
  | .step0Commit =>
    match x.op with
    | .step0Loaded l => decide (l.1.ownerPod = some x.pod ∨ row.ownerPod = some x.pod)
    | _ => true
  | .step3Commit _ =>
    match x.op with
    | .step3Loaded l => decide (l.status = .failed ∧ l.ownerPod = none)
    | _ => true
  | .step10Commit _ => decide (row.ownerPod ≠ some x.pod)
  | _ => true

/-- The same as a condition on a step. -/
def harmless (e : Event Sys Act) : Bool :=
  match e.act with
  | .exec a w => doesNoHarm e.pre.row (e.pre.execs a) w
  | _ => true

section Statements

variable {row : TaskRow} {o : String} {n : ℕ}

theorem clear_harms (h : row.heldBy o n) :
    dispatchColumns (clearRunningDispatchFields row) ≠ dispatchColumns row := by
  intro he
  have hown := (dispatchColumns_eq_iff.mp he).2.1
  rw [h.2.2.1] at hown
  cases hown

theorem ensure_harms {l : OpenRow} {now : ℤ} {err : String} (h : row.heldBy o n) :
    dispatchColumns (flush l.1 (ensureTarget now err l.1) row) ≠ dispatchColumns row := by
  intro he
  have hs := (dispatchColumns_eq_iff.mp he).1
  have hne : TaskStatus.error ≠ l.1.status := by
    intro hl
    have ht := l.2
    rw [← hl] at ht
    cases ht
  simp [ensureTarget,flushColumn_of_ne hne,h.2.1] at hs

theorem step0_keeps_iff {l : TaskRow} {now : ℤ} {pod : String} {ip : Option String}
    (h : row.heldBy o n) :
    dispatchColumns (flush l (step0Target now pod ip l) row) = dispatchColumns row ↔
      l.ownerPod = some pod ∨ row.ownerPod = some pod := by
  have hstatus : flushColumn l.status .running row.status = row.status :=
    (flushColumn_eq_current_iff ..).mpr (.inr h.2.1.symm)
  simp [dispatchColumns_eq_iff,step0Target,hstatus,flushColumn_eq_current_iff,
    @eq_comm _ (some pod)]

theorem step3_keeps_iff {l : TaskRow} {now : ℤ} {err : String} (h : row.heldBy o n) :
    dispatchColumns (flush l (step3Target now err l) row) = dispatchColumns row ↔
      l.status = .failed ∧ l.ownerPod = none := by
  simp [dispatchColumns_eq_iff,step3Target,flushColumn_eq_current_iff,h.2.1,h.2.2.1,
    @eq_comm _ TaskStatus.failed,@eq_comm _ none]

theorem step10_keeps_iff {l : TaskRow} {now : ℤ} {pod : String} {r : FinalResult}
    (h : row.heldBy o n) :
    dispatchColumns ((step10Write now pod r l row).getD row) = dispatchColumns row ↔
      row.ownerPod ≠ some pod := by
  constructor
  · intro he hown
    have hw : step10Write now pod r l row = some (step10Fields now r row) := by
      simp [step10Write,hown,h.2.1,step10_flush]
    rw [hw] at he
    have howner := (dispatchColumns_eq_iff.mp he).2.1
    simp [step10Fields,hown] at howner
  · intro hown
    simp [step10Write,hown]

end Statements

/-- One remaining write, made while some claim holds the row. -/
theorem remaining_write_keeps_iff {s s' : Sys} {a : ℕ} {w : ExecAct} {o : String} {n : ℕ}
    (hs : step cfg s (.exec a w) = some s') (hh : s.row.heldBy o n)
    (hw : isRemainingWrite w = true) :
    dispatchColumns s'.row = dispatchColumns s.row ↔
      doesNoHarm s.row (s.execs a) w = true := by
  have hm := step_move hs
  rw [hm.row_eq]
  generalize issued cfg s (.exec a w) = st at hm
  cases hm with
  | exec hl hm =>
    cases hm with
    | load ha => cases w <;> simp_all [isRemainingWrite,ExecAct.isWrite]
    | stop ha => cases w <;> simp_all [isRemainingWrite,ExecAct.isWrite]
    | claim hop ht hw' => simp [isRemainingWrite] at hw
    | renew hc => simp [isRemainingWrite] at hw
    | step0 hop => simpa [doesNoHarm,hop] using step0_keeps_iff hh
    | step2 hop => simp [isRemainingWrite] at hw
    | step3 hop => simpa [doesNoHarm,hop] using step3_keeps_iff hh
    | step10 hop => simpa [doesNoHarm] using step10_keeps_iff hh
    | ensure hop => simpa [doesNoHarm] using ensure_harms hh
    | clear => simpa [doesNoHarm] using clear_harms hh

/-- In every run, all late writes leave the successor's columns as they are exactly if each
of them meets its condition. -/
theorem late_writes_keep_iff_harmless {s u : Sys} {tr : List (Event Sys Act)}
    (h : Run (step cfg) s tr u) :
    Along (fun h e => isLate cfg h e → harmless e = true) tr ↔
      Along (fun h e => isLate cfg h e →
        dispatchColumns e.post.row = dispatchColumns e.pre.row) tr := by
  refine h.along_congr (J := fun _ _ => True) trivial (fun _ _ _ _ _ _ => trivial) ?_
  refine fun tr t a v _ hs => imp_congr_right fun hlate => ?_
  simp only [isLate] at hlate
  split at hlate
  · rename_i hact hc
    simp only [Bool.and_eq_true,decide_eq_true_eq] at hlate
    obtain ⟨⟨⟨hw,-⟩,-⟩,hb⟩ := hlate
    obtain ⟨k,-,hh⟩ := Sys.holds_iff.mp hb
    rw [remaining_write_keeps_iff hs hh hw]
    rfl
  · exact absurd hlate (by simp)

/-- Two executions on different pods with their messages in hand. -/
def twoPods : Sys where
  row := { celeryTaskId := some 0 }
  execs := fun n => { pod := if n = 0 then "pod-a" else "pod-b", celeryId := some n }

/-- Execution 0 claims the task and stalls; execution 1 takes over. -/
def takeover : List Act :=
  [.exec 0 .claimSelect,.exec 0 (.claimWrite 0),.exec 0 .step10Load,.tick 100,
    .exec 1 .claimSelect,.exec 1 (.claimWrite 100)]

/-- Step 10 of the superseded execution finds another owner and writes nothing. -/
theorem late_step10_keeps : ∃ tr u, Run (step {}) twoPods tr u ∧ claimants {} tr = [1,0] ∧
    u.row.ownerPod = some "pod-b" ∧ Along (fun h e => isLate {} h e →
      dispatchColumns e.post.row = dispatchColumns e.pre.row) tr := by
  obtain ⟨tr,u,h,hp⟩ := exists_run_of_replay (step {}) twoPods
    (takeover ++ [.exec 0 (.step10Commit ⟨.passed,none,rfl⟩)])
    (p := fun tr u => decide (Along (fun h e => isLate {} h e → harmless e = true) tr) &&
      decide (claimants {} tr = [1,0]) && decide (u.row.ownerPod = some "pod-b")) (by decide)
  simp only [Bool.and_eq_true,decide_eq_true_eq] at hp
  exact ⟨tr,u,h,hp.1.2,hp.2,(late_writes_keep_iff_harmless h).mp hp.1.1⟩

/-- The finally block of the superseded execution takes the row away from the successor. -/
theorem late_clear_robs_successor : ∃ tr u, Initial twoPods ∧ Run (step {}) twoPods tr u ∧
    claimants {} tr = [1,0] ∧ u.row.status = .running ∧ u.row.ownerPod = none ∧
    ¬ Along (fun h e => isLate {} h e →
      dispatchColumns e.post.row = dispatchColumns e.pre.row) tr := by
  obtain ⟨tr,u,h,hp⟩ := exists_run_of_replay (step {}) twoPods
    (takeover ++ [.exec 0 (.step10Commit ⟨.passed,none,rfl⟩),.exec 0 .clear])
    (p := fun tr u => decide (claimants {} tr = [1,0]) && decide (u.row.status = .running) &&
      decide (u.row.ownerPod = none) && !decide (Along (fun h e => isLate {} h e →
        dispatchColumns e.post.row = dispatchColumns e.pre.row) tr)) (by decide)
  simp only [Bool.and_eq_true,Bool.not_eq_true',decide_eq_true_eq,decide_eq_false_iff_not] at hp
  obtain ⟨⟨⟨hc,hs⟩,ho⟩,hnot⟩ := hp
  exact ⟨tr,u,⟨fun _ => rfl,fun _ => rfl,fun _ => rfl,rfl,rfl⟩,h,hc,hs,ho,hnot⟩

end SupersededWrites
end EntryAnalyse
