import EntryAnalyse.ExecutionMoves

/-! What becomes of a task after `cancel_task` has reported success. The claim, Step 10 and the
resets that compare the status leave a finished row alone; the writes that do not are those of
Step 0, Step 3 and the stale scan, and a cancel that finds its task pending again reports
success without having cancelled it. -/
namespace EntryAnalyse
namespace Cancellation

open Runs TaskRow ColumnWrite ExecutionCoordinator TaskRunner TaskService Dispatcher
open ExecutionSystem

variable {cfg : Settings}

/-- The step is the return of `cancel_task` to its caller. -/
def reports (e : Event Sys Act) : Bool :=
  match e.act with
  | .api _ .cancelRefresh => decide (e.pre.row.status ≠ .running)
  | .api _ .cancelFinish => true
  | _ => false

/-- The step belongs to a call of `restart_task` or `resume_task`. -/
def isRequeue : Act → Bool
  | .api _ (.requeueLoad _) | .api _ .requeueCommit | .api _ .requeueRefresh
  | .api _ .requeueFinish => true
  | _ => false

/-- A cancellation has been reported, and no restart or resume was at work since. -/
def reported (tr : List (Event Sys Act)) : Bool :=
  watch (fun g e => !isRequeue e.act && (g || reports e)) false tr

/-- The states that a cancelled task must not be moved to. -/
def reopened : TaskStatus → Bool
  | .running | .passed | .failed => true
  | _ => false

/-- The step does not move a reportedly cancelled task to running, passed or failed. -/
def staysCancelled (h : List (Event Sys Act)) (e : Event Sys Act) : Prop :=
  reported h = true → isRequeue e.act = false → reopened e.post.row.status = true →
    e.post.row.status = e.pre.row.status

instance (h : List (Event Sys Act)) (e : Event Sys Act) : Decidable (staysCancelled h e) :=
  inferInstanceAs (Decidable (_ → _))

/-- A write-back that would reopen a finished row: Step 0 with an object it loaded in another
state than running, Step 3 with one it loaded in another state than failed, and any reset of
the stale scan. -/
def overwritesStatus (s : Sys) : Act → Bool
  | .exec n .step0Commit =>
    match (s.execs n).op with
    | .step0Loaded l => decide (l.1.status ≠ .running)
    | _ => false
  | .exec n (.step3Commit _) =>
    match (s.execs n).op with
    | .step3Loaded l => decide (l.status ≠ .failed)
    | _ => false
  | .scan .commit => true
  | _ => false

/-- A cancel call does not find its task pending when it rereads the row. -/
def refreshDecides (e : Event Sys Act) : Bool :=
  match e.act with
  | .api _ .cancelRefresh => decide (e.pre.row.status ≠ .pending)
  | _ => true

/-- The condition on a step: the reread decides, and no overwriting write-back follows a
report. -/
def cancelSafe (h : List (Event Sys Act)) (e : Event Sys Act) : Bool :=
  refreshDecides e && !(reported h && overwritesStatus e.pre e.act)

/-- Where a step may take the status of a finished row. -/
def Settled (before after : TaskStatus) : Prop :=
  after = before ∨ after = .cancelled ∨ after = .error

theorem Settled.terminal {b a : TaskStatus} (h : Settled b a) (hb : b.isTerminal = true) :
    a.isTerminal = true := by
  rcases h with rfl | rfl | rfl
  · exact hb
  · rfl
  · rfl

theorem Settled.eq_of_reopened {b a : TaskStatus} (h : Settled b a) (ha : reopened a = true) :
    a = b := by
  rcases h with rfl | rfl | rfl
  · rfl
  · cases ha
  · cases ha

theorem settled_flush {l t row : TaskRow}
    (h : t.status = l.status ∨ t.status = .cancelled ∨ t.status = .error) :
    Settled row.status (flush l t row).status := by
  rcases h with h | h
  · exact .inl (by simp [h])
  · rcases flushColumn_eq_or l.status t.status row.status with hc | ht
    · exact .inl hc
    · exact .inr (by simpa [ht] using h)

/-- One step from a finished row, apart from the overwriting ones and a requeue. -/
theorem move_settled {s s' : Sys} {a : Act} {st : Statement} (hm : Move cfg s a st s')
    (ht : s.row.status.isTerminal = true) (hq : isRequeue a = false)
    (ho : overwritesStatus s a = false) : Settled s.row.status s'.row.status := by
  have hrun : s.row.status ≠ .running := by intro h; simp [h] at ht
  have hpend : s.row.status ≠ .pending := by intro h; simp [h] at ht
  rw [hm.row_eq]
  cases hm with
  | tick d => exact .inl rfl
  | deliver hq => exact .inl rfl
  | redeliver => exact .inl rfl
  | exec hl hm =>
    cases hm with
    | load ha => exact .inl rfl
    | stop ha => exact .inl rfl
    | claim hop htime hw =>
      -- the guard of the claim asks for the status it selected, which was not a finished one
      rename_i c t row'
      have hopen := c.unfinished
      rw [← (claimWrite_eq_some hw).2.1,ht] at hopen
      cases hopen
    | renew hc => exact .inl (by simp)
    | step0 hop =>
      rename_i l
      have hl : l.1.status = .running := by simpa [overwritesStatus,hop] using ho
      exact settled_flush (.inl hl.symm)
    | step2 hop => exact settled_flush (.inl rfl)
    | step3 hop =>
      rename_i l err
      have hl : l.status = .failed := by simpa [overwritesStatus,hop] using ho
      exact settled_flush (.inl hl.symm)
    | step10 hop => exact .inl (by simp [step10Write,hrun])
    | ensure hop => exact settled_flush (.inr (.inr rfl))
    | clear => exact .inl rfl
  | api hm =>
    cases hm with
    | load ha => exact .inl rfl
    | cancelRequest hop =>
      refine settled_flush ?_
      simp only [cancelRequestTarget]
      split
      · exact .inr (.inl rfl)
      · exact .inl rfl
    | cancelFinal hop => exact settled_flush (.inr (.inl rfl))
    | requeueCancel hop => simp [isRequeue] at hq
    | requeuePending hop => simp [isRequeue] at hq
  | startupReset => exact .inl (by simp [startupReset,hrun,hpend])
  | pump hm =>
    cases hm with
    | commit hth => exact settled_flush (.inl rfl)
    | _ => exact .inl rfl
  | scan hm =>
    cases hm with
    | load ha hs => exact .inl rfl
    | read hth htime h => exact .inl rfl
    | commit hth => simp [overwritesStatus] at ho
    | recoverRead hth h => exact .inl rfl
    | recoverCommit hth => exact settled_flush (.inl rfl)

/-- When the report is made, the task is finished. -/
theorem report_finished {s s' : Sys} {a : Act} (hs : step cfg s a = some s')
    (hr : reports ⟨s,a,s'⟩ = true) (hd : refreshDecides ⟨s,a,s'⟩ = true) :
    s'.row.status.isTerminal = true := by
  have hm := step_move hs
  generalize issued cfg s a = st at hm
  have hrow := hm.row_eq
  cases hm with
  | api hm =>
    cases hm with
    | load ha =>
      rename_i b op'
      cases b <;> simp [reports,ApiAct.isWrite] at hr ha
      simp only [apply_nothing] at hrow
      have hpend : s.row.status ≠ .pending := by simpa [refreshDecides] using hd
      rw [hrow]
      cases ht : s.row.status.isTerminal with
      | true => rfl
      | false =>
        rcases TaskStatus.not_terminal ht with h | h
        · exact absurd h hpend
        · exact absurd h hr
    | cancelFinal hop =>
      rename_i l
      have hne : TaskStatus.cancelled ≠ l.1.status := by simp [l.2]
      rw [hrow]
      simp [cancelFinalTarget,flushColumn_of_ne hne]
    | _ => simp [reports] at hr
  | _ => simp [reports] at hr

/-- The invariant: a reportedly cancelled task is finished. -/
theorem finished_step {s s' : Sys} {a : Act} {tr : List (Event Sys Act)}
    (hs : step cfg s a = some s') (hj : reported tr = true → s.row.status.isTerminal = true)
    (hc : cancelSafe tr ⟨s,a,s'⟩ = true) :
    reported (⟨s,a,s'⟩ :: tr) = true → s'.row.status.isTerminal = true := by
  intro hr
  simp only [cancelSafe,Bool.and_eq_true,Bool.not_eq_true',Bool.and_eq_false_iff] at hc
  have hr' : isRequeue a = false ∧ (reported tr = true ∨ reports ⟨s,a,s'⟩ = true) := by
    simpa [reported] using hr
  rcases hr'.2 with hb | hb
  · have ho := hc.2.resolve_left (by simp [hb])
    exact (move_settled (step_move hs) (hj hb) hr'.1 ho).terminal (hj hb)
  · exact report_finished hs hb hc.1

/-- In every run in which no cancel finds its task pending again and no overwriting write-back
follows a report, a reportedly cancelled task is never moved to running, passed or failed. -/
theorem cancelled_stays_cancelled {s u : Sys} {tr : List (Event Sys Act)}
    (h : Run (step cfg) s tr u) (hc : Along (fun h e => cancelSafe h e = true) tr) :
    Along staysCancelled tr := by
  refine h.along_of_invariant hc
    (J := fun tr s => reported tr = true → s.row.status.isTerminal = true)
    (by simp [reported]) (fun tr t a v hj hc hs => finished_step hs hj hc) ?_
  intro tr t a v hj hc hs hr hq hre
  simp only [cancelSafe,Bool.and_eq_true,Bool.not_eq_true',Bool.and_eq_false_iff] at hc
  have ho := hc.2.resolve_left (by simp [hr])
  exact (move_settled (step_move hs) (hj hr) hq ho).eq_of_reopened hre

/-- One worker with its message in hand. -/
def queuedTask : Sys where
  row := { celeryTaskId := some 0 }
  execs := fun _ => { pod := "pod-a", celeryId := some 0 }

/-- The cancel of a running task. -/
def cancelRunningTask : List Act :=
  [.api 0 .cancelLoad,.api 0 .cancelCommit,.api 0 .cancelRefresh,.api 0 .cancelFinish]

/-- Step 10 of the cancelled execution changes nothing. -/
theorem step10_after_cancel : ∃ tr u, Run (step {}) queuedTask tr u ∧ reported tr = true ∧
    u.row.status = .cancelled ∧ Along staysCancelled tr := by
  obtain ⟨tr,u,h,hp⟩ := exists_run_of_replay (step {}) queuedTask
    ([.exec 0 .claimSelect,.exec 0 (.claimWrite 0),.exec 0 .step10Load] ++
      cancelRunningTask ++ [.exec 0 (.step10Commit ⟨.passed,none,rfl⟩),.exec 0 .clear])
    (p := fun tr u => decide (Along (fun h e => cancelSafe h e = true) tr) && reported tr &&
      decide (u.row.status = .cancelled)) (by decide)
  simp only [Bool.and_eq_true,decide_eq_true_eq] at hp
  exact ⟨tr,u,h,hp.1.2,hp.2,cancelled_stays_cancelled h hp.1.1⟩

/-- The worker fails to prepare its LLM runtime while the task is being cancelled: the failure
write of Step 3 turns the cancelled task into a failed one. -/
theorem step3_fails_cancelled_task : ∃ tr u, Initial queuedTask ∧
    Run (step {}) queuedTask tr u ∧ reported tr = true ∧ u.row.status = .failed ∧
    ¬ Along staysCancelled tr := by
  obtain ⟨tr,u,h,hp⟩ := exists_run_of_replay (step {}) queuedTask
    ([.exec 0 .claimSelect,.exec 0 (.claimWrite 0)] ++ cancelRunningTask ++
      [.exec 0 .step3Load,.exec 0 (.step3Commit "no runtime")])
    (p := fun tr u => reported tr && decide (u.row.status = .failed) &&
      !decide (Along staysCancelled tr)) (by decide)
  simp only [Bool.and_eq_true,Bool.not_eq_true',decide_eq_true_eq,decide_eq_false_iff_not] at hp
  exact ⟨tr,u,⟨fun _ => rfl,fun _ => rfl,fun _ => rfl,rfl,rfl⟩,h,hp.1.1,hp.1.2,hp.2⟩

end Cancellation
end EntryAnalyse
