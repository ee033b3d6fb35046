import EntryAnalyse.ExecutionMoves

/-! The stale scan against a worker that keeps its lease renewed. The scan resets the worker's
row only when the answer of Celery's inspect call lacks the row's message id at the read, or
when the claim falls between the read and the write-back of a round. -/
namespace EntryAnalyse
namespace StaleScan

open Runs TaskRow ExecutionCoordinator Dispatcher ExecutionSystem

variable {cfg : Settings}

/-- A claim has been written since the last read of the scan thread. -/
def claimedSinceRead (cfg : Settings) (tr : List (Event Sys Act)) : Bool :=
  watch (fun g e =>
    match e.act with
    | .scan (.read _) | .scan .recoverRead => false
    | _ => g || (claimedBy cfg e).isSome) false tr

/-- Every live execution that holds the row has renewed its lease within the threshold. -/
def renewsInTime (cfg : Settings) (h : List (Event Sys Act)) (e : Event Sys Act) : Prop :=
  ∀ n ∈ claimants cfg h, e.pre.worksOn n → heartbeatStale cfg e.pre.now e.pre.row = false

/-- When the scan reads a row that a live execution holds, the ids it got from the inspect
call contain the id in the row. -/
def listsWorker (cfg : Settings) (h : List (Event Sys Act)) (e : Event Sys Act) : Prop :=
  match e.act, e.pre.scan with
  | .scan (.read _), .inspected ids =>
    ∀ n ∈ claimants cfg h, e.pre.worksOn n → inActive ids e.pre.row = true
  | _, _ => True

/-- No claim is written between the read of the stale scan and its write-back. -/
def noClaimInGap (cfg : Settings) (h : List (Event Sys Act)) (e : Event Sys Act) : Prop :=
  match e.act with
  | .scan .commit => claimedSinceRead cfg h = false
  | _ => True

/-- The scan does not reset a task whose worker is alive and has renewed in time. -/
def sparesWorker (cfg : Settings) (h : List (Event Sys Act)) (e : Event Sys Act) : Prop :=
  match e.act with
  | .scan .commit =>
    ∀ n ∈ claimants cfg h, e.pre.worksOn n → heartbeatStale cfg e.pre.now e.pre.row = true
  | _ => True

section Decide

variable (h : List (Event Sys Act)) (e : Event Sys Act)

instance : Decidable (renewsInTime cfg h e) :=
  inferInstanceAs (Decidable (∀ n ∈ claimants cfg h, _ → _))
instance : Decidable (listsWorker cfg h e) := by unfold listsWorker; split <;> infer_instance
instance : Decidable (noClaimInGap cfg h e) := by unfold noClaimInGap; split <;> infer_instance
instance : Decidable (sparesWorker cfg h e) := by unfold sparesWorker; split <;> infer_instance

end Decide

/-- The row object that the scan is about to write back had no worker when it was read, and
got one since only by a claim. -/
def Unattended (cfg : Settings) (tr : List (Event Sys Act)) (s : Sys) : Prop :=
  ∀ ids l, s.scan = .resetting ids l → claimedSinceRead cfg tr = false → ∀ n, ¬ s.worksOn n

/-- A row that the scan decides to reset has no worker, if the inspect answer is complete. -/
theorem read_unattended {s : Sys} {tr : List (Event Sys Act)} {ids : List ℕ} {t : ℤ}
    (hg : ClaimsGranted cfg tr s)
    (hr : ∀ n ∈ claimants cfg tr, s.worksOn n → heartbeatStale cfg s.now s.row = false)
    (hl : ∀ n ∈ claimants cfg tr, s.worksOn n → inActive ids s.row = true) (ht : t ≤ s.now)
    (hx : staleResets cfg t ids s.row = true) (n : ℕ) : ¬ s.worksOn n := by
  intro hw
  obtain ⟨k,hk,-⟩ := Sys.holds_iff.mp hw.2
  have hmem := (hg n k hk).1
  have hstale := (staleResets_iff.mp hx).2.2 (hl n hmem hw)
  have hfresh := heartbeatStale_mono ht (hr n hmem hw)
  rw [hfresh] at hstale
  cases hstale

/-- Outside the scan thread's reads, the observer's flag is only ever raised. -/
theorem claimedSinceRead_back {e : Event Sys Act} {tr : List (Event Sys Act)}
    (ha : ∀ a, e.act ≠ .scan a) (h : claimedSinceRead cfg (e :: tr) = false) :
    claimedSinceRead cfg tr = false ∧ claimedBy cfg e = none := by
  simp only [claimedSinceRead,watch_cons] at h ⊢
  split at h
  · exact absurd ‹_› (ha _)
  · exact absurd ‹_› (ha _)
  · simpa using h

theorem unattended_step {s s' : Sys} {a : Act} {tr : List (Event Sys Act)}
    (hs : step cfg s a = some s') (hg : ClaimsGranted cfg tr s) (hu : Unattended cfg tr s)
    (h0 : isStep0Commit a = false) (hr : renewsInTime cfg tr ⟨s,a,s'⟩)
    (hl : listsWorker cfg tr ⟨s,a,s'⟩) : Unattended cfg (⟨s,a,s'⟩ :: tr) s' := by
  intro ids l hscan hflag n hw
  have hm := step_move hs
  -- a step of any other party leaves the scan thread's object as it is
  have hother : (∀ b, a ≠ .scan b) → s'.scan = s.scan → False := by
    intro ha hsame
    obtain ⟨hflag,hnone⟩ := claimedSinceRead_back ha hflag
    refine hu ids l (hsame ▸ hscan) hflag n (hm.worksOn_back hg h0 ?_ hw)
    intro c o ip d hst
    rw [hst] at hm
    cases hm with
    | exec _ h => simp [claimedBy,hst] at hnone
    | api h => cases h
    | pump h => cases h
    | scan h => cases h
  cases a with
  | scan b =>
    generalize issued cfg s (.scan b) = st at hm
    cases hm with
    | scan hm =>
      cases hm with
      | load _ hsettled =>
        simp only at hscan
        subst hscan
        exact hsettled
      | read hth ht hx =>
        simp only [ScanThread.resetting.injEq] at hscan
        simp only [listsWorker,hth] at hl
        exact read_unattended hg hr hl ht hx n hw
      | commit hth => cases hscan
      | recoverRead hth hx => cases hscan
      | recoverCommit hth => cases hscan
  | pump b =>
    refine hother (by simp) ?_
    generalize issued cfg s (.pump b) = st at hm
    cases hm with
    | pump hm => cases hm <;> rfl
  | _ =>
    refine hother (by simp) ?_
    generalize issued cfg s _ = st at hm
    cases hm
    rfl

/-- In every run whose workers renew in time, whose inspect answers contain the worker of the
row they are compared with, and in which no claim falls into the gap of a round, the stale
scan resets no task that is being worked on. -/
theorem stale_scan_spares_workers {s u : Sys} {tr : List (Event Sys Act)} (h₀ : Initial s)
    (h : Run (step cfg) s tr u) (h0 : Along (fun _ e => isStep0Commit e.act = false) tr)
    (hr : Along (renewsInTime cfg) tr) (hl : Along (listsWorker cfg) tr)
    (hc : Along (noClaimInGap cfg) tr) : Along (sparesWorker cfg) tr := by
  refine h.along_of_invariant
    (along_and.mpr ⟨h0,along_and.mpr ⟨hr,along_and.mpr ⟨hl,hc⟩⟩⟩)
    (J := fun tr s => ClaimsGranted cfg tr s ∧ Unattended cfg tr s)
    ⟨claimsGranted_initial h₀,?_⟩ ?_ ?_
  · intro ids l hscan
    rw [h₀.scanIdle] at hscan
    cases hscan
  · rintro tr t a v ⟨hg,hu⟩ ⟨h0,hr,hl,-⟩ hs
    exact ⟨claimsGranted_step hs hg,unattended_step hs hg hu h0 hr hl⟩
  · rintro tr t a v ⟨hg,hu⟩ ⟨-,-,-,hc⟩ hs
    simp only [sparesWorker,noClaimInGap] at hc ⊢
    split
    · have hm := step_move hs
      generalize issued cfg t (.scan .commit) = st at hm
      intro n hn hw
      cases hm with
      | scan hm =>
        cases hm with
        | load ha _ => cases ha
        | commit hth => exact absurd hw (hu _ _ hth hc n)
    · trivial

/-- One execution with its message in hand. -/
def oneWorker : Sys where
  row := { celeryTaskId := some 7 }
  execs := fun _ => { pod := "pod-a", celeryId := some 7 }

theorem oneWorker_initial : Initial oneWorker := ⟨fun _ => rfl,fun _ => rfl,fun _ => rfl,rfl,rfl⟩

/-- A round that spares the worker, and a later one that resets its row after its death. -/
theorem dead_worker_reset : ∃ tr u, Run (step {}) oneWorker tr u ∧ claimants {} tr = [0] ∧
    u.row.status = .pending ∧ Along (sparesWorker {}) tr := by
  obtain ⟨tr,u,h,hp⟩ := exists_run_of_replay (step {}) oneWorker
    [.exec 0 .claimSelect,.exec 0 (.claimWrite 0),.scan (.inspect [7]),.tick 30,
      .exec 0 .renew,.scan (.read 30),.scan .recoverRead,.exec 0 .die,.tick 700,
      .scan (.inspect []),.scan (.read 730),.scan .commit]
    (p := fun tr u => decide (Along (fun _ e => isStep0Commit e.act = false) tr) &&
      decide (Along (renewsInTime {}) tr) && decide (Along (listsWorker {}) tr) &&
      decide (Along (noClaimInGap {}) tr) && decide (claimants {} tr = [0]) &&
      decide (u.row.status = .pending)) (by decide)
  simp only [Bool.and_eq_true,decide_eq_true_eq] at hp
  obtain ⟨⟨⟨⟨⟨h0,hr⟩,hl⟩,hc⟩,hn⟩,hs⟩ := hp
  exact ⟨tr,u,h,hn,hs,stale_scan_spares_workers oneWorker_initial h h0 hr hl hc⟩

/-- The inspect call fails, which yields the empty answer: the scan resets the row that its
worker has claimed in the same second. -/
theorem failed_inspect_resets_worker : ∃ tr u, Initial oneWorker ∧
    Run (step {}) oneWorker tr u ∧ Along (fun _ e => isStep0Commit e.act = false) tr ∧
    Along (renewsInTime {}) tr ∧ u.row.status = .pending ∧ ¬ Along (sparesWorker {}) tr := by
  obtain ⟨tr,u,h,hp⟩ := exists_run_of_replay (step {}) oneWorker
    [.exec 0 .claimSelect,.exec 0 (.claimWrite 0),.scan (.inspect []),.scan (.read 0),
      .scan .commit]
    (p := fun tr u => decide (Along (fun _ e => isStep0Commit e.act = false) tr) &&
      decide (Along (renewsInTime {}) tr) && decide (u.row.status = .pending) &&
      !decide (Along (sparesWorker {}) tr)) (by decide)
  simp only [Bool.and_eq_true,Bool.not_eq_true',decide_eq_true_eq,decide_eq_false_iff_not] at hp
  obtain ⟨⟨⟨h0,hr⟩,hs⟩,hnot⟩ := hp
  exact ⟨tr,u,oneWorker_initial,h,h0,hr,hs,hnot⟩

end StaleScan
end EntryAnalyse
