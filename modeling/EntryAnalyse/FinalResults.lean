import EntryAnalyse.StaleScan

/-! Results and claims that are committed between the read and the write-back of a dispatcher
round. The round writes back by primary key what it decided at the read, so it undoes a result
committed in the gap, and it takes a claim made in the gap away unless the object it loaded
had nothing to clear. -/
namespace EntryAnalyse
namespace FinalResults

open Runs TaskRow ColumnWrite Dispatcher ExecutionSystem StaleScan

variable {cfg : Settings}

/-- The terminal states that an execution commits. -/
def isResult : TaskStatus → Bool
  | .passed | .failed | .error => true
  | _ => false

/-- The step commits a result. -/
def commitsResult (e : Event Sys Act) : Bool :=
  !isResult e.pre.row.status && isResult e.post.row.status

/-- A result has been committed since the stale scan's last read. -/
def resultSinceRead (tr : List (Event Sys Act)) : Bool :=
  watch (fun g e =>
    match e.act with
    | .scan (.read _) => false
    | _ => g || commitsResult e) false tr

/-- The object has no owner, lease or epoch that a reset would have to clear. -/
def unowned (row : TaskRow) : Bool :=
  decide (row.ownerPod = none ∧ row.leaseExpiresAt = none ∧ row.executionEpoch = 0)

/-- The object a dispatcher round is about to write back. -/
def writeBack (s : Sys) : Act → Option TaskRow
  | .scan .commit =>
    match s.scan with
    | .resetting _ l => some l.1
    | _ => none
  | .scan .recoverCommit =>
    match s.scan with
    | .recovering l => some l.1
    | _ => none
  | _ => none

/-- No result was committed between the stale scan's read and its write-back. -/
def noResultInGap (h : List (Event Sys Act)) (e : Event Sys Act) : Bool :=
  match e.act with
  | .scan .commit => !resultSinceRead h
  | _ => true

/-- No claim was written between a round's read and its write-back, or the round's object was
unowned. -/
def claimOutOfReach (cfg : Settings) (h : List (Event Sys Act)) (e : Event Sys Act) : Bool :=
  match writeBack e.pre e.act with
  | some l => !claimedSinceRead cfg h || unowned l
  | none => true

/-- The condition on a round's write-back. -/
def gapHarmless (cfg : Settings) (h : List (Event Sys Act)) (e : Event Sys Act) : Bool :=
  noResultInGap h e && claimOutOfReach cfg h e

/-- The owner, the lease and the epoch are the same in both rows. -/
def sameClaim (r r' : TaskRow) : Prop :=
  r'.ownerPod = r.ownerPod ∧ r'.leaseExpiresAt = r.leaseExpiresAt ∧
    r'.executionEpoch = r.executionEpoch

instance (r r' : TaskRow) : Decidable (sameClaim r r') :=
  inferInstanceAs (Decidable (_ ∧ _ ∧ _))

/-- A round's write-back sets no committed result back to pending, and leaves a claim made
since its read alone. -/
def keepsCommitted (cfg : Settings) (h : List (Event Sys Act)) (e : Event Sys Act) : Prop :=
  (writeBack e.pre e.act).isSome = true →
    (isResult e.pre.row.status = true → e.post.row.status ≠ .pending) ∧
      (claimedSinceRead cfg h = true → sameClaim e.pre.row e.post.row)

instance (h : List (Event Sys Act)) (e : Event Sys Act) : Decidable (keepsCommitted cfg h e) :=
  inferInstanceAs (Decidable (_ → _))

theorem resultSinceRead_cons {e : Event Sys Act} {tr : List (Event Sys Act)}
    (ha : ∀ t, e.act ≠ .scan (.read t)) :
    resultSinceRead (e :: tr) = (resultSinceRead tr || commitsResult e) := by
  simp only [resultSinceRead,watch_cons]

theorem writeBack_isSome {s : Sys} {a : Act} (h : (writeBack s a).isSome = true) :
    ∃ b, a = .scan b ∧ b.isWrite = true := by
  unfold writeBack at h
  split at h
  · exact ⟨_,rfl,rfl⟩
  · exact ⟨_,rfl,rfl⟩
  · cases h

/-- A row that the stale scan read as running can have a result only if one was committed
since. -/
def ResultNoted (tr : List (Event Sys Act)) (s : Sys) : Prop :=
  ∀ ids l, s.scan = .resetting ids l → isResult s.row.status = true → resultSinceRead tr = true

/-- A write-back that only clears leaves the claim alone if there was nothing to clear. -/
theorem sameClaim_flush {l t row : TaskRow} (hl : unowned l = true) (ho : t.ownerPod = none)
    (hx : t.leaseExpiresAt = none) (he : t.executionEpoch = 0) :
    sameClaim row (flush l t row) := by
  obtain ⟨h₁,h₂,h₃⟩ := of_decide_eq_true hl
  simp [sameClaim,h₁,h₂,h₃,ho,hx,he]

theorem resultNoted_step {s s' : Sys} {a : Act} {tr : List (Event Sys Act)}
    (hs : step cfg s a = some s') (hj : ResultNoted tr s) :
    ResultNoted (⟨s,a,s'⟩ :: tr) s' := by
  intro ids l hscan hres
  have hm := step_move hs
  -- unless the scan has just read the row, the object was there before the step
  have hkeep : s.scan = .resetting ids l → (∀ t, a ≠ .scan (.read t)) →
      resultSinceRead (⟨s,a,s'⟩ :: tr) = true := by
    intro hbefore ha
    rw [resultSinceRead_cons ha]
    cases hpre : isResult s.row.status with
    | true => simp [hj ids l hbefore hpre]
    | false => simp [commitsResult,hpre,hres]
  generalize issued cfg s a = st at hm
  cases hm with
  | scan hm =>
    cases hm with
    | load ha hsettled =>
      simp only at hscan
      subst hscan
      exact hsettled.elim
    | read hth ht hx =>
      simp [Sys.send,isResult,(staleResets_iff.mp hx).1] at hres
    | commit hth => cases hscan
    | recoverRead hth hx => cases hscan
    | recoverCommit hth => cases hscan
  | pump hm => cases hm <;> exact hkeep hscan (by simp)
  | _ => exact hkeep hscan (by simp)

theorem round_keepsCommitted {s s' : Sys} {a : Act} {tr : List (Event Sys Act)}
    (hs : step cfg s a = some s') (hj : ResultNoted tr s)
    (hc : gapHarmless cfg tr ⟨s,a,s'⟩ = true) : keepsCommitted cfg tr ⟨s,a,s'⟩ := by
  intro hw
  obtain ⟨b,rfl,hb⟩ := writeBack_isSome hw
  simp only [gapHarmless,Bool.and_eq_true,claimOutOfReach] at hc
  obtain ⟨hresult,hclaim⟩ := hc
  have hm := step_move hs
  rw [hm.row_eq]
  generalize issued cfg s (.scan b) = st at hm
  cases hm with
  | scan hm =>
    cases hm with
    | load ha _ => rw [hb] at ha; cases ha
    | read hth ht hx => cases hb
    | commit hth =>
      rename_i ids l
      simp only [writeBack,hth,Bool.or_eq_true,Bool.not_eq_true'] at hclaim
      refine ⟨fun hres => ?_,fun hcl => ?_⟩
      · have hnoted := hj ids l hth hres
        simp [noResultInGap,hnoted] at hresult
      · have hun := hclaim.resolve_left (by simp [hcl])
        exact sameClaim_flush hun rfl rfl rfl
    | recoverRead hth hx => cases hb
    | recoverCommit hth =>
      rename_i l
      simp only [writeBack,hth,Bool.or_eq_true,Bool.not_eq_true'] at hclaim
      refine ⟨fun hres hp => ?_,fun hcl => ?_⟩
      · have hsame : s.row.status = .pending := by simpa [recoverTarget] using hp
        simp [hsame,isResult] at hres
      · have hun := hclaim.resolve_left (by simp [hcl])
        exact sameClaim_flush hun rfl rfl rfl

/-- In every run whose round write-backs meet the condition, no dispatcher round sets a
committed result back to pending or takes away a claim made since its read. -/
theorem rounds_keep_committed {s u : Sys} {tr : List (Event Sys Act)} (h₀ : Initial s)
    (h : Run (step cfg) s tr u) (hc : Along (fun h e => gapHarmless cfg h e = true) tr) :
    Along (keepsCommitted cfg) tr := by
  refine h.along_of_invariant hc (J := ResultNoted) ?_
    (fun tr t a v hj _ hs => resultNoted_step hs hj)
    (fun tr t a v hj hc hs => round_keepsCommitted hs hj hc)
  intro ids l hscan
  rw [h₀.scanIdle] at hscan
  cases hscan

/-- A worker whose renewals have been failing for longer than the threshold, a message that
is still active, and the round that reads the row. -/
def slowWorker : List Act :=
  [.exec 0 .claimSelect,.exec 0 (.claimWrite 0),.tick 700,.scan (.inspect [7]),
    .scan (.read 700)]

/-- Nobody commits anything in the gap. -/
theorem quiet_round_resets : ∃ tr u, Run (step {}) oneWorker tr u ∧ u.row.status = .pending ∧
    u.row.executionEpoch = 0 ∧ Along (keepsCommitted {}) tr := by
  obtain ⟨tr,u,h,hp⟩ := exists_run_of_replay (step {}) oneWorker
    (slowWorker ++ [.scan .commit])
    (p := fun tr u => decide (Along (fun h e => gapHarmless {} h e = true) tr) &&
      decide (u.row.status = .pending) && decide (u.row.executionEpoch = 0)) (by decide)
  simp only [Bool.and_eq_true,decide_eq_true_eq] at hp
  exact ⟨tr,u,h,hp.1.2,hp.2,rounds_keep_committed oneWorker_initial h hp.1.1⟩

/-- Step 10 commits between the read and the write-back: the passed task is pending again. -/
theorem passed_task_reset : ∃ tr u, Initial oneWorker ∧ Run (step {}) oneWorker tr u ∧
    resultSinceRead tr = true ∧ u.row.status = .pending ∧ ¬ Along (keepsCommitted {}) tr := by
  obtain ⟨tr,u,h,hp⟩ := exists_run_of_replay (step {}) oneWorker
    (slowWorker ++ [.exec 0 .step10Load,.exec 0 (.step10Commit ⟨.passed,none,rfl⟩),
      .scan .commit])
    (p := fun tr u => resultSinceRead tr && decide (u.row.status = .pending) &&
      !decide (Along (keepsCommitted {}) tr)) (by decide)
  simp only [Bool.and_eq_true,Bool.not_eq_true',decide_eq_true_eq,decide_eq_false_iff_not] at hp
  exact ⟨tr,u,oneWorker_initial,h,hp.1.1,hp.1.2,hp.2⟩

end FinalResults
end EntryAnalyse
