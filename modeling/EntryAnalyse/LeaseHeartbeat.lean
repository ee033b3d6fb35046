import EntryAnalyse.Runs
import EntryAnalyse.ExecutionCoordinator
import EntryAnalyse.DebugReport

/-! The thread that renews the lease of an execution, beside the main function that does the work.
Executions of tasks and of debug reports have the same thread; what they do to their row is a
parameter. Any number of executions follow one row, the clock may advance at any time, and whatever
else happens to the row is arbitrary. -/
namespace EntryAnalyse
namespace LeaseHeartbeat

open Runs

/-! ## The row -/

/-- The claim, in its two statements, and the renewal: `ρ` is the row and `κ` what the SELECT of the
claim leaves behind. The last argument of a statement is the row. -/
structure LeaseOps (ρ κ : Type) where
  candidate : (now : ℤ) → ρ → Option κ
  write : κ → (owner : String) → (deadline : ℤ) → ρ → Option ρ
  epoch : κ → ℕ
  renew : (now ttl : ℤ) → (owner : String) → (epoch : ℕ) → ρ → ρ × Bool

/-- `claim_specific_task` and `renew_lease`; `ip` is the address of a pod. -/
def taskOps (ip : String → Option String) : LeaseOps TaskRow ExecutionCoordinator.Candidate where
  candidate := ExecutionCoordinator.claimCandidate
  write := fun c owner deadline => ExecutionCoordinator.claimWrite c owner (ip owner) deadline
  epoch := ExecutionCoordinator.Candidate.newEpoch
  renew := ExecutionCoordinator.renewLease

/-- `claim_debug_report` and `renew_debug_lease`. -/
def debugOps : LeaseOps DebugRow DebugReport.Candidate where
  candidate := DebugReport.claimCandidate
  write := DebugReport.claimWrite
  epoch := DebugReport.Candidate.newEpoch
  renew := DebugReport.renewDebugLease

/-! ## The executions -/

variable {ρ κ : Type}

inductive Main (κ : Type)
  | idle
  | selected (c : κ)
  | running (epoch : ℕ)
  | finished
  | killed

/-- The loop of the thread: it waits until the next attempt, or it has ended. -/
inductive Beat
  | off
  | waiting (due : ℤ)
  | ended
  deriving DecidableEq

structure Worker (κ : Type) where
  pod : String
  main : Main κ := .idle
  beat : Beat := .off

def Worker.isRunning (w : Worker κ) : Bool :=
  match w.main with
  | .running _ => true
  | _ => false

def Worker.isKilled (w : Worker κ) : Bool :=
  match w.main with
  | .killed => true
  | _ => false

/-- While the main function runs, a next renewal is pending. -/
def Worker.Renews (w : Worker κ) : Prop := w.isRunning = true → ∃ due, w.beat = .waiting due

/-- The session of an attempt answers, or it raises, before or after the UPDATE is committed. -/
inductive Outcome
  | answered
  | raised (committed : Bool)

/-- What an execution does. -/
inductive WorkerAct
  | select
  | claim (t : ℤ)
  | attempt (out : Outcome)
  | finish

def WorkerAct.raises : WorkerAct → Bool
  | .attempt (.raised _) => true
  | _ => false

/-- The worker after a renewal that has answered. One that affects no row kills the process group,
the main function with it. -/
def Worker.answer (w : Worker κ) (due : ℤ) (renewed : Bool) : Worker κ :=
  if renewed then { w with beat := .waiting due } else { w with main := .killed, beat := .ended }

/-- The worker after the claim, and the row. -/
def Worker.claimed (ops : LeaseOps ρ κ) (due deadline : ℤ) (row : ρ) (w : Worker κ) (c : κ) :
    Worker κ × ρ :=
  match ops.write c w.pod deadline row with
  | some row' => ({ w with main := .running (ops.epoch c), beat := .waiting due },row')
  | none => ({ w with main := .finished },row)

/-- The worker after an attempt, and the row. An exception is not caught in the loop: it ends the
thread and nothing else. -/
def Worker.attempted (w : Worker κ) (due : ℤ) (row : ρ) (renewed : ρ × Bool) :
    Outcome → Worker κ × ρ
  | .answered => (w.answer due renewed.2,renewed.1)
  | .raised committed => ({ w with beat := .ended },if committed then renewed.1 else row)

/-- One step of an execution; `ttl` and `interval` are `LEASE_TTL_SECONDS` and
`HEARTBEAT_INTERVAL_SECONDS`, and `t` is the clock reading for the deadline. -/
def workerStep (ops : LeaseOps ρ κ) (ttl interval now : ℤ) (row : ρ) (w : Worker κ) :
    WorkerAct → Option (Worker κ × ρ)
  | .select =>
    match w.main with
    | .idle =>
      match ops.candidate now row with
      | some c => some ({ w with main := .selected c },row)
      | none => some ({ w with main := .finished },row)
    | _ => none
  | .claim t =>
    match w.main with
    | .selected c =>
      if t ≤ now then some (w.claimed ops (now + interval) (t + ttl) row c) else none
    | _ => none
  | .attempt out =>
    match w.main,w.beat with
    | .running epoch,.waiting due =>
      if due ≤ now then
        some (w.attempted (now + interval) row (ops.renew now ttl w.pod epoch row) out)
      else none
    | _,_ => none
  | .finish =>
    match w.main with
    | .running _ => some ({ w with main := .finished, beat := .off },row)
    | _ => none

/-! ## The system -/

structure Sys (ρ κ : Type) where
  now : ℤ
  row : ρ
  workers : ℕ → Worker κ

inductive Act (ρ : Type)
  | tick (d : ℕ)
  | other (row : ρ)
  | worker (n : ℕ) (a : WorkerAct)

def Act.raises : Act ρ → Bool
  | .worker _ a => a.raises
  | .tick _ | .other _ => false

def step (ops : LeaseOps ρ κ) (ttl interval : ℤ) (s : Sys ρ κ) : Act ρ → Option (Sys ρ κ)
  | .tick d => some { s with now := s.now + d }
  | .other row => some { s with row := row }
  | .worker n a =>
    (workerStep ops ttl interval s.now s.row (s.workers n) a).map fun r =>
      { s with row := r.2, workers := Function.update s.workers n r.1 }

/-- Nobody has begun anything; the row and the clock are arbitrary. -/
def start (now : ℤ) (row : ρ) (pods : ℕ → String) : Sys ρ κ :=
  ⟨now,row,fun n => { pod := pods n }⟩

/-! ## The property -/

/-- The attempt is followed by another one after the interval, or it has reported a lost lease and
the process is killed. -/
def Continued (interval : ℤ) (e : Event (Sys ρ κ) (Act ρ)) (n : ℕ) : Prop :=
  (e.post.workers n).beat = .waiting (e.pre.now + interval) ∨
    (e.post.workers n).isKilled = true

/-- Every attempt is continued, and an execution that runs has a renewal pending, so that none runs
on unnoticed when its lease expires and another execution claims the row. -/
structure Kept (interval : ℤ) (tr : List (Event (Sys ρ κ) (Act ρ))) (u : Sys ρ κ) : Prop where
  attempts : ∀ e ∈ tr, ∀ n out, e.act = .worker n (.attempt out) → Continued interval e n
  pending : ∀ n, (u.workers n).Renews

/-! ## Steps -/

section Steps

variable {ops : LeaseOps ρ κ} {ttl interval now : ℤ} {row : ρ} {w : Worker κ} {r : Worker κ × ρ}

theorem answer_cases (w : Worker κ) (due : ℤ) (renewed : Bool) :
    (w.answer due renewed).beat = .waiting due ∨
      (w.answer due renewed).main = .killed := by
  unfold Worker.answer
  by_cases h : renewed = true
  · rw [if_pos h]
    exact Or.inl rfl
  · rw [if_neg h]
    exact Or.inr rfl

theorem renews_answer (w : Worker κ) (due : ℤ) (renewed : Bool) : (w.answer due renewed).Renews := by
  intro hrun
  rcases answer_cases w due renewed with hbeat | hmain
  · exact ⟨due,hbeat⟩
  · unfold Worker.isRunning at hrun
    rw [hmain] at hrun
    cases hrun

theorem renews_claimed (due deadline : ℤ) (c : κ) :
    (w.claimed ops due deadline row c).1.Renews := by
  intro hrun
  unfold Worker.claimed at hrun ⊢
  split
  · exact ⟨due,rfl⟩
  · rename_i hwrite
    rw [hwrite] at hrun
    cases hrun

/-- An execution that has a renewal pending while it runs keeps one, unless an attempt raises. -/
theorem workerStep_renews {a : WorkerAct} (ha : a.raises = false)
    (h : workerStep ops ttl interval now row w a = some r) : r.1.Renews := by
  cases a with
  | select =>
    simp only [workerStep] at h
    split at h
    · split at h <;> cases h <;> intro hrun <;> cases hrun
    · cases h
  | claim t =>
    simp only [workerStep] at h
    split at h
    · obtain ⟨-,rfl⟩ := guarded h
      exact renews_claimed _ _ _
    · cases h
  | attempt out =>
    simp only [workerStep] at h
    split at h
    · obtain ⟨-,rfl⟩ := guarded h
      cases out with
      | answered => exact renews_answer w _ _
      | raised committed => cases ha
    · cases h
  | finish =>
    simp only [workerStep] at h
    split at h
    · cases h
      intro hrun
      cases hrun
    · cases h

/-- What becomes of an execution that attempts a renewal. -/
theorem workerStep_attempt {out : Outcome}
    (h : workerStep ops ttl interval now row w (.attempt out) = some r) :
    w.isRunning = true ∧
      ∃ epoch, r = w.attempted (now + interval) row (ops.renew now ttl w.pod epoch row) out := by
  simp only [workerStep] at h
  split at h
  · rename_i epoch due hmain hbeat
    obtain ⟨-,rfl⟩ := guarded h
    refine ⟨?_,epoch,rfl⟩
    unfold Worker.isRunning
    rw [hmain]
  · cases h

end Steps

section Runs

variable {ops : LeaseOps ρ κ} {ttl interval now : ℤ} {row : ρ} {pods : ℕ → String}
  {s u : Sys ρ κ} {tr : List (Event (Sys ρ κ) (Act ρ))}

theorem step_renews {a : Act ρ} (hs : ∀ n, (s.workers n).Renews) (ha : a.raises = false)
    (h : step ops ttl interval s a = some u) (n : ℕ) : (u.workers n).Renews := by
  cases a with
  | tick d =>
    cases h
    exact hs n
  | other row =>
    cases h
    exact hs n
  | worker m a =>
    obtain ⟨r,hr,rfl⟩ := Option.map_eq_some_iff.mp h
    dsimp only
    rw [Function.update_apply]
    by_cases hn : n = m
    · rw [if_pos hn]
      exact workerStep_renews ha hr
    · rw [if_neg hn]
      exact hs n

/-- An attempt is continued iff it has not raised. -/
theorem attempt_continued_iff {n : ℕ} {out : Outcome}
    (h : step ops ttl interval s (.worker n (.attempt out)) = some u) :
    Continued interval ⟨s,.worker n (.attempt out),u⟩ n ↔ (WorkerAct.attempt out).raises = false := by
  obtain ⟨r,hr,rfl⟩ := Option.map_eq_some_iff.mp h
  obtain ⟨hrun,epoch,rfl⟩ := workerStep_attempt hr
  unfold Continued
  dsimp only
  rw [Function.update_self]
  cases out with
  | answered =>
    refine ⟨fun _ => rfl,fun _ => ?_⟩
    refine (answer_cases (s.workers n) _ _).imp id fun hmain => ?_
    unfold Worker.attempted Worker.isKilled
    dsimp only
    rw [hmain]
  | raised committed =>
    constructor
    · rintro (hbeat | hkilled)
      · cases hbeat
      · have hkilled : (s.workers n).isKilled = true := hkilled
        unfold Worker.isRunning at hrun
        unfold Worker.isKilled at hkilled
        split at hrun
        · rename_i hmain
          rw [hmain] at hkilled
          cases hkilled
        · cases hrun
    · intro hraised
      cases hraised

/-- The lease is kept alive, or the execution stops, in exactly the runs in which no attempt
raises. -/
theorem kept_iff (hr : Run (step ops ttl interval) (start now row pods) tr u) :
    Kept interval tr u ↔ ∀ e ∈ tr, e.act.raises = false := by
  have hsteps : ∀ e ∈ tr, step ops ttl interval e.pre e.act = some e.post := by
    refine along_forall.mp ?_
    refine hr.along_of_invariant (P := fun _ _ => True) (J := fun _ _ => True)
      (along_forall.mpr fun _ _ => trivial) trivial ?_ ?_
    · exact fun _ _ _ _ _ _ _ => trivial
    · exact fun _ _ _ _ _ _ h => h
  constructor
  · intro hk e he
    obtain ⟨t,a,v⟩ := e
    have hstep : step ops ttl interval t a = some v := hsteps _ he
    cases a with
    | tick d => rfl
    | other row => rfl
    | worker n a =>
      cases a with
      | attempt out => exact (attempt_continued_iff hstep).mp (hk.attempts _ he n out rfl)
      | select => rfl
      | claim t => rfl
      | finish => rfl
  · intro hquiet
    refine ⟨?_,?_⟩
    · intro e he n out hact
      obtain ⟨t,a,v⟩ := e
      have hact : a = .worker n (.attempt out) := hact
      subst hact
      exact (attempt_continued_iff (hsteps _ he)).mpr (hquiet _ he)
    · refine hr.invariant (P := fun _ e => e.act.raises = false)
        (J := fun _ s => ∀ n, (s.workers n).Renews) (along_forall.mpr hquiet) ?_ ?_
      · intro n hrun
        cases hrun
      · exact fun tr t a v hj ha hs => step_renews hj ha hs

end Runs

/-- Both kinds of executions, from any row. -/
theorem lease_kept_iff (ip : String → Option String) (ttl interval now : ℤ) (pods : ℕ → String) :
    (∀ (row : TaskRow) tr u, Run (step (taskOps ip) ttl interval) (start now row pods) tr u →
      (Kept interval tr u ↔ ∀ e ∈ tr, e.act.raises = false)) ∧
    (∀ (row : DebugRow) tr u, Run (step debugOps ttl interval) (start now row pods) tr u →
      (Kept interval tr u ↔ ∀ e ∈ tr, e.act.raises = false)) :=
  ⟨fun _ _ _ hr => kept_iff hr,fun _ _ _ hr => kept_iff hr⟩

/-- One pod for each execution. -/
def twoPods (n : ℕ) : String := if n = 0 then "ea-0" else "ea-1"

/-- Two renewals, the second of which finds that the row has gone to another execution. -/
def lostLease {ρ : Type} (taken : ρ) : List (Act ρ) :=
  [.worker 0 .select,.worker 0 (.claim 0),.tick 15,.worker 0 (.attempt .answered),
    .other taken,.tick 15,.worker 0 (.attempt .answered)]

/-- The first execution is killed, and the leases are kept. -/
theorem lost_lease_kept :
    (∃ tr u, Run (step (taskOps fun _ => none) 90 15) (start 0 ({} : TaskRow) twoPods) tr u ∧
      (u.workers 0).isKilled = true ∧ Kept 15 tr u) ∧
    (∃ tr u, Run (step debugOps 90 15) (start 0 ({} : DebugRow) twoPods) tr u ∧
      (u.workers 0).isKilled = true ∧ Kept 15 tr u) := by
  constructor
  · obtain ⟨tr,u,hr,hp⟩ := exists_run_of_replay (step (taskOps fun _ => none) 90 15)
      (start 0 ({} : TaskRow) twoPods)
      (p := fun tr u => tr.all (fun e => !e.act.raises) && (u.workers 0).isKilled)
      (lostLease {}) (by decide +kernel)
    simp only [Bool.and_eq_true,List.all_eq_true,Bool.not_eq_true'] at hp
    exact ⟨tr,u,hr,hp.2,((lease_kept_iff _ 90 15 0 twoPods).1 _ tr u hr).mpr hp.1⟩
  · obtain ⟨tr,u,hr,hp⟩ := exists_run_of_replay (step debugOps 90 15)
      (start 0 ({} : DebugRow) twoPods)
      (p := fun tr u => tr.all (fun e => !e.act.raises) && (u.workers 0).isKilled)
      (lostLease {}) (by decide)
    simp only [Bool.and_eq_true,List.all_eq_true,Bool.not_eq_true'] at hp
    exact ⟨tr,u,hr,hp.2,((lease_kept_iff (fun _ => none) 90 15 0 twoPods).2 _ tr u hr).mpr hp.1⟩

/-- One renewal raises; the lease runs out, and a second execution claims the row. -/
def raisedOnce {ρ : Type} : List (Act ρ) :=
  [.worker 0 .select,.worker 0 (.claim 0),.tick 15,.worker 0 (.attempt (.raised false)),
    .tick 76,.worker 1 .select,.worker 1 (.claim 91)]

/-- Both executions run, and the first has no renewal pending. -/
def bothRun {ρ κ : Type} (u : Sys ρ κ) : Bool :=
  (u.workers 0).isRunning && (u.workers 0).beat == .ended && (u.workers 1).isRunning

theorem not_kept_of_bothRun {ρ κ : Type} {interval : ℤ} {tr : List (Event (Sys ρ κ) (Act ρ))}
    {u : Sys ρ κ} (h : bothRun u = true) : ¬Kept interval tr u := by
  intro hk
  simp only [bothRun,Bool.and_eq_true,beq_iff_eq] at h
  obtain ⟨due,hdue⟩ := hk.pending 0 h.1.1
  rw [h.1.2] at hdue
  cases hdue

/-- After one exception in the thread the row is taken over and two executions run. -/
theorem raised_taken_over :
    (∃ tr u, Run (step (taskOps fun _ => none) 90 15) (start 0 ({} : TaskRow) twoPods) tr u ∧
      u.row.heldBy "ea-1" 2 ∧ bothRun u = true ∧ ¬Kept 15 tr u) ∧
    (∃ tr u, Run (step debugOps 90 15) (start 0 ({} : DebugRow) twoPods) tr u ∧
      u.row.heldBy "ea-1" 2 ∧ bothRun u = true ∧ ¬Kept 15 tr u) := by
  constructor
  · obtain ⟨tr,u,hr,hp⟩ := exists_run_of_replay (step (taskOps fun _ => none) 90 15)
      (start 0 ({} : TaskRow) twoPods)
      (p := fun _ u => decide (u.row.heldBy "ea-1" 2) && bothRun u) raisedOnce (by decide)
    simp only [Bool.and_eq_true,decide_eq_true_eq] at hp
    exact ⟨tr,u,hr,hp.1,hp.2,not_kept_of_bothRun hp.2⟩
  · obtain ⟨tr,u,hr,hp⟩ := exists_run_of_replay (step debugOps 90 15)
      (start 0 ({} : DebugRow) twoPods)
      (p := fun _ u => decide (u.row.heldBy "ea-1" 2) && bothRun u) raisedOnce (by decide +kernel)
    simp only [Bool.and_eq_true,decide_eq_true_eq] at hp
    exact ⟨tr,u,hr,hp.1,hp.2,not_kept_of_bothRun hp.2⟩

end LeaseHeartbeat
end EntryAnalyse
