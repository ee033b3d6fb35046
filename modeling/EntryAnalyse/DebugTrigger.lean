import EntryAnalyse.Runs
import EntryAnalyse.TaskRow

/-! The report that is created for a task that has failed. Every execution of the task ends with the
same check and insert, each a statement of its own; the executions, a superseded one among them, and
whatever else changes the task or its reports follow one another in any order. -/
namespace EntryAnalyse
namespace DebugTrigger

open Runs

/-- A report of the task: the status it was created with, whether `_maybe_trigger_debug` has created
it, and the mark of the deletion. -/
structure Report where
  taskStatus : TaskStatus
  triggered : Bool
  isDeleted : Bool := false

/-- The query of the check. -/
def Report.exists (r : Report) : Bool := !r.isDeleted

def Report.isOpen (r : Report) : Bool := r.triggered && !r.isDeleted

/-- Membership in `("failed","error")`. -/
def isFailed : TaskStatus → Bool
  | .failed | .error => true
  | .pending | .running | .passed | .cancelled => false

/-- Where an execution stands in `_maybe_trigger_debug`, with what it has read: the status of the row,
the number of reports at that time, and that there was none. -/
inductive Trigger
  | idle
  | loaded (status : TaskStatus) (seen : ℕ)
  | ready (status : TaskStatus)
  | done

/-- The row is read, and the report not yet inserted. -/
def Trigger.inside : Trigger → Bool
  | .loaded .. | .ready _ => true
  | .idle | .done => false

/-- No report was there when the execution has read. -/
def Trigger.sawNone : Trigger → Bool
  | .loaded _ seen => seen == 0
  | .ready _ => true
  | .idle | .done => false

/-- The committed status, or `none` when the task is deleted, its reports, and the executions. -/
structure Sys where
  status : Option TaskStatus
  reports : List Report
  triggers : ℕ → Trigger

def Sys.set (s : Sys) (n : ℕ) (t : Trigger) : Sys :=
  { s with triggers := Function.update s.triggers n t }

/-- `setStatus` stands for every other path that commits a status, `other` for a report that is created
elsewhere. With `snapshot` the count sees the reports as they were at the first read of the session. -/
inductive Act
  | setStatus (status : Option TaskStatus)
  | other (status : TaskStatus)
  | delete (k : ℕ)
  | load (n : ℕ)
  | count (n : ℕ) (snapshot : Bool)
  | insert (n : ℕ)
  | fail (n : ℕ)

def loadTrigger (s : Sys) : Trigger :=
  match s.status with
  | some status =>
    if isFailed status then .loaded status (s.reports.countP Report.exists) else .done
  | none => .done

def step (s : Sys) : Act → Option Sys
  | .setStatus status => some { s with status := status }
  | .other status => some { s with reports := s.reports ++ [⟨status,false,false⟩] }
  | .delete k =>
    some { s with reports := s.reports.modify k fun r => { r with isDeleted := true } }
  | .load n =>
    match s.triggers n with
    | .idle => some (s.set n (loadTrigger s))
    | _ => none
  | .count n snapshot =>
    match s.triggers n with
    | .loaded status seen =>
      let count := if snapshot then seen else s.reports.countP Report.exists
      some (s.set n (if count = 0 then .ready status else .done))
    | _ => none
  | .insert n =>
    match s.triggers n with
    | .ready status =>
      some { s.set n .done with reports := s.reports ++ [⟨status,true,false⟩] }
    | _ => none
  | .fail n => some (s.set n .done)

/-- No execution has begun its check. -/
def start (status : Option TaskStatus) : Sys := ⟨status,[],fun _ => .idle⟩

/-! ## The property -/

def openReports (s : Sys) : ℕ := s.reports.countP Report.isOpen

/-- At most one open report is there, and each was created while the task was failed. -/
structure Single (tr : List (Event Sys Act)) (u : Sys) : Prop where
  open_le : openReports u ≤ 1
  created : ∀ e ∈ tr, ∀ n, e.act = .insert n → ∃ status, e.pre.status = some status ∧
    isFailed status = true

/-- The check of one execution does not overlap with the insert of another that it would not see, nor
with a change of the task to a status that has not failed. -/
def UndisturbedAct (s : Sys) : Act → Prop
  | .insert n => ∀ m ≠ n, (s.triggers m).sawNone = false
  | .setStatus status => status.any isFailed = true ∨ ∀ m, (s.triggers m).inside = false
  | _ => True

def Undisturbed (e : Event Sys Act) : Prop := UndisturbedAct e.pre e.act

/-! ## Steps -/

/-- What the executions have read still holds. -/
structure Inv (s : Sys) : Prop where
  open_le : openReports s ≤ 1
  failed : ∀ n, (s.triggers n).inside = true → s.status.any isFailed = true
  none_open : ∀ n, (s.triggers n).sawNone = true → openReports s = 0

theorem inside_of_sawNone {t : Trigger} (h : t.sawNone = true) : t.inside = true := by
  cases t with
  | idle => cases h
  | loaded status seen => rfl
  | ready status => rfl
  | done => cases h

theorem openReports_eq_zero {s : Sys} (h : s.reports.countP Report.exists = 0) :
    openReports s = 0 := by
  rw [List.countP_eq_zero] at h
  refine List.countP_eq_zero.mpr fun r hr hopen => h r hr ?_
  unfold Report.isOpen at hopen
  exact (Bool.and_eq_true_iff.mp hopen).2

theorem openReports_modify_le (reports : List Report) (k : ℕ) :
    (reports.modify k fun r => { r with isDeleted := true }).countP Report.isOpen ≤
      reports.countP Report.isOpen := by
  induction reports generalizing k with
  | nil => simp
  | cons r reports ih =>
    cases k with
    | zero =>
      have hdeleted : Report.isOpen { r with isDeleted := true } = false := Bool.and_false _
      rw [List.modify_zero_cons,List.countP_cons,List.countP_cons,hdeleted]
      simp
    | succ k =>
      rw [List.modify_succ_cons,List.countP_cons,List.countP_cons]
      exact Nat.add_le_add_right (ih k) _

section Steps

variable {s u : Sys} {n : ℕ} {t : Trigger}

/-- An execution goes on, with what it knows still true. -/
theorem Inv.set (h : Inv s) (hfailed : t.inside = true → s.status.any isFailed = true)
    (hnone : t.sawNone = true → openReports s = 0) : Inv (s.set n t) := by
  have hcases : ∀ m, (s.set n t).triggers m = if m = n then t else s.triggers m := by
    intro m
    unfold Sys.set
    dsimp only
    rw [Function.update_apply]
  refine ⟨h.open_le,fun m hm => ?_,fun m hm => ?_⟩
  · rw [hcases] at hm
    split at hm
    · exact hfailed hm
    · exact h.failed m hm
  · rw [hcases] at hm
    split at hm
    · exact hnone hm
    · exact h.none_open m hm

theorem Inv.reports {reports : List Report} (h : Inv s)
    (hle : reports.countP Report.isOpen ≤ openReports s) : Inv { s with reports := reports } :=
  ⟨hle.trans h.open_le,h.failed,fun m hm => Nat.le_zero.mp (hle.trans (h.none_open m hm).le)⟩

theorem Inv.load (h : Inv s) : Inv (s.set n (loadTrigger s)) := by
  unfold loadTrigger
  cases hstatus : s.status with
  | none => exact h.set (fun hin => by cases hin) (fun hsaw => by cases hsaw)
  | some status =>
    dsimp only
    by_cases hfailed : isFailed status = true
    · rw [if_pos hfailed]
      refine h.set (fun _ => ?_) (fun hsaw => ?_)
      · rw [hstatus]
        exact hfailed
      · exact openReports_eq_zero (beq_iff_eq.mp hsaw)
    · rw [if_neg hfailed]
      exact h.set (fun hin => by cases hin) (fun hsaw => by cases hsaw)

theorem Inv.count {status : TaskStatus} {seen : ℕ} (h : Inv s)
    (ht : s.triggers n = .loaded status seen) (snapshot : Bool) :
    Inv (s.set n (if (if snapshot then seen else s.reports.countP Report.exists) = 0
      then .ready status else .done)) := by
  by_cases hzero : (if snapshot then seen else s.reports.countP Report.exists) = 0
  · rw [if_pos hzero]
    refine h.set (fun _ => h.failed n ?_) (fun _ => ?_)
    · rw [ht]
      rfl
    · cases snapshot with
      | false => exact openReports_eq_zero hzero
      | true =>
        refine h.none_open n ?_
        rw [ht]
        exact beq_iff_eq.mpr hzero
  · rw [if_neg hzero]
    exact h.set (fun hin => by cases hin) (fun hsaw => by cases hsaw)

/-- The insert of an execution whose report no other one misses. -/
theorem Inv.insert {status : TaskStatus} (h : Inv s) (ht : s.triggers n = .ready status)
    (hc : ∀ m ≠ n, (s.triggers m).sawNone = false) :
    Inv { s.set n .done with reports := s.reports ++ [⟨status,true,false⟩] } := by
  have hzero : openReports s = 0 := by
    refine h.none_open n ?_
    rw [ht]
    rfl
  have hdone : Inv (s.set n .done) := h.set (fun hin => by cases hin) (fun hsaw => by cases hsaw)
  refine ⟨?_,hdone.failed,fun m hm => ?_⟩
  · have hopen : (s.reports ++ [(⟨status,true,false⟩ : Report)]).countP Report.isOpen =
        openReports s + 1 := by
      rw [List.countP_append]
      rfl
    exact (hopen.trans (congrArg (· + 1) hzero)).le
  · have hm : ((s.set n .done).triggers m).sawNone = true := hm
    unfold Sys.set at hm
    dsimp only at hm
    rw [Function.update_apply] at hm
    split at hm
    · cases hm
    · rename_i hne
      rw [hc m hne] at hm
      cases hm

theorem step_inv {a : Act} (h : Inv s) (hc : UndisturbedAct s a) (hs : step s a = some u) :
    Inv u := by
  cases a with
  | setStatus status =>
    cases hs
    refine ⟨h.open_le,fun m hm => ?_,h.none_open⟩
    refine hc.resolve_right fun hout => ?_
    have hm : (s.triggers m).inside = true := hm
    rw [hout m] at hm
    cases hm
  | other status =>
    cases hs
    refine h.reports ?_
    rw [List.countP_append]
    exact le_rfl
  | delete k =>
    cases hs
    exact h.reports (openReports_modify_le s.reports k)
  | load n =>
    simp only [step] at hs
    split at hs
    · cases hs
      exact h.load
    · cases hs
  | count n snapshot =>
    simp only [step] at hs
    split at hs
    · rename_i status seen ht
      cases hs
      exact h.count ht snapshot
    · cases hs
  | insert n =>
    simp only [step] at hs
    split at hs
    · rename_i status ht
      cases hs
      exact h.insert ht hc
    · cases hs
  | fail n =>
    cases hs
    exact h.set (fun hin => by cases hin) (fun hsaw => by cases hsaw)

/-- A report is created while the task is failed. -/
theorem step_created (h : Inv s) (hs : step s (.insert n) = some u) :
    ∃ status, s.status = some status ∧ isFailed status = true := by
  have hin : (s.triggers n).inside = true := by
    simp only [step] at hs
    split at hs
    · rename_i ht
      rw [ht]
      rfl
    · cases hs
  have hfailed := h.failed n hin
  cases hstatus : s.status with
  | none =>
    rw [hstatus] at hfailed
    cases hfailed
  | some status =>
    rw [hstatus] at hfailed
    exact ⟨status,rfl,hfailed⟩

end Steps

/-! ## Runs -/

variable {status : Option TaskStatus} {tr : List (Event Sys Act)} {u : Sys}

theorem inv_start (status : Option TaskStatus) : Inv (start status) :=
  ⟨Nat.zero_le _,(fun _ hin => by cases hin),(fun _ hsaw => by cases hsaw)⟩

/-- In every run whose checks are undisturbed, at most one open report is there, and each was created
while the task was failed. -/
theorem undisturbed_run_single (hr : Run step (start status) tr u)
    (hc : ∀ e ∈ tr, Undisturbed e) : Single tr u := by
  have hkeep : ∀ (_ : List (Event Sys Act)) t a v, Inv t → Undisturbed ⟨t,a,v⟩ →
      step t a = some v → Inv v := by
    intro _ t a v hj hq hs
    exact step_inv hj hq hs
  have hinv : Inv u := hr.invariant (J := fun _ s => Inv s) (along_forall.mpr hc)
    (inv_start status) hkeep
  refine ⟨hinv.open_le,along_forall.mp ?_⟩
  refine hr.along_of_invariant (J := fun _ s => Inv s) (along_forall.mpr hc)
    (inv_start status) hkeep ?_
  intro tr t a v hj hq hs n hact
  have hact : a = .insert n := hact
  subst hact
  exact step_created hj hs

/-- A task fails, and its execution creates the report. -/
theorem failed_task_single :
    ∃ tr u, Run step (start (some .running)) tr u ∧ (∀ e ∈ tr, Undisturbed e) ∧
      openReports u = 1 ∧ Single tr u := by
  have hrun : ∃ tr u, Run step (start (some .running)) tr u ∧ (∀ e ∈ tr, Undisturbed e) ∧
      openReports u = 1 := by
    refine ⟨_,_,.next (.next (.next (.next .refl (a := .setStatus (some .failed)) rfl)
      (a := .load 0) rfl) (a := .count 0 false) rfl) (a := .insert 0) rfl,?_,rfl⟩
    refine List.forall_mem_cons.mpr ⟨fun m hm => ?_,List.forall_mem_cons.mpr ⟨trivial,?_⟩⟩
    · simp [Sys.set,start,hm,Trigger.sawNone]
    · refine List.forall_mem_cons.mpr ⟨trivial,List.forall_mem_cons.mpr ⟨Or.inl rfl,?_⟩⟩
      exact List.forall_mem_nil _
  obtain ⟨tr,u,hr,hc,hopen⟩ := hrun
  exact ⟨tr,u,hr,hc,hopen,undisturbed_run_single hr hc⟩

/-- Two executions check before either inserts, and two reports are open; and a restart between the
check and the insert leaves a report of a pending task. -/
theorem disturbed_runs :
    (∃ tr u, Run step (start (some .failed)) tr u ∧ openReports u = 2 ∧ ¬Single tr u) ∧
    (∃ tr u, Run step (start (some .failed)) tr u ∧ u.status = some .pending ∧
      openReports u = 1 ∧ ¬Single tr u) := by
  constructor
  · obtain ⟨tr,u,hr,hp⟩ := exists_run_of_replay step (start (some .failed))
      (p := fun _ u => openReports u == 2)
      [.load 0,.load 1,.count 0 false,.count 1 false,.insert 0,.insert 1] (by decide +kernel)
    have hopen := beq_iff_eq.mp hp
    refine ⟨tr,u,hr,hopen,fun hsingle => ?_⟩
    have hle := hsingle.open_le
    omega
  · have hr : Run step (start (some .failed)) _ _ :=
      .next (.next (.next (.next .refl (a := .load 0) rfl) (a := .count 0 false) rfl)
        (a := .setStatus (some .pending)) rfl) (a := .insert 0) rfl
    refine ⟨_,_,hr,rfl,rfl,fun hsingle => ?_⟩
    obtain ⟨status,hstatus,hfailed⟩ := hsingle.created _ List.mem_cons_self 0 rfl
    cases hstatus
    cases hfailed

end DebugTrigger
end EntryAnalyse
