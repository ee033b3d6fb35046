import EntryAnalyse.Runs
import EntryAnalyse.AgentOwnership

/-! A process that hosts the runner: any number of agents that are spawned, registered and cleaned up,
and the snapshots that are taken meanwhile, one after the other. The processes and the tasks that a
snapshot sees are arbitrary. -/
namespace EntryAnalyse
namespace AgentRegistry

open Runs AgentOwnership

/-! ## The system -/

/-- `live` lasts from the registration step until the cleanup step. -/
inductive Stage
  | idle | spawned | live | over
  deriving DecidableEq

/-- One call of `_execute`. -/
structure Agent where
  pid : ℕ := 0
  pgid : Option ℕ := none
  info : Info := {}
  stage : Stage := .idle

/-- What a snapshot has read so far. -/
inductive Snapshot
  | idle
  | begun (tasks : List TaskInfo) (rows : List Info)
  | scanned (tasks : List TaskInfo) (rows : List Info) (scan : Scan)
  | reconciled (tasks : List TaskInfo) (rows : List Info) (scan : Scan)
  | judging (tasks : List TaskInfo) (rows : List Info) (scan : Scan)
      (orphans : ℕ → Option Orphan)

structure Sys where
  now : ℤ
  service : WorkerService := {}
  agents : ℕ → Agent := fun _ => {}
  snapshot : Snapshot := .idle

def Sys.set (s : Sys) (n : ℕ) (a : Agent) : Sys :=
  { s with agents := Function.update s.agents n a }

/-- `terminate` is any of the calls that mark an agent as terminating; `finish` also stands for an
exception in the snapshot. -/
inductive Act
  | tick (d : ℕ)
  | spawn (n pid : ℕ) (pgid : Option ℕ) (info : Info)
  | register (n : ℕ)
  | terminate (n : ℕ) (reason : String)
  | cleanup (n : ℕ)
  | begin (tasks : List TaskInfo)
  | scan (procs : Scan)
  | reconcile
  | readOrphans
  | judge (p : Proc)
  | finish

def step (s : Sys) : Act → Option Sys
  | .tick d => some { s with now := s.now + d }
  | .spawn n pid pgid info =>
    if (s.agents n).stage = .idle then some (s.set n ⟨pid,pgid,info,.spawned⟩) else none
  | .register n =>
    if (s.agents n).stage = .spawned then
      some { s.set n { s.agents n with stage := .live } with
        service := callRegister s.service (s.agents n).pid (s.agents n).info }
    else none
  | .terminate n reason =>
    if (s.agents n).stage = .live then
      some { s with service := callMark s.service (s.agents n).pid reason }
    else none
  | .cleanup n =>
    if (s.agents n).stage = .live then
      some { s.set n { s.agents n with stage := .over } with
        service := callUnregister s.service (s.agents n).pid }
    else none
  | .begin tasks =>
    match s.snapshot with
    | .idle => some { s with snapshot := .begun tasks s.service.snapshotLiveAgentProcesses }
    | _ => none
  | .scan procs =>
    match s.snapshot with
    | .begun tasks rows => some { s with snapshot := .scanned tasks rows procs }
    | _ => none
  | .reconcile =>
    match s.snapshot with
    | .scanned tasks rows scan =>
      some { s with
        service := s.service.reconcileSuspectedOrphans s.now (scan.procs.map Proc.pid)
        snapshot := .reconciled tasks rows scan }
    | _ => none
  | .readOrphans =>
    match s.snapshot with
    | .reconciled tasks rows scan =>
      some { s with snapshot := .judging tasks rows scan s.service.orphans }
    | _ => none
  | .judge p =>
    match s.snapshot with
    | .judging _ _ scan _ => if p ∈ scan.procs then some s else none
    | _ => none
  | .finish => some { s with snapshot := .idle }

/-- No agent has been spawned, and no snapshot taken. -/
def start (now : ℤ) : Sys where
  now := now

/-! ## The property -/

def isLive (s : Sys) (pid : ℕ) : Prop := ∃ n, (s.agents n).stage = .live ∧ (s.agents n).pid = pid

def isLiveGroup (s : Sys) (pgid : ℕ) : Prop :=
  ∃ n, (s.agents n).stage = .live ∧ (s.agents n).pgid = some pgid

/-- The registry lists the live agents and no others. -/
def Listing (s : Sys) : Prop := ∀ pid, pid ∈ s.service.live.map Prod.fst ↔ isLive s pid

/-- The chain of parents reaches a pid with `live`, through processes that were seen. -/
inductive Descends (live : ℕ → Prop) (procs : List Proc) : Option ℕ → Prop
  | root {pid : ℕ} : live pid → Descends live procs (some pid)
  | parent {q : Proc} : q ∈ procs → Descends live procs q.ppid → Descends live procs (some q.pid)

/-- The pid, the process group or the chain of parents leads to a live agent. -/
def LeadsToLive (s : Sys) (procs : List Proc) (p : Proc) : Prop :=
  isLive s p.pid ∨ (∃ pgid, p.pgid = some pgid ∧ isLiveGroup s pgid) ∨
    Descends (isLive s) procs p.ppid

/-- The verdict of a snapshot on one process. -/
def verdict (cfg : Config) (s : Sys) (p : Proc) : Option Verdict :=
  match s.snapshot with
  | .judging tasks rows scan orphans =>
    some (AgentOwnership.judge cfg tasks rows scan.procs orphans s.now p)
  | _ => none

def allowsKill (cfg : Config) (s : Sys) (p : Proc) : Prop :=
  ∃ v, verdict cfg s p = some v ∧ v.killAllowed = true

def scannedProcs (s : Sys) : List Proc :=
  match s.snapshot with
  | .judging _ _ scan _ => scan.procs
  | _ => []

/-- A process that leads to a live agent may not be killed. -/
def Spared (cfg : Config) (e : Event Sys Act) : Prop :=
  ∀ p, e.act = .judge p → LeadsToLive e.pre (scannedProcs e.pre) p → ¬allowsKill cfg e.pre p

/-- Since when a process has been observed without an entry in the registry, in each snapshot, and
the process that had a pid in the last one. -/
structure View where
  since : ℕ → Option ℤ := fun _ => none
  last : ℕ → Option ℕ := fun _ => none

def observe (v : View) (e : Event Sys Act) : View :=
  match e.act,e.pre.snapshot with
  | .reconcile,.scanned _ _ scan =>
    { since := fun ident =>
        if scan.procs.any fun p => p.ident == ident && !e.pre.service.isRegistered p.pid then
          some ((v.since ident).getD e.pre.now)
        else none
      last := fun pid => (scan.procs.find? (·.pid = pid)).map Proc.ident }
  | _,_ => v

/-- A process may be killed only if it has been observed as unowned for the grace period. -/
def Graced (cfg : Config) (tr : List (Event Sys Act)) (e : Event Sys Act) : Prop :=
  ∀ p, e.act = .judge p → allowsKill cfg e.pre p →
    ∃ t, (watch observe {} tr).since p.ident = some t ∧ t + cfg.grace ≤ e.pre.now

/-! ## The conditions -/

/-- The grace period of the pid is not over, or a running task is inferred for the process. -/
def Sheltered (cfg : Config) (s : Sys) (p : Proc) : Prop :=
  match s.snapshot with
  | .judging tasks _ _ orphans =>
    isInferred cfg tasks (taskOf cfg tasks none p) p = true ∨
      graceOver cfg s.now (orphans p.pid) = false
  | _ => True

/-- No pid passes to another process between two snapshots. -/
def NoReuse (tr : List (Event Sys Act)) (e : Event Sys Act) : Prop :=
  match e.act,e.pre.snapshot with
  | .reconcile,.scanned _ _ scan =>
    ∀ p ∈ scan.procs, ∀ ident, (watch observe {} tr).last p.pid = some ident → ident = p.ident
  | _,_ => True

/-! ## The registry stays empty -/

/-- Nothing is registered, and no snapshot has read a row. -/
structure Unregistered (s : Sys) : Prop where
  live : s.service.live = []
  rows : match s.snapshot with
    | .idle => True
    | .begun _ rows | .scanned _ rows _ | .reconciled _ rows _ | .judging _ rows _ _ => rows = []

section Steps

variable {cfg : Config} {s u : Sys} {a : Act}

theorem step_unregistered (h : Unregistered s) (hs : step s a = some u) : Unregistered u := by
  obtain ⟨hlive,hrows⟩ := h
  cases a with
  | tick d =>
    cases hs
    exact ⟨hlive,hrows⟩
  | spawn n pid pgid info =>
    obtain ⟨-,rfl⟩ := guarded hs
    exact ⟨hlive,hrows⟩
  | register n =>
    obtain ⟨-,rfl⟩ := guarded hs
    refine ⟨?_,hrows⟩
    dsimp only
    rw [callRegister_eq]
    exact hlive
  | terminate n reason =>
    obtain ⟨-,rfl⟩ := guarded hs
    refine ⟨?_,hrows⟩
    dsimp only
    rw [callMark_of_empty hlive]
    exact hlive
  | cleanup n =>
    obtain ⟨-,rfl⟩ := guarded hs
    refine ⟨?_,hrows⟩
    dsimp only
    rw [callUnregister_eq]
    exact hlive
  | begin tasks =>
    simp only [step] at hs
    split at hs
    · cases hs
      refine ⟨hlive,?_⟩
      unfold WorkerService.snapshotLiveAgentProcesses
      dsimp only
      rw [hlive]
      rfl
    · cases hs
  | scan procs =>
    simp only [step] at hs
    split at hs
    · rename_i hsnap
      rw [hsnap] at hrows
      cases hs
      exact ⟨hlive,hrows⟩
    · cases hs
  | reconcile =>
    simp only [step] at hs
    split at hs
    · rename_i hsnap
      rw [hsnap] at hrows
      cases hs
      exact ⟨hlive,hrows⟩
    · cases hs
  | readOrphans =>
    simp only [step] at hs
    split at hs
    · rename_i hsnap
      rw [hsnap] at hrows
      cases hs
      exact ⟨hlive,hrows⟩
    · cases hs
  | judge p =>
    simp only [step] at hs
    split at hs
    · obtain ⟨-,rfl⟩ := guarded hs
      exact ⟨hlive,hrows⟩
    · cases hs
  | finish =>
    cases hs
    exact ⟨hlive,trivial⟩

/-- Only the registration step makes an agent live. -/
theorem live_of_step {n : ℕ} (hs : step s a = some u) (hn : (u.agents n).stage = .live)
    (ha : a ≠ .register n) : (s.agents n).stage = .live := by
  have hset : ∀ (m : ℕ) (b : Agent), b.stage ≠ .live ∨ m ≠ n →
      (Function.update s.agents m b n).stage = .live → (s.agents n).stage = .live := by
    intro m b hb hlive
    rw [Function.update_apply] at hlive
    by_cases hmn : n = m
    · rw [if_pos hmn] at hlive
      exact (hb.resolve_right fun hne => hne hmn.symm) hlive |>.elim
    · rw [if_neg hmn] at hlive
      exact hlive
  cases a with
  | tick d =>
    cases hs
    exact hn
  | spawn m pid pgid info =>
    obtain ⟨-,rfl⟩ := guarded hs
    exact hset m _ (Or.inl Stage.noConfusion) hn
  | register m =>
    obtain ⟨-,rfl⟩ := guarded hs
    exact hset m _ (Or.inr fun hmn => ha (by rw [hmn])) hn
  | terminate m reason =>
    obtain ⟨-,rfl⟩ := guarded hs
    exact hn
  | cleanup m =>
    obtain ⟨-,rfl⟩ := guarded hs
    exact hset m _ (Or.inl Stage.noConfusion) hn
  | begin | scan | reconcile | readOrphans =>
    simp only [step] at hs
    split at hs
    · cases hs
      exact hn
    · cases hs
  | judge p =>
    simp only [step] at hs
    split at hs
    · obtain ⟨-,rfl⟩ := guarded hs
      exact hn
    · cases hs
  | finish =>
    cases hs
    exact hn

theorem listing_iff (h : Unregistered s) :
    Listing s ↔ ∀ n, (s.agents n).stage ≠ .live := by
  unfold Listing
  rw [h.live]
  constructor
  · intro hlisting n hn
    exact List.not_mem_nil ((hlisting (s.agents n).pid).mpr ⟨n,hn,rfl⟩)
  · intro hnone pid
    refine iff_of_false List.not_mem_nil ?_
    rintro ⟨n,hn,-⟩
    exact hnone n hn

/-- After its registration step an agent is not listed. -/
theorem not_listing_of_register {n : ℕ} (h : Unregistered s)
    (hs : step s (.register n) = some u) : ¬Listing u := by
  rw [listing_iff (step_unregistered h hs)]
  intro hnone
  refine hnone n ?_
  obtain ⟨-,rfl⟩ := guarded hs
  unfold Sys.set
  dsimp only
  rw [Function.update_self]

/-- With an empty registry the cascade spares what is sheltered, and nothing else. -/
theorem allowsKill_iff (h : Unregistered s) {p : Proc} (hs : step s (.judge p) = some u) :
    allowsKill cfg s p ↔ ¬Sheltered cfg s p := by
  unfold allowsKill verdict Sheltered
  simp only [step] at hs
  have hrows := h.rows
  split at hs
  · rename_i tasks rows scan orphans hsnap
    rw [hsnap] at hrows
    obtain rfl : rows = [] := hrows
    simp only [Option.some.injEq,exists_eq_left',killAllowed_judge_nil,Bool.and_eq_true,
      Bool.not_eq_true',not_or,Bool.not_eq_true,Bool.not_eq_false]
  · cases hs

end Steps

/-! ## The grace period -/

/-- The table of orphans is not older than what the observer has seen of the processes in it. -/
structure Timed (v : View) (s : Sys) : Prop where
  clock : ∀ ident t, v.since ident = some t → t ≤ s.now
  orphans : ∀ pid o, s.service.orphans pid = some o →
    ∃ ident t, v.last pid = some ident ∧ v.since ident = some t ∧ t ≤ o.firstDetectedAt
  seen : match s.snapshot with
    | .reconciled _ _ scan => ∀ p ∈ scan.procs, v.last p.pid = some p.ident
    | .judging _ _ scan orphans =>
      (∀ p ∈ scan.procs, v.last p.pid = some p.ident) ∧ orphans = s.service.orphans
    | .idle | .begun .. | .scanned .. => True

section Grace

variable {cfg : Config} {v : View} {s u : Sys} {a : Act}

theorem find_of_mem_scan {scan : Scan} {p : Proc} (hp : p ∈ scan.procs) :
    scan.procs.find? (·.pid = p.pid) = some p := by
  cases hfind : scan.procs.find? (·.pid = p.pid) with
  | none =>
    have hne := List.find?_eq_none.mp hfind p hp
    simp at hne
  | some q =>
    have hq : q.pid = p.pid := by simpa using List.find?_some hfind
    rw [List.inj_on_of_nodup_map scan.pids_nodup (List.mem_of_find?_eq_some hfind) hp hq]

/-- A reconciliation keeps the entries of the processes that were there before, and dates the new
ones. -/
theorem Timed.reconcile {tasks : List TaskInfo} {rows : List Info} {scan : Scan} (h : Timed v s)
    (hlive : s.service.live = []) (hsnap : s.snapshot = .scanned tasks rows scan)
    (hreuse : ∀ p ∈ scan.procs, ∀ ident, v.last p.pid = some ident → ident = p.ident) :
    Timed (observe v ⟨s,.reconcile,u⟩)
      { s with
        service := s.service.reconcileSuspectedOrphans s.now (scan.procs.map Proc.pid)
        snapshot := .reconciled tasks rows scan } := by
  have hfree : ∀ pid, s.service.isRegistered pid = false := by
    intro pid
    unfold WorkerService.isRegistered
    rw [hlive]
    rfl
  have hview : observe v ⟨s,.reconcile,u⟩ =
      { since := fun ident =>
          if scan.procs.any fun p => p.ident == ident && !s.service.isRegistered p.pid then
            some ((v.since ident).getD s.now)
          else none
        last := fun pid => (scan.procs.find? (·.pid = pid)).map Proc.ident } := by
    unfold observe
    dsimp only
    rw [hsnap]
  have hsince : ∀ p ∈ scan.procs, (observe v ⟨s,.reconcile,u⟩).since p.ident =
      some ((v.since p.ident).getD s.now) := by
    intro p hp
    rw [hview]
    refine if_pos (List.any_eq_true.mpr ⟨p,hp,?_⟩)
    rw [hfree]
    simp
  have hlast : ∀ p ∈ scan.procs,
      (observe v ⟨s,.reconcile,u⟩).last p.pid = some p.ident := by
    intro p hp
    rw [hview]
    dsimp only
    rw [find_of_mem_scan hp]
    rfl
  have hle : ∀ ident, (v.since ident).getD s.now ≤ s.now := by
    intro ident
    cases ht : v.since ident with
    | none => exact le_rfl
    | some t => exact h.clock ident t ht
  refine ⟨fun ident t ht => ?_,fun pid o ho => ?_,hlast⟩
  · rw [hview] at ht
    dsimp only at ht
    obtain ⟨-,rfl⟩ := guarded ht
    exact hle ident
  · have ho : (if pid ∈ scan.procs.map Proc.pid then s.service.reconcileOrphan s.now pid
        else none) = some o := ho
    obtain ⟨hmem,ho⟩ := Option.ite_none_right_eq_some.mp ho
    obtain ⟨p,hp,rfl⟩ := List.mem_map.mp hmem
    refine ⟨p.ident,_,hlast p hp,hsince p hp,?_⟩
    unfold WorkerService.reconcileOrphan at ho
    rw [if_neg (by rw [hfree]; exact Bool.noConfusion)] at ho
    split at ho
    · cases ho
      exact hle p.ident
    · rename_i old hold
      obtain ⟨ident,t,hident,ht,hto⟩ := h.orphans p.pid old hold
      obtain rfl := hreuse p hp ident hident
      cases ho
      rw [ht]
      exact hto

/-- A step that leaves the table as it is. -/
theorem Timed.keep (h : Timed v s) (hnow : s.now ≤ u.now)
    (horphans : u.service.orphans = s.service.orphans) (hseen : match u.snapshot with
      | .reconciled _ _ scan => ∀ p ∈ scan.procs, v.last p.pid = some p.ident
      | .judging _ _ scan orphans =>
        (∀ p ∈ scan.procs, v.last p.pid = some p.ident) ∧ orphans = u.service.orphans
      | .idle | .begun .. | .scanned .. => True) : Timed v u where
  clock := fun ident t ht => (h.clock ident t ht).trans hnow
  orphans := by
    rw [horphans]
    exact h.orphans
  seen := hseen

theorem step_timed {tr : List (Event Sys Act)} (h : Timed (watch observe {} tr) s)
    (hreg : Unregistered s) (hreuse : NoReuse tr ⟨s,a,u⟩) (hs : step s a = some u) :
    Timed (watch observe {} (⟨s,a,u⟩ :: tr)) u := by
  rw [watch_cons]
  cases a with
  | tick d =>
    cases hs
    exact h.keep (Int.le_add_of_nonneg_right (Int.natCast_nonneg d)) rfl h.seen
  | spawn n pid pgid info =>
    obtain ⟨-,rfl⟩ := guarded hs
    exact h.keep le_rfl rfl h.seen
  | register n =>
    obtain ⟨-,rfl⟩ := guarded hs
    rw [callRegister_eq]
    exact h.keep le_rfl rfl h.seen
  | terminate n reason =>
    obtain ⟨-,rfl⟩ := guarded hs
    rw [callMark_of_empty hreg.live]
    exact h.keep le_rfl rfl h.seen
  | cleanup n =>
    obtain ⟨-,rfl⟩ := guarded hs
    rw [callUnregister_eq]
    exact h.keep le_rfl rfl h.seen
  | begin tasks =>
    simp only [step] at hs
    split at hs
    · cases hs
      exact h.keep le_rfl rfl trivial
    · cases hs
  | scan procs =>
    simp only [step] at hs
    split at hs
    · cases hs
      exact h.keep le_rfl rfl trivial
    · cases hs
  | reconcile =>
    simp only [step] at hs
    split at hs
    · rename_i hsnap
      cases hs
      refine h.reconcile hreg.live hsnap ?_
      unfold NoReuse at hreuse
      dsimp only at hreuse
      rw [hsnap] at hreuse
      exact hreuse
    · cases hs
  | readOrphans =>
    simp only [step] at hs
    split at hs
    · rename_i hsnap
      have hseen := h.seen
      rw [hsnap] at hseen
      cases hs
      exact h.keep le_rfl rfl ⟨hseen,rfl⟩
    · cases hs
  | judge p =>
    simp only [step] at hs
    split at hs
    · obtain ⟨-,rfl⟩ := guarded hs
      exact h.keep le_rfl rfl h.seen
    · cases hs
  | finish =>
    cases hs
    exact h.keep le_rfl rfl trivial

/-- A process that may be killed has been observed for the grace period. -/
theorem Timed.graced (h : Timed v s) (hreg : Unregistered s) {p : Proc}
    (hs : step s (.judge p) = some u) (hkill : allowsKill cfg s p) :
    ∃ t, v.since p.ident = some t ∧ t + cfg.grace ≤ s.now := by
  have hopen := (allowsKill_iff hreg hs).mp hkill
  have hseen := h.seen
  unfold Sheltered at hopen
  simp only [step] at hs
  split at hs
  · rename_i tasks rows scan orphans hsnap
    rw [hsnap] at hseen hopen
    obtain ⟨hmem,-⟩ := guarded hs
    obtain ⟨hlast,rfl⟩ := hseen
    have hopen : ¬(isInferred cfg tasks (taskOf cfg tasks none p) p = true ∨
      graceOver cfg s.now (s.service.orphans p.pid) = false) := hopen
    obtain ⟨-,hover⟩ := not_or.mp hopen
    obtain ⟨o,ho,hle⟩ := since_of_graceOver (Bool.eq_true_of_not_eq_false hover)
    obtain ⟨ident,t,hident,ht,hto⟩ := h.orphans p.pid o ho
    obtain rfl := Option.some.inj (hident.symm.trans (hlast p hmem))
    exact ⟨t,ht,(Int.add_le_add_right hto _).trans hle⟩
  · cases hs

end Grace

/-! ## Runs -/

section Runs

variable {cfg : Config} {now : ℤ} {tr : List (Event Sys Act)} {u : Sys}

theorem unregistered_start (now : ℤ) : Unregistered (start now) := ⟨rfl,trivial⟩

theorem unregistered_of_run (hr : Run step (start now) tr u) :
    ∀ e ∈ tr, Unregistered e.pre ∧ step e.pre e.act = some e.post := by
  refine along_forall.mp ?_
  refine hr.along_of_invariant (P := fun _ _ => True) (J := fun _ s => Unregistered s)
    (along_forall.mpr fun _ _ => trivial) (unregistered_start now) ?_ ?_
  · exact fun _ t a v hj _ hs => step_unregistered hj hs
  · exact fun _ t a v hj _ hs => ⟨hj,hs⟩

theorem noLive_of_run (hr : Run step (start now) tr u)
    (hc : ∀ e ∈ tr, ∀ n, e.act ≠ .register n) :
    ∀ e ∈ tr, ∀ n, (e.post.agents n).stage ≠ .live := by
  refine along_forall.mp ?_
  refine hr.along_of_invariant (P := fun _ e => ∀ n, e.act ≠ .register n)
    (J := fun _ s => ∀ n, (s.agents n).stage ≠ .live) (along_forall.mpr hc) ?_ ?_ ?_
  · exact fun n hn => by cases hn
  · exact fun _ t a v hj ha hs n hn => hj n (live_of_step hs hn (ha n))
  · exact fun _ t a v hj ha hs n hn => hj n (live_of_step hs hn (ha n))

/-- The registry lists the live agents in exactly the runs in which none is registered; a process that
leads to a live agent is spared in exactly the runs in which each such process is sheltered; and where
no pid is reused between two snapshots, a process is killable only after its grace period. -/
theorem registry_run_iff (cfg : Config) (hr : Run step (start now) tr u) :
    ((∀ e ∈ tr, Listing e.post) ↔ ∀ e ∈ tr, ∀ n, e.act ≠ .register n) ∧
    ((∀ e ∈ tr, Spared cfg e) ↔ ∀ e ∈ tr, ∀ p, e.act = .judge p →
      LeadsToLive e.pre (scannedProcs e.pre) p → Sheltered cfg e.pre p) ∧
    (Along NoReuse tr → Along (Graced cfg) tr) := by
  have hsteps := unregistered_of_run hr
  refine ⟨⟨fun hlisting e he n hact => ?_,fun hc e he => ?_⟩,⟨?_,?_⟩,fun hreuse => ?_⟩
  · obtain ⟨hreg,hs⟩ := hsteps e he
    rw [hact] at hs
    exact not_listing_of_register hreg hs (hlisting e he)
  · obtain ⟨hreg,hs⟩ := hsteps e he
    exact (listing_iff (step_unregistered hreg hs)).mpr (noLive_of_run hr hc e he)
  · intro hspared e he p hact hleads
    obtain ⟨hreg,hs⟩ := hsteps e he
    rw [hact] at hs
    by_contra hopen
    exact hspared e he p hact hleads ((allowsKill_iff hreg hs).mpr hopen)
  · intro hsheltered e he p hact hleads hkill
    obtain ⟨hreg,hs⟩ := hsteps e he
    rw [hact] at hs
    exact (allowsKill_iff hreg hs).mp hkill (hsheltered e he p hact hleads)
  · refine hr.along_of_invariant
      (J := fun tr s => Unregistered s ∧ Timed (watch observe {} tr) s) hreuse ?_ ?_ ?_
    · refine ⟨unregistered_start now,(fun _ _ ht => by cases ht),(fun _ _ ho => by cases ho),?_⟩
      trivial
    · exact fun _ t a v hj hc hs => ⟨step_unregistered hj.1 hs,step_timed hj.2 hj.1 hc hs⟩
    · intro tr t a v hj hc hs p hact hkill
      have hact : a = .judge p := hact
      subst hact
      exact hj.2.graced hj.1 hs hkill

end Runs

def localConfig : Config where
  grace := 900
  normalizePath := some
  matchTask := fun _ _ => none

/-- The agent with pid 7, as a scan sees it. -/
def agentProc : Proc where
  ident := 0
  pid := 7
  env := { taskId := some "t" }

def scanOf (p : Proc) : Scan := ⟨[p],List.nodup_singleton _⟩

/-- A live agent that is not listed is spared, since its task is running. -/
theorem running_agent_spared :
    ∃ tr u, Run step (start 1) tr u ∧ isLive u 7 ∧ (∃ e ∈ tr, e.act = .judge agentProc) ∧
      (∀ e ∈ tr, Spared localConfig e) ∧ Along (Graced localConfig) tr ∧
      ¬∀ e ∈ tr, Listing e.post := by
  have hrun : ∃ tr u, Run step (start 1) tr u ∧ isLive u 7 ∧
      (∃ e ∈ tr, e.act = .judge agentProc) ∧ (¬∀ e ∈ tr, Listing e.post) ∧
      (∀ e ∈ tr, ∀ p, e.act = .judge p → LeadsToLive e.pre (scannedProcs e.pre) p →
        Sheltered localConfig e.pre p) ∧ Along NoReuse tr := by
    refine ⟨_,_,.next (.next (.next (.next (.next (.next (.next (.next .refl
      (a := .spawn 0 7 (some 7) { taskId := "t" }) rfl) (a := .register 0) rfl)
      (a := .begin [⟨"t",.running⟩]) rfl) (a := .scan (scanOf agentProc)) rfl)
      (a := .reconcile) rfl) (a := .readOrphans) rfl) (a := .tick 1000) rfl)
      (a := .judge agentProc) rfl,⟨0,rfl,rfl⟩,⟨_,List.mem_cons_self,rfl⟩,?_,?_,?_⟩
    · exact fun h => List.not_mem_nil ((h _ List.mem_cons_self 7).mpr ⟨0,rfl,rfl⟩)
    · simp only [List.forall_mem_cons]
      refine ⟨fun p hact _ => ?_,?_⟩
      · cases hact
        exact Or.inl (by decide)
      · refine ⟨?_,?_,?_,?_,?_,?_,?_,List.forall_mem_nil _⟩ <;> exact fun p hact => by cases hact
    · refine ⟨trivial,trivial,trivial,fun p _ ident hlast => ?_,trivial,trivial,trivial,trivial,
        trivial⟩
      cases hlast
  obtain ⟨tr,u,hr,hlive,hjudge,hlisting,hsheltered,hreuse⟩ := hrun
  obtain ⟨-,hspared,hgraced⟩ := registry_run_iff localConfig hr
  exact ⟨tr,u,hr,hlive,hjudge,hspared.mpr hsheltered,hgraced hreuse,hlisting⟩

/-- A registered agent is not listed; it may be killed once its task is cancelled; and so may a process
that has just got the pid of one that was seen before. -/
theorem unlisted_agent_killable :
    (∃ tr u, Run step (start 1) tr u ∧ isLive u 7 ∧
      u.service.snapshotLiveAgentProcesses = [] ∧ ¬∀ e ∈ tr, Listing e.post) ∧
    (∃ tr u, Run step (start 1) tr u ∧ isLive u 7 ∧ ¬∀ e ∈ tr, Spared localConfig e) ∧
    (∃ tr u, Run step (start 1) tr u ∧ ¬Along (Graced localConfig) tr) := by
  refine ⟨?_,?_,?_⟩
  · have hr : Run step (start 1) _ _ :=
      .next (.next .refl (a := .spawn 0 7 (some 7) {}) rfl) (a := .register 0) rfl
    refine ⟨_,_,hr,⟨0,rfl,rfl⟩,rfl,fun h => ?_⟩
    exact List.not_mem_nil ((h _ List.mem_cons_self 7).mpr ⟨0,rfl,rfl⟩)
  · have hr : Run step (start 1) _ _ :=
      .next (.next (.next (.next (.next (.next (.next (.next .refl
        (a := .spawn 0 7 (some 7) { taskId := "t" }) rfl) (a := .register 0) rfl)
        (a := .begin [⟨"t",.cancelled⟩]) rfl) (a := .scan (scanOf agentProc)) rfl)
        (a := .reconcile) rfl) (a := .readOrphans) rfl) (a := .tick 1000) rfl)
        (a := .judge agentProc) rfl
    refine ⟨_,_,hr,⟨0,rfl,rfl⟩,fun h => ?_⟩
    refine h _ List.mem_cons_self agentProc rfl (Or.inl ⟨0,rfl,rfl⟩) ⟨_,rfl,?_⟩
    decide
  · have hr : Run step (start 1) _ _ :=
      .next (.next (.next (.next (.next (.next (.next (.next (.next (.next .refl
        (a := .begin []) rfl) (a := .scan (scanOf agentProc)) rfl) (a := .reconcile) rfl)
        (a := .finish) rfl) (a := .tick 1000) rfl) (a := .begin []) rfl)
        (a := .scan (scanOf { agentProc with ident := 1 })) rfl) (a := .reconcile) rfl)
        (a := .readOrphans) rfl) (a := .judge { agentProc with ident := 1 }) rfl
    refine ⟨_,_,hr,fun h => ?_⟩
    obtain ⟨t,ht,hle⟩ := h.1 { agentProc with ident := 1 } rfl ⟨_,rfl,by decide⟩
    cases ht
    exact absurd hle (by decide)

end AgentRegistry
end EntryAnalyse
