import EntryAnalyse.TaskRow

/-! The registry of the agent processes of one worker, the calls of the runner that fill it, and the
cascade that decides for each process of a snapshot who owns it and whether it may be killed. -/
namespace EntryAnalyse
namespace AgentOwnership

/-! ## The registry -/

/-- An entry of the registry, with the fields that a snapshot reads. -/
structure Info where
  rootPid : Option ℕ := none
  pid : Option ℕ := none
  rootPgid : Option ℕ := none
  state : String := ""
  taskId : String := ""
  sessionPath : Option String := none
  workspaceRoot : Option String := none
  terminating : Bool := false
  reason : String := ""

structure Orphan where
  firstDetectedAt : ℤ
  lastDetectedAt : ℤ

/-- `_live_agent_processes`, in the order of insertion, and `_suspected_orphans`. -/
structure WorkerService where
  live : List (ℕ × Info) := []
  orphans : ℕ → Option Orphan := fun _ => none

/-- Assignment to a key of a dictionary. -/
def assign {α : Type} (rows : List (ℕ × α)) (key : ℕ) (value : α) : List (ℕ × α) :=
  if rows.any (·.1 == key) then rows.map fun row => if row.1 = key then (key,value) else row
  else rows ++ [(key,value)]

namespace WorkerService

def registerLiveAgentProcess (w : WorkerService) (pid : ℕ) (info : Info) : WorkerService :=
  { w with live := assign w.live pid info }

def markLiveAgentProcessTerminating (w : WorkerService) (pid : ℕ) (reason : String) :
    WorkerService :=
  { w with live := w.live.map fun row =>
      if row.1 = pid then (row.1,{ row.2 with terminating := true, reason := reason }) else row }

def unregisterLiveAgentProcess (w : WorkerService) (pid : ℕ) : WorkerService :=
  { w with live := w.live.filter fun row => row.1 ≠ pid }

def snapshotLiveAgentProcesses (w : WorkerService) : List Info := w.live.map Prod.snd

def isRegistered (w : WorkerService) (pid : ℕ) : Bool := w.live.any (·.1 == pid)

def reconcileOrphan (w : WorkerService) (now : ℤ) (pid : ℕ) : Option Orphan :=
  if w.isRegistered pid then none
  else match w.orphans pid with
    | none => some ⟨now,now⟩
    | some orphan => some { orphan with lastDetectedAt := now }

def reconcileSuspectedOrphans (w : WorkerService) (now : ℤ) (observed : List ℕ) : WorkerService :=
  { w with orphans := fun pid => if pid ∈ observed then w.reconcileOrphan now pid else none }

end WorkerService

/-! ## The calls -/

/-- The parameters of a method after `self`, and whether it takes any other keyword. -/
structure Signature where
  params : List String
  varKeywords : Bool := false

/-- A call binds: otherwise it raises `TypeError` before the body runs. -/
def Signature.binds (sig : Signature) (positional : ℕ) (keywords : List String) : Bool :=
  decide (positional ≤ sig.params.length) &&
    (sig.params.drop positional).all (fun p => keywords.contains p) &&
    keywords.all fun k => (sig.params.drop positional).contains k ||
      sig.varKeywords && !sig.params.contains k

def registerSignature : Signature := ⟨["pid","info"],false⟩
def markSignature : Signature := ⟨["pid"],true⟩
def unregisterSignature : Signature := ⟨["pid"],false⟩

/-- The keywords of the call in `_execute`. -/
def registerKeywords : List String :=
  ["pid","task_id","runtime_kind","stage_key","role_kind","workspace_root","session_path","cwd",
    "command","pgid"]

/-- The registration step of `_execute`; the exception is suppressed. -/
def callRegister (w : WorkerService) (pid : ℕ) (info : Info) : WorkerService :=
  if registerSignature.binds 0 registerKeywords then w.registerLiveAgentProcess pid info else w

def callMark (w : WorkerService) (pid : ℕ) (reason : String) : WorkerService :=
  if markSignature.binds 1 ["reason"] then w.markLiveAgentProcessTerminating pid reason else w

/-- The cleanup step. -/
def callUnregister (w : WorkerService) (pid : ℕ) : WorkerService :=
  if unregisterSignature.binds 1 ["reason"] then w.unregisterLiveAgentProcess pid else w

/-! ## What a snapshot reads -/

structure TaskInfo where
  taskId : String
  status : TaskStatus

/-- What `_env_value` and `_normalize_path` make of the environment. -/
structure Env where
  taskId : Option String := none
  sessionPath : Option String := none
  workspaceRoot : Option String := none
  deriving DecidableEq

def Env.isSome (env : Env) : Bool :=
  env.taskId.isSome || env.sessionPath.isSome || env.workspaceRoot.isSome

/-- A process that `_iter_agent_processes` has seen; `ident` tells it from another one that gets its
pid later. -/
structure Proc where
  ident : ℕ
  pid : ℕ
  ppid : Option ℕ := none
  pgid : Option ℕ := none
  env : Env := {}
  deriving DecidableEq

/-- The processes of one scan of `/proc`, one for each pid. -/
structure Scan where
  procs : List Proc
  pids_nodup : (procs.map Proc.pid).Nodup

inductive MatchSource
  | sessionArgPath | cwd | taskRoot

/-- The grace period, `_normalize_path` and `_match_task`; the last two ask the file system. -/
structure Config where
  grace : ℤ
  normalizePath : String → Option String
  matchTask : Proc → List TaskInfo → Option (String × MatchSource)

/-! ## `build_snapshot` -/

/-- `root_pid or pid`. -/
def Info.root (info : Info) : Option ℕ := (info.rootPid.filter (· ≠ 0)).or info.pid

/-- `live_registry_rows`. -/
def liveRegistryRows (rows : List Info) : List (ℕ × Info) :=
  rows.foldl (fun live info =>
    match info.root with
    | some root => assign live root info
    | none => live) []

def rowAt (live : List (ℕ × Info)) (pid : ℕ) : Option Info :=
  (live.find? (·.1 = pid)).map Prod.snd

/-- `live_registry_by_pgid`: of several rows the last one. -/
def rowByPgid (live : List (ℕ × Info)) (pgid : ℕ) : Option Info :=
  (live.reverse.find? fun row => row.2.rootPgid = some pgid ∧ row.2.state ≠ "exited").map Prod.snd

/-- The loop of `_resolve_parent_chain_root_pid`, from a parent pid. -/
def resolveParentChainRootPid (live : List (ℕ × Info)) (procs : List Proc) :
    ℕ → Option ℕ → Option ℕ
  | 0,_ => none
  | _ + 1,none => none
  | fuel + 1,some pid =>
    if pid = 0 then none
    else if (rowAt live pid).isSome then some pid
    else match procs.find? (·.pid = pid) with
      | none => none
      | some parent => resolveParentChainRootPid live procs fuel parent.ppid

def parentChainLimit : ℕ := 32

def registryRowMatchesEnv (cfg : Config) (info : Info) (env : Env) : Bool :=
  info.state != "exited" &&
    (env.taskId.any (· == info.taskId) ||
      env.sessionPath.any (fun path => info.sessionPath.bind cfg.normalizePath == some path) ||
      env.workspaceRoot.any fun path => info.workspaceRoot.bind cfg.normalizePath == some path)

/-- The four matches of a process in the registry. -/
structure Matches where
  direct : Option Info
  pgid : Option Info
  parent : Option Info
  env : Option Info

def registryMatches (cfg : Config) (rows : List Info) (procs : List Proc) (p : Proc) : Matches :=
  let live := liveRegistryRows rows
  { direct := rowAt live p.pid
    pgid := p.pgid.bind (rowByPgid live)
    parent := (resolveParentChainRootPid live procs parentChainLimit p.ppid).bind (rowAt live)
    env := (live.map Prod.snd).find? fun info => registryRowMatchesEnv cfg info p.env }

/-- `direct or pgid or parent or env`. -/
def Matches.registryRow (m : Matches) : Option Info := m.direct.or (m.pgid.or (m.parent.or m.env))

def Matches.registryOwned (m : Matches) : Bool := m.registryRow.any (·.state != "exited")

def taskAt (tasks : List TaskInfo) (taskId : String) : Option TaskInfo :=
  tasks.find? (·.taskId = taskId)

/-- The task of a process: that of its registry row, else of its environment, else the one its paths
match. -/
def taskOf (cfg : Config) (tasks : List TaskInfo) (registry : Option Info) (p : Proc) :
    Option TaskInfo :=
  let registryTask := (registry.map Info.taskId).getD ""
  let taskId :=
    if registryTask ≠ "" then registryTask
    else (p.env.taskId.or ((cfg.matchTask p tasks).map Prod.fst)).getD ""
  (taskAt tasks taskId).or (taskAt tasks registryTask)

/-- `_RUNNING_TASK_STATUSES`. -/
def isRunning : TaskStatus → Bool
  | .running | .pending => true
  | .passed | .failed | .error | .cancelled => false

/-- Membership in `{"failed","error","cancelled"}`. -/
def isResidual : TaskStatus → Bool
  | .failed | .error | .cancelled => true
  | .pending | .running | .passed => false

/-- `first_detected_at` of the process, and the end of its grace period. A time that is 0 counts as
none. -/
def suspectedSince (orphan : Option Orphan) : Option ℤ :=
  (orphan.map Orphan.firstDetectedAt).filter (· ≠ 0)

def graceExpiresAt (cfg : Config) (orphan : Option Orphan) : Option ℤ :=
  ((suspectedSince orphan).map (· + cfg.grace)).filter (· ≠ 0)

def graceOver (cfg : Config) (now : ℤ) (orphan : Option Orphan) : Bool :=
  (graceExpiresAt cfg orphan).any (· ≤ now)

inductive OwnerKind
  | tracked | trackedSubprocess | trackedInferred | residual | suspectedOrphan | unknown
  deriving DecidableEq

structure Verdict where
  ownerKind : OwnerKind
  ownerReason : String
  killAllowed : Bool := false
  killBlockReason : Option String

/-- `进程仍处于 orphan 保护期`, while the grace period lasts. -/
def graceBlockReason (cfg : Config) (now : ℤ) (orphan : Option Orphan) : Option String :=
  if (graceExpiresAt cfg orphan).any (now < ·) then some "进程仍处于 orphan 保护期" else none

/-- A running task to which the environment or the paths of the process point. -/
def isInferred (cfg : Config) (tasks : List TaskInfo) (task : Option TaskInfo) (p : Proc) : Bool :=
  task.any (fun t => isRunning t.status) && (p.env.isSome || (cfg.matchTask p tasks).isSome)

/-- The branches of the cascade below the registry. -/
def judgeUnowned (cfg : Config) (tasks : List TaskInfo) (task : Option TaskInfo)
    (orphan : Option Orphan) (now : ℤ) (p : Proc) : Verdict :=
  if isInferred cfg tasks task p then
    { ownerKind := .trackedInferred
      ownerReason := "running_task_workspace_or_env_match"
      killBlockReason := some "进程与运行中任务工作目录或环境上下文一致" }
  else if task.any (fun t => isResidual t.status) then
    { ownerKind := .residual
      ownerReason := "db_terminal_task_matched_without_registry_owner"
      killAllowed := graceOver cfg now orphan
      killBlockReason := graceBlockReason cfg now orphan }
  else if (suspectedSince orphan).isSome then
    { ownerKind := .suspectedOrphan
      ownerReason := "registry_unowned_process_under_grace_or_recheck"
      killAllowed := graceOver cfg now orphan
      killBlockReason := graceBlockReason cfg now orphan }
  else
    { ownerKind := .unknown
      ownerReason := "unmatched_process_pending_orphan_classification"
      killBlockReason := some "进程尚未进入 orphan 保护期" }

/-- What the snapshot says of one process. -/
def judge (cfg : Config) (tasks : List TaskInfo) (rows : List Info) (procs : List Proc)
    (orphans : ℕ → Option Orphan) (now : ℤ) (p : Proc) : Verdict :=
  let m := registryMatches cfg rows procs p
  let task := taskOf cfg tasks m.registryRow p
  if m.direct.isSome && m.registryOwned then
    { ownerKind := .tracked
      ownerReason := "runtime_registry_root_owned"
      killBlockReason := some "进程仍被运行时活跃注册表持有" }
  else if m.pgid.isSome && m.registryOwned then
    { ownerKind := .trackedSubprocess
      ownerReason := "process_group_inherited_from_live_root"
      killBlockReason := some "进程仍归属于活跃 root process group" }
  else if m.parent.isSome && m.registryOwned then
    { ownerKind := .trackedSubprocess
      ownerReason := "parent_chain_inherited_from_live_root"
      killBlockReason := some "进程仍归属于活跃父进程链" }
  else if m.env.any (fun info => registryRowMatchesEnv cfg info p.env) && m.registryOwned then
    { ownerKind := .trackedInferred
      ownerReason := "environment_inferred_live_root"
      killBlockReason := some "进程环境变量与活跃 root 上下文一致" }
  else judgeUnowned cfg tasks task (orphans p.pid) now p

/-! ## What the calls do -/

/-- The call of the runner does not fit the method, so that nothing is ever registered. -/
theorem callRegister_eq (w : WorkerService) (pid : ℕ) (info : Info) :
    callRegister w pid info = w := by
  have hbinds : registerSignature.binds 0 registerKeywords = false := by decide
  unfold callRegister
  rw [hbinds]
  rfl

theorem callUnregister_eq (w : WorkerService) (pid : ℕ) : callUnregister w pid = w := by
  have hbinds : unregisterSignature.binds 1 ["reason"] = false := by decide
  unfold callUnregister
  rw [hbinds]
  rfl

theorem callMark_of_empty {w : WorkerService} (h : w.live = []) (pid : ℕ) (reason : String) :
    callMark w pid reason = w := by
  obtain ⟨live,orphans⟩ := w
  have h : live = [] := h
  subst h
  unfold callMark WorkerService.markLiveAgentProcessTerminating
  split
  · rfl
  · rfl

/-! ## What the cascade decides -/

section Cascade

variable {cfg : Config} {tasks : List TaskInfo} {procs : List Proc}
  {orphans : ℕ → Option Orphan} {now : ℤ} {p : Proc}

theorem matches_of_registryRow {m : Matches} {info : Info} (h : m.registryRow = some info) :
    m.direct.isSome = true ∨ m.pgid.isSome = true ∨ m.parent.isSome = true ∨
      m.env = some info := by
  unfold Matches.registryRow at h
  cases hdirect : m.direct with
  | some row => exact Or.inl rfl
  | none =>
    cases hpgid : m.pgid with
    | some row => exact Or.inr (Or.inl rfl)
    | none =>
      cases hparent : m.parent with
      | some row => exact Or.inr (Or.inr (Or.inl rfl))
      | none =>
        rw [hdirect,hpgid,hparent] at h
        exact Or.inr (Or.inr (Or.inr h))

/-- A process whose first match in the registry has not exited may not be killed. -/
theorem killAllowed_of_owned {rows : List Info}
    (h : (registryMatches cfg rows procs p).registryOwned = true) :
    (judge cfg tasks rows procs orphans now p).killAllowed = false := by
  obtain ⟨info,hrow,-⟩ := (Option.any_eq_true _ _).mp h
  unfold judge
  dsimp only
  split
  · rfl
  · rename_i hdirect
    split
    · rfl
    · rename_i hpgid
      split
      · rfl
      · rename_i hparent
        rw [h,Bool.and_true] at hdirect hpgid hparent
        rcases matches_of_registryRow hrow with hm | hm | hm | henv
        · exact absurd hm hdirect
        · exact absurd hm hpgid
        · exact absurd hm hparent
        · have hmatch : registryRowMatchesEnv cfg info p.env = true :=
            List.find?_some (p := fun info => registryRowMatchesEnv cfg info p.env) henv
          rw [henv,h]
          simp only [Option.any_some,hmatch,Bool.and_true,if_true]

theorem killAllowed_judgeUnowned (task : Option TaskInfo) (orphan : Option Orphan) :
    (judgeUnowned cfg tasks task orphan now p).killAllowed =
      (!isInferred cfg tasks task p && graceOver cfg now orphan) := by
  unfold judgeUnowned
  split
  · rename_i hinferred
    rw [hinferred]
    rfl
  · rename_i hinferred
    rw [Bool.eq_false_of_not_eq_true hinferred]
    split
    · rfl
    · split
      · rfl
      · rename_i hsince
        have hnone := Option.not_isSome_iff_eq_none.mp hsince
        unfold graceOver graceExpiresAt
        rw [hnone]
        rfl

theorem resolveParentChainRootPid_nil (procs : List Proc) (fuel : ℕ) (ppid : Option ℕ) :
    resolveParentChainRootPid [] procs fuel ppid = none := by
  induction fuel generalizing ppid with
  | zero => rfl
  | succ fuel ih =>
    cases ppid with
    | none => rfl
    | some pid =>
      unfold resolveParentChainRootPid
      split
      · rfl
      · split
        · rename_i hrow
          cases hrow
        · split
          · rfl
          · exact ih _

theorem registryMatches_nil : registryMatches cfg [] procs p = ⟨none,none,none,none⟩ := by
  unfold registryMatches liveRegistryRows
  simp only [List.foldl_nil,resolveParentChainRootPid_nil]
  cases p.pgid with
  | none => rfl
  | some pgid => rfl

/-- Without an entry in the registry a process is killable after the grace period, unless a running
task is inferred. -/
theorem killAllowed_judge_nil :
    (judge cfg tasks [] procs orphans now p).killAllowed =
      (!isInferred cfg tasks (taskOf cfg tasks none p) p && graceOver cfg now (orphans p.pid)) := by
  unfold judge
  rw [registryMatches_nil]
  exact killAllowed_judgeUnowned _ _

theorem since_of_graceOver {orphan : Option Orphan} (h : graceOver cfg now orphan = true) :
    ∃ o, orphan = some o ∧ o.firstDetectedAt + cfg.grace ≤ now := by
  unfold graceOver graceExpiresAt suspectedSince at h
  cases orphan with
  | none => cases h
  | some o =>
    refine ⟨o,rfl,?_⟩
    simp only [Option.map_some,Option.filter_some,Option.any_eq_true] at h
    obtain ⟨t,ht,hle⟩ := h
    split at ht
    · simp only [Option.map_some,Option.filter_some] at ht
      split at ht
      · cases ht
        exact of_decide_eq_true hle
      · cases ht
    · cases ht

end Cascade

end AgentOwnership
end EntryAnalyse
