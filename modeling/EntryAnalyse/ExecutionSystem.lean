import EntryAnalyse.Runs
import EntryAnalyse.ExecutionCoordinator
import EntryAnalyse.TaskRunner
import EntryAnalyse.TaskService
import EntryAnalyse.Dispatcher

/-! The whole dispatch system around one task row: the executions of `run_ea_task`, the API
calls, the pump and scan threads of the dispatcher, and the queue. Every party works on its
own database session; a step is one statement or commit of one of them, so the runs are all
interleavings. Executions and API calls are numbered and unbounded in number, and an
execution may make its steps in any order that its claim permits. -/
namespace EntryAnalyse
namespace ExecutionSystem

open Runs TaskRow ExecutionCoordinator TaskRunner TaskService Dispatcher

/-! ### Loaded row objects, with what their query or check established -/

abbrev RunningRow := {r : TaskRow // r.status = .running}
abbrev OpenRow := {r : TaskRow // r.status.isTerminal = false}
abbrev ProceedingRow := {r : TaskRow // step0Proceeds r = true}
abbrev PublishableRow := {r : TaskRow // pumpSelects r = true}
abbrev RecoverableRow := {r : TaskRow // r.status = .pending ∧ r.celeryTaskId ≠ none}

/-! ### Statements -/

/-- What a step sends to the database. -/
inductive Statement
  | nothing
  | claim (c : Candidate) (owner : String) (ip : Option String) (deadline : ℤ)
  | renew (owner : String) (epoch : ℕ)
  | flush (loaded target : TaskRow)
  | finish (pod : String) (r : FinalResult) (loaded : TaskRow)
  | clear
  | startupReset

/-- The row after the statement; one whose guard fails changes nothing. -/
def Statement.apply (cfg : Settings) (now : ℤ) (row : TaskRow) : Statement → TaskRow
  | .nothing => row
  | .claim c owner ip deadline => (claimWrite c owner ip deadline row).getD row
  | .renew owner epoch => (renewLease now cfg.leaseTtl owner epoch row).1
  | .flush loaded target => TaskRow.flush loaded target row
  | .finish pod r loaded => (step10Write now pod r loaded row).getD row
  | .clear => clearRunningDispatchFields row
  | .startupReset => Dispatcher.startupReset row

section Apply

variable (cfg : Settings) (now : ℤ) (row : TaskRow)

@[simp] theorem apply_nothing : Statement.nothing.apply cfg now row = row := rfl
@[simp] theorem apply_claim (c : Candidate) (owner : String) (ip : Option String)
    (deadline : ℤ) : (Statement.claim c owner ip deadline).apply cfg now row =
      (claimWrite c owner ip deadline row).getD row := rfl
@[simp] theorem apply_renew (owner : String) (epoch : ℕ) :
    (Statement.renew owner epoch).apply cfg now row =
      (renewLease now cfg.leaseTtl owner epoch row).1 := rfl
@[simp] theorem apply_flush (l t : TaskRow) :
    (Statement.flush l t).apply cfg now row = TaskRow.flush l t row := rfl
@[simp] theorem apply_finish (pod : String) (r : FinalResult) (l : TaskRow) :
    (Statement.finish pod r l).apply cfg now row = (step10Write now pod r l row).getD row := rfl
@[simp] theorem apply_clear :
    Statement.clear.apply cfg now row = clearRunningDispatchFields row := rfl
@[simp] theorem apply_startupReset :
    Statement.startupReset.apply cfg now row = Dispatcher.startupReset row := rfl

end Apply

/-! ### Executions -/

/-- The database work an execution has begun. -/
inductive ExecOp
  | idle
  | selected (c : Candidate)
  | step0Loaded (loaded : ProceedingRow)
  | step2Loaded (loaded : TaskRow)
  | step3Loaded (loaded : TaskRow)
  | step10Loaded (loaded : TaskRow)
  | ensureLoaded (loaded : OpenRow)

/-- One execution of `run_ea_task`: `pod` is its `WORKER_ID`, `claim` the epoch that
`claim_specific_task` returned to it, `live` whether its process still runs. -/
structure Exec where
  pod : String
  podIp : Option String := none
  celeryId : Option ℕ := none
  live : Bool := true
  claim : Option ℕ := none
  op : ExecOp := .idle

inductive ExecAct
  | claimSelect | claimWrite (t : ℤ) | renew
  | step0Load | step0Commit | step2Load | step2Commit
  | step3Load | step3Commit (err : String) | step10Load | step10Commit (r : FinalResult)
  | ensureLoad | ensureCommit (err : String) | clear | die

/-- The execution may begin a new piece of database work on behalf of its claim. -/
def Exec.ready (e : Exec) : Bool :=
  e.claim.isSome && match e.op with
    | .idle => true
    | _ => false

/-- One step of a live execution: its new local state and the statement it sends. `t` is the
clock reading of `_lease_deadline`, taken between the SELECT and the UPDATE of the claim. A
claim that is refused ends the execution, and so does a renewal that affects no row. -/
def liveStep (cfg : Settings) (now : ℤ) (row : TaskRow) (e : Exec) :
    ExecAct → Option (Exec × Statement)
  | .claimSelect =>
    match e.op with
    | .idle =>
      if e.claim = none ∧ e.celeryId ≠ none then
        match claimCandidate now row with
        | some c => some ({ e with op := .selected c },.nothing)
        | none => some ({ e with live := false },.nothing)
      else none
    | _ => none
  | .claimWrite t =>
    match e.op with
    | .selected c =>
      if c.now ≤ t ∧ t ≤ now then
        if (claimWrite c e.pod e.podIp (t + cfg.leaseTtl) row).isSome then
          some ({ e with op := .idle, claim := some c.newEpoch },
            .claim c e.pod e.podIp (t + cfg.leaseTtl))
        else some ({ e with op := .idle, live := false },.nothing)
      else none
    | _ => none
  | .renew =>
    match e.claim with
    | some n =>
      some ({ e with live := (renewLease now cfg.leaseTtl e.pod n row).2 },.renew e.pod n)
    | none => none
  | .step0Load =>
    if e.ready then
      if h : step0Proceeds row = true then some ({ e with op := .step0Loaded ⟨row,h⟩ },.nothing)
      else some (e,.nothing)
    else none
  | .step0Commit =>
    match e.op with
    | .step0Loaded l =>
      some ({ e with op := .idle },.flush l.1 (step0Target now e.pod e.podIp l.1))
    | _ => none
  | .step2Load => if e.ready then some ({ e with op := .step2Loaded row },.nothing) else none
  | .step2Commit =>
    match e.op with
    | .step2Loaded l => some ({ e with op := .idle },.flush l (step2Target l))
    | _ => none
  | .step3Load => if e.ready then some ({ e with op := .step3Loaded row },.nothing) else none
  | .step3Commit err =>
    match e.op with
    | .step3Loaded l => some ({ e with op := .idle },.flush l (step3Target now err l))
    | _ => none
  | .step10Load =>
    if e.ready then
      if step10Loads e.pod row then some ({ e with op := .step10Loaded row },.nothing)
      else some (e,.nothing)
    else none
  | .step10Commit r =>
    match e.op with
    | .step10Loaded l => some ({ e with op := .idle },.finish e.pod r l)
    | _ => none
  | .ensureLoad =>
    if e.ready then
      if h : row.status.isTerminal = false then
        some ({ e with op := .ensureLoaded ⟨row,h⟩ },.nothing)
      else some (e,.nothing)
    else none
  | .ensureCommit err =>
    match e.op with
    | .ensureLoaded l => some ({ e with op := .idle },.flush l.1 (ensureTarget now err l.1))
    | _ => none
  | .clear => if e.ready then some (e,.clear) else none
  | .die => some ({ e with live := false, op := .idle },.nothing)

def execStep (cfg : Settings) (now : ℤ) (row : TaskRow) (e : Exec) (a : ExecAct) :
    Option (Exec × Statement) :=
  if e.live then liveStep cfg now row e a else none

/-! ### API calls -/

inductive ApiOp
  | idle
  | cancelLoaded (loaded : OpenRow)
  | cancelCommitted
  | cancelRunning (loaded : RunningRow)
  | requeueLoaded (k : Requeue) (loaded : OpenRow)
  | requeueCommitted (k : Requeue)
  | requeueFresh (k : Requeue) (loaded : TaskRow)

inductive ApiAct
  | cancelLoad | cancelCommit | cancelRefresh | cancelFinish
  | requeueLoad (k : Requeue) | requeueCommit | requeueRefresh | requeueFinish
  | abort

/-- One step of an API call. A refused request leaves the call idle; `cancelRefresh` on a
row that is not running and `cancelFinish` return to the caller. -/
def apiStep (now : ℤ) (row : TaskRow) (op : ApiOp) : ApiAct → Option (ApiOp × Statement)
  | .cancelLoad =>
    match op with
    | .idle =>
      if h : row.isDeleted = false ∧ row.status.isTerminal = false then
        some (.cancelLoaded ⟨row,h.2⟩,.nothing)
      else some (.idle,.nothing)
    | _ => none
  | .cancelCommit =>
    match op with
    | .cancelLoaded l => some (.cancelCommitted,.flush l.1 (cancelRequestTarget now l.1))
    | _ => none
  | .cancelRefresh =>
    match op with
    | .cancelCommitted =>
      if h : row.status = .running then some (.cancelRunning ⟨row,h⟩,.nothing)
      else some (.idle,.nothing)
    | _ => none
  | .cancelFinish =>
    match op with
    | .cancelRunning l => some (.idle,.flush l.1 (cancelFinalTarget now l.1))
    | _ => none
  | .requeueLoad k =>
    match op with
    | .idle =>
      if row.isDeleted then some (.idle,.nothing)
      else if h : row.status.isTerminal = false then some (.requeueLoaded k ⟨row,h⟩,.nothing)
      else some (.requeueFresh k row,.nothing)
    | _ => none
  | .requeueCommit =>
    match op with
    | .requeueLoaded k l => some (.requeueCommitted k,.flush l.1 (requeueCancelTarget k now l.1))
    | _ => none
  | .requeueRefresh =>
    match op with
    | .requeueCommitted k => some (.requeueFresh k row,.nothing)
    | _ => none
  | .requeueFinish =>
    match op with
    | .requeueFresh _ l => some (.idle,.flush l (requeuePendingTarget l))
    | _ => none
  | .abort => some (.idle,.nothing)

/-! ### The dispatcher's threads -/

inductive PumpThread
  | idle
  | selected (loaded : PublishableRow)
  | published (loaded : PublishableRow) (cid : ℕ)

inductive PumpAct
  | read | publish | commit | fail

/-- One step of `_pump_once` as far as this row is concerned. `fresh` is the id a publish
draws; a failed publish or commit rolls back and ends the round. -/
def pumpStep (row : TaskRow) (fresh : ℕ) (th : PumpThread) :
    PumpAct → Option (PumpThread × Statement)
  | .read =>
    match th with
    | .idle =>
      if h : pumpSelects row = true then some (.selected ⟨row,h⟩,.nothing) else none
    | _ => none
  | .publish =>
    match th with
    | .selected l => some (.published l fresh,.nothing)
    | _ => none
  | .commit =>
    match th with
    | .published l cid => some (.idle,.flush l.1 (pumpTarget cid l.1))
    | _ => none
  | .fail => some (.idle,.nothing)

inductive ScanThread
  | idle
  | inspected (activeIds : List ℕ)
  | resetting (activeIds : List ℕ) (loaded : RunningRow)
  | resetDone (activeIds : List ℕ)
  | recovering (loaded : RecoverableRow)

/-- `inspect` takes the answer of `_active_ids`, the empty list when the call failed; `read`
takes the clock reading made before the query. -/
inductive ScanAct
  | inspect (activeIds : List ℕ) | read (t : ℤ) | commit | recoverRead | recoverCommit | abort

/-- One step of `_stale_once` followed by `_recover_pending_stale_cid`, as far as this row is
concerned. -/
def scanStep (cfg : Settings) (now : ℤ) (row : TaskRow) (th : ScanThread) :
    ScanAct → Option (ScanThread × Statement)
  | .inspect ids =>
    match th with
    | .idle => some (.inspected ids,.nothing)
    | _ => none
  | .read t =>
    match th with
    | .inspected ids =>
      if t ≤ now then
        if h : staleResets cfg t ids row = true then
          some (.resetting ids ⟨row,(staleResets_iff.mp h).1⟩,.nothing)
        else some (.resetDone ids,.nothing)
      else none
    | _ => none
  | .commit =>
    match th with
    | .resetting ids l => some (.resetDone ids,.flush l.1 (staleTarget l.1))
    | _ => none
  | .recoverRead =>
    match th with
    | .resetDone ids =>
      if h : recoverResets ids row = true then
        some (.recovering ⟨row,(recoverResets_iff.mp h).1,(recoverResets_iff.mp h).2.2.1⟩,
          .nothing)
      else some (.idle,.nothing)
    | _ => none
  | .recoverCommit =>
    match th with
    | .recovering l => some (.idle,.flush l.1 (recoverTarget l.1))
    | _ => none
  | .abort => some (.idle,.nothing)

/-! ### The system -/

structure Sys where
  now : ℤ := 0
  row : TaskRow := {}
  /-- Published messages for the task that no worker has received yet. -/
  queue : List ℕ := []
  nextId : ℕ := 0
  execs : ℕ → Exec
  api : ℕ → ApiOp := fun _ => .idle
  pump : PumpThread := .idle
  scan : ScanThread := .idle

/-- `redeliver` is the broker handing out a message again after its worker was lost. -/
inductive Act
  | tick (d : ℕ)
  | deliver (n cid : ℕ)
  | redeliver (cid : ℕ)
  | exec (n : ℕ) (a : ExecAct)
  | api (k : ℕ) (a : ApiAct)
  | startupReset
  | pump (a : PumpAct)
  | scan (a : ScanAct)

/-- What the system becomes when the statement is executed. -/
def Sys.send (cfg : Settings) (s : Sys) (st : Statement) : Sys :=
  { s with row := st.apply cfg s.now s.row }

/-- A publish puts the fresh message into the queue before its id is committed. -/
def Sys.enqueue (s : Sys) : PumpAct → Sys
  | .publish => { s with queue := s.queue ++ [s.nextId], nextId := s.nextId + 1 }
  | _ => s

def step (cfg : Settings) (s : Sys) : Act → Option Sys
  | .tick d => some { s with now := s.now + d }
  | .deliver n cid =>
    if cid ∈ s.queue ∧ (s.execs n).live = true ∧ (s.execs n).celeryId = none then
      some { s with
        queue := s.queue.erase cid
        execs := Function.update s.execs n { s.execs n with celeryId := some cid } }
    else none
  | .redeliver cid =>
    if cid < s.nextId then some { s with queue := s.queue ++ [cid] } else none
  | .exec n a =>
    (execStep cfg s.now s.row (s.execs n) a).map fun r =>
      { s.send cfg r.2 with execs := Function.update s.execs n r.1 }
  | .api k a =>
    (apiStep s.now s.row (s.api k) a).map fun r =>
      { s.send cfg r.2 with api := Function.update s.api k r.1 }
  | .startupReset => some (s.send cfg .startupReset)
  | .pump a =>
    (pumpStep s.row s.nextId s.pump a).map fun r =>
      { (s.enqueue a).send cfg r.2 with pump := r.1 }
  | .scan a =>
    (scanStep cfg s.now s.row s.scan a).map fun r => { s.send cfg r.2 with scan := r.1 }

/-- The statement a step sends. -/
def issued (cfg : Settings) (s : Sys) : Act → Statement
  | .exec n a => ((execStep cfg s.now s.row (s.execs n) a).map (·.2)).getD .nothing
  | .api k a => ((apiStep s.now s.row (s.api k) a).map (·.2)).getD .nothing
  | .startupReset => .startupReset
  | .pump a => ((pumpStep s.row s.nextId s.pump a).map (·.2)).getD .nothing
  | .scan a => ((scanStep cfg s.now s.row s.scan a).map (·.2)).getD .nothing
  | _ => .nothing

/-- Nobody has begun anything; the row, the queue and the clock are arbitrary, and any number
of executions may already have received their message. -/
structure Initial (s : Sys) : Prop where
  noWork : ∀ n, (s.execs n).op = .idle
  noClaim : ∀ n, (s.execs n).claim = none
  noCall : ∀ k, s.api k = .idle
  pumpIdle : s.pump = .idle
  scanIdle : s.scan = .idle

end ExecutionSystem
end EntryAnalyse
