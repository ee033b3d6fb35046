import EntryAnalyse.Runs
import EntryAnalyse.DebugReport

/-! The executions of `run_ea_debug`, the startup reset, the pump and the stale round of the
dispatcher around one report. Every party works on its own database session; a step is one statement
or commit of one of them, or a move inside a process that sends nothing. The executions are unbounded
in number, and a message may reach a worker at any time. -/
namespace EntryAnalyse
namespace DebugSystem

open Runs DebugReport

/-! ## Loaded row objects, with what their query or check established -/

abbrev RunningReport := {r : DebugRow // r.status = .running}
abbrev UnsettledReport := {r : DebugRow // knownTerminal r.status = false}
abbrev PublishableReport := {r : DebugRow // pumpSelects r = true}
abbrev RecoverableReport := {r : DebugRow // r.status = .pending}

/-! ## Statements -/

/-- What a step sends to the database. -/
inductive Statement
  | nothing
  | claim (c : Candidate) (owner : String) (deadline : ℤ)
  | renew (owner : String) (epoch : ℕ)
  | flush (loaded target : DebugRow)
  | clear
  | startupReset

/-- The row after the statement; one whose guard fails changes nothing. -/
def Statement.apply (cfg : Settings) (now : ℤ) (row : DebugRow) : Statement → DebugRow
  | .nothing => row
  | .claim c owner deadline => (claimWrite c owner deadline row).getD row
  | .renew owner epoch => (renewDebugLease now cfg.leaseTtl owner epoch row).1
  | .flush loaded target => DebugRow.flush loaded target row
  | .clear => clearDebugDispatchFields row
  | .startupReset => DebugReport.startupReset row

/-! ## Executions -/

/-- Where an execution stands. From `claimed` on it is inside the `try` that `clear` ends; `running` to
`returned` are inside `_run_debug`. -/
inductive Stage
  | waiting
  | selected (c : Candidate)
  | claimed
  | runLoaded (loaded : DebugRow)
  | running
  | finishLoaded (loaded : DebugRow)
  | returned
  | raised
  | ensureLoaded (loaded : UnsettledReport)
  | ending
  | ended

def Stage.beforeClaim : Stage → Bool
  | .waiting | .selected _ => true
  | _ => false

/-- An exception is caught by `run_ea_debug`. -/
def Stage.inTry : Stage → Bool
  | .claimed | .runLoaded _ | .running | .finishLoaded _ | .returned => true
  | _ => false

/-- No write of the report's content is ahead, unless the fallback finds it unfinished. -/
def Stage.isPast : Stage → Bool
  | .returned | .raised | .ending | .ended => true
  | _ => false

/-- A step inside the process. `leave` is the return of `_run_debug` that finds no task, `giveUp` an
exception in the fallback or in the final clear. -/
inductive Move
  | select | runLoad | leave | finishLoad | finish | raise | ensureLoad | giveUp

def Stage.move (now : ℤ) (row : DebugRow) : Stage → Move → Option Stage
  | .waiting,.select =>
    match claimCandidate now row with
    | some c => some (.selected c)
    | none => some .ended
  | .claimed,.runLoad => some (.runLoaded row)
  | .claimed,.leave => some .returned
  | .running,.finishLoad => some (.finishLoaded row)
  | .returned,.finish => some .ending
  | .raised,.ensureLoad =>
    if h : knownTerminal row.status = false then some (.ensureLoaded ⟨row,h⟩) else some .ending
  | .raised,.giveUp => some .ending
  | .ensureLoaded _,.giveUp => some .ending
  | .ending,.giveUp => some .ended
  | st,.raise => if st.inTry then some .raised else none
  | _,_ => none

/-- One execution: `pod` is its `WORKER_ID`, `epoch` the one its claim returned, `live` whether its
process still runs, and `beating` whether its heartbeat thread does. -/
structure Exec where
  pod : String
  live : Bool := true
  beating : Bool := false
  epoch : Option ℕ := none
  stage : Stage := .waiting

def Exec.beats (e : Exec) : Bool := e.live && e.beating

/-- `hush` is the end of the heartbeat thread, which may outlive the final clear. -/
inductive ExecAct
  | move (m : Move)
  | claim (t : ℤ)
  | renew
  | hush
  | runCommit
  | finishCommit (r : Finding)
  | ensureCommit (err : String)
  | clear
  | die

/-- One step of a live execution: its new local state and the statement it sends. `t` is the clock
reading of `_lease_deadline`. A renewal that affects no row kills the process. -/
def liveStep (cfg : Settings) (now : ℤ) (row : DebugRow) (e : Exec) :
    ExecAct → Option (Exec × Statement)
  | .move m => (e.stage.move now row m).map fun st => ({ e with stage := st },.nothing)
  | .claim t =>
    match e.stage with
    | .selected c =>
      if c.now ≤ t ∧ t ≤ now then
        if (claimWrite c e.pod (t + cfg.leaseTtl) row).isSome then
          some ({ e with stage := .claimed, beating := true, epoch := some c.newEpoch },
            .claim c e.pod (t + cfg.leaseTtl))
        else some ({ e with stage := .ended },.nothing)
      else none
    | _ => none
  | .renew =>
    match e.epoch with
    | some n =>
      if e.beating then
        some ({ e with live := (renewDebugLease now cfg.leaseTtl e.pod n row).2 },.renew e.pod n)
      else none
    | none => none
  | .hush => some ({ e with beating := false },.nothing)
  | .runCommit =>
    match e.stage with
    | .runLoaded l => some ({ e with stage := .running },.flush l (runTarget now e.pod l))
    | _ => none
  | .finishCommit r =>
    match e.stage with
    | .finishLoaded l => some ({ e with stage := .returned },.flush l (finishTarget now r l))
    | _ => none
  | .ensureCommit err =>
    match e.stage with
    | .ensureLoaded l => some ({ e with stage := .ending },.flush l.1 (ensureTarget now err l.1))
    | _ => none
  | .clear =>
    match e.stage with
    | .ending => some ({ e with stage := .ended },.clear)
    | _ => none
  | .die => some ({ e with live := false },.nothing)

def execStep (cfg : Settings) (now : ℤ) (row : DebugRow) (e : Exec) (a : ExecAct) :
    Option (Exec × Statement) :=
  if e.live then liveStep cfg now row e a else none

/-! ## The dispatcher's threads -/

inductive PumpThread
  | idle
  | selected (loaded : PublishableReport)
  | published (loaded : PublishableReport) (cid : ℕ)

inductive PumpAct
  | read | publish (cid : ℕ) | commit | fail

/-- `_debug_pump_once`; a failed publish or commit rolls back and ends the round. -/
def pumpStep (row : DebugRow) (th : PumpThread) : PumpAct → Option (PumpThread × Statement)
  | .read =>
    match th with
    | .idle =>
      if h : pumpSelects row = true then some (.selected ⟨row,h⟩,.nothing) else none
    | _ => none
  | .publish cid =>
    match th with
    | .selected l => some (.published l cid,.nothing)
    | _ => none
  | .commit =>
    match th with
    | .published l cid => some (.idle,.flush l.1 (pumpTarget cid l.1))
    | _ => none
  | .fail => some (.idle,.nothing)

inductive StaleThread
  | idle
  | inspected (activeIds : List ℕ)
  | resetting (activeIds : List ℕ) (loaded : RunningReport)
  | resetDone (activeIds : List ℕ)
  | recovering (loaded : RecoverableReport)

/-- `inspect` takes the answer of `_active_ids`, the empty list when the call failed; `read` takes the
clock reading made before the query. The calls to `revoke` lie between `read` and `commit`. -/
inductive StaleAct
  | inspect (activeIds : List ℕ) | read (t : ℤ) | commit | recoverRead | recoverCommit | abort

theorem running_of_staleResets {cfg : Settings} {t : ℤ} {ids : List ℕ} {row : DebugRow}
    (h : staleResets cfg t ids row = true) : row.status = .running := by
  simp only [staleResets,Bool.and_eq_true,decide_eq_true_eq] at h
  exact h.1.1

theorem pending_of_recoverResets {ids : List ℕ} {row : DebugRow}
    (h : recoverResets ids row = true) : row.status = .pending := by
  simp only [recoverResets,Bool.and_eq_true,decide_eq_true_eq] at h
  exact h.1.1.1

/-- `_debug_stale_once`. -/
def staleStep (cfg : Settings) (now : ℤ) (row : DebugRow) (th : StaleThread) :
    StaleAct → Option (StaleThread × Statement)
  | .inspect ids =>
    match th with
    | .idle => some (.inspected ids,.nothing)
    | _ => none
  | .read t =>
    match th with
    | .inspected ids =>
      if t ≤ now then
        if h : staleResets cfg t ids row = true then
          some (.resetting ids ⟨row,running_of_staleResets h⟩,.nothing)
        else some (.resetDone ids,.nothing)
      else none
    | _ => none
  | .commit =>
    match th with
    | .resetting ids l => some (.resetDone ids,.flush l.1 (staleTarget l.1))
    | _ => none
  | .recoverRead =>
    match th with
    | .resetDone ids =>
      if h : recoverResets ids row = true then
        some (.recovering ⟨row,pending_of_recoverResets h⟩,.nothing)
      else some (.idle,.nothing)
    | _ => none
  | .recoverCommit =>
    match th with
    | .recovering l => some (.idle,.flush l.1 (recoverTarget l.1))
    | _ => none
  | .abort => some (.idle,.nothing)

/-! ## The system -/

structure Sys where
  now : ℤ := 0
  row : DebugRow := {}
  execs : ℕ → Exec
  pump : PumpThread := .idle
  stale : StaleThread := .idle

inductive Act
  | tick (d : ℕ)
  | exec (n : ℕ) (a : ExecAct)
  | startupReset
  | pump (a : PumpAct)
  | stale (a : StaleAct)

/-- What the system becomes when the statement is executed. -/
def Sys.send (cfg : Settings) (s : Sys) (st : Statement) : Sys :=
  { s with row := st.apply cfg s.now s.row }

/-- What it becomes when an execution has stepped. -/
def Sys.after (cfg : Settings) (s : Sys) (n : ℕ) (r : Exec × Statement) : Sys :=
  { s.send cfg r.2 with execs := Function.update s.execs n r.1 }

def step (cfg : Settings) (s : Sys) : Act → Option Sys
  | .tick d => some { s with now := s.now + d }
  | .exec n a => (execStep cfg s.now s.row (s.execs n) a).map (s.after cfg n)
  | .startupReset => some (s.send cfg .startupReset)
  | .pump a =>
    (pumpStep s.row s.pump a).map fun r => { s.send cfg r.2 with pump := r.1 }
  | .stale a =>
    (staleStep cfg s.now s.row s.stale a).map fun r => { s.send cfg r.2 with stale := r.1 }

/-- Nobody has begun anything; the row and the clock are arbitrary. -/
def start (now : ℤ) (row : DebugRow) (pods : ℕ → String) : Sys where
  now := now
  row := row
  execs := fun n => { pod := pods n }

/-! ## What the moves keep -/

theorem beforeClaim_of_move {now : ℤ} {row : DebugRow} {st st' : Stage} {m : Move}
    (h : st.move now row m = some st') (h' : st'.beforeClaim = true) : st.beforeClaim = true := by
  unfold Stage.move at h
  split at h
  · rfl
  all_goals try split at h
  all_goals cases h
  all_goals cases h'

/-- An execution that has finished its report stays past its writes, since the fallback reads a status
it knows. -/
theorem isPast_of_move {now : ℤ} {row : DebugRow} {st st' : Stage} {m : Move}
    (h : st.move now row m = some st') (hpast : st.isPast = true)
    (hknown : m = .ensureLoad → knownTerminal row.status = true) : st'.isPast = true := by
  cases st with
  | returned =>
    cases m with
    | finish | raise =>
      cases h
      rfl
    | select | runLoad | leave | finishLoad | ensureLoad | giveUp => cases h
  | raised =>
    cases m with
    | ensureLoad =>
      have hopen : ¬knownTerminal row.status = false := by
        rw [hknown rfl]
        exact Bool.noConfusion
      simp only [Stage.move,dif_neg hopen] at h
      cases h
      rfl
    | giveUp =>
      cases h
      rfl
    | select | runLoad | leave | finishLoad | finish | raise => cases h
  | ending =>
    cases m with
    | giveUp =>
      cases h
      rfl
    | select | runLoad | leave | finishLoad | finish | raise | ensureLoad => cases h
  | ended => cases m <;> cases h
  | waiting | selected | claimed | runLoaded | running | finishLoaded | ensureLoaded =>
    cases hpast

end DebugSystem
end EntryAnalyse
