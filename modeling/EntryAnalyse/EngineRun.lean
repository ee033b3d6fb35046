import EntryAnalyse.Runs
import EntryAnalyse.Pool
import EntryAnalyse.R6Finalize

/-! The coroutines of one run of the engine and the barrier between them. Each entry of the
work list has a coroutine that runs R1 in a thread of its own and then one coroutine for each
function registered for the file; the call-chain coroutine waits until the three counters say
that every function has passed R2, and the functions wait for it before R4. Files and
functions are known by their hashes. What R1 extracts and what the stages answer is left to
the label of the step. -/
namespace EntryAnalyse
namespace EngineRun

variable {H P F : Type}

/-- `_r1_sem` and `_r2_sem`. -/
structure Slots where
  r1 : ℕ
  r2 : ℕ
  r1_pos : 0 < r1
  r2_pos : 0 < r2

theorem slot_pos (n : ℤ) : 0 < (max 1 n).toNat := by omega

/-- The semaphores as `run` creates them from the environment. -/
def slotsOf (r1Concurrency r2Concurrency : ℤ) : Slots where
  r1 := (max 1 r1Concurrency).toNat
  r2 := (max 1 r2Concurrency).toNat
  r1_pos := slot_pos r1Concurrency
  r2_pos := slot_pos r2Concurrency

/-- A `FileState`, as far as the run reads it. -/
structure FileRow (F : Type) where
  r1JState : NodeState := .pending
  functions : List F := []
  deriving DecidableEq

/-- `_register_functions_unlocked` with one function. -/
def FileRow.register [DecidableEq F] (row : FileRow F) (f : F) : FileRow F :=
  if f ∈ row.functions then row else { row with functions := row.functions ++ [f] }

def FileRow.mark (st : NodeState) (row : FileRow F) : FileRow F := { row with r1JState := st }

/-- The thread of `_run_file_r1_thread`. In `saving` R1 has passed and the state is written. -/
inductive R1Thread
  | idle
  | queued
  | started
  | working
  | saving
  | ended
  deriving DecidableEq

/-- Where a coroutine of `_complete_file_pipeline` stands. In `marking` the thread has timed
out and the failed state is being saved. -/
inductive FilePc
  | start
  | r1Queue
  | r1
  | marking
  | gathering
  | returned
  | raised
  deriving DecidableEq

/-- An entry of the work list. `counted` records that `_on_r1_done` was called. -/
structure FileCo (H P : Type) where
  entry : ℕ
  hash : H
  path : P
  pc : FilePc := .start
  thread : R1Thread := .idle
  counted : Bool := false
  deriving DecidableEq

/-- Where a coroutine of `_func_pipeline` stands. -/
inductive FuncPc
  | start
  | r2Queue
  | r2
  | r3
  | ccWait
  | r4
  | returned
  | raised
  deriving DecidableEq

/-- What a function's coroutine has added to `r2_done_count`: nothing yet, a function that it
did not find, or a function that has gone through R2. -/
inductive R2Mark
  | pending
  | missing
  | finished
  deriving DecidableEq

/-- A coroutine of `_func_pipeline`, started for the entry `entry`. -/
structure FuncCo (H P F : Type) where
  entry : ℕ
  hash : H
  path : P
  func : F
  pc : FuncPc := .start
  r2 : R2Mark := .pending
  deriving DecidableEq

/-- `_cc_phase`. -/
inductive CcPc
  | waiting
  | analysing
  | returned
  | raised
  deriving DecidableEq

structure Sys (H P F : Type) where
  cancel : Bool := false
  files : H → Option (FileRow F)
  totalFuncs : ℕ := 0
  r1DoneCount : ℕ := 0
  r2DoneCount : ℕ := 0
  allR1Done : Bool := false
  allR2Done : Bool := false
  ccDone : Bool := false
  cc : CcPc := .waiting
  fileCos : List (FileCo H P)
  funcCos : List (FuncCo H P F) := []

/-- `file_hash_paths` becomes the rows of the state and the coroutines of the run. A hash that
occurs twice has one row and two coroutines. -/
def init [DecidableEq H] (work : List (H × P)) : Sys H P F where
  files h := if h ∈ work.map Prod.fst then some {} else none
  allR2Done := work.isEmpty
  fileCos := work.mapIdx (fun i w => { entry := i, hash := w.1, path := w.2 })

namespace Sys

def setFile (s : Sys H P F) (i : ℕ) (c : FileCo H P) : Sys H P F :=
  { s with fileCos := s.fileCos.set i c }

def setFunc (s : Sys H P F) (k : ℕ) (c : FuncCo H P F) : Sys H P F :=
  { s with funcCos := s.funcCos.set k c }

def modifyRow [DecidableEq H] (s : Sys H P F) (h : H) (g : FileRow F → FileRow F) : Sys H P F :=
  { s with files := Function.update s.files h ((s.files h).map g) }

/-- `fs.r1_j_state`. -/
def r1JState (s : Sys H P F) (h : H) : Option NodeState := (s.files h).map FileRow.r1JState

/-- The functions of a file whose R1 passed, and nothing otherwise. -/
def passedFuncs (s : Sys H P F) (h : H) : Option (List F) :=
  ((s.files h).filter (fun row => row.r1JState = .passed)).map FileRow.functions

/-- `_maybe_set_all_r2_done`. -/
def maybeSetAllR2Done (s : Sys H P F) : Sys H P F :=
  if s.allR1Done = true ∧ s.totalFuncs ≤ s.r2DoneCount then { s with allR2Done := true } else s

/-- `_on_r1_done`. -/
def onR1Done (s : Sys H P F) (funcCount : ℕ) : Sys H P F :=
  let s := { s with
    totalFuncs := s.totalFuncs + funcCount, r1DoneCount := s.r1DoneCount + 1 }
  if s.r1DoneCount = s.fileCos.length then { s with allR1Done := true }.maybeSetAllR2Done else s

/-- `r2_done_count += 1` and `_maybe_set_all_r2_done`. -/
def onR2Done (s : Sys H P F) : Sys H P F :=
  { s with r2DoneCount := s.r2DoneCount + 1 }.maybeSetAllR2Done

/-- The coroutines that hold `_r1_sem`. -/
def inR1 (s : Sys H P F) : ℕ := s.fileCos.countP (fun c => c.pc = .r1 ∨ c.pc = .marking)

/-- The coroutines that hold `_r2_sem`. -/
def inR2 (s : Sys H P F) : ℕ := s.funcCos.countP (fun c => c.pc = .r2)

end Sys

/-- The coroutines that `gather` makes of the functions of a file. -/
def spawn (c : FileCo H P) (funcs : List F) : List (FuncCo H P F) :=
  funcs.map (fun f => { entry := c.entry, hash := c.hash, path := c.path, func := f })

/-- `_complete_file_pipeline` once R1 is over: the file is counted with the functions it has by
then, and their coroutines are started unless the task is cancelled. -/
def afterR1 (s : Sys H P F) (i : ℕ) (c : FileCo H P) : Sys H P F :=
  match s.passedFuncs c.hash with
  | none => (s.setFile i { c with pc := .returned, counted := true }).onR1Done 0
  | some funcs =>
    if s.cancel = true ∨ funcs = [] then
      (s.setFile i { c with pc := .returned, counted := true }).onR1Done funcs.length
    else
      let s := (s.setFile i { c with pc := .gathering, counted := true }).onR1Done funcs.length
      { s with funcCos := s.funcCos ++ spawn c funcs }

/-- The steps of an entry: of its coroutine, and from `threadStart` to `saved` of its thread. -/
inductive FileAct (F : Type)
  | start
  | acquire
  | threadStart
  | check
  | register (f : F)
  | pass
  | fail
  | saved
  | timeout
  | saveFails
  | resume
  | joined
  | joinFails
  deriving DecidableEq

def fileStep [DecidableEq H] [DecidableEq F] (slots : Slots) (s : Sys H P F) (i : ℕ)
    (c : FileCo H P) : FileAct F → Option (Sys H P F)
  | .start =>
    if c.pc = .start then
      some (s.setFile i { c with pc := if s.cancel = true then .returned else .r1Queue })
    else none
  | .acquire =>
    if c.pc = .r1Queue ∧ s.inR1 < slots.r1 then
      some (s.setFile i { c with pc := .r1, thread := .queued })
    else none
  | .threadStart =>
    if c.thread = .queued then some (s.setFile i { c with thread := .started }) else none
  -- `_run_r1` leaves a file alone that has been marked failed
  | .check =>
    if c.thread = .started then
      some (s.setFile i { c with
        thread := if s.r1JState c.hash = some .failed then .ended else .working })
    else none
  | .register f =>
    if c.thread = .working then some (s.modifyRow c.hash (FileRow.register · f)) else none
  | .pass =>
    if c.thread = .working then
      some ((s.modifyRow c.hash (.mark .passed)).setFile i { c with thread := .saving })
    else none
  | .fail =>
    if c.thread = .working ∨ c.thread = .saving then
      some ((s.modifyRow c.hash (.mark .failed)).setFile i { c with thread := .ended })
    else none
  | .saved => if c.thread = .saving then some (s.setFile i { c with thread := .ended }) else none
  -- a thread that no worker has picked up is dropped, one that runs goes on
  | .timeout =>
    if c.pc = .r1 then
      some ((s.modifyRow c.hash (.mark .failed)).setFile i { c with
        pc := .marking, thread := if c.thread = .queued then .ended else c.thread })
    else none
  | .saveFails => if c.pc = .marking then some (s.setFile i { c with pc := .raised }) else none
  | .resume =>
    if c.pc = .r1 ∧ c.thread = .ended ∨ c.pc = .marking then some (afterR1 s i c) else none
  | .joined =>
    if c.pc = .gathering ∧ ∀ k ∈ s.funcCos, k.entry = c.entry → k.pc = .returned then
      some (s.setFile i { c with pc := .returned })
    else none
  | .joinFails =>
    if c.pc = .gathering ∧ ∃ k ∈ s.funcCos, k.entry = c.entry ∧ k.pc = .raised then
      some (s.setFile i { c with pc := .raised })
    else none

/-- The steps of a function's coroutine. `passed` is the `r2_j_state` it finds after R2, and
`filtered` the answer of the batch in fast mode. -/
inductive FuncAct
  | start
  | acquire
  | r2Returns (passed : Bool)
  | r3Returns (filtered : Bool)
  | ccSeen
  | r4Returns
  | raises
  deriving DecidableEq

def funcStep [DecidableEq F] (slots : Slots) (s : Sys H P F) (k : ℕ) (c : FuncCo H P F) :
    FuncAct → Option (Sys H P F)
  | .start =>
    if c.pc = .start then
      if s.cancel = true then some (s.setFunc k { c with pc := .returned })
      else if ∃ row ∈ s.files c.hash, c.func ∈ row.functions then
        some (s.setFunc k { c with pc := .r2Queue })
      else some (s.setFunc k { c with pc := .returned, r2 := .missing }).onR2Done
    else none
  | .acquire =>
    if c.pc = .r2Queue ∧ s.inR2 < slots.r2 then some (s.setFunc k { c with pc := .r2 }) else none
  | .r2Returns passed =>
    if c.pc = .r2 then
      some (s.setFunc k { c with
        pc := if s.cancel = true ∨ passed = false then .returned else .r3,
        r2 := .finished }).onR2Done
    else none
  | .r3Returns filtered =>
    if c.pc = .r3 then
      some (s.setFunc k { c with
        pc := if filtered = true ∨ s.cancel = true then .returned else .ccWait })
    else none
  | .ccSeen =>
    if c.pc = .ccWait ∧ s.ccDone = true then
      some (s.setFunc k { c with pc := if s.cancel = true then .returned else .r4 })
    else none
  | .r4Returns => if c.pc = .r4 then some (s.setFunc k { c with pc := .returned }) else none
  | .raises =>
    if c.pc = .r2 ∨ c.pc = .r3 ∨ c.pc = .r4 then some (s.setFunc k { c with pc := .raised })
    else none

/-- The steps of `_cc_phase`. -/
inductive CcAct
  | wake
  | finish
  | raises
  deriving DecidableEq

def ccStep (s : Sys H P F) : CcAct → Option (Sys H P F)
  | .wake =>
    if s.cc = .waiting ∧ s.allR2Done = true then
      if s.cancel = true then some { s with cc := .returned, ccDone := true }
      else some { s with cc := .analysing }
    else none
  | .finish =>
    if s.cc = .analysing then some { s with cc := .returned, ccDone := true } else none
  | .raises => if s.cc = .analysing then some { s with cc := .raised } else none

inductive Act (F : Type)
  | cancel
  | file (i : ℕ) (a : FileAct F)
  | func (k : ℕ) (a : FuncAct)
  | cc (a : CcAct)
  deriving DecidableEq

def step [DecidableEq H] [DecidableEq F] (slots : Slots) (s : Sys H P F) :
    Act F → Option (Sys H P F)
  | .cancel => some { s with cancel := true }
  | .file i a => s.fileCos[i]?.bind (fun c => fileStep slots s i c a)
  | .func k a => s.funcCos[k]?.bind (fun c => funcStep slots s k c a)
  | .cc a => ccStep s a

end EngineRun
end EntryAnalyse
