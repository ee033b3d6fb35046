import EntryAnalyse.Runs
import EntryAnalyse.Pool
import EntryAnalyse.FuncDb
import EntryAnalyse.R6Finalize

/-! Where R1 puts the functions of a file, and what later happens to them there. Two stores are
filled: the pipeline state, a dictionary for each file, and `functions.db`, one table for all
files. The three modes fill them by different calls. Runs of R1 for different files overlap,
and the functions of a file that has passed go through R2 and the decision stages while others
are still in R1. -/
namespace EntryAnalyse
namespace R1Registration

/-- What the run reads from outside: the extractor's result for a file, the hash of a function,
and the lines of a file. -/
structure Sources where
  extract : String → List FunctionExtract
  funcHash : String → String → ℤ → String
  relPath : String → String
  readable : String → Bool
  body : String → ℤ → ℤ → String
  findEnd : String → ℤ → ℤ
  funcHash_ne : ∀ path name line, funcHash path name line ≠ ""

/-- `PipelineEngine` with and without `fast_mode`, and `SuperFastPipelineEngine`. -/
inductive Mode
  | normal
  | fast
  | superFast
  deriving DecidableEq

structure Config where
  mode : Mode
  r1MaxRounds : ℤ := -1

/-- A `FunctionState`, as far as it is compared here. `inR4` records that R4 has begun. -/
structure FuncState where
  name : String
  signature : String
  startLine : ℤ
  endLine : ℤ
  r4Decision : String := ""
  inR4 : Bool := false
  deriving DecidableEq

def FuncState.ofExtract (fe : FunctionExtract) : FuncState :=
  { name := fe.name, signature := fe.signature, startLine := fe.startLine, endLine := fe.endLine }

def FuncState.ofRow (r : FunctionRow) : FuncState :=
  { name := r.name, signature := r.signature, startLine := r.startLine, endLine := r.endLine }

/-- A `FileState`; `functions` is a dictionary. -/
structure FileState where
  r1JState : NodeState := .pending
  functions : String → Option FuncState := fun _ => none

/-- `_register_functions_unlocked`: a hash that is there keeps its entry. -/
def registerFunctions (functions : String → Option FuncState) (funcs : List (String × FuncState)) :
    String → Option FuncState :=
  funcs.foldl (fun m p => if (m p.1).isSome then m else Function.update m p.1 (some p.2)) functions

/-- `fs.functions[fh] = FunctionState(…)` for one function after the other. -/
def assignFunctions (functions : String → Option FuncState) (funcs : List (String × FuncState)) :
    String → Option FuncState :=
  funcs.foldl (fun m p => Function.update m p.1 (some p.2)) functions

/-- How far R1 of a file is. In `listed` it holds the functions that it is about to register. -/
inductive R1Phase
  | start
  | checked
  | gaps
  | written
  | listed (funcs : List (String × FuncState))
  | registered
  | saving
  | ended
  deriving DecidableEq

/-- The run of R1 for one file. `accepted` records the hashes of the functions that it has
extracted, statically or from an accepted correction, and `added` those that R2 adds later. -/
structure R1Run where
  fileHash : String
  path : String
  phase : R1Phase := .start
  accepted : List String := []
  added : List String := []
  deriving DecidableEq

/-- The two stores and the runs. `removed` records what R2-J has deleted. -/
structure Sys where
  db : FuncDb := .empty
  files : String → Option FileState
  runs : List R1Run
  removed : List String := []

def init (files : List (String × String)) : Sys where
  files h := if h ∈ files.map Prod.fst then some {} else none
  runs := files.map (fun f => { fileHash := f.1, path := f.2 })

namespace Sys

def setRun (s : Sys) (i : ℕ) (c : R1Run) : Sys := { s with runs := s.runs.set i c }

def modifyFile (s : Sys) (h : String) (g : FileState → FileState) : Sys :=
  { s with files := Function.update s.files h ((s.files h).map g) }

def markR1 (s : Sys) (h : String) (st : NodeState) : Sys :=
  s.modifyFile h (fun fs => { fs with r1JState := st })

/-- The entry of a function in the state. -/
def func (s : Sys) (h g : String) : Option FuncState := (s.files h).bind (fun fs => fs.functions g)

def modifyFunc (s : Sys) (h g : String) (f : FuncState → FuncState) : Sys :=
  s.modifyFile h fun fs =>
    { fs with functions := Function.update fs.functions g ((fs.functions g).map f) }

def passed (s : Sys) (h : String) : Bool := (s.files h).any (fun fs => fs.r1JState = .passed)

end Sys

section Steps

variable (cfg : Config) (src : Sources)

/-! ## R1 -/

/-- The static functions of a file with their hashes. -/
def staticFuncs (path : String) : List (String × FunctionExtract) :=
  (src.extract path).map (fun fe => (src.funcHash path fe.name fe.startLine,fe))

def staticHashes (path : String) : List String := (staticFuncs src path).map Prod.fst

def writeStatic (db : FuncDb) (c : R1Run) : FuncDb :=
  db.writeFunctions c.fileHash c.path (src.extract c.path) (staticHashes src c.path)
    (src.relPath c.path)

/-- `_current_funcs`: all rows of the database, whatever file they belong to, and the static
functions if there is none. -/
def currentFuncs (db : FuncDb) (path : String) : List (String × FuncState) :=
  if db.functions.rows = [] then (staticFuncs src path).map (Prod.map id .ofExtract)
  else (db.functions.rows.filter (fun r => r.funcHash != "")).map
    (fun r => (r.funcHash,.ofRow r))

/-- What R1 registers. -/
def funcsToRegister (db : FuncDb) (path : String) : List (String × FuncState) :=
  match cfg.mode with
  | .normal => currentFuncs src db path
  | .fast | .superFast => (staticFuncs src path).map (Prod.map id .ofExtract)

/-- The row of `file_meta` that `SELECT file_hash FROM file_meta LIMIT 1` may give. -/
def mayPick (db : FuncDb) (picked : String) : Prop :=
  picked ∈ db.fileMeta.keys ∨ (db.fileMeta.keys = [] ∧ picked = "")

instance (db : FuncDb) (picked : String) : Decidable (mayPick db picked) :=
  inferInstanceAs (Decidable (_ ∨ _))

/-- A correction of `apply_corrections`; a number that is not given is 0. -/
inductive Correction
  | delete (funcHash : String)
  | new (name signature : String) (startLine endLine : ℤ)
  | update (funcHash : String) (name signature : Option String) (startLine endLine : ℤ)
  deriving DecidableEq

def positive (n : ℤ) : Option ℤ := if 0 < n then some n else none

/-- The branch of `apply_corrections` for a function that is there. The body is read again from
the source file, at the new lines or at the old ones. -/
def updateExisting (db : FuncDb) (path funcHash : String) (name signature : Option String)
    (startLine endLine : ℤ) : FuncDb :=
  let cur : ℤ × ℤ := match positive startLine with
    | some n => (n,(positive endLine).getD 0)
    | none => ((db.functions.lookup funcHash).map (fun r : FunctionRow =>
        (r.startLine,r.endLine))).getD (0,0)
  if 0 < cur.1 ∧ src.readable path then
    let curEnd := if cur.2 ≤ 0 then src.findEnd path cur.1 else cur.2
    db.updateFunction funcHash name signature (positive startLine)
      (if cur.2 ≤ 0 then some curEnd else positive endLine) (some (src.body path cur.1 curEnd))
  else db.updateFunction funcHash name signature (positive startLine) (positive endLine) none

/-- One correction of `apply_corrections`, with the file hash that was picked. -/
def applyCorrection (db : FuncDb) (picked path : String) : Correction → FuncDb
  | .delete h => db.deleteFunction h
  | .new name signature startLine endLine =>
    if name = "" ∨ startLine = 0 then db
    else
      let stop := if endLine ≤ 0 ∧ src.readable path then src.findEnd path startLine else endLine
      db.insertFunction (src.funcHash path name startLine) picked name signature startLine stop
        (src.body path startLine stop)
  | .update h name signature startLine endLine =>
    updateExisting src db path h name signature startLine endLine

/-- The hash of the function that a correction adds. -/
def addedHash (path : String) : Correction → List String
  | .new name _ startLine _ =>
    if name = "" ∨ startLine = 0 then [] else [src.funcHash path name startLine]
  | .delete _ | .update _ _ _ _ _ => []

/-- The steps of `_run_r1`. A call of `apply_corrections` takes one step for each correction:
those of other files come between them. -/
inductive R1Act
  | check
  | write
  | gap (picked name signature : String) (startLine endLine : ℤ)
  | list
  | register
  | pass
  | saved
  | fail
  deriving DecidableEq

def R1Phase.working : R1Phase → Bool
  | .start | .ended => false
  | .checked | .gaps | .written | .listed _ | .registered | .saving => true

/-- From where R1 goes on to read what it registers. -/
def readsFrom : Mode → R1Phase
  | .normal => .gaps
  | .fast => .checked
  | .superFast => .written

def r1Step (s : Sys) (i : ℕ) (c : R1Run) : R1Act → Option Sys
  | .check =>
    if c.phase = .start then
      if (s.files c.fileHash).any (fun fs => fs.r1JState = .failed) then
        some (s.setRun i { c with phase := .ended })
      else if cfg.r1MaxRounds = 0 then
        some ((s.markR1 c.fileHash .passed).setRun i { c with phase := .saving })
      else some (s.setRun i { c with phase := .checked })
    else none
  | .write =>
    if c.phase = .checked ∧ cfg.mode ≠ .fast then
      some ({ s with db := writeStatic src s.db c }.setRun i { c with
        phase := if cfg.mode = Mode.normal then .gaps else .written
        accepted := staticHashes src c.path })
    else none
  -- only corrections that add a function with valid lines get through the validation
  | .gap picked name signature startLine endLine =>
    if c.phase = .gaps ∧ mayPick s.db picked ∧ name ≠ "" ∧ 0 < startLine ∧ startLine ≤ endLine then
      some ({ s with
        db := applyCorrection src s.db picked c.path (.new name signature startLine endLine)
        }.setRun i { c with
          accepted := c.accepted ++ [src.funcHash c.path name startLine] })
    else none
  | .list =>
    if c.phase = readsFrom cfg.mode then
      some (s.setRun i { c with
        phase := .listed (funcsToRegister cfg src s.db c.path)
        accepted := if cfg.mode = .fast then staticHashes src c.path else c.accepted })
    else none
  | .register =>
    match c.phase with
    | .listed funcs =>
      some ((s.modifyFile c.fileHash fun fs => { fs with
        functions := if cfg.mode = .superFast then assignFunctions fs.functions funcs
          else registerFunctions fs.functions funcs }).setRun i { c with phase := .registered })
    | _ => none
  | .pass =>
    if c.phase = .registered then
      some ((s.markR1 c.fileHash .passed).setRun i { c with phase := .saving })
    else none
  | .saved => if c.phase = .saving then some (s.setRun i { c with phase := .ended }) else none
  | .fail =>
    if c.phase.working = true then
      some ((s.markR1 c.fileHash .failed).setRun i { c with phase := .ended })
    else none

/-! ## R2 -/

/-- What R2 of a function of a passed file does to the stores: R2-W applies a correction, the
engine reads the row back, and R2-J deletes the function. -/
inductive R2Act
  | correct (picked : String) (corr : Correction)
  | sync (g : String)
  | delete (g : String)
  deriving DecidableEq

/-- The values of the row that are not empty replace those in the state. -/
def syncFrom (r : FunctionRow) (f : FuncState) : FuncState :=
  { f with
    startLine := if r.startLine = 0 then f.startLine else r.startLine
    endLine := if r.endLine = 0 then f.endLine else r.endLine
    name := if r.name = "" then f.name else r.name
    signature := if r.signature = "" then f.signature else r.signature }

def r2Step (s : Sys) (i : ℕ) (c : R1Run) : R2Act → Option Sys
  | .correct picked corr =>
    if s.passed c.fileHash = true ∧ mayPick s.db picked then
      some ({ s with db := applyCorrection src s.db picked c.path corr }.setRun i { c with
        added := c.added ++ addedHash src c.path corr })
    else none
  | .sync g =>
    if s.passed c.fileHash = true then
      some (match s.db.functions.lookup g with
        | none => s
        | some r => s.modifyFunc c.fileHash g (syncFrom r))
    else none
  | .delete g =>
    if s.passed c.fileHash = true ∧ (s.func c.fileHash g).isSome then
      some { s with db := s.db.deleteFunction g, removed := g :: s.removed }
    else none

/-! ## Decisions -/

/-- The places where a decision about a function is written. `stored` says that the write to the
database did not raise. -/
inductive Decision
  | fast (keep stored : Bool)
  | apiFilter (keep stored : Bool)
  | phase1
  | r3 (text : String) (stored : Bool)
  | r3Force
  | enterR4
  | quickKeep (stored : Bool)
  | r4 (text : String) (stored : Bool)
  | r4Fails
  deriving DecidableEq

def verdict (keep : Bool) : String := if keep then "keep" else "filter"

/-- The decision may be written now: each engine has its own places, and R4 comes last. -/
def mayDecide (f : FuncState) : Decision → Bool
  | .fast _ _ => cfg.mode = .fast && !f.inR4
  | .apiFilter _ _ => cfg.mode = .superFast && !f.inR4 && f.r4Decision == ""
  | .phase1 => cfg.mode = .superFast && !f.inR4
  | .r3 _ _ | .r3Force => cfg.mode ≠ .superFast && !f.inR4
  | .enterR4 => !f.inR4 && (cfg.mode = .superFast || f.r4Decision == "keep")
  | .quickKeep _ => cfg.mode ≠ .superFast && f.inR4
  | .r4 _ _ | .r4Fails => f.inR4

/-- What a decision leaves in the state. -/
def decideState (f : FuncState) : Decision → FuncState
  | .fast keep _ => { f with r4Decision := verdict keep }
  | .apiFilter _ _ => f
  | .phase1 => { f with r4Decision := "keep" }
  | .r3 text _ => { f with r4Decision := text }
  | .r3Force => { f with r4Decision := "filter" }
  | .enterR4 => { f with inR4 := true }
  | .quickKeep _ | .r4Fails => { f with r4Decision := "keep" }
  | .r4 text _ => { f with r4Decision := text }

/-- What a decision leaves in the database. -/
def decideDb (db : FuncDb) (g : String) : Decision → FuncDb
  | .fast keep true | .apiFilter keep true =>
    db.setFastModeResult g (verdict keep) (if keep then 1 else 0)
  | .r3 text true => db.updateR3Decision g (if text = "" then "filter" else text)
  | .quickKeep true => db.updateR4Decision g "keep"
  | .r4 text true => db.updateR4Decision g text
  | _ => db

/-- The other updates by hash. -/
inductive ColumnAct
  | setAnalysis (analysis : List (String × PyJson)) (confidence : PyFloat)
  | updateConfidence (confidence : PyFloat)
  | updateEntryCategory (category : String)

variable (py : PyRuntime)

def columnDb (db : FuncDb) (g : String) : ColumnAct → FuncDb
  | .setAnalysis analysis confidence => db.setAnalysis py g analysis confidence
  | .updateConfidence confidence => db.updateConfidence g confidence
  | .updateEntryCategory category => db.updateEntryCategory g category

inductive Act
  | r1 (i : ℕ) (a : R1Act)
  | timeout (i : ℕ)
  | r2 (i : ℕ) (a : R2Act)
  | decide (i : ℕ) (g : String) (d : Decision)
  | column (g : String) (a : ColumnAct)

/-- The engine: a decision is taken for a function of a passed file, and its two writes are one
step. A file whose R1 times out is marked failed while its thread goes on. -/
def step (s : Sys) : Act → Option Sys
  | .r1 i a => s.runs[i]?.bind (fun c => r1Step cfg src s i c a)
  | .timeout i => s.runs[i]?.bind fun c =>
    if cfg.mode ≠ .superFast ∧ c.phase ≠ .ended then some (s.markR1 c.fileHash .failed) else none
  | .r2 i a => s.runs[i]?.bind (fun c => r2Step src s i c a)
  | .decide i g d => s.runs[i]?.bind fun c =>
    if s.passed c.fileHash = true ∧ (s.func c.fileHash g).any (fun f => mayDecide cfg f d) then
      some { s.modifyFunc c.fileHash g (fun f => decideState f d) with db := decideDb s.db g d }
    else none
  | .column g a => some { s with db := columnDb py s.db g a }

end Steps

end R1Registration
end EntryAnalyse
