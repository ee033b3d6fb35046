import EntryAnalyse.R4Loop
import EntryAnalyse.Runs

/-! What the quick path of R4 sees of its callers. R3 judges each function while the call chain
is built beside it; a function's judgement is written to the function database, and to its node
only if the build has passed at that moment. The quick path reads the nodes of the callers. All
of this runs in one event loop, so that whatever stands between two awaits is one step. -/
namespace EntryAnalyse
namespace R3WriteBack

open PyJson Runs

/-! ## The state -/

inductive Decision
  | keep | filter
  deriving DecidableEq

def Decision.text : Decision → String
  | .keep => "keep"
  | .filter => "filter"

/-- Where the coroutine of a function stands: before R3, in the loop of R3-W or in a call of it,
in the loop of R3-J or in a call of it, at the end, or out. In the second loop R3-W is called
`again`. -/
inductive Phase
  | idle
  | w (again : Bool)
  | marking (again : Bool)
  | asking (again : Bool)
  | storing (again : Bool) (analysis : List (String × PyJson))
  | recording (again : Bool)
  | saving (again : Bool)
  | j
  | judging
  | tail
  | finished
  | left

/-- The fields of `FunctionState` that R3 reads or writes, and the coroutine. -/
structure FuncR3 where
  phase : Phase := .idle
  r3WState : NodeState := .pending
  r3WAttempts : ℕ := 0
  r3JState : NodeState := .pending
  r3JAttempts : ℕ := 0
  hasExternalInput : Bool := false
  r4Decision : Option Decision := none

/-- A row of `nodes`, with the columns that R3 writes. -/
structure R3Node where
  funcHash : String
  r3State : String
  isR3Entry : Bool

structure Sys where
  funcs : String → FuncR3 := fun _ => {}
  db : FuncDb := .empty
  nodes : KeyedTable R3Node.funcHash := .empty
  edges : List (String × String) := []
  ccState : NodeState := .pending
  ccDone : Bool := false
  cancel : Bool := false

structure Config where
  r3MaxRounds : ℤ
  r3JMaxRounds : ℤ

def setFunc (s : Sys) (h : String) (f : FuncR3) : Sys :=
  { s with funcs := Function.update s.funcs h f }

/-! ## The call-chain database -/

/-- `insert_nodes` for nodes that are new: their state is the default of the column. -/
def insertNodes (nodes : KeyedTable R3Node.funcHash) (hashes : List String) :
    KeyedTable R3Node.funcHash :=
  hashes.foldl (fun t h => t.insertOrIgnore ⟨h,"pending",false⟩) nodes

/-- The edges that `insert_edges` keeps. -/
def properEdges (edges : List (String × String)) : List (String × String) :=
  edges.filter (fun e => e.1 != "" && e.2 != "")

/-- The endpoints that `insert_edges` adds as placeholders. -/
def endpoints (edges : List (String × String)) : List String :=
  (edges.flatMap (fun e => [e.1,e.2])).filter (· != "")

/-- `update_node_r3_state`. -/
def updateNodeR3State (nodes : KeyedTable R3Node.funcHash) (h r3State : String) :
    KeyedTable R3Node.funcHash :=
  nodes.updateWhere (fun n => n.funcHash = h)
    (fun n => { n with r3State := r3State, isR3Entry := r3State == "keep" }) (fun _ => rfl)

/-- `COALESCE(n.r3_state, 'pending')`. -/
def r3StateOf (nodes : KeyedTable R3Node.funcHash) (h : String) : String :=
  ((nodes.lookup h).map R3Node.r3State).getD "pending"

/-- `get_callers_r3_state`. -/
def getCallersR3State (s : Sys) (h : String) : List String :=
  (s.edges.filter (fun e => e.2 == h)).map (fun e => r3StateOf s.nodes e.1)

/-- How far `_run_callchain_analysis` comes before it raises. -/
inductive BuildFailure
  | beforeNodes
  | beforeEdges
  | betweenEdges (edges : List (String × String))
  | afterEdges (edges : List (String × String))

/-- The functions that `collect_known_funcs_from_dbs` finds. -/
def knownFuncs (s : Sys) : List String := s.db.functions.keys.filter (· != "")

/-- The build, which no await interrupts. -/
def build (s : Sys) (edges : List (String × String)) : Sys :=
  { s with
    nodes := insertNodes (insertNodes s.nodes (knownFuncs s)) (endpoints edges)
    edges := s.edges ++ properEdges edges
    ccState := .passed }

def buildFails (s : Sys) : BuildFailure → Sys
  | .beforeNodes => { s with ccState := .failed }
  | .beforeEdges => { s with nodes := insertNodes s.nodes (knownFuncs s), ccState := .failed }
  | .betweenEdges edges => { s with
      nodes := insertNodes (insertNodes s.nodes (knownFuncs s)) (endpoints edges)
      ccState := .failed }
  | .afterEdges edges => { build s edges with ccState := .failed }

/-! ## R3 -/

/-- `_parse_r2_analysis` finds a dictionary in the output, or only its text is searched. -/
inductive Answer
  | parsed (analysis : List (String × PyJson))
  | unparsed (hasExternalInput : Bool)

section Answer

variable (py : PyRuntime)

/-- `str(analysis.get("decision") or "").lower().strip()`. -/
def decisionText (analysis : List (String × PyJson)) : String :=
  strip (lower (py.str ((field analysis "decision").or (.str ""))))

def hasInput (analysis : List (String × PyJson)) : Bool :=
  (PyDict.getD analysis "has_external_input" (.bool true)).truthy

/-- What an answer makes of `r4_decision`. -/
def decisionAfter (old : Option Decision) : Answer → Option Decision
  | .parsed analysis =>
    let decision := decisionText py analysis
    let d := if decision = "filter" then some .filter
      else if decision = "keep" then some .keep else old
    if hasInput analysis then d else some .filter
  | .unparsed input => if !input && old.isNone then some .filter else old

/-- The state after an answer; an analysis with input that does not say filter is stored. -/
def answer (f : FuncR3) (again : Bool) (a : Answer) : FuncR3 :=
  match a with
  | .parsed analysis => { f with
      hasExternalInput := hasInput analysis
      r4Decision := decisionAfter py f.r4Decision a
      phase := if hasInput analysis && decisionText py analysis != "filter"
        then .storing again analysis else .recording again }
  | .unparsed input => { f with
      hasExternalInput := input, r4Decision := decisionAfter py f.r4Decision a, phase := .recording again }

end Answer

/-- `_r3_final_decision`. -/
def finalDecision (f : FuncR3) : Decision := f.r4Decision.getD .filter

section Stage

variable (cfg : Config)

/-- After the first call of R3-W. -/
def afterW (cancel : Bool) (f : FuncR3) : FuncR3 :=
  if cancel then { f with phase := .left }
  else if f.r3WState = .passed then
    if f.hasExternalInput then { f with phase := .j }
    else { f with r3JState := .passed, phase := .tail }
  else { f with phase := .tail }

/-- Where a call of R3-W returns to. -/
def exitW (cancel again : Bool) (f : FuncR3) : FuncR3 :=
  if again then { f with phase := .j } else afterW cancel f

/-- The tests that stand at the head of the loops and at the end of `_run_r3_analysis`. -/
def test (cancel : Bool) (f : FuncR3) : Option FuncR3 :=
  match f.phase with
  | .w again =>
    if R4Loop.shouldContinue f.r3WAttempts cfg.r3MaxRounds cancel && f.r3WState != .passed then
      some { f with
        r3WState := .running, r3WAttempts := f.r3WAttempts + 1, phase := .marking again }
    else some (exitW cancel again f)
  | .j =>
    if R4Loop.shouldContinue f.r3JAttempts cfg.r3JMaxRounds cancel && f.r3JState != .passed then
      some { f with r3JState := .running, r3JAttempts := f.r3JAttempts + 1, phase := .judging }
    else some { f with phase := .tail }
  | .tail =>
    if cancel then some { f with phase := .left }
    else some { f with
      r4Decision := if f.hasExternalInput then f.r4Decision else some .filter
      phase := .finished }
  | _ => none

end Stage

/-! ## The quick path -/

/-- The row's analysis has the tag of an active function. -/
def isTagA (db : FuncDb) (h : String) : Bool :=
  match (db.functions.lookup h).bind FunctionRow.analysis with
  | some (.dict d) =>
    match field d "tag" with
    | .str t => t == "A"
    | _ => false
  | _ => false

/-- `_r4_quick_path`, if the reads of the two databases succeed or raise as given. -/
def r4QuickPath (s : Sys) (h : String) (rowRead callersRead : Bool) : Bool × String :=
  if rowRead && isTagA s.db h then (true,"A类外部入口(主动读外部I/O)")
  else if !callersRead then (true,"保守keep(callchain不可用)")
  else
    let callers := getCallersR3State s h
    let r3Kept := callers.filter (· == "keep")
    let r3Running := callers.filter (· == "running")
    if r3Kept = [] ∧ r3Running = [] then (true,"P类外部入口(无R3相关调用者)")
    else if r3Running ≠ [] ∧ r3Kept = [] then
      (true,"deferred(调用者R3进行中,暂保留等待R6重分类)")
    else (false,"")

/-! ## Steps -/

/-- The writes of other stages that may fall between the steps of R3. -/
def besideR3 : FuncDbWrite → Bool
  | .writeFunctions .. | .updateFunction .. | .insertFunction .. | .updateConfidence ..
  | .updateR4Decision .. => true
  | _ => false

/-- Writes to the databases and saves of the state succeed as given. -/
inductive Act
  | enter (h : String)
  | test (h : String)
  | mark (h : String) (written : Bool)
  | answered (h : String) (a : Answer)
  | callFailed (h : String)
  | store (h : String) (entryRole : Option PyJson) (confidence : PyFloat)
  | storeFailed (h : String)
  | record (h : String) (dbWritten nodeWritten : Bool)
  | saved (h : String) (ok : Bool)
  | judged (h : String) (passed : Bool)
  | dies (h : String)
  | deleteFunction (h : String)
  | beside (w : FuncDbWrite)
  | ccStart
  | ccBuild (edges : List (String × String))
  | ccFails (p : BuildFailure)
  | ccSet
  | quickPath (h : String) (rowRead callersRead : Bool)
  | cancel

section Step

variable (py : PyRuntime) (cfg : Config)

/-- One step. A function that R2 deletes has not entered R3; the quick path is taken by a
function that has finished R3 with keep, after the event is set. -/
def step (s : Sys) : Act → Option Sys
  | .enter h =>
    match (s.funcs h).phase with
    | .idle =>
      let f := s.funcs h
      some (setFunc s h (if s.cancel then { f with phase := .left }
        else if f.r3WState = .passed then afterW s.cancel f else { f with phase := .w false }))
    | _ => none
  | .test h => (test cfg s.cancel (s.funcs h)).map (setFunc s h)
  | .mark h written =>
    match (s.funcs h).phase with
    | .marking again =>
      let s' := setFunc s h { s.funcs h with phase := .asking again }
      if (s.funcs h).r3WAttempts = 1 ∧ s.ccState = .passed ∧ written then
        some { s' with nodes := updateNodeR3State s.nodes h "running" }
      else some s'
    | _ => none
  | .answered h a =>
    match (s.funcs h).phase with
    | .asking again => some (setFunc s h (answer py (s.funcs h) again a))
    | _ => none
  | .callFailed h =>
    match (s.funcs h).phase with
    | .asking again => some (setFunc s h { s.funcs h with r3WState := .failed, phase := .w again })
    | _ => none
  | .store h entryRole confidence =>
    match (s.funcs h).phase with
    | .storing again analysis =>
      let stored := (entryRole.map (PyDict.set analysis "entry_role")).getD analysis
      some { setFunc s h { s.funcs h with phase := .recording again } with
        db := s.db.setAnalysis py h stored confidence }
    | _ => none
  | .storeFailed h =>
    match (s.funcs h).phase with
    | .storing again _ =>
      some (setFunc s h { s.funcs h with r3WState := .failed, phase := .w again })
    | _ => none
  | .record h dbWritten nodeWritten =>
    match (s.funcs h).phase with
    | .recording again =>
      let final := (finalDecision (s.funcs h)).text
      some { setFunc s h { s.funcs h with r3WState := .passed, phase := .saving again } with
        db := if dbWritten then s.db.updateR3Decision h final else s.db
        nodes := if s.ccState = .passed ∧ nodeWritten then updateNodeR3State s.nodes h final
          else s.nodes }
    | _ => none
  | .saved h ok =>
    match (s.funcs h).phase with
    | .saving again =>
      if ok then some (setFunc s h (exitW s.cancel again (s.funcs h)))
      else some (setFunc s h { s.funcs h with r3WState := .failed, phase := .w again })
    | _ => none
  | .judged h passed =>
    match (s.funcs h).phase with
    | .judging =>
      if passed then some (setFunc s h { s.funcs h with r3JState := .passed, phase := .tail })
      else some (setFunc s h { s.funcs h with
        r3JState := .failed, r3WState := .pending, phase := .w true })
    | _ => none
  | .dies h =>
    match (s.funcs h).phase with
    | .finished => none
    | _ => some (setFunc s h { s.funcs h with phase := .left })
  | .deleteFunction h =>
    match (s.funcs h).phase with
    | .idle => some { s with db := s.db.deleteFunction h }
    | _ => none
  | .beside w => if besideR3 w then some { s with db := s.db.write py w } else none
  | .ccStart =>
    if s.ccState = .pending ∧ ¬s.cancel then some { s with ccState := .running } else none
  | .ccBuild edges => if s.ccState = .running then some (build s edges) else none
  | .ccFails p => if s.ccState = .running then some (buildFails s p) else none
  | .ccSet =>
    if s.ccState = .passed ∨ s.ccState = .failed ∨ s.cancel then some { s with ccDone := true }
    else none
  | .quickPath h _ _ =>
    match (s.funcs h).phase with
    | .finished =>
      if s.ccDone ∧ ¬s.cancel ∧ (s.funcs h).r4Decision = some .keep then some s else none
    | _ => none
  | .cancel => some { s with cancel := true }

end Step

/-! ## The property -/

def Phase.isFinished : Phase → Bool
  | .finished => true
  | _ => false

def Phase.isTail : Phase → Bool
  | .tail => true
  | _ => false

/-- `r3_decision` of the function's row. -/
def decision (db : FuncDb) (h : String) : Option String :=
  (db.functions.lookup h).bind FunctionRow.r3Decision

/-- What a quick path of `h` in `s` must see. -/
structure SeesCallers (s : Sys) (h : String) (rowRead callersRead : Bool) : Prop where
  agree : ∀ c, (c,h) ∈ s.edges → (s.funcs c).phase.isFinished = true →
    (s.nodes.lookup c).map R3Node.r3State = decision s.db c
  kept : isTagA s.db h = false → (r4QuickPath s h rowRead callersRead).1 = true →
    ∀ c, (c,h) ∈ s.edges → (s.funcs c).phase.isFinished = true → decision s.db c ≠ some "keep"
  timeless : (r4QuickPath s h rowRead callersRead).1 = true ↔
    isTagA s.db h = true ∨ ∀ c, (c,h) ∈ s.edges → decision s.db c ≠ some "keep"

/-- Judgements are recorded after the build, in a row that is there, and with both writes; R3
ends only with a judgement; the reads of the quick path succeed. -/
def CalmAct (s : Sys) : Act → Prop
  | .record h dbWritten nodeWritten => s.ccState = .passed ∧ dbWritten = true ∧
      nodeWritten = true ∧ (s.db.functions.lookup h).isSome = true
  | .test h => (s.funcs h).phase.isTail = true → s.cancel = true ∨ decision s.db h ≠ none
  | .quickPath _ rowRead callersRead => rowRead = true ∧ callersRead = true
  | _ => True

instance (s : Sys) : (a : Act) → Decidable (CalmAct s a)
  | .record .. => inferInstanceAs (Decidable (_ ∧ _ ∧ _ ∧ _))
  | .test .. => inferInstanceAs (Decidable (_ → _ ∨ _))
  | .quickPath .. => inferInstanceAs (Decidable (_ ∧ _))
  | .enter .. | .mark .. | .answered .. | .callFailed .. | .store .. | .storeFailed ..
  | .saved .. | .judged .. | .dies .. | .deleteFunction .. | .beside .. | .ccStart
  | .ccBuild .. | .ccFails .. | .ccSet | .cancel => inferInstanceAs (Decidable True)

def Calm (e : Event Sys Act) : Prop := CalmAct e.pre e.act

instance (e : Event Sys Act) : Decidable (Calm e) := inferInstanceAs (Decidable (CalmAct _ _))

/-! ## The databases -/

section Tables

variable {db : FuncDb} {h k : String}

theorem column_updateFunctions {β : Type} {col : FunctionRow → Option β} (db : FuncDb) (h : String)
    {f : FunctionRow → FunctionRow} {hf : ∀ r, (f r).funcHash = r.funcHash}
    (hr : ∀ r, col (f r) = col r) (k : String) :
    ((db.updateFunctions h f hf).functions.lookup k).bind col =
      (db.functions.lookup k).bind col := by
  rw [FuncDb.lookup_updateFunctions]
  split
  · cases db.functions.lookup k with
    | none => rfl
    | some r => exact hr r
  · rfl

theorem decision_updateR3Decision (hs : (db.functions.lookup h).isSome = true) (d k : String) :
    decision (db.updateR3Decision h d) k = if k = h then some d else decision db k := by
  unfold decision FuncDb.updateR3Decision
  rw [FuncDb.lookup_updateFunctions]
  split
  · rename_i hk
    obtain ⟨r,hr⟩ := Option.isSome_iff_exists.mp hs
    rw [hk,hr]
    rfl
  · rfl

theorem column_insert {β : Type} {col : FunctionRow → Option β}
    (t : KeyedTable FunctionRow.funcHash) {r : FunctionRow} (hr : col r = none) (k : String) :
    ((t.insertOrIgnore r).lookup k).bind col = (t.lookup k).bind col := by
  rw [KeyedTable.lookup_insertOrIgnore]
  cases t.lookup k with
  | some x => rfl
  | none =>
    rw [Option.none_or]
    split
    · exact hr
    · rfl

theorem decision_deleteFunction (hd : decision db h = none) (k : String) :
    decision (db.deleteFunction h) k = decision db k := by
  unfold decision FuncDb.deleteFunction at *
  by_cases hk : k = h
  · subst hk
    rw [hd]
    cases hl : ((db.functions.deleteWhere (fun r => r.funcHash = k)).lookup k) with
    | none => rfl
    | some r =>
      obtain ⟨hmem,hkey⟩ := KeyedTable.lookup_eq_some_iff.mp hl
      have hno := (List.mem_filter.mp hmem).2
      simp [hkey] at hno
  · rw [KeyedTable.lookup_deleteWhere_of_ne _ hk]

/-- The other stages leave a column alone that they do not write and that is empty in new
rows. -/
theorem column_beside {β : Type} {col : FunctionRow → Option β}
    (hnew : ∀ h fileHash name signature s e body,
      col (newRow h fileHash name signature s e body) = none)
    (hfields : ∀ r name signature s e body lines, col { r with
      name := name, signature := signature, startLine := s, endLine := e, body := body,
      bodyLines := lines } = col r)
    (hconfidence : ∀ r x, col { r with entryConfidence := x } = col r)
    (hr4 : ∀ r x, col { r with r4Decision := x } = col r)
    (py : PyRuntime) {w : FuncDbWrite} (hw : besideR3 w = true) (k : String) :
    ((db.write py w).functions.lookup k).bind col = (db.functions.lookup k).bind col := by
  cases w with
  | writeFunctions fileHash path funcs hashes rel =>
    -- one inserted row after the other
    have hfold : ∀ (l : List (FunctionExtract × String)) (t : KeyedTable FunctionRow.funcHash),
        ((l.foldl (fun t p => t.insertOrIgnore (newRow p.2 fileHash p.1.name p.1.signature
          p.1.startLine p.1.endLine p.1.body)) t).lookup k).bind col = (t.lookup k).bind col := by
      intro l
      induction l with
      | nil => exact fun _ => rfl
      | cons p l ih =>
        intro t
        rw [List.foldl_cons,ih]
        exact column_insert t (hnew _ _ _ _ _ _ _) k
    exact hfold _ _
  | insertFunction => exact column_insert db.functions (hnew _ _ _ _ _ _ _) k
  | updateFunction => exact column_updateFunctions db _ (fun r => hfields r _ _ _ _ _ _) k
  | updateConfidence => exact column_updateFunctions db _ (fun r => hconfidence r _) k
  | updateR4Decision => exact column_updateFunctions db _ (fun r => hr4 r _) k
  | deleteFunction | setAnalysis | updateR3Decision | setFastModeResult | updateEntryCategory
  | upsertFunction | syncFromJson => cases hw

theorem decision_beside (py : PyRuntime) {w : FuncDbWrite} (hw : besideR3 w = true) (k : String) :
    decision (db.write py w) k = decision db k :=
  column_beside (fun _ _ _ _ _ _ _ => rfl) (fun _ _ _ _ _ _ _ => rfl) (fun _ _ => rfl)
    (fun _ _ => rfl) py hw k

theorem lookup_insertNodes (hashes : List String) (nodes : KeyedTable R3Node.funcHash)
    (k : String) : (insertNodes nodes hashes).lookup k =
      (nodes.lookup k).or (if k ∈ hashes then some ⟨k,"pending",false⟩ else none) := by
  induction hashes generalizing nodes with
  | nil => simp [insertNodes]
  | cons h hs ih =>
    have hcons : insertNodes nodes (h :: hs) =
        insertNodes (nodes.insertOrIgnore ⟨h,"pending",false⟩) hs := rfl
    rw [hcons,ih,KeyedTable.lookup_insertOrIgnore,Option.or_assoc]
    congr 1
    by_cases hk : h = k
    · subst hk
      simp
    · have hk' : k ≠ h := Ne.symm hk
      simp [hk,hk']

theorem lookup_updateNode (nodes : KeyedTable R3Node.funcHash) (h d k : String) :
    (updateNodeR3State nodes h d).lookup k =
      if k = h then (nodes.lookup k).map (fun n => { n with r3State := d, isR3Entry := d == "keep" })
      else nodes.lookup k := by
  unfold updateNodeR3State
  rw [KeyedTable.lookup_updateWhere]
  cases hn : nodes.lookup k with
  | none => simp
  | some n =>
    have hk : n.funcHash = k := (KeyedTable.lookup_eq_some_iff.mp hn).2
    by_cases hh : k = h <;> simp [hk,hh]

end Tables

/-! ## The invariant -/

/-- `r3_w_attempts` counts the rounds that the phase has behind it. -/
def FuncR3.Formed (f : FuncR3) : Prop :=
  match f.phase with
  | .idle => f.r3WAttempts = 0
  | .marking _ | .asking _ | .storing _ _ | .recording _ | .saving _ => 0 < f.r3WAttempts
  | _ => True

/-- No round has come to an answer yet. -/
def FuncR3.Unanswered (f : FuncR3) : Prop :=
  match f.phase with
  | .marking _ => f.r3WAttempts ≤ 1
  | _ => f.r3WAttempts = 0

structure Inv (s : Sys) : Prop where
  early : s.ccState ≠ .passed → ∀ h, decision s.db h = none
  agrees : ∀ {h n}, s.nodes.lookup h = some n →
    (∀ d, decision s.db h = some d → n.r3State = d) ∧
      (decision s.db h = none → n.r3State = "pending" ∨ n.r3State = "running")
  formed : ∀ h, (s.funcs h).Formed
  unanswered : ∀ h, (s.funcs h).Unanswered → decision s.db h = none
  finished : ∀ h, (s.funcs h).phase.isFinished = true → decision s.db h ≠ none
  unbuilt : s.ccState = .pending ∨ s.ccState = .running → s.edges = []
  built : s.ccState = .passed → ∀ e ∈ s.edges, (s.nodes.lookup e.1).isSome = true

theorem inv_init : Inv {} where
  early := fun _ _ => rfl
  agrees := fun h => by cases h
  formed := fun _ => rfl
  unanswered := fun _ _ => rfl
  finished := fun _ h => by cases h
  unbuilt := fun _ => rfl
  built := fun h => by cases h

section Invariant

variable {s : Sys} {h : String} {f : FuncR3}

/-- A function goes on and no database is written. -/
theorem Inv.setFunc (hi : Inv s) (hf : f.Formed)
    (hu : f.Unanswered → decision s.db h = none)
    (hfin : f.phase.isFinished = true → decision s.db h ≠ none) : Inv (setFunc s h f) := by
  have hcases : ∀ (P : String → FuncR3 → Prop), P h f → (∀ k, P k (s.funcs k)) →
      ∀ k, P k (Function.update s.funcs h f k) := by
    intro P hh hall k
    by_cases hk : k = h
    · subst hk
      rw [Function.update_self]
      exact hh
    · rw [Function.update_of_ne hk]
      exact hall k
  exact { hi with
    formed := hcases (fun _ f => f.Formed) hf hi.formed
    unanswered := hcases (fun k f => f.Unanswered → decision s.db k = none) hu hi.unanswered
    finished := hcases (fun k f => f.phase.isFinished = true → decision s.db k ≠ none) hfin
      hi.finished }

/-- A write that leaves the judgements alone. -/
theorem Inv.setDb (hi : Inv s) {db : FuncDb} (hd : ∀ k, decision db k = decision s.db k) :
    Inv { s with db := db } :=
  { hi with
    early := fun hcc k => (hd k).trans (hi.early hcc k)
    agrees := fun {k n} hn => by
      rw [hd k]
      exact hi.agrees hn
    unanswered := fun k hu => (hd k).trans (hi.unanswered k hu)
    finished := fun k hf => by
      rw [hd k]
      exact hi.finished k hf }

/-- Phases in which the number of rounds is not known. -/
def Phase.isPlain : Phase → Bool
  | .w _ | .j | .judging | .tail | .left => true
  | _ => false

/-- Phases inside a round that has been marked. -/
def Phase.inRound : Phase → Bool
  | .asking _ | .storing _ _ | .recording _ | .saving _ => true
  | _ => false

theorem unanswered_of_zero (h0 : f.r3WAttempts = 0) : f.Unanswered := by
  unfold FuncR3.Unanswered
  split
  · omega
  · exact h0

theorem Inv.plain (hi : Inv s) (hp : f.phase.isPlain = true)
    (ha : f.r3WAttempts = (s.funcs h).r3WAttempts) : Inv (R3WriteBack.setFunc s h f) := by
  refine hi.setFunc ?_ (fun hu => hi.unanswered h (unanswered_of_zero ?_)) ?_
  · unfold FuncR3.Formed
    split <;> simp_all [Phase.isPlain]
  · rw [← ha]
    unfold FuncR3.Unanswered at hu
    split at hu <;> simp_all [Phase.isPlain]
  · intro hfin
    unfold Phase.isFinished at hfin
    split at hfin <;> simp_all [Phase.isPlain]

theorem Inv.inRound (hi : Inv s) (hp : f.phase.inRound = true) (hpos : 0 < f.r3WAttempts) :
    Inv (R3WriteBack.setFunc s h f) := by
  refine hi.setFunc ?_ (fun hu => ?_) ?_
  · unfold FuncR3.Formed
    split <;> simp_all [Phase.inRound]
  · unfold FuncR3.Unanswered at hu
    split at hu
    · simp_all [Phase.inRound]
    · omega
  · intro hfin
    unfold Phase.isFinished at hfin
    split at hfin <;> simp_all [Phase.inRound]

/-- Both writes of a judgement, after the build. -/
theorem Inv.record (hi : Inv s) (hcc : s.ccState = .passed)
    (hs : (s.db.functions.lookup h).isSome = true) (hu : ¬(s.funcs h).Unanswered) (d : String) :
    Inv { s with
      db := s.db.updateR3Decision h d, nodes := updateNodeR3State s.nodes h d } where
  early := fun hne => absurd hcc hne
  agrees := by
    intro k n hn
    rw [lookup_updateNode] at hn
    rw [decision_updateR3Decision hs]
    by_cases hk : k = h
    · rw [if_pos hk,Option.map_eq_some_iff] at hn
      obtain ⟨n',-,rfl⟩ := hn
      rw [if_pos hk]
      exact ⟨fun d' hd' => Option.some.inj hd',nofun⟩
    · rw [if_neg hk] at hn
      rw [if_neg hk]
      exact hi.agrees hn
  formed := hi.formed
  unanswered := by
    intro k hk
    rw [decision_updateR3Decision hs]
    by_cases hkh : k = h
    · subst hkh
      exact absurd hk hu
    · rw [if_neg hkh]
      exact hi.unanswered k hk
  finished := by
    intro k hk
    rw [decision_updateR3Decision hs]
    split
    · exact nofun
    · exact hi.finished k hk
  unbuilt := hi.unbuilt
  built := by
    intro _ e he
    show ((updateNodeR3State s.nodes h d).lookup e.1).isSome = true
    rw [lookup_updateNode]
    split
    · rw [Option.isSome_map]
      exact hi.built hcc e he
    · exact hi.built hcc e he

/-- The mark of a function that is not judged yet. -/
theorem Inv.mark (hi : Inv s) (hd : decision s.db h = none) :
    Inv { s with nodes := updateNodeR3State s.nodes h "running" } :=
  { hi with
    agrees := by
      intro k n hn
      rw [lookup_updateNode] at hn
      by_cases hk : k = h
      · subst hk
        rw [if_pos rfl,Option.map_eq_some_iff] at hn
        obtain ⟨n',-,rfl⟩ := hn
        refine ⟨fun d hd' => ?_,fun _ => .inr rfl⟩
        have hd'' : decision s.db k = some d := hd'
        rw [hd] at hd''
        cases hd''
      · rw [if_neg hk] at hn
        exact hi.agrees hn
    built := by
      intro hcc e he
      show ((updateNodeR3State s.nodes h "running").lookup e.1).isSome = true
      rw [lookup_updateNode]
      split
      · rw [Option.isSome_map]
        exact hi.built hcc e he
      · exact hi.built hcc e he }

/-- New nodes are pending, and nothing is judged before the build. -/
theorem Inv.insert (hi : Inv s) (hd : ∀ k, decision s.db k = none) (hashes : List String)
    {k : String} {n : R3Node} (hn : (insertNodes s.nodes hashes).lookup k = some n) :
    (∀ d, decision s.db k = some d → n.r3State = d) ∧
      (decision s.db k = none → n.r3State = "pending" ∨ n.r3State = "running") := by
  rw [lookup_insertNodes,Option.or_eq_some_iff] at hn
  rcases hn with hn | ⟨-,hn⟩
  · exact hi.agrees hn
  · split at hn
    · cases hn
      refine ⟨fun d hd' => ?_,fun _ => .inl rfl⟩
      rw [hd k] at hd'
      cases hd'
    · cases hn

theorem insertNodes_append (nodes : KeyedTable R3Node.funcHash) (hs hs' : List String) :
    insertNodes (insertNodes nodes hs) hs' = insertNodes nodes (hs ++ hs') := by
  unfold insertNodes
  rw [List.foldl_append]

theorem Inv.buildFails (hi : Inv s) (hcc : s.ccState = .running) (p : BuildFailure) :
    Inv (buildFails s p) := by
  have hd : ∀ k, decision s.db k = none := hi.early (by rw [hcc]; exact nofun)
  -- whatever was inserted, the state is `failed` and the new nodes are pending
  have key : ∀ (hashes : List String) (edges : List (String × String)),
      Inv { s with nodes := insertNodes s.nodes hashes, edges := edges, ccState := .failed } :=
    fun hashes edges => { hi with
      early := fun _ => hd
      agrees := hi.insert hd hashes
      unbuilt := fun h => by rcases h with h | h <;> cases h
      built := fun h => by cases h }
  cases p with
  | beforeNodes => exact key [] s.edges
  | beforeEdges => exact key (knownFuncs s) s.edges
  | betweenEdges edges =>
    have hkey := key (knownFuncs s ++ endpoints edges) s.edges
    rw [← insertNodes_append] at hkey
    exact hkey
  | afterEdges edges =>
    have hkey := key (knownFuncs s ++ endpoints edges) (s.edges ++ properEdges edges)
    rw [← insertNodes_append] at hkey
    exact hkey

theorem Inv.build (hi : Inv s) (hcc : s.ccState = .running) (edges : List (String × String)) :
    Inv (build s edges) := by
  have hd : ∀ k, decision s.db k = none := hi.early (by rw [hcc]; exact nofun)
  have hedges : s.edges = [] := hi.unbuilt (.inr hcc)
  exact { hi with
    early := fun h => absurd rfl h
    agrees := by
      show ∀ {k n}, (insertNodes (insertNodes s.nodes (knownFuncs s)) (endpoints edges)).lookup k =
        some n → _
      rw [insertNodes_append]
      exact hi.insert hd _
    unbuilt := fun h => by rcases h with h | h <;> cases h
    built := by
      intro _ e he
      have hmem : e ∈ properEdges edges := by
        have he' : e ∈ s.edges ++ properEdges edges := he
        rw [hedges] at he'
        exact he'
      unfold properEdges at hmem
      obtain ⟨hin,hne⟩ := List.mem_filter.mp hmem
      have hend : e.1 ∈ endpoints edges := by
        unfold endpoints
        refine List.mem_filter.mpr ⟨List.mem_flatMap.mpr ⟨e,hin,List.mem_cons_self⟩,?_⟩
        exact (Bool.and_eq_true_iff.mp hne).1
      show ((insertNodes _ (endpoints edges)).lookup e.1).isSome = true
      rw [lookup_insertNodes,if_pos hend]
      simp }

end Invariant

section Runs

variable {py : PyRuntime} {cfg : Config} {s u : Sys}

theorem exitW_plain (cancel again : Bool) (f : FuncR3) :
    (exitW cancel again f).phase.isPlain = true ∧
      (exitW cancel again f).r3WAttempts = f.r3WAttempts := by
  unfold exitW afterW
  repeat' split
  all_goals exact ⟨rfl,rfl⟩

theorem afterW_plain (cancel : Bool) (f : FuncR3) :
    (afterW cancel f).phase.isPlain = true ∧ (afterW cancel f).r3WAttempts = f.r3WAttempts :=
  exitW_plain cancel false f

theorem answer_inRound (f : FuncR3) (again : Bool) (a : Answer) :
    (answer py f again a).phase.inRound = true ∧
      (answer py f again a).r3WAttempts = f.r3WAttempts := by
  cases a with
  | parsed analysis =>
    unfold answer
    refine ⟨?_,rfl⟩
    show Phase.inRound (if _ then _ else _) = true
    split <;> rfl
  | unparsed input => exact ⟨rfl,rfl⟩

/-- The tests of a function: R3 ends only with a judgement. -/
theorem Inv.test (hi : Inv s) {h : String} {f : FuncR3}
    (ht : test cfg s.cancel (s.funcs h) = some f)
    (hc : (s.funcs h).phase.isTail = true → s.cancel = true ∨ decision s.db h ≠ none) :
    Inv (R3WriteBack.setFunc s h f) := by
  unfold R3WriteBack.test at ht
  split at ht
  · rename_i again hp
    split at ht <;> cases ht
    · refine hi.setFunc (Nat.succ_pos _) (fun hu => ?_) nofun
      have h0 : (s.funcs h).r3WAttempts + 1 ≤ 1 := hu
      exact hi.unanswered h (unanswered_of_zero (by omega))
    · obtain ⟨hplain,ha⟩ := exitW_plain s.cancel again (s.funcs h)
      exact hi.plain hplain ha
  · split at ht <;> cases ht
    · exact hi.plain rfl rfl
    · exact hi.plain rfl rfl
  · rename_i hp
    split at ht <;> cases ht
    · exact hi.plain rfl rfl
    · rename_i hcan
      have hd : decision s.db h ≠ none := by
        rcases hc (by rw [hp]; rfl) with h | h
        · exact absurd h hcan
        · exact h
      refine hi.setFunc trivial (fun hu => ?_) (fun _ => hd)
      exact absurd (hi.unanswered h (unanswered_of_zero hu)) hd
  · cases ht

/-- A function in a round has begun one. -/
theorem Inv.rounds_pos (hi : Inv s) {h : String} (hp : (s.funcs h).phase.inRound = true) :
    0 < (s.funcs h).r3WAttempts := by
  have hf := hi.formed h
  unfold FuncR3.Formed at hf
  split at hf <;> simp_all [Phase.inRound]

theorem step_keeps (hi : Inv s) {a : Act} (h : step py cfg s a = some u) (hc : Calm ⟨s,a,u⟩) :
    Inv u := by
  cases a with
  | enter k =>
    simp only [step] at h
    split at h
    · cases h
      refine hi.plain ?_ ?_
      · split
        · rfl
        · split
          · exact (afterW_plain _ _).1
          · rfl
      · split
        · rfl
        · split
          · exact (afterW_plain _ _).2
          · rfl
    · cases h
  | test k =>
    simp only [step,Option.map_eq_some_iff] at h
    obtain ⟨f,hf,rfl⟩ := h
    exact hi.test hf hc
  | mark k written =>
    simp only [step] at h
    split at h
    · rename_i again hp
      have hpos : 0 < (s.funcs k).r3WAttempts := by
        have hf := hi.formed k
        simp only [FuncR3.Formed,hp] at hf
        exact hf
      split at h <;> cases h
      · rename_i hfirst
        have hd : decision s.db k = none := hi.unanswered k (by
          simp only [FuncR3.Unanswered,hp]
          exact hfirst.1.le)
        exact (hi.mark hd).inRound (h := k) rfl hpos
      · exact hi.inRound rfl hpos
    · cases h
  | answered k a =>
    simp only [step] at h
    split at h
    · rename_i again hp
      cases h
      obtain ⟨hround,ha⟩ := @answer_inRound py (s.funcs k) again a
      refine hi.inRound hround ?_
      rw [ha]
      exact hi.rounds_pos (by rw [hp]; rfl)
    · cases h
  | callFailed k | storeFailed k =>
    simp only [step] at h
    split at h
    · cases h
      exact hi.plain rfl rfl
    · cases h
  | store k role confidence =>
    simp only [step] at h
    split at h
    · rename_i again analysis hp
      cases h
      have hpos := hi.rounds_pos (h := k) (by rw [hp]; rfl)
      have hdb : ∀ j, decision (s.db.setAnalysis py k
          ((role.map (PyDict.set analysis "entry_role")).getD analysis) confidence) j =
          decision s.db j := by
        intro j
        refine column_updateFunctions s.db _ ?_ j
        exact fun _ => rfl
      exact (hi.setDb hdb).inRound (h := k) rfl hpos
    · cases h
  | record k dbWritten nodeWritten =>
    simp only [step] at h
    split at h
    · rename_i again hp
      cases h
      obtain ⟨hcc,hdb,hnode,hs⟩ := hc
      have hcc : s.ccState = .passed := hcc
      have hpos := hi.rounds_pos (h := k) (by rw [hp]; rfl)
      have hu : ¬(s.funcs k).Unanswered := by
        intro hu
        simp only [FuncR3.Unanswered,hp] at hu
        omega
      have hrec := (hi.record hcc hs hu (finalDecision (s.funcs k)).text).inRound (h := k)
        (f := { s.funcs k with r3WState := .passed, phase := .saving again }) rfl hpos
      rw [if_pos hdb,if_pos ⟨hcc,hnode⟩]
      exact hrec
    · cases h
  | saved k ok =>
    simp only [step] at h
    split at h
    · split at h <;> cases h
      · obtain ⟨hplain,ha⟩ := exitW_plain s.cancel _ (s.funcs k)
        exact hi.plain hplain ha
      · exact hi.plain rfl rfl
    · cases h
  | judged k passed =>
    simp only [step] at h
    split at h
    · split at h <;> cases h <;> exact hi.plain rfl rfl
    · cases h
  | dies k =>
    simp only [step] at h
    split at h
    · cases h
    · cases h
      exact hi.plain rfl rfl
  | deleteFunction k =>
    simp only [step] at h
    split at h
    · rename_i hp
      cases h
      have hf := hi.formed k
      simp only [FuncR3.Formed,hp] at hf
      exact hi.setDb (decision_deleteFunction (hi.unanswered k (unanswered_of_zero hf)))
    · cases h
  | beside w =>
    simp only [step] at h
    split at h
    · rename_i hw
      cases h
      exact hi.setDb (decision_beside py hw)
    · cases h
  | ccStart =>
    simp only [step] at h
    split at h
    · rename_i hcc
      cases h
      have hd := hi.early (by rw [hcc.1]; exact nofun)
      exact { hi with
        early := fun _ => hd
        unbuilt := fun _ => hi.unbuilt (.inl hcc.1)
        built := fun h => by cases h }
    · cases h
  | ccBuild edges =>
    simp only [step] at h
    split at h
    · rename_i hcc
      cases h
      exact hi.build hcc edges
    · cases h
  | ccFails p =>
    simp only [step] at h
    split at h
    · rename_i hcc
      cases h
      exact hi.buildFails hcc p
    · cases h
  | ccSet =>
    simp only [step] at h
    split at h
    · cases h
      exact { hi with }
    · cases h
  | quickPath k rowRead callersRead =>
    simp only [step] at h
    split at h
    · split at h
      · cases h
        exact hi
      · cases h
    · cases h
  | cancel =>
    simp only [step,Option.some.injEq] at h
    rw [← h]
    exact { hi with }

/-- The quick path keeps a passive function unless a caller's node says keep. -/
theorem r4QuickPath_keeps_iff (s : Sys) (h : String) : (r4QuickPath s h true true).1 = true ↔
    isTagA s.db h = true ∨ ∀ c, (c,h) ∈ s.edges → r3StateOf s.nodes c ≠ "keep" := by
  have hkept : (getCallersR3State s h).filter (· == "keep") = [] ↔
      ∀ c, (c,h) ∈ s.edges → r3StateOf s.nodes c ≠ "keep" := by
    rw [List.filter_eq_nil_iff]
    constructor
    · intro hall c hc hstate
      have hmem : r3StateOf s.nodes c ∈ getCallersR3State s h :=
        List.mem_map.mpr ⟨(c,h),List.mem_filter.mpr ⟨hc,beq_self_eq_true h⟩,rfl⟩
      exact hall _ hmem (by rw [hstate]; rfl)
    · intro hall x hx
      obtain ⟨⟨c,h'⟩,he,rfl⟩ := List.mem_map.mp hx
      obtain ⟨hin,heq⟩ := List.mem_filter.mp he
      have hh : h' = h := by simpa using heq
      subst hh
      simpa using hall c hin
  rw [← hkept]
  unfold r4QuickPath
  by_cases ha : isTagA s.db h = true
  · simp [ha]
  · by_cases hk : (getCallersR3State s h).filter (· == "keep") = []
    · by_cases hr : (getCallersR3State s h).filter (· == "running") = []
      · simp [ha,hk,hr]
      · simp [ha,hk,hr]
    · simp [ha,hk]

/-- The node of a judged caller is there and says what the database says. -/
theorem Inv.node (hi : Inv s) {e : String × String} (he : e ∈ s.edges) {d : String}
    (hd : decision s.db e.1 = some d) : ∃ n, s.nodes.lookup e.1 = some n ∧ n.r3State = d := by
  have hcc : s.ccState = .passed := by
    by_contra hne
    rw [hi.early hne] at hd
    cases hd
  obtain ⟨n,hn⟩ := Option.isSome_iff_exists.mp (hi.built hcc e he)
  exact ⟨n,hn,(hi.agrees hn).1 d hd⟩

theorem Inv.keep_iff (hi : Inv s) {e : String × String} (he : e ∈ s.edges) :
    r3StateOf s.nodes e.1 = "keep" ↔ decision s.db e.1 = some "keep" := by
  constructor
  · intro hstate
    unfold r3StateOf at hstate
    cases hn : s.nodes.lookup e.1 with
    | none =>
      rw [hn] at hstate
      exact absurd hstate (by decide)
    | some n =>
      rw [hn] at hstate
      have hkeep : n.r3State = "keep" := hstate
      cases hd : decision s.db e.1 with
      | none =>
        have hne := (hi.agrees hn).2 hd
        rw [hkeep] at hne
        exact absurd hne (by decide)
      | some d => rw [← (hi.agrees hn).1 d hd,hkeep]
  · intro hd
    obtain ⟨n,hn,hstate⟩ := hi.node he hd
    rw [r3StateOf,hn]
    exact hstate

theorem Inv.seesCallers (hi : Inv s) (h : String) : SeesCallers s h true true := by
  have htimeless : (r4QuickPath s h true true).1 = true ↔
      isTagA s.db h = true ∨ ∀ c, (c,h) ∈ s.edges → decision s.db c ≠ some "keep" := by
    rw [r4QuickPath_keeps_iff]
    refine or_congr Iff.rfl (forall_congr' fun c => forall_congr' fun hc => ?_)
    exact not_congr (hi.keep_iff hc)
  refine ⟨fun c hc hfin => ?_,fun hp hq c hc _ => ?_,htimeless⟩
  · cases hd : decision s.db c with
    | none => exact absurd hd (hi.finished c hfin)
    | some d =>
      obtain ⟨n,hn,hstate⟩ := hi.node hc hd
      rw [hn,← hstate]
      rfl
  · rcases htimeless.mp hq with h | h
    · rw [hp] at h
      cases h
    · exact h c hc

end Runs

/-- In a run that is calm, each quick path sees the judgements of the callers. -/
theorem calm_run_sees_callers {py : PyRuntime} {cfg : Config} {tr : List (Event Sys Act)} {u : Sys}
    (hr : Run (step py cfg) {} tr u) (hc : ∀ e ∈ tr, Calm e) :
    ∀ e ∈ tr, ∀ h rowRead callersRead, e.act = .quickPath h rowRead callersRead →
      SeesCallers e.pre h rowRead callersRead := by
  have hall : Along (fun _ e => ∀ h rowRead callersRead, e.act = .quickPath h rowRead callersRead →
      SeesCallers e.pre h rowRead callersRead) tr := by
    refine hr.along_of_invariant (J := fun _ s => Inv s) (along_forall.mpr hc) inv_init
      (fun tr t a v hj hq hs => step_keeps hj hs hq) ?_
    intro tr t a v hj hq _ h rowRead callersRead ha
    have ha : a = .quickPath h rowRead callersRead := ha
    subst ha
    obtain ⟨hrow,hcallers⟩ := hq
    subst hrow hcallers
    exact hj.seesCallers h
  exact along_forall.mp hall

/-! ## Two orders of the build and a caller's judgement -/

/-- R3 of one function whose only answer is keep; the judge agrees. -/
def judgedKeep (h : String) : List Act :=
  [.enter h,.test h,.mark h true,.answered h (.parsed [("decision",.str "keep")]),
    .store h none (.finite 1),.record h true true,.saved h true,.test h,.judged h true,.test h]

/-- R1 has written `a` and `b`; `a` calls `b`. -/
def registered : List Act :=
  [.beside (.writeFunctions "x" "p.c" [⟨"a","",1,2,""⟩,⟨"b","",3,4,""⟩] ["a","b"] "p.c")]

def built : List Act := [.ccStart,.ccBuild [("a","b")],.ccSet]

/-- The quick path of `b` can run, and `a` has finished R3 with keep. -/
def callerKept (s : Sys) : Bool :=
  (step plainRuntime ⟨-1,-1⟩ s (.quickPath "b" true true)).isSome &&
    s.edges.contains ("a","b") && (s.funcs "a").phase.isFinished &&
    decision s.db "a" == some "keep"

/-- With the build first, the quick path of `b` sees that `a` is kept. -/
theorem built_first_sees_caller : ∃ tr u, Run (step plainRuntime ⟨-1,-1⟩) {} tr u ∧
    ∃ e ∈ tr, e.act = .quickPath "b" true true ∧ (r4QuickPath e.pre "b" true true).1 = false ∧
      SeesCallers e.pre "b" true true := by
  obtain ⟨tr,s,hr,hp⟩ := exists_run_of_replay (step plainRuntime ⟨-1,-1⟩) {}
    (registered ++ built ++ judgedKeep "a" ++ judgedKeep "b")
    (p := fun tr s => callerKept s && !(r4QuickPath s "b" true true).1 &&
      tr.all fun e => decide (Calm e)) (by decide +kernel)
  simp only [callerKept,Bool.and_eq_true,Bool.not_eq_true',List.all_eq_true,
    decide_eq_true_eq] at hp
  obtain ⟨⟨⟨⟨⟨hstep,-⟩,-⟩,-⟩,hq⟩,hc⟩ := hp
  obtain ⟨u,hu⟩ := Option.isSome_iff_exists.mp hstep
  refine ⟨_,u,.next hr hu,_,List.mem_cons_self,rfl,hq,?_⟩
  refine calm_run_sees_callers (.next hr hu) ?_ _ List.mem_cons_self "b" true true rfl
  intro e he
  rcases List.mem_cons.mp he with rfl | he
  · exact ⟨rfl,rfl⟩
  · exact hc e he

/-- With the build last, it finds `a` pending and keeps `b`. -/
theorem judged_first_unseen : ∃ tr u, Run (step plainRuntime ⟨-1,-1⟩) {} tr u ∧
    ∃ e ∈ tr, e.act = .quickPath "b" true true ∧ (r4QuickPath e.pre "b" true true).1 = true ∧
      ¬SeesCallers e.pre "b" true true := by
  obtain ⟨tr,s,hr,hp⟩ := exists_run_of_replay (step plainRuntime ⟨-1,-1⟩) {}
    (registered ++ judgedKeep "a" ++ built ++ judgedKeep "b")
    (p := fun _ s => callerKept s && (r4QuickPath s "b" true true).1 &&
      (s.nodes.lookup "a").map R3Node.r3State == some "pending") (by decide +kernel)
  simp only [callerKept,Bool.and_eq_true,beq_iff_eq,List.contains_iff_mem] at hp
  obtain ⟨⟨⟨⟨⟨hstep,hedge⟩,hfin⟩,hdec⟩,hq⟩,hnode⟩ := hp
  obtain ⟨u,hu⟩ := Option.isSome_iff_exists.mp hstep
  refine ⟨_,u,.next hr hu,_,List.mem_cons_self,rfl,hq,fun hsees => ?_⟩
  have hagree := hsees.agree "a" hedge hfin
  rw [hnode,hdec] at hagree
  exact absurd hagree (by decide)

end R3WriteBack
end EntryAnalyse
