import EntryAnalyse.PublishedLists

/-! The last judgement of one function. A worker looks for a reason to filter it and a judge
reviews the worker's answer; the answer is stored in the pipeline state and in the function
database before the judge has seen it, so what the loop leaves behind is the last answer that
was stored, and not what the judge approved. -/
namespace EntryAnalyse
namespace R4Loop

open PyJson

/-! ## The stage -/

structure Config where
  r4FuncMaxRounds : ℤ
  r4FuncJMaxRounds : ℤ

/-- The fields of `FunctionState` that the stage reads or writes. -/
structure FuncState where
  r4State : NodeState
  r4Decision : String
  r4Reason : String
  r4Attempts : ℕ
  r4JState : NodeState
  r4JAttempts : ℕ
  r4JFeedback : String

/-- The function in the pipeline state, and the database. -/
structure Sys where
  func : FuncState
  db : FuncDb

/-- How a call of the worker ends: an exception outside the call of the agent, one inside it,
or an answer. The result file is given by what it parses to, and is `none` if it is not there or
cannot be parsed. Saving the state and writing to the database may fail. -/
inductive WorkerRound
  | crashed
  | agentFailed
  | answered (resultFile : Option PyJson) (saved written : Bool)

/-- How a call of the judge ends. -/
inductive JudgeRound
  | crashed
  | agentFailed
  | judged (passed : Bool) (feedback : String)

/-- One turn of the loop, with what the two tests of the cancel event in it would see. -/
structure Round where
  worker : WorkerRound
  cancelAfterW : Bool
  judge : JudgeRound
  cancelAfterJ : Bool

/-- How the stage begins: reading the entry or preparing the calls may raise, the quick path may
keep the function, and otherwise the loop begins by testing the cancel event. -/
inductive Start
  | crashed
  | quickKeep (reason : String) (saved written : Bool)
  | loop (cancelled : Bool)

/-- `_should_continue`. -/
def shouldContinue (attempts : ℕ) (maxRounds : ℤ) (cancelled : Bool) : Bool :=
  if cancelled then false
  else if maxRounds = 0 then false
  else if maxRounds = -1 then true
  else (attempts : ℤ) < maxRounds

/-- `str(d.get("decision", "keep")).lower().strip()`. -/
def readDecision (py : PyRuntime) : Option PyJson → String
  | some (.dict d) => strip (lower (py.str (PyDict.getD d "decision" (.str "keep"))))
  | _ => "keep"

/-- `str(d.get("reason", ""))[:200]`. -/
def readReason (py : PyRuntime) : Option PyJson → String
  | some (.dict d) => String.ofList ((py.str (PyDict.getD d "reason" (.str ""))).toList.take 200)
  | _ => ""

section Stage

variable (py : PyRuntime) (cfg : Config) (h : String)

/-- `_run_r4_for_func`, and whether an exception leaves it. The loop has just tested the cancel
event. -/
def runR4ForFunc (s : Sys) (w : WorkerRound) : Sys × Bool :=
  if s.func.r4State = .passed then (s,false)
  else if !shouldContinue s.func.r4Attempts cfg.r4FuncMaxRounds false then
    ({ s with func := { s.func with r4State := .passed, r4Decision := "keep" } },false)
  else
    let func := { s.func with r4State := .running, r4Attempts := s.func.r4Attempts + 1 }
    match w with
    | .crashed => ({ s with func := func },true)
    | .agentFailed => ({ s with func := { func with r4State := .passed, r4Decision := "keep" } },false)
    | .answered file saved written =>
      let decision := readDecision py file
      let func := { func with r4Decision := decision, r4Reason := readReason py file }
      ({ func := func
         db := if saved && written then s.db.updateR4Decision h decision else s.db },!saved)

/-- `_run_r4_j`: the verdict, if no exception leaves it. -/
def runR4J (s : Sys) (j : JudgeRound) : Sys × Option Bool :=
  let func := { s.func with r4JState := .running, r4JAttempts := s.func.r4JAttempts + 1 }
  match j with
  | .crashed => ({ s with func := func },none)
  | .agentFailed => ({ s with func := { func with r4JState := .failed } },some false)
  | .judged passed feedback =>
    let state := if passed then NodeState.passed else .failed
    ({ s with func := { func with r4JState := state, r4JFeedback := feedback } },some passed)

/-- `func_state.r4_state = NodeState.PASSED`, however the stage ends. -/
def forcePass (s : Sys) : Sys := { s with func := { s.func with r4State := .passed } }

/-- The condition of the loop, with the test at the head of its body. -/
def goesOn (s : Sys) : Bool :=
  shouldContinue s.func.r4Attempts cfg.r4FuncMaxRounds false && s.func.r4State != .passed

/-- What follows the judge's verdict: the stage ends, or the next turn begins. -/
def afterJ (t : Sys) (verdict : Option Bool) (cancelled : Bool) : Sys × Bool :=
  match verdict with
  | none => (forcePass t,false)
  | some true => (forcePass t,false)
  | some false =>
    if shouldContinue t.func.r4JAttempts cfg.r4FuncJMaxRounds cancelled then
      ({ t with func := { t.func with r4JState := .pending } },true)
    else (forcePass t,false)

/-- What a turn leads to, and whether another turn is to be tried. -/
def turn (s : Sys) (r : Round) : Sys × Bool :=
  if (runR4ForFunc py cfg h s r.worker).2 || r.cancelAfterW then
    (forcePass (runR4ForFunc py cfg h s r.worker).1,false)
  else
    let j := runR4J (runR4ForFunc py cfg h s r.worker).1 r.judge
    afterJ cfg j.1 j.2 r.cancelAfterJ

/-- The loop, if it takes exactly the given turns. -/
def rounds : Sys → List Round → Option Sys
  | s,[] => if goesOn cfg s then none else some (forcePass s)
  | s,r :: rs =>
    if !goesOn cfg s then none
    else
      match turn py cfg h s r with
      | (t,true) => rounds t rs
      | (t,false) => if rs.isEmpty then some t else none

/-- R4 in `_func_pipeline`, if the loop takes exactly the given turns. -/
def runR4 (s : Sys) (start : Start) (rs : List Round) : Option Sys :=
  if s.func.r4Decision = "keep" ∧ s.func.r4State ≠ .passed then
    match start with
    | .crashed => if rs.isEmpty then some (forcePass s) else none
    | .quickKeep reason saved written =>
      if rs.isEmpty then
        some (forcePass
          { func := { s.func with r4Decision := "keep", r4Reason := reason }
            db := if saved && written then s.db.updateR4Decision h "keep" else s.db })
      else none
    | .loop true => if rs.isEmpty then some (forcePass s) else none
    | .loop false => rounds py cfg h s rs
  else some s

end Stage

/-! ## What the stage leaves in the database -/

/-- The text in the column `r4_decision` keeps the row out of `get_keep_entries`. -/
def excludes (c : Option String) : Bool := !(c == none || c == some "keep")

theorem isKeepRow_eq_excludes (r : FunctionRow) : FuncDb.isKeepRow r =
    (FuncDb.isKeepRow { r with r4Decision := none } && !excludes r.r4Decision) := by
  simp only [FuncDb.isKeepRow,excludes,Bool.not_not,beq_self_eq_true,Bool.true_or,Bool.and_true]
  rw [Bool.and_right_comm]

/-- A row of the function `h` has `c` in the column `r4_decision`. -/
def HasR4 (db : FuncDb) (h : String) (c : Option String) : Prop :=
  ∃ r ∈ db.functions.rows, r.funcHash = h ∧ r.r4Decision = c

/-- `get_keep_entries` leaves the function out because of the column `r4_decision`. -/
def ExcludedByR4 (db : FuncDb) (h : String) : Prop := ∃ c, HasR4 db h c ∧ excludes c = true

theorem mem_keys_iff {db : FuncDb} {h : String} :
    h ∈ db.functions.keys ↔ ∃ r ∈ db.functions.rows, r.funcHash = h := by
  simp [KeyedTable.keys]

theorem hasR4_updateR4Decision {db : FuncDb} {h d : String} {c : Option String} :
    HasR4 (db.updateR4Decision h d) h c ↔ h ∈ db.functions.keys ∧ c = some d := by
  simp only [HasR4,FuncDb.updateR4Decision,FuncDb.updateFunctions,KeyedTable.updateWhere,
    List.mem_map,mem_keys_iff]
  constructor
  · rintro ⟨_,⟨r,hr,rfl⟩,hh,rfl⟩
    by_cases hk : r.funcHash = h
    · exact ⟨⟨r,hr,hk⟩,by simp [hk]⟩
    · simp [hk] at hh
  · rintro ⟨⟨r,hr,hk⟩,rfl⟩
    exact ⟨_,⟨r,hr,rfl⟩,by simp [hk],by simp [hk]⟩

theorem keys_updateR4Decision (db : FuncDb) (h d : String) :
    (db.updateR4Decision h d).functions.keys = db.functions.keys :=
  KeyedTable.keys_updateWhere db.functions (fun r => r.funcHash = h)
    (fun r => { r with r4Decision := some d }) (fun _ => rfl)

/-- If the function has a row, the text in its column is `c`. -/
def Column (db : FuncDb) (h : String) (known : Prop) (c : Option String) : Prop :=
  (h ∈ db.functions.keys ↔ known) ∧ ∀ c', HasR4 db h c' ↔ known ∧ c' = c

theorem Column.updateR4Decision {db : FuncDb} {h : String} {known : Prop} {c : Option String}
    (hc : Column db h known c) (d : String) :
    Column (db.updateR4Decision h d) h known (some d) := by
  refine ⟨?_,fun c' => ?_⟩
  · rw [keys_updateR4Decision]
    exact hc.1
  · rw [hasR4_updateR4Decision,hc.1]

theorem Column.excludedByR4_iff {db : FuncDb} {h : String} {known : Prop} {c : Option String}
    (hc : Column db h known c) : ExcludedByR4 db h ↔ known ∧ excludes c = true := by
  constructor
  · rintro ⟨c',hr,he⟩
    obtain ⟨hk,rfl⟩ := (hc.2 c').mp hr
    exact ⟨hk,he⟩
  · rintro ⟨hk,he⟩
    exact ⟨c,(hc.2 c).mpr ⟨hk,rfl⟩,he⟩

theorem countP_of_excludedByR4 {db : FuncDb} {h : String} (he : ExcludedByR4 db h) :
    db.getKeepEntries.countP (FuncDb.hasHash h) = 0 := by
  obtain ⟨_,⟨r,hr,hk,rfl⟩,hex⟩ := he
  rw [FuncDb.countP_getKeepEntries,if_neg]
  rintro ⟨r',hr',hkeep,hk'⟩
  have heq : r' = r := List.inj_on_of_nodup_map db.functions.nodup hr' hr (hk'.trans hk.symm)
  rw [heq,isKeepRow_eq_excludes,hex] at hkeep
  simp at hkeep

/-! ## Answers -/

section Answers

variable (py : PyRuntime)

/-- The decision that a turn of the worker stores in the pipeline state. -/
def storedAnswer : WorkerRound → Option String
  | .crashed => none
  | .agentFailed => some "keep"
  | .answered file _ _ => some (readDecision py file)

/-- The decision that a turn of the worker stores in the database. -/
def writtenAnswer : WorkerRound → Option String
  | .answered file true true => some (readDecision py file)
  | _ => none

/-- The last decision stored in the pipeline state, where `d` stood before. -/
def lastStored (d : String) (rs : List Round) : String :=
  ((rs.filterMap (fun r => storedAnswer py r.worker)).getLast?).getD d

/-- The last decision that reached the database, where `c` stood before. -/
def lastWritten (c : Option String) (rs : List Round) : Option String :=
  ((rs.filterMap (fun r => writtenAnswer py r.worker)).getLast?).or c

/-- An exception leaves the worker. -/
def crashes : WorkerRound → Bool
  | .crashed => true
  | .answered _ saved _ => !saved
  | .agentFailed => false

/-- The worker answers `filter` in this turn, and the judge passes the answer. -/
def approves (r : Round) : Bool :=
  match r.worker,r.judge with
  | .answered file true _,.judged true _ => readDecision py file == "filter" && !r.cancelAfterW
  | _,_ => false

/-- The stage ends with a filter that the judge has passed. -/
def Approved (rs : List Round) : Prop := (rs.getLast?).any (approves py) = true

/-- A test of the cancel event in this turn finds it set. -/
def cancels (r : Round) : Bool :=
  !crashes r.worker && (r.cancelAfterW ||
    match r.judge with
    | .crashed => false
    | .agentFailed => r.cancelAfterJ
    | .judged passed _ => !passed && r.cancelAfterJ)

def Cancelled (start : Start) (rs : List Round) : Prop := start = .loop true ∨ ∃ r ∈ rs, cancels r

/-- The rule of the stage: a function is filtered only if the last answer of the worker was
`filter` and the judge passed it; unless the run was cancelled, any other function is kept in
both stores. -/
structure NeverFiltersUnapproved (h : String) (start : Start) (rs : List Round) (t : Sys) :
    Prop where
  filtered : t.func.r4Decision = "filter" ∨ ExcludedByR4 t.db h → Approved py rs
  kept : ¬Cancelled start rs → ¬Approved py rs →
    t.func.r4Decision = "keep" ∧ ¬ExcludedByR4 t.db h

@[simp] theorem lastStored_cons (d : String) (r : Round) (rs : List Round) :
    lastStored py d (r :: rs) = lastStored py ((storedAnswer py r.worker).getD d) rs := by
  cases hr : storedAnswer py r.worker with
  | none => simp [lastStored,hr]
  | some a => simp [lastStored,hr,List.getLast?_cons]

@[simp] theorem lastWritten_cons (c : Option String) (r : Round) (rs : List Round) :
    lastWritten py c (r :: rs) = lastWritten py ((writtenAnswer py r.worker).or c) rs := by
  cases hr : writtenAnswer py r.worker with
  | none => simp [lastWritten,hr]
  | some a =>
    simp only [lastWritten,hr,List.filterMap_cons,List.getLast?_cons,Option.some_or]
    cases (rs.filterMap (fun r => writtenAnswer py r.worker)).getLast? with
    | none => rfl
    | some b => rfl

end Answers

/-! ## What a turn stores -/

section Runs

variable (py : PyRuntime) (cfg : Config) (h : String)

theorem runR4ForFunc_spec {s : Sys} (hs : goesOn cfg s = true) (w : WorkerRound) :
    (runR4ForFunc py cfg h s w).1.func.r4Decision = (storedAnswer py w).getD s.func.r4Decision ∧
    (runR4ForFunc py cfg h s w).1.db =
      ((writtenAnswer py w).map (s.db.updateR4Decision h)).getD s.db ∧
    (runR4ForFunc py cfg h s w).2 = crashes w := by
  simp only [goesOn,Bool.and_eq_true,bne_iff_ne] at hs
  simp only [runR4ForFunc,hs.1,hs.2,if_false,Bool.not_true,Bool.false_eq_true]
  cases w with
  | crashed => exact ⟨rfl,rfl,rfl⟩
  | agentFailed => exact ⟨rfl,rfl,rfl⟩
  | answered file saved written =>
    refine ⟨rfl,?_,rfl⟩
    cases saved <;> cases written <;> rfl

theorem runR4ForFunc_of_stop {s : Sys} (hs : goesOn cfg s = false) (w : WorkerRound) :
    (runR4ForFunc py cfg h s w).1.db = s.db := by
  unfold runR4ForFunc
  split
  · rfl
  · rename_i hp
    have hstop : shouldContinue s.func.r4Attempts cfg.r4FuncMaxRounds false = false := by
      simpa [goesOn,hp] using hs
    rw [hstop]
    rfl

/-- A call of the worker changes the row of its function only. -/
theorem lookup_runR4ForFunc_of_ne {k : String} (hk : k ≠ h) (s : Sys) (w : WorkerRound) :
    (runR4ForFunc py cfg h s w).1.db.functions.lookup k = s.db.functions.lookup k := by
  by_cases hs : goesOn cfg s = true
  · rw [(runR4ForFunc_spec py cfg h hs w).2.1]
    cases writtenAnswer py w with
    | none => rfl
    | some d =>
      show (s.db.updateR4Decision h d).functions.lookup k = _
      rw [FuncDb.updateR4Decision,FuncDb.lookup_updateFunctions,if_neg hk]
  · rw [runR4ForFunc_of_stop py cfg h (by simpa using hs)]

theorem runR4J_keeps (s : Sys) (j : JudgeRound) :
    (runR4J s j).1.func.r4Decision = s.func.r4Decision ∧ (runR4J s j).1.db = s.db := by
  cases j with
  | crashed => exact ⟨rfl,rfl⟩
  | agentFailed => exact ⟨rfl,rfl⟩
  | judged passed feedback => exact ⟨rfl,rfl⟩

theorem afterJ_keeps (t : Sys) (verdict : Option Bool) (cancelled : Bool) :
    (afterJ cfg t verdict cancelled).1.func.r4Decision = t.func.r4Decision ∧
      (afterJ cfg t verdict cancelled).1.db = t.db := by
  unfold afterJ
  split
  · exact ⟨rfl,rfl⟩
  · exact ⟨rfl,rfl⟩
  · split
    · exact ⟨rfl,rfl⟩
    · exact ⟨rfl,rfl⟩

/-- Whatever the judge says, a turn leaves behind what the worker stored in it. -/
theorem turn_spec {s : Sys} (hs : goesOn cfg s = true) (r : Round) :
    (turn py cfg h s r).1.func.r4Decision =
      (storedAnswer py r.worker).getD s.func.r4Decision ∧
    (turn py cfg h s r).1.db =
      ((writtenAnswer py r.worker).map (s.db.updateR4Decision h)).getD s.db := by
  obtain ⟨hd,hdb,-⟩ := runR4ForFunc_spec py cfg h hs r.worker
  rw [← hd,← hdb]
  unfold turn
  split
  · exact ⟨rfl,rfl⟩
  · have hj := runR4J_keeps (runR4ForFunc py cfg h s r.worker).1 r.judge
    have ha := afterJ_keeps cfg (runR4J (runR4ForFunc py cfg h s r.worker).1 r.judge).1
      (runR4J (runR4ForFunc py cfg h s r.worker).1 r.judge).2 r.cancelAfterJ
    exact ⟨ha.1.trans hj.1,ha.2.trans hj.2⟩

theorem Column.turn {s : Sys} {known : Prop} {c : Option String} (hc : Column s.db h known c)
    (hs : goesOn cfg s = true) (r : Round) :
    Column (turn py cfg h s r).1.db h known ((writtenAnswer py r.worker).or c) := by
  rw [(turn_spec py cfg h hs r).2]
  cases writtenAnswer py r.worker with
  | none => exact hc
  | some d => exact hc.updateR4Decision d

/-- The loop leaves behind the last decision that each store was given. -/
theorem rounds_spec {s t : Sys} {rs : List Round} {known : Prop} {c : Option String}
    (hc : Column s.db h known c) (hr : rounds py cfg h s rs = some t) :
    t.func.r4Decision = lastStored py s.func.r4Decision rs ∧
      Column t.db h known (lastWritten py c rs) := by
  induction rs generalizing s c with
  | nil =>
    simp only [rounds] at hr
    split at hr
    · cases hr
    · cases hr
      exact ⟨rfl,hc⟩
  | cons r rs ih =>
    simp only [rounds] at hr
    split at hr
    · cases hr
    · rename_i hg
      simp only [Bool.not_eq_true,Bool.not_eq_false'] at hg
      have hspec := (turn_spec py cfg h hg r).1
      have hcol := Column.turn py cfg h hc hg r
      rw [lastStored_cons,lastWritten_cons]
      split at hr
      · rename_i t' ht
        rw [ht] at hspec hcol
        rw [← hspec]
        exact ih hcol hr
      · rename_i t' ht
        rw [ht] at hspec hcol
        split at hr
        · rename_i hemp
          cases hr
          rw [List.isEmpty_iff.mp hemp]
          exact ⟨hspec,by simpa [lastWritten] using hcol⟩
        · cases hr

/-- The stage leaves behind the last decision that each store was given. -/
theorem runR4_spec {s t : Sys} {start : Start} {rs : List Round} {known : Prop}
    (hd : s.func.r4Decision = "keep") (hp : s.func.r4State ≠ .passed)
    (hc : Column s.db h known none) (hr : runR4 py cfg h s start rs = some t) :
    t.func.r4Decision = lastStored py "keep" rs ∧
      ∃ c, Column t.db h known c ∧ excludes c = excludes (lastWritten py none rs) := by
  unfold runR4 at hr
  rw [if_pos ⟨hd,hp⟩] at hr
  cases start with
  | crashed =>
    obtain ⟨hemp,rfl⟩ : rs.isEmpty ∧ forcePass s = t := by simpa using hr
    rw [List.isEmpty_iff.mp hemp]
    exact ⟨hd,none,hc,rfl⟩
  | quickKeep reason saved written =>
    obtain ⟨hemp,rfl⟩ := by simpa using hr
    rw [hemp]
    refine ⟨rfl,?_⟩
    by_cases hw : saved = true ∧ written = true
    · refine ⟨some "keep",?_,rfl⟩
      show Column (if saved = true ∧ written = true then _ else _) h known _
      rw [if_pos hw]
      exact hc.updateR4Decision "keep"
    · refine ⟨none,?_,rfl⟩
      show Column (if saved = true ∧ written = true then _ else _) h known _
      rw [if_neg hw]
      exact hc
  | loop cancelled =>
    cases cancelled with
    | true =>
      obtain ⟨hemp,rfl⟩ : rs.isEmpty ∧ forcePass s = t := by simpa using hr
      rw [List.isEmpty_iff.mp hemp]
      exact ⟨hd,none,hc,rfl⟩
    | false =>
      obtain ⟨hdec,hcol⟩ := rounds_spec py cfg h hc hr
      rw [hd] at hdec
      exact ⟨hdec,_,hcol,rfl⟩

/-- The rule is kept exactly by the runs of two kinds: those that end with a filter that the judge
has passed, and those in which the last decision that each store was given is `keep`. -/
theorem never_filters_unapproved_iff {s t : Sys} {start : Start} {rs : List Round}
    (hd : s.func.r4Decision = "keep") (hp : s.func.r4State ≠ .passed)
    (hnull : ∀ c, HasR4 s.db h c → c = none) (hr : runR4 py cfg h s start rs = some t) :
    NeverFiltersUnapproved py h start rs t ↔
      Approved py rs ∨
        (lastStored py "keep" rs ≠ "filter" ∧
          (¬Cancelled start rs → lastStored py "keep" rs = "keep") ∧
          (h ∈ s.db.functions.keys → excludes (lastWritten py none rs) = false)) := by
  have hc : Column s.db h (h ∈ s.db.functions.keys) none := by
    refine ⟨Iff.rfl,fun c => ⟨fun hh => ⟨?_,hnull c hh⟩,?_⟩⟩
    · obtain ⟨r,hr,hk,-⟩ := hh
      exact mem_keys_iff.mpr ⟨r,hr,hk⟩
    · rintro ⟨hk,rfl⟩
      obtain ⟨r,hr,hk⟩ := mem_keys_iff.mp hk
      exact ⟨r,hr,hk,hnull _ ⟨r,hr,hk,rfl⟩⟩
  obtain ⟨hdec,c,hcol,hex⟩ := runR4_spec py cfg h hd hp hc hr
  have hdb : ExcludedByR4 t.db h ↔
      h ∈ s.db.functions.keys ∧ excludes (lastWritten py none rs) = true := by
    rw [hcol.excludedByR4_iff,hex]
  constructor
  · intro hrule
    by_cases ha : Approved py rs
    · exact .inl ha
    · refine .inr ⟨fun hf => ha (hrule.filtered (.inl (hdec.trans hf))),fun hnc => ?_,fun hk => ?_⟩
      · exact hdec.symm.trans (hrule.kept hnc ha).1
      · by_contra hne
        exact ha (hrule.filtered (.inr (hdb.mpr ⟨hk,by simpa using hne⟩)))
  · rintro (ha | ⟨hnf,hkeep,hwr⟩)
    · exact ⟨fun _ => ha,fun _ hna => absurd ha hna⟩
    · have hin : ¬ExcludedByR4 t.db h := by
        rw [hdb]
        rintro ⟨hk,he⟩
        simp [hwr hk] at he
      refine ⟨?_,fun hnc _ => ⟨hdec.trans (hkeep hnc),hin⟩⟩
      rintro (hf | he)
      · exact absurd (hdec.symm.trans hf) hnf
      · exact absurd he hin

end Runs

/-! ## A filter that the judge rejects -/

/-- A function in R4, and its row. -/
def enteredR4 : Sys where
  func := ⟨.pending,"keep","",0,.pending,0,""⟩
  db := ⟨.empty,KeyedTable.empty.insertOrIgnore (newRow "f" "m" "recv_msg" "" 10 20 "")⟩

def answer (decision : String) : WorkerRound :=
  .answered (some (.dict [("decision",.str decision)])) true true

/-- The worker answers `filter` and the judge rejects it, twice; after the second time the limit of
the judge is reached. -/
def rejectedFilter : List Round :=
  [⟨answer "filter",false,.judged false "no evidence",false⟩,
   ⟨answer "filter",false,.judged false "no evidence",false⟩]

/-- The worker is told to try again, and answers `keep`. -/
def correctedFilter : List Round :=
  [⟨answer "filter",false,.judged false "no evidence",false⟩,
   ⟨answer " Keep ",false,.judged true "",false⟩]

theorem enteredR4_column (c : Option String) (hc : HasR4 enteredR4.db "f" c) : c = none := by
  obtain ⟨r,hr,-,rfl⟩ := hc
  rw [List.mem_singleton.mp hr]
  rfl

/-- The worker's second answer replaces the first in both stores. -/
theorem corrected_filter_is_kept : ∃ t,
    runR4 plainRuntime ⟨-1,2⟩ "f" enteredR4 (.loop false) correctedFilter = some t ∧
      NeverFiltersUnapproved plainRuntime "f" (.loop false) correctedFilter t := by
  have hrun : (runR4 plainRuntime ⟨-1,2⟩ "f" enteredR4 (.loop false) correctedFilter).isSome := by
    decide
  obtain ⟨t,ht⟩ := Option.isSome_iff_exists.mp hrun
  refine ⟨t,ht,(never_filters_unapproved_iff plainRuntime ⟨-1,2⟩ "f" rfl (by decide)
    enteredR4_column ht).mpr (.inr ⟨?_,fun _ => ?_,fun _ => ?_⟩)⟩
  · decide
  · decide
  · decide

/-- Nothing is cancelled and nothing fails, and yet a filter that the judge has rejected twice
stands in both stores. -/
theorem rejected_filter_stands : ∃ t,
    runR4 plainRuntime ⟨-1,2⟩ "f" enteredR4 (.loop false) rejectedFilter = some t ∧
      t.func.r4Decision = "filter" ∧
      ¬NeverFiltersUnapproved plainRuntime "f" (.loop false) rejectedFilter t := by
  have hrun : (runR4 plainRuntime ⟨-1,2⟩ "f" enteredR4 (.loop false) rejectedFilter).any
      (fun t => t.func.r4Decision == "filter") := by
    decide
  obtain ⟨t,ht,hf⟩ := (Option.any_eq_true _ _).mp hrun
  have hf := beq_iff_eq.mp hf
  refine ⟨t,ht,hf,fun hrule => ?_⟩
  have happroved : (rejectedFilter.getLast?).any (approves plainRuntime) = true :=
    hrule.filtered (.inl hf)
  have hnot : (rejectedFilter.getLast?).any (approves plainRuntime) = false := by decide
  exact absurd happroved (by simp [hnot])

end R4Loop
end EntryAnalyse
