import EntryAnalyse.R3WriteBack

/-! What a call of R3-W leaves behind: `has_external_input` and `r4_decision` of the function, and
its row in the function database. An answer without a decision takes the decision over that an
earlier one has left, and the analysis is only stored for an answer that goes on. -/
namespace EntryAnalyse
namespace R3WriteBack

open PyJson Runs

section Answers

variable (py : PyRuntime)

def inputOf : Answer → Bool
  | .parsed analysis => hasInput analysis
  | .unparsed input => input

/-- The function is kept: the answer has external input and does not say filter. -/
def keeps : Answer → Bool
  | .parsed analysis => hasInput analysis && decisionText py analysis != "filter"
  | .unparsed input => input

def expected (a : Answer) : Decision := if keeps py a then .keep else .filter

/-- The analysis of the answer, whose role may come from the call chain. -/
def IsAnalysisOf (a : Answer) (stored : Option PyJson) : Prop :=
  match a with
  | .parsed analysis => ∃ role : Option PyJson,
      stored = some (.dict ((role.map (PyDict.set analysis "entry_role")).getD analysis))
  | .unparsed _ => stored = none

end Answers

/-- The analysis that stands in the row of a function. -/
def analysisAt (s : Sys) (h : String) : Option PyJson :=
  (s.db.functions.lookup h).bind FunctionRow.analysis

/-- All that is recorded about a function comes from its last answer. -/
structure Consistent (py : PyRuntime) (s : Sys) (h : String) (a : Answer) : Prop where
  input : (s.funcs h).hasExternalInput = inputOf a
  state : (s.funcs h).r4Decision = some (expected py a)
  row : decision s.db h = some (expected py a).text
  analysis : IsAnalysisOf a (analysisAt s h)

/-- The last answer about a function, and what it found: the decision of earlier answers, the
analysis in the row, and whether the row is there when its own analysis is stored. -/
structure Round where
  old : Option Decision
  answer : Answer
  stored : Option PyJson
  found : Bool := false

def observeRound (h : String) (last : Option Round) (e : Event Sys Act) : Option Round :=
  match e.act with
  | .answered k a =>
    if k = h then some { old := (e.pre.funcs h).r4Decision, answer := a, stored := analysisAt e.pre h }
    else last
  | .store k _ _ =>
    if k = h then last.map fun r => { r with found := (e.pre.db.functions.lookup h).isSome }
    else last
  | _ => last

/-- The answer decides by itself or with the decision that it found, and its analysis goes to the
row, or the row has none and the answer none either. -/
def Round.Decided (py : PyRuntime) (r : Round) : Prop :=
  match r.answer with
  | .parsed analysis =>
    if keeps py (.parsed analysis) then
      r.found = true ∧ (decisionText py analysis = "keep" ∨ r.old = some .keep)
    else IsAnalysisOf (.parsed analysis) r.stored
  | .unparsed input => r.stored = none ∧ (input = true ↔ r.old = some .keep)

/-! ## What stays in a row -/

section Rows

variable {py : PyRuntime} {cfg : Config} {s u : Sys} {h : String} {a : Act}

theorem isSome_updateFunctions (db : FuncDb) (h : String) (f : FunctionRow → FunctionRow)
    (hf : ∀ r, (f r).funcHash = r.funcHash) (k : String) :
    ((db.updateFunctions h f hf).functions.lookup k).isSome = (db.functions.lookup k).isSome := by
  rw [FuncDb.lookup_updateFunctions]
  split
  · rw [Option.isSome_map]
  · rfl

theorem isSome_insertOrIgnore {t : KeyedTable FunctionRow.funcHash} {r : FunctionRow} {k : String}
    (h : (t.lookup k).isSome = true) : ((t.insertOrIgnore r).lookup k).isSome = true := by
  rw [KeyedTable.lookup_insertOrIgnore,Option.isSome_or,h,Bool.true_or]

/-- A row stays there whatever the other stages write. -/
theorem isSome_beside {db : FuncDb} {w : FuncDbWrite} (hw : besideR3 w = true) {k : String}
    (h : (db.functions.lookup k).isSome = true) :
    ((db.write py w).functions.lookup k).isSome = true := by
  cases w with
  | writeFunctions fileHash path funcs hashes rel =>
    have hfold : ∀ (l : List (FunctionExtract × String)) (t : KeyedTable FunctionRow.funcHash),
        (t.lookup k).isSome = true →
        ((l.foldl (fun t p => t.insertOrIgnore (newRow p.2 fileHash p.1.name p.1.signature
          p.1.startLine p.1.endLine p.1.body)) t).lookup k).isSome = true := by
      intro l
      induction l with
      | nil => exact fun _ ht => ht
      | cons p l ih => exact fun t ht => ih _ (isSome_insertOrIgnore ht)
    exact hfold _ _ h
  | insertFunction => exact isSome_insertOrIgnore h
  | updateFunction | updateConfidence | updateR4Decision =>
    exact (isSome_updateFunctions db _ _ _ k).trans h
  | deleteFunction | setAnalysis | updateR3Decision | setFastModeResult | updateEntryCategory
  | upsertFunction | syncFromJson => cases hw

/-- What a step does to the row of a function, as far as R3 reads it. -/
def RowKept (s u : Sys) (h : String) : Prop :=
  analysisAt u h = analysisAt s h ∧
    ((s.db.functions.lookup h).isSome = true → (u.db.functions.lookup h).isSome = true)

theorem RowKept.of_db (hdb : u.db = s.db) : RowKept s u h := by
  unfold RowKept analysisAt
  rw [hdb]
  exact ⟨rfl,id⟩

/-- Only the function's own call of R3-W writes its analysis, and no row is deleted once R3 has
begun. -/
theorem row_step (hs : step py cfg s a = some u)
    (hstore : ∀ role confidence, a ≠ .store h role confidence) (hdelete : a ≠ .deleteFunction h) :
    RowKept s u h := by
  cases a with
  | store k role confidence =>
    have hk : h ≠ k := fun heq => hstore role confidence (by rw [heq])
    simp only [step] at hs
    split at hs
    · cases hs
      unfold RowKept analysisAt setFunc FuncDb.setAnalysis
      dsimp only
      rw [FuncDb.lookup_updateFunctions,if_neg hk]
      exact ⟨rfl,id⟩
    · cases hs
  | record k dbWritten nodeWritten =>
    simp only [step] at hs
    split at hs
    · cases hs
      cases dbWritten with
      | false => exact .of_db rfl
      | true =>
        refine ⟨column_updateFunctions s.db k ?_ h,
          (isSome_updateFunctions s.db k _ ?_ h).trans⟩ <;> exact fun _ => rfl
    · cases hs
  | deleteFunction k =>
    have hk : h ≠ k := fun heq => hdelete (by rw [heq])
    simp only [step] at hs
    split at hs
    · cases hs
      unfold RowKept analysisAt FuncDb.deleteFunction
      dsimp only
      rw [KeyedTable.lookup_deleteWhere_of_ne _ hk]
      exact ⟨rfl,id⟩
    · cases hs
  | beside w =>
    obtain ⟨hw,rfl⟩ := guarded hs
    exact ⟨column_beside (fun _ _ _ _ _ _ _ => rfl) (fun _ _ _ _ _ _ _ => rfl) (fun _ _ => rfl)
      (fun _ _ => rfl) py hw h,isSome_beside hw⟩
  | enter k | answered k x | callFailed k | storeFailed k | saved k ok | judged k passed
  | dies k | mark k written =>
    simp only [step] at hs
    split at hs <;> (try split at hs) <;> cases hs <;> exact .of_db rfl
  | test k =>
    obtain ⟨f,-,rfl⟩ := Option.map_eq_some_iff.mp hs
    exact .of_db rfl
  | ccStart | ccBuild edges | ccSet =>
    obtain ⟨-,rfl⟩ := guarded hs
    exact .of_db rfl
  | ccFails p =>
    obtain ⟨-,rfl⟩ := guarded hs
    cases p <;> exact .of_db rfl
  | quickPath k rowRead callersRead =>
    simp only [step] at hs
    split at hs
    · obtain ⟨-,rfl⟩ := guarded hs
      exact .of_db rfl
    · cases hs
  | cancel =>
    cases hs
    exact .of_db rfl

/-! ## Rounds -/

/-- The phases between an answer and its record. -/
def Phase.holdsAnswer : Phase → Bool
  | .storing _ _ | .recording _ => true
  | _ => false

theorem plain_holds {p : Phase} (hp : p.isPlain = true) : p.holdsAnswer = false := by
  cases p with
  | storing | recording => cases hp
  | _ => rfl

theorem test_holds {cancel : Bool} {f f' : FuncR3} (ht : test cfg cancel f = some f') :
    f'.phase.holdsAnswer = false := by
  unfold test at ht
  split at ht
  · split at ht <;> cases ht
    · rfl
    · exact plain_holds (exitW_plain cancel _ f).1
  · split at ht <;> cases ht <;> rfl
  · split at ht <;> cases ht <;> rfl
  · cases ht

theorem setFunc_funcs (s : Sys) (k h : String) (f : FuncR3) :
    (setFunc s k f).funcs h = s.funcs h ∨ k = h ∧ (setFunc s k f).funcs h = f := by
  unfold setFunc
  dsimp only
  by_cases hk : h = k
  · rw [hk,Function.update_self]
    exact Or.inr ⟨rfl,rfl⟩
  · rw [Function.update_of_ne hk]
    exact Or.inl rfl

theorem setFunc_holds (s : Sys) (k h : String) {f : FuncR3} (hf : f.phase.holdsAnswer = false) :
    (setFunc s k f).funcs h = s.funcs h ∨ ((setFunc s k f).funcs h).phase.holdsAnswer = false := by
  rcases setFunc_funcs s k h f with heq | ⟨-,heq⟩
  · exact Or.inl heq
  · exact Or.inr (by rw [heq]; exact hf)

/-- A function comes to hold an answer by an answer alone. -/
theorem step_holds (hs : step py cfg s a = some u) (hanswer : ∀ x, a ≠ .answered h x)
    (hstore : ∀ role confidence, a ≠ .store h role confidence) :
    u.funcs h = s.funcs h ∨ (u.funcs h).phase.holdsAnswer = false := by
  cases a with
  | answered k x =>
    simp only [step] at hs
    split at hs
    · cases hs
      rcases setFunc_funcs s k h (answer py (s.funcs k) _ x) with heq | ⟨hk,-⟩
      · exact Or.inl heq
      · exact absurd (by rw [hk]) (hanswer x)
    · cases hs
  | store k role confidence =>
    simp only [step] at hs
    split at hs
    · cases hs
      rcases setFunc_funcs s k h { s.funcs k with phase := .recording _ } with heq | ⟨hk,-⟩
      · exact Or.inl heq
      · exact absurd (by rw [hk]) (hstore role confidence)
    · cases hs
  | enter k =>
    simp only [step] at hs
    split at hs
    · cases hs
      refine setFunc_holds s k h ?_
      split_ifs
      · rfl
      · exact plain_holds (afterW_plain s.cancel _).1
      · rfl
    · cases hs
  | test k =>
    obtain ⟨f,hf,rfl⟩ := Option.map_eq_some_iff.mp hs
    exact setFunc_holds s k h (test_holds hf)
  | mark k written =>
    simp only [step] at hs
    split at hs
    · split at hs <;> cases hs
      · exact setFunc_holds s k h rfl
      · exact setFunc_holds s k h rfl
    · cases hs
  | callFailed k | storeFailed k | record k dbWritten nodeWritten =>
    simp only [step] at hs
    split at hs
    · cases hs
      exact setFunc_holds s k h rfl
    · cases hs
  | saved k ok =>
    simp only [step] at hs
    split at hs
    · split at hs <;> cases hs
      · exact setFunc_holds s k h (plain_holds (exitW_plain s.cancel _ _).1)
      · exact setFunc_holds s k h rfl
    · cases hs
  | judged k passed =>
    simp only [step] at hs
    split at hs
    · split at hs <;> cases hs <;> exact setFunc_holds s k h rfl
    · cases hs
  | dies k =>
    simp only [step] at hs
    split at hs
    · cases hs
    · cases hs
      exact setFunc_holds s k h rfl
  | deleteFunction k =>
    simp only [step] at hs
    split at hs
    · cases hs
      exact Or.inl rfl
    · cases hs
  | beside | ccStart | ccBuild | ccSet =>
    obtain ⟨-,rfl⟩ := guarded hs
    exact Or.inl rfl
  | ccFails p =>
    obtain ⟨-,rfl⟩ := guarded hs
    cases p <;> exact Or.inl rfl
  | quickPath k rowRead callersRead =>
    simp only [step] at hs
    split at hs
    · obtain ⟨-,rfl⟩ := guarded hs
      exact Or.inl rfl
    · cases hs
  | cancel =>
    cases hs
    exact Or.inl rfl

/-- What the answer has made of the two fields of the function. -/
def Round.Merged (py : PyRuntime) (r : Round) (f : FuncR3) : Prop :=
  f.hasExternalInput = inputOf r.answer ∧ f.r4Decision = decisionAfter py r.old r.answer

/-- The analysis in the row once the answer is stored, or is not to be stored. -/
def Round.Written (py : PyRuntime) (r : Round) (stored : Option PyJson) : Prop :=
  match r.answer with
  | .parsed analysis =>
    if keeps py (.parsed analysis) then
      if r.found then IsAnalysisOf (.parsed analysis) stored else stored = none
    else stored = r.stored
  | .unparsed _ => stored = r.stored

/-- What is known between an answer and its record. -/
def Known (py : PyRuntime) (h : String) (last : Option Round) (s : Sys) : Prop :=
  match (s.funcs h).phase with
  | .storing _ analysis => ∃ r, last = some r ∧ r.answer = .parsed analysis ∧
      keeps py r.answer = true ∧ r.Merged py (s.funcs h)
  | .recording _ => ∃ r, last = some r ∧ r.Merged py (s.funcs h) ∧ r.Written py (analysisAt s h)
  | _ => True

theorem Known.of_holds {last : Option Round} (hp : (s.funcs h).phase.holdsAnswer = false) :
    Known py h last s := by
  unfold Known
  split
  · rename_i heq
    rw [heq] at hp
    cases hp
  · rename_i heq
    rw [heq] at hp
    cases hp
  · trivial

theorem Known.congr {last : Option Round} (hk : Known py h last s) (hf : u.funcs h = s.funcs h)
    (hrow : analysisAt u h = analysisAt s h) : Known py h last u := by
  unfold Known at hk ⊢
  rw [hf,hrow]
  exact hk

theorem known_answered (s : Sys) (h : String) (again : Bool) (x : Answer) :
    Known py h (some { old := (s.funcs h).r4Decision, answer := x, stored := analysisAt s h })
      (setFunc s h (answer py (s.funcs h) again x)) := by
  have hf : (setFunc s h (answer py (s.funcs h) again x)).funcs h =
      answer py (s.funcs h) again x := Function.update_self ..
  have hrow : analysisAt (setFunc s h (answer py (s.funcs h) again x)) h = analysisAt s h := rfl
  unfold Known
  rw [hf,hrow]
  cases x with
  | parsed analysis =>
    by_cases hkeep : keeps py (.parsed analysis) = true
    · have hphase : (answer py (s.funcs h) again (.parsed analysis)).phase =
          .storing again analysis := if_pos hkeep
      rw [hphase]
      exact ⟨_,rfl,rfl,hkeep,rfl,rfl⟩
    · have hphase : (answer py (s.funcs h) again (.parsed analysis)).phase =
          .recording again := if_neg hkeep
      rw [hphase]
      refine ⟨_,rfl,⟨rfl,rfl⟩,?_⟩
      unfold Round.Written
      dsimp only
      rw [if_neg hkeep]
  | unparsed input => exact ⟨_,rfl,⟨rfl,rfl⟩,rfl⟩

theorem known_stored {last : Option Round} {again : Bool} {analysis : List (String × PyJson)}
    (hk : Known py h last s) (hp : (s.funcs h).phase = .storing again analysis)
    (role : Option PyJson) (confidence : PyFloat) :
    Known py h (last.map fun r => { r with found := (s.db.functions.lookup h).isSome })
      { setFunc s h { s.funcs h with phase := .recording again } with
        db := s.db.setAnalysis py h
          ((role.map (PyDict.set analysis "entry_role")).getD analysis) confidence } := by
  unfold Known at hk
  rw [hp] at hk
  obtain ⟨r,rfl,hanswer,hkeep,hmerged⟩ := hk
  have hf : (setFunc s h { s.funcs h with phase := .recording again }).funcs h =
      { s.funcs h with phase := .recording again } := Function.update_self ..
  unfold Known
  dsimp only
  rw [hf]
  refine ⟨_,rfl,hmerged,?_⟩
  unfold Round.Written
  dsimp only
  rw [hanswer] at hkeep ⊢
  dsimp only
  rw [if_pos hkeep]
  unfold analysisAt FuncDb.setAnalysis
  dsimp only
  rw [FuncDb.lookup_updateFunctions,if_pos rfl]
  cases hl : s.db.functions.lookup h with
  | none => rfl
  | some row => exact ⟨role,rfl⟩

theorem known_step {last : Option Round} (hk : Known py h last s)
    (hs : step py cfg s a = some u) : Known py h (observeRound h last ⟨s,a,u⟩) u := by
  by_cases hanswer : ∃ x, a = .answered h x
  · obtain ⟨x,rfl⟩ := hanswer
    simp only [step] at hs
    split at hs
    · cases hs
      unfold observeRound
      dsimp only
      rw [if_pos rfl]
      exact known_answered s h _ x
    · cases hs
  · by_cases hstore : ∃ role confidence, a = .store h role confidence
    · obtain ⟨role,confidence,rfl⟩ := hstore
      simp only [step] at hs
      split at hs
      · rename_i again analysis hp
        cases hs
        unfold observeRound
        dsimp only
        rw [if_pos rfl]
        exact known_stored hk hp role confidence
      · cases hs
    · have hanswer : ∀ x, a ≠ .answered h x := fun x hx => hanswer ⟨x,hx⟩
      have hstore : ∀ role confidence, a ≠ .store h role confidence :=
        fun role confidence hx => hstore ⟨role,confidence,hx⟩
      have hlast : observeRound h last ⟨s,a,u⟩ = last := by
        unfold observeRound
        dsimp only
        split
        · exact if_neg fun hk => hanswer _ (by rw [hk])
        · exact if_neg fun hk => hstore _ _ (by rw [hk])
        · rfl
      rw [hlast]
      rcases step_holds hs hanswer hstore with hf | hf
      · by_cases hdelete : a = .deleteFunction h
        · subst hdelete
          simp only [step] at hs
          split at hs
          · rename_i hp
            exact Known.of_holds (by rw [hf,hp]; rfl)
          · cases hs
        · exact hk.congr hf (row_step hs hstore hdelete).1
      · exact Known.of_holds hf

/-! ## Records -/

theorem decisionAfter_kept {old : Option Decision} {analysis : List (String × PyJson)}
    (hkeep : keeps py (.parsed analysis) = true) :
    decisionAfter py old (.parsed analysis) = some .keep ↔
      decisionText py analysis = "keep" ∨ old = some .keep := by
  unfold keeps at hkeep
  simp only [Bool.and_eq_true,bne_iff_ne] at hkeep
  unfold decisionAfter
  dsimp only
  rw [if_pos hkeep.1,if_neg hkeep.2]
  by_cases htext : decisionText py analysis = "keep"
  · rw [if_pos htext]
    exact iff_of_true rfl (Or.inl htext)
  · rw [if_neg htext]
    exact ⟨Or.inr,fun h => h.resolve_left htext⟩

theorem decisionAfter_filtered {old : Option Decision} {analysis : List (String × PyJson)}
    (hkeep : ¬keeps py (.parsed analysis) = true) :
    decisionAfter py old (.parsed analysis) = some .filter := by
  unfold keeps at hkeep
  simp only [Bool.and_eq_true,bne_iff_ne,not_and,not_not] at hkeep
  unfold decisionAfter
  dsimp only
  by_cases hinput : hasInput analysis = true
  · rw [if_pos hinput,if_pos (hkeep hinput)]
  · rw [if_neg hinput]

theorem decided_iff {r : Round} {stored : Option PyJson} (hw : r.Written py stored) :
    decisionAfter py r.old r.answer = some (expected py r.answer) ∧
      IsAnalysisOf r.answer stored ↔ r.Decided py := by
  unfold Round.Written at hw
  unfold Round.Decided
  cases hanswer : r.answer with
  | parsed analysis =>
    rw [hanswer] at hw
    dsimp only at hw ⊢
    by_cases hkeep : keeps py (.parsed analysis) = true
    · rw [if_pos hkeep] at hw ⊢
      rw [expected,if_pos hkeep,decisionAfter_kept hkeep]
      by_cases hfound : r.found = true
      · rw [if_pos hfound] at hw
        tauto
      · rw [if_neg hfound] at hw
        have hnot : ¬IsAnalysisOf (.parsed analysis) stored := by
          rw [hw]
          rintro ⟨role,hrole⟩
          cases hrole
        tauto
    · rw [if_neg hkeep] at hw ⊢
      rw [expected,if_neg hkeep,decisionAfter_filtered hkeep,hw]
      simp
  | unparsed input =>
    rw [hanswer] at hw
    dsimp only at hw ⊢
    unfold decisionAfter expected keeps IsAnalysisOf
    rw [hw]
    cases input with
    | true => simp [and_comm]
    | false =>
      cases hold : r.old with
      | none => simp
      | some d => cases d <;> simp

end Rows

/-- The decision comes to stand in the row: it is written to a row that is there, or it stands there
and the write fails. -/
def RowDecides (py : PyRuntime) (s : Sys) (h : String) (dbWritten : Bool) (a : Answer) : Prop :=
  if dbWritten then (s.db.functions.lookup h).isSome = true
  else decision s.db h = some (expected py a).text

/-- In every run, what a record of R3-W leaves is that of the last answer iff the answer decides
by itself or with what it found, and the row takes the decision. -/
theorem record_consistent_iff {py : PyRuntime} {cfg : Config} {s t u : Sys} {h : String}
    {tr : List (Event Sys Act)} {dbWritten nodeWritten : Bool}
    (hstart : (s.funcs h).phase.holdsAnswer = false) (hr : Run (step py cfg) s tr t)
    (hs : step py cfg t (.record h dbWritten nodeWritten) = some u) :
    ∃ r, watch (observeRound h) none tr = some r ∧
      (Consistent py u h r.answer ↔ r.Decided py ∧ RowDecides py t h dbWritten r.answer) := by
  have hknown : Known py h (watch (observeRound h) none tr) t :=
    hr.invariant (J := fun tr s => Known py h (watch (observeRound h) none tr) s)
      (along_forall.mpr fun _ _ => trivial) (.of_holds hstart)
      fun tr s a v hk _ hs => known_step hk hs
  simp only [step] at hs
  split at hs
  · rename_i again hp
    unfold Known at hknown
    rw [hp] at hknown
    obtain ⟨r,hlast,hmerged,hwritten⟩ := hknown
    refine ⟨r,hlast,?_⟩
    have hf : u.funcs h = { t.funcs h with r3WState := .passed, phase := .saving again } := by
      cases hs
      exact Function.update_self ..
    have hdb : u.db = if dbWritten then t.db.updateR3Decision h (finalDecision (t.funcs h)).text
        else t.db := by
      cases hs
      rfl
    have hrow : analysisAt u h = analysisAt t h := by
      unfold analysisAt
      rw [hdb]
      split
      · refine column_updateFunctions t.db h ?_ h
        exact fun _ => rfl
      · rfl
    have hdecision : decisionAfter py r.old r.answer = some (expected py r.answer) →
        (decision u.db h = some (expected py r.answer).text ↔
          RowDecides py t h dbWritten r.answer) := by
      intro hafter
      rw [hdb]
      unfold RowDecides
      cases dbWritten with
      | false => exact Iff.rfl
      | true =>
        have hfinal : finalDecision (t.funcs h) = expected py r.answer := by
          rw [finalDecision,hmerged.2,hafter]
          rfl
        rw [if_pos rfl,if_pos rfl,hfinal]
        constructor
        · intro hd
          unfold decision FuncDb.updateR3Decision at hd
          rw [FuncDb.lookup_updateFunctions,if_pos rfl] at hd
          cases hl : t.db.functions.lookup h with
          | none =>
            rw [hl] at hd
            cases hd
          | some row => rfl
        · intro hsome
          rw [decision_updateR3Decision hsome,if_pos rfl]
    rw [← decided_iff hwritten]
    constructor
    · rintro ⟨-,hstate,hd,hanalysis⟩
      rw [hf] at hstate
      rw [hrow] at hanalysis
      have hafter := hmerged.2.symm.trans hstate
      exact ⟨⟨hafter,hanalysis⟩,(hdecision hafter).mp hd⟩
    · rintro ⟨⟨hafter,hanalysis⟩,hd⟩
      refine ⟨?_,?_,(hdecision hafter).mpr hd,?_⟩
      · rw [hf]
        exact hmerged.1
      · rw [hf]
        exact hmerged.2.trans hafter
      · rw [hrow]
        exact hanalysis
  · cases hs

/-- The answer says keep, and its analysis has a row. -/
def Round.saysKeep (py : PyRuntime) (r : Round) : Bool :=
  match r.answer with
  | .parsed analysis =>
    r.found && keeps py (.parsed analysis) && decisionText py analysis == "keep"
  | .unparsed _ => false

theorem Round.saysKeep_decided {py : PyRuntime} {r : Round} (h : r.saysKeep py = true) :
    r.Decided py := by
  unfold saysKeep at h
  unfold Decided
  split at h
  · rename_i analysis hanswer
    simp only [Bool.and_eq_true,beq_iff_eq] at h
    rw [if_pos h.1.2]
    exact ⟨h.1.1,Or.inl h.2⟩
  · cases h

/-- An answer that says keep is recorded as it is. -/
theorem kept_answer_recorded : ∃ tr t u r, Run (step plainRuntime ⟨-1,-1⟩) {} tr t ∧
    step plainRuntime ⟨-1,-1⟩ t (.record "a" true true) = some u ∧
    watch (observeRound "a") none tr = some r ∧ Consistent plainRuntime u "a" r.answer := by
  obtain ⟨tr,t,hr,hp⟩ := exists_run_of_replay (step plainRuntime ⟨-1,-1⟩) {}
    (registered ++ (judgedKeep "a").take 5)
    (p := fun tr t => (step plainRuntime ⟨-1,-1⟩ t (.record "a" true true)).isSome &&
      (watch (observeRound "a") none tr).all (Round.saysKeep plainRuntime) &&
      (t.db.functions.lookup "a").isSome) (by decide +kernel)
  simp only [Bool.and_eq_true] at hp
  obtain ⟨⟨hstep,hkeep⟩,hrow⟩ := hp
  obtain ⟨u,hu⟩ := Option.isSome_iff_exists.mp hstep
  obtain ⟨r,hlast,hiff⟩ := record_consistent_iff rfl hr hu
  rw [hlast,Option.all_some] at hkeep
  exact ⟨tr,t,u,r,hr,hu,hlast,hiff.mpr ⟨Round.saysKeep_decided hkeep,hrow⟩⟩

/-- A call of R3-W that gives one answer, up to its record. -/
def answeredBy (a : Answer) : List Act :=
  [.test "a",.mark "a" true,.answered "a" a] ++
    match a with
    | .parsed _ => [.store "a" none (.finite 1)]
    | .unparsed _ => []

/-- The acts are a run to a record that is not that of the last answer. -/
def Misrecorded (acts : List Act) : Prop :=
  ∃ tr t u r, replay (step plainRuntime ⟨-1,-1⟩) [] {} acts = some (tr,t) ∧
    Run (step plainRuntime ⟨-1,-1⟩) {} tr t ∧
    step plainRuntime ⟨-1,-1⟩ t (.record "a" true true) = some u ∧
    watch (observeRound "a") none tr = some r ∧ ¬Consistent plainRuntime u "a" r.answer

/-- The record would write another decision than the answer's. -/
def writesOther (tr : List (Event Sys Act)) (t : Sys) : Bool :=
  match step plainRuntime ⟨-1,-1⟩ t (.record "a" true true),watch (observeRound "a") none tr with
  | some u,some r => decision u.db "a" != some (expected plainRuntime r.answer).text
  | _,_ => false

theorem misrecorded_of_replay {acts : List Act}
    (h : (replay (step plainRuntime ⟨-1,-1⟩) [] {} acts).any (fun p => writesOther p.1 p.2) =
      true) : Misrecorded acts := by
  cases hp : replay (step plainRuntime ⟨-1,-1⟩) [] {} acts with
  | none =>
    rw [hp] at h
    cases h
  | some p =>
    rw [hp,Option.any_some] at h
    unfold writesOther at h
    split at h
    · rename_i u r hu hr
      refine ⟨p.1,p.2,u,r,hp,replay_run .refl hp,hu,hr,fun hc => ?_⟩
      rw [hc.row] at h
      simp at h
    · cases h

/-- An answer with input and no decision. -/
def undecided : Answer := .parsed [("has_external_input",.bool true)]

def saidKeep : Answer := .parsed [("decision",.str "keep")]

/-- An answer without a decision is filtered, though its analysis is stored as that of an entry; and
a text without input is kept after an earlier answer that said keep and was rejected. -/
theorem answers_misrecorded :
    Misrecorded (registered ++ .enter "a" :: answeredBy undecided) ∧
    Misrecorded (registered ++ .enter "a" :: answeredBy saidKeep ++
      [.record "a" true true,.saved "a" true,.test "a",.judged "a" false] ++
      answeredBy (.unparsed false)) := by
  constructor
  · apply misrecorded_of_replay
    decide +kernel
  · apply misrecorded_of_replay
    decide +kernel

end R3WriteBack
end EntryAnalyse
