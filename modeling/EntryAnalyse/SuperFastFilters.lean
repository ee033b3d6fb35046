import EntryAnalyse.R4Loop
import EntryAnalyse.Runs

/-! The filters of the super-fast mode. A function passes from queue to queue through four
stages, and every stage judges it; the output is read from the columns `r3_decision` and
`r4_decision`. The first filter alone writes the column `r3_decision`, so what the later ones
reject stays listed, and what passes the first one because its call raised is never listed. -/
namespace EntryAnalyse
namespace SuperFast

open PyJson R4Loop Runs

/-! ## The processors -/

/-- `(func_hash, file_hash, file_path)`. -/
structure Item where
  funcHash : String
  fileHash : String
  filePath : String
  deriving DecidableEq

/-- A registered function, with the fields of `FunctionState` that the stages use. -/
structure SqFunc where
  funcHash : String
  fileHash : String
  hasExternalInput : Option Bool
  entryRole : Option String
  r4 : FuncState

structure Store where
  db : FuncDb
  funcs : KeyedTable SqFunc.funcHash

inductive Stage
  | apiFilter | phase1 | r3 | r4
  deriving DecidableEq

def Stage.next : Stage → Option Stage
  | .apiFilter => some .phase1
  | .phase1 => some .r3
  | .r3 => some .r4
  | .r4 => none

/-- A call of a processor with the answer it gets; `none` says that the call for the answer
raised. A write to the database fails for the functions in `writeFails`. -/
inductive Call
  | apiFilter (keepHashes : Option (List String)) (writeFails : String → Bool)
  | phase1 (keepHashes : Option (List String))
  | r3 (analyses : Option (List PyJson)) (writeFails : String → Bool)
  | r4 (worker : WorkerRound)

def Call.stage : Call → Stage
  | .apiFilter _ _ => .apiFilter
  | .phase1 _ => .phase1
  | .r3 _ _ => .r3
  | .r4 _ => .r4

section Processors

variable (py : PyRuntime) (cfg : Config) (confidence : List (String × PyJson) → PyFloat)

/-- `fs and fh in fs.functions`. -/
def registered (s : Store) (x : Item) : Bool :=
  (s.funcs.lookup x.funcHash).any (fun f => f.fileHash == x.fileHash)

def updateFunc (s : Store) (x : Item) (g : SqFunc → SqFunc) (hg : ∀ f, (g f).funcHash = f.funcHash) :
    Store :=
  { s with
    funcs := s.funcs.updateWhere
      (fun f => f.funcHash == x.funcHash && f.fileHash == x.fileHash) g hg }

/-- What `_sq_api_filter_processor` writes for a function. -/
def writeFastResult (keep : List String) (writeFails : String → Bool) (s : Store) (x : Item) :
    Store :=
  if writeFails x.funcHash then s
  else if keep.contains x.funcHash then { s with db := s.db.setFastModeResult x.funcHash "keep" 1 }
  else { s with db := s.db.setFastModeResult x.funcHash "filter" 0 }

/-- `_sq_api_filter_processor`. -/
def apiFilterProcessor (s : Store) (batch : List Item) (keepHashes : Option (List String))
    (writeFails : String → Bool) : Store × List Item :=
  if (batch.filter (registered s)).isEmpty then (s,[])
  else
    match keepHashes with
    | none => (s,batch)
    | some keep =>
      (batch.foldl (writeFastResult keep writeFails) s,
       batch.filter (fun x => keep.contains x.funcHash))

/-- What `_sq_phase1_processor` notes about a function that it keeps. -/
def noteKept (s : Store) (x : Item) : Store :=
  updateFunc s x (fun f =>
    { f with r4 := { f.r4 with r4Decision := "keep" }, hasExternalInput := some true })
    (fun _ => rfl)

/-- `_sq_phase1_processor`. -/
def phase1Processor (s : Store) (batch : List Item) (keepHashes : Option (List String)) :
    Store × List Item :=
  match keepHashes with
  | none => (s,batch)
  | some keep =>
    let kept := batch.filter (fun x => keep.contains x.funcHash)
    (kept.foldl noteKept s,kept)

/-- `amap.get(fh, {})`: the last analysis with this hash. -/
def analysisFor (analyses : List PyJson) (h : String) : List (String × PyJson) :=
  ((analyses.filterMap (fun
    | .dict a => if py.str (field a "func_hash") = h then some a else none
    | _ => none)).getLast?).getD []

def hasTaints (analyses : List PyJson) (h : String) : Bool :=
  (field (analysisFor py analyses h) "taints").truthy

/-- The dictionary that is given to `set_analysis`. -/
def taintAnalysis (a : List (String × PyJson)) : List (String × PyJson) :=
  [("has_external_input",.bool true),("decision",.str "keep"),("tag",field a "tag"),
   ("entry_role",field a "entry_role"),("taints",field a "taints"),
   ("function_description",field a "function_description"),("entry_reason",field a "entry_reason")]

/-- What `_sq_r3_processor` does with a function that has taints. -/
def storeTaints (analyses : List PyJson) (writeFails : String → Bool) (s : Store) (x : Item) :
    Store :=
  if registered s x then
    let a := analysisFor py analyses x.funcHash
    let role := py.text (field a "entry_role")
    let s := updateFunc s x (fun f => { f with entryRole := if role = "" then none else some role })
      (fun _ => rfl)
    if writeFails x.funcHash then s
    else
      { s with
        db := s.db.setAnalysis py x.funcHash (taintAnalysis a) (confidence (taintAnalysis a)) }
  else s

/-- `_sq_r3_processor`. -/
def r3Processor (s : Store) (batch : List Item) (analyses : Option (List PyJson))
    (writeFails : String → Bool) : Store × List Item :=
  match analyses with
  | none => (s,batch)
  | some as =>
    let kept := batch.filter (fun x => hasTaints py as x.funcHash)
    (kept.foldl (storeTaints py confidence as writeFails) s,kept)

/-- `_sq_r4_processor`, which has the worker judge the function once. -/
def r4Processor (s : Store) (x : Item) (w : WorkerRound) : Store :=
  match s.funcs.lookup x.funcHash with
  | none => s
  | some f =>
    let t := (runR4ForFunc py cfg x.funcHash ⟨f.r4,s.db⟩ w).1
    { db := t.db
      funcs := s.funcs.updateWhere (fun g => g.funcHash == x.funcHash)
        (fun g => { g with r4 := t.func }) (fun _ => rfl) }

def process (s : Store) (batch : List Item) : Call → Store × List Item
  | .apiFilter keep fails => apiFilterProcessor s batch keep fails
  | .phase1 keep => phase1Processor s batch keep
  | .r3 analyses fails => r3Processor py confidence s batch analyses fails
  | .r4 w => (batch.foldl (fun s x => r4Processor py cfg s x w) s,[])

/-! ## The queues -/

structure Sys where
  store : Store
  queue : Stage → List Item

/-- A worker takes a batch from the queue of its stage and hands it to the processor. -/
structure Act where
  batch : List Item
  call : Call

/-- The items of the batch leave their queue, and the results enter the next one. R4 takes its
items one by one. -/
def step (s : Sys) (a : Act) : Option Sys :=
  let stage := a.call.stage
  if a.batch ≠ [] ∧ a.batch.Nodup ∧ (∀ x ∈ a.batch, x ∈ s.queue stage) ∧
      (stage = .r4 → a.batch.length = 1) then
    let out := process py cfg confidence s.store a.batch a.call
    some {
      store := out.1
      queue := fun k =>
        if k = stage then (s.queue k).diff a.batch
        else if stage.next = some k then s.queue k ++ out.2
        else s.queue k }
  else none

end Processors

/-! ## What the calls say about a function -/

section Answers

variable (py : PyRuntime) (cfg : Config) (h : String)

/-- The worker of R4 is asked at all. -/
def asksR4 : Bool := shouldContinue 0 cfg.r4FuncMaxRounds false

/-- The stage keeps the function: its call said so, or it raised. -/
def keeps : Call → Bool
  | .apiFilter keep _ => keep.all (fun ks => ks.contains h)
  | .phase1 keep => keep.all (fun ks => ks.contains h)
  | .r3 analyses _ => analyses.all (fun as => hasTaints py as h)
  | .r4 w => !asksR4 cfg || crashes w || storedAnswer py w == some "keep"

/-- The call that handled the function at each stage. -/
abbrev Fate := Stage → Option Call

def keptAt (calls : Fate) (k : Stage) : Bool := (calls k).any (keeps py cfg h)

/-- Every stage keeps the function. -/
def survives (calls : Fate) : Bool :=
  keptAt py cfg h calls .apiFilter && keptAt py cfg h calls .phase1 &&
    keptAt py cfg h calls .r3 && keptAt py cfg h calls .r4

/-- What a call of the first filter leaves in the column `r3_decision`. -/
def r3Column : Option Call → Option String
  | some (.apiFilter (some keep) fails) =>
    if fails h then none else if keep.contains h then some "keep" else some "filter"
  | _ => none

/-- What a call of R4 leaves in the column `r4_decision`. -/
def r4Column : Option Call → Option String
  | some (.r4 w) => if asksR4 cfg then writtenAnswer py w else none
  | _ => none

/-- An observer of one function notes the call that handles it at each stage. -/
def note (calls : Fate) (e : Event Sys Act) : Fate :=
  if e.act.batch.any (fun x => x.funcHash == h) then
    Function.update calls e.act.call.stage (some e.act.call)
  else calls

def fate (tr : List (Event Sys Act)) : Fate := watch (note h) (fun _ => none) tr

end Answers

/-! ## What a call does to one function -/

section Effects

variable (py : PyRuntime) (cfg : Config) (confidence : List (String × PyJson) → PyFloat)

/-- The columns of the function that `get_keep_entries` looks at. -/
def rowView (h : String) (s : Store) : Option (Option String × Option String × Option String) :=
  (s.db.functions.lookup h).map (fun r => (r.r3Decision,r.r4Decision,r.entryCategory))

/-- The fields of the function that decide what R4 does with it. -/
def funcView (h : String) (s : Store) : Option (String × NodeState × ℕ) :=
  (s.funcs.lookup h).map (fun f => (f.fileHash,f.r4.r4State,f.r4.r4Attempts))

def view (h : String) (s : Store) := (rowView h s,funcView h s)

/-- The part of a call that concerns one function of the batch. -/
def handle (call : Call) (s : Store) (x : Item) : Store :=
  match call with
  | .apiFilter (some keep) fails => writeFastResult keep fails s x
  | .apiFilter none _ => s
  | .phase1 (some keep) => if keep.contains x.funcHash then noteKept s x else s
  | .phase1 none => s
  | .r3 (some as) fails =>
    if hasTaints py as x.funcHash then storeTaints py confidence as fails s x else s
  | .r3 none _ => s
  | .r4 w => r4Processor py cfg s x w

theorem process_store {s : Store} {batch : List Item} (call : Call)
    (hreg : ∃ x ∈ batch, registered s x) :
    (process py cfg confidence s batch call).1 =
      batch.foldl (handle py cfg confidence call) s := by
  cases call with
  | apiFilter keep fails =>
    have hne : (batch.filter (registered s)).isEmpty = false := by
      obtain ⟨x,hx,hr⟩ := hreg
      exact List.isEmpty_eq_false_iff_exists_mem.mpr ⟨x,List.mem_filter.mpr ⟨hx,hr⟩⟩
    cases keep with
    | none =>
      simp only [process,apiFilterProcessor,hne]
      exact (List.foldl_fixed batch).symm
    | some keep =>
      simp only [process,apiFilterProcessor,hne]
      rfl
  | phase1 keep =>
    cases keep with
    | none => exact (List.foldl_fixed batch).symm
    | some keep =>
      simp only [process,phase1Processor,List.foldl_filter]
      rfl
  | r3 analyses fails =>
    cases analyses with
    | none => exact (List.foldl_fixed batch).symm
    | some as =>
      simp only [process,r3Processor,List.foldl_filter]
      rfl
  | r4 w => rfl

/-- The results are the functions that the call keeps. -/
theorem process_results {s : Store} {batch : List Item} {call : Call}
    (hreg : ∃ x ∈ batch, registered s x) (hr4 : call.stage ≠ .r4) :
    (process py cfg confidence s batch call).2 =
      batch.filter (fun x => keeps py cfg x.funcHash call) := by
  cases call with
  | apiFilter keep fails =>
    have hne : (batch.filter (registered s)).isEmpty = false := by
      obtain ⟨x,hx,hr⟩ := hreg
      exact List.isEmpty_eq_false_iff_exists_mem.mpr ⟨x,List.mem_filter.mpr ⟨hx,hr⟩⟩
    cases keep with
    | none => simp [process,apiFilterProcessor,hne,keeps]
    | some keep => simp [process,apiFilterProcessor,hne,keeps]
  | phase1 keep =>
    cases keep with
    | none => simp [process,phase1Processor,keeps]
    | some keep => simp [process,phase1Processor,keeps]
  | r3 analyses fails =>
    cases analyses with
    | none => simp [process,r3Processor,keeps]
    | some as => simp [process,r3Processor,keeps]
  | r4 w => simp [Call.stage] at hr4

theorem view_updateFunc (h : String) (s : Store) (x : Item) (g : SqFunc → SqFunc)
    (hg : ∀ f, (g f).funcHash = f.funcHash)
    (hsame : ∀ f, ((g f).fileHash,(g f).r4.r4State,(g f).r4.r4Attempts) =
      (f.fileHash,f.r4.r4State,f.r4.r4Attempts)) :
    view h (updateFunc s x g hg) = view h s := by
  refine Prod.ext rfl ?_
  simp only [view,funcView,updateFunc,KeyedTable.lookup_updateWhere,Option.map_map]
  congr 1
  funext f
  simp only [Function.comp_apply]
  split
  · exact hsame f
  · rfl

theorem view_noteKept (h : String) (s : Store) (x : Item) : view h (noteKept s x) = view h s :=
  view_updateFunc h s x _ _ (fun _ => rfl)

theorem view_setAnalysis (h k : String) (s : Store) (a : List (String × PyJson)) (c : PyFloat) :
    view h { s with db := s.db.setAnalysis py k a c } = view h s := by
  refine Prod.ext ?_ rfl
  simp only [view,rowView,FuncDb.setAnalysis,FuncDb.lookup_updateFunctions]
  split
  · rw [Option.map_map]
    rfl
  · rfl

theorem view_storeTaints (h : String) (as : List PyJson) (fails : String → Bool) (s : Store)
    (x : Item) : view h (storeTaints py confidence as fails s x) = view h s := by
  unfold storeTaints
  split
  · dsimp only
    split
    · exact view_updateFunc h s x _ _ (fun _ => rfl)
    · exact (view_setAnalysis py h _ _ _ _).trans (view_updateFunc h s x _ _ (fun _ => rfl))
  · rfl

/-- The first filter writes the column `r3_decision` of the function, unless the write fails. -/
theorem view_writeFastResult (h : String) (keep : List String) (fails : String → Bool) (s : Store)
    (x : Item) :
    view h (writeFastResult keep fails s x) =
      if x.funcHash = h then
        ((rowView h s).map (fun c => ((r3Column h (some (.apiFilter (some keep) fails))).or c.1,c.2)),
          funcView h s)
      else view h s := by
  by_cases hx : x.funcHash = h
  · subst hx
    rw [if_pos rfl]
    unfold writeFastResult
    refine Prod.ext ?_ ?_
    · split
      · rename_i hf
        simp [view,rowView,r3Column,hf,Function.comp_def]
      · rename_i hf
        split
        · rename_i hk
          have hk : x.funcHash ∈ keep := by simpa using hk
          simp only [view,rowView,FuncDb.setFastModeResult,FuncDb.lookup_updateFunctions,r3Column,hf]
          simp [Function.comp_def,hk]
        · rename_i hk
          have hk : x.funcHash ∉ keep := by simpa using hk
          simp only [view,rowView,FuncDb.setFastModeResult,FuncDb.lookup_updateFunctions,r3Column,hf]
          simp [Function.comp_def,hk]
    · split
      · rfl
      · split
        · rfl
        · rfl
  · have hx' : h ≠ x.funcHash := Ne.symm hx
    rw [if_neg hx]
    unfold writeFastResult
    split
    · rfl
    · split
      · simp [view,rowView,funcView,FuncDb.setFastModeResult,FuncDb.lookup_updateFunctions,hx']
      · simp [view,rowView,funcView,FuncDb.setFastModeResult,FuncDb.lookup_updateFunctions,hx']

theorem view_r4Processor_of_ne {h : String} {x : Item} (hx : x.funcHash ≠ h) (s : Store)
    (w : WorkerRound) : view h (r4Processor py cfg s x w) = view h s := by
  unfold r4Processor
  split
  · rfl
  · rename_i f hf
    refine Prod.ext ?_ ?_
    · simp only [view,rowView]
      rw [lookup_runR4ForFunc_of_ne py cfg x.funcHash (Ne.symm hx)]
    · simp only [view,funcView,KeyedTable.lookup_updateWhere]
      cases hg : s.funcs.lookup h with
      | none => rfl
      | some g =>
        have hk : g.funcHash = h := (KeyedTable.lookup_eq_some_iff.mp hg).2
        simp [hk,Ne.symm hx]

/-- R4 writes the column `r4_decision` of a function that it asks the worker about. -/
theorem view_r4Processor {s : Store} {x : Item} {fileHash : String} {st : NodeState}
    (hf : funcView x.funcHash s = some (fileHash,st,0)) (hst : st ≠ .passed) (w : WorkerRound) :
    rowView x.funcHash (r4Processor py cfg s x w) = (rowView x.funcHash s).map
        (fun c => (c.1,(r4Column py cfg (some (.r4 w))).or c.2.1,c.2.2)) ∧
      ∃ v, funcView x.funcHash (r4Processor py cfg s x w) = some (fileHash,v) := by
  obtain ⟨f,hlook,hview⟩ := Option.map_eq_some_iff.mp hf
  obtain ⟨hfile,hstate,hatt⟩ : f.fileHash = fileHash ∧ f.r4.r4State = st ∧ f.r4.r4Attempts = 0 := by
    simpa using hview
  have hgoes : goesOn cfg ⟨f.r4,s.db⟩ = asksR4 cfg := by simp [goesOn,asksR4,hstate,hatt,hst]
  have hk : f.funcHash = x.funcHash := (KeyedTable.lookup_eq_some_iff.mp hlook).2
  simp only [r4Processor,hlook]
  constructor
  · by_cases hasks : asksR4 cfg = true
    · have hdb := (runR4ForFunc_spec py cfg x.funcHash (hgoes.trans hasks) w).2.1
      simp only [rowView,hdb,r4Column,hasks,if_true]
      cases writtenAnswer py w with
      | none => simp [Function.comp_def]
      | some d =>
        simp [FuncDb.updateR4Decision,FuncDb.lookup_updateFunctions,Function.comp_def]
    · have hdb := runR4ForFunc_of_stop py cfg x.funcHash (s := ⟨f.r4,s.db⟩)
        (by simpa [hgoes] using hasks) w
      simp [rowView,hdb,r4Column,hasks,Function.comp_def]
  · simp [funcView,KeyedTable.lookup_updateWhere,hlook,hk,hfile]

/-- A call does not touch the functions that are not in its batch. -/
theorem view_handle_of_ne {h : String} {x : Item} (hx : x.funcHash ≠ h) (call : Call) (s : Store) :
    view h (handle py cfg confidence call s x) = view h s := by
  unfold handle
  split
  · rw [view_writeFastResult,if_neg hx]
  · rfl
  · split
    · exact view_noteKept h s x
    · rfl
  · rfl
  · split
    · exact view_storeTaints py confidence h _ _ s x
    · rfl
  · rfl
  · exact view_r4Processor_of_ne py cfg hx s _

/-- What a call leaves in the columns of a function that it handles. -/
theorem view_handle {s : Store} {x : Item} {fileHash : String} {st : NodeState} {n : ℕ}
    {call : Call} (hf : funcView x.funcHash s = some (fileHash,st,n))
    (hst : call.stage = .r4 → st ≠ .passed ∧ n = 0) :
    rowView x.funcHash (handle py cfg confidence call s x) = (rowView x.funcHash s).map
        (fun c => ((r3Column x.funcHash (some call)).or c.1,(r4Column py cfg (some call)).or c.2.1,
          c.2.2)) ∧
      ∃ v, funcView x.funcHash (handle py cfg confidence call s x) = some (fileHash,v) ∧
        (call.stage ≠ .r4 → v = (st,n)) := by
  have hsame : ∀ t, view x.funcHash t = view x.funcHash s →
      r3Column x.funcHash (some call) = none → r4Column py cfg (some call) = none →
      rowView x.funcHash t = (rowView x.funcHash s).map
        (fun c => ((r3Column x.funcHash (some call)).or c.1,(r4Column py cfg (some call)).or c.2.1,
          c.2.2)) ∧
      ∃ v, funcView x.funcHash t = some (fileHash,v) ∧ (call.stage ≠ .r4 → v = (st,n)) := by
    intro t ht h3 h4
    have hrow : rowView x.funcHash t = rowView x.funcHash s := congrArg Prod.fst ht
    have hfunc : funcView x.funcHash t = funcView x.funcHash s := congrArg Prod.snd ht
    have hid : (fun c : Option String × Option String × Option String => (c.1,c.2.1,c.2.2)) = id :=
      rfl
    refine ⟨?_,_,hfunc.trans hf,fun _ => rfl⟩
    simpa [h3,h4,hid] using hrow
  cases call with
  | apiFilter keep fails =>
    cases keep with
    | none => exact hsame s rfl rfl rfl
    | some keep =>
      obtain ⟨hrow,hfunc⟩ := Prod.ext_iff.mp
        ((view_writeFastResult x.funcHash keep fails s x).trans (if_pos rfl))
      exact ⟨hrow,_,hfunc.trans hf,fun _ => rfl⟩
  | phase1 keep =>
    cases keep with
    | none => exact hsame s rfl rfl rfl
    | some keep =>
      refine hsame _ ?_ rfl rfl
      simp only [handle]
      split
      · exact view_noteKept _ s x
      · rfl
  | r3 analyses fails =>
    cases analyses with
    | none => exact hsame s rfl rfl rfl
    | some as =>
      refine hsame _ ?_ rfl rfl
      simp only [handle]
      split
      · exact view_storeTaints py confidence _ as fails s x
      · rfl
  | r4 w =>
    obtain ⟨hne,rfl⟩ := hst rfl
    obtain ⟨hrow,v,hv⟩ := view_r4Processor py cfg hf hne w
    exact ⟨hrow,v,hv,fun hc => absurd rfl hc⟩

theorem view_foldl_of_ne {h : String} {batch : List Item} (hb : ∀ x ∈ batch, x.funcHash ≠ h)
    (call : Call) (s : Store) :
    view h (batch.foldl (handle py cfg confidence call) s) = view h s := by
  induction batch generalizing s with
  | nil => rfl
  | cons x xs ih =>
    rw [List.foldl_cons,ih (fun y hy => hb y (List.mem_cons_of_mem _ hy))]
    exact view_handle_of_ne py cfg confidence (hb x List.mem_cons_self) call s

/-- In a batch without repetitions the functions are handled independently. -/
theorem view_foldl {x : Item} {batch : List Item} (hx : x ∈ batch)
    (hnodup : (batch.map Item.funcHash).Nodup) (call : Call) (s : Store) :
    ∃ t, view x.funcHash t = view x.funcHash s ∧
      view x.funcHash (batch.foldl (handle py cfg confidence call) s) =
        view x.funcHash (handle py cfg confidence call t x) := by
  induction batch generalizing s with
  | nil => simp at hx
  | cons y ys ih =>
    rw [List.map_cons,List.nodup_cons] at hnodup
    rw [List.foldl_cons]
    rcases List.mem_cons.mp hx with rfl | hx
    · refine ⟨s,rfl,view_foldl_of_ne py cfg confidence (fun z hz hzx => ?_) call _⟩
      exact hnodup.1 (List.mem_map.mpr ⟨z,hz,hzx⟩)
    · have hne : y.funcHash ≠ x.funcHash := fun hyx =>
        hnodup.1 (List.mem_map.mpr ⟨x,hx,hyx.symm⟩)
      obtain ⟨t,ht,hfold⟩ := ih hx hnodup.2 (handle py cfg confidence call s y)
      exact ⟨t,ht.trans (view_handle_of_ne py cfg confidence hne call s),hfold⟩

end Effects

/-! ## Runs -/

section Tracking

variable (py : PyRuntime) (cfg : Config) (confidence : List (String × PyJson) → PyFloat)

/-- The stages before have kept the function. -/
def reached (h : String) (calls : Fate) : Stage → Bool
  | .apiFilter => true
  | .phase1 => keptAt py cfg h calls .apiFilter
  | .r3 => keptAt py cfg h calls .phase1
  | .r4 => keptAt py cfg h calls .r3

/-- The functions of the database wait for the first filter, none has a decision in its row or has
been judged by R4, and all are registered. -/
structure Initial (items : List Item) (s : Sys) : Prop where
  distinct : (items.map Item.funcHash).Nodup
  queue : ∀ k, s.queue k = if k = .apiFilter then items else []
  row : ∀ x ∈ items, rowView x.funcHash s.store = some (none,none,some "")
  func : ∀ x ∈ items, ∃ st, st ≠ .passed ∧ funcView x.funcHash s.store = some (x.fileHash,st,0)
  others : ∀ h, (∀ x ∈ items, x.funcHash ≠ h) → rowView h s.store = none

/-- Where every function is, and what its row says, follows from the calls that handled it. -/
structure Tracked (items : List Item) (tr : List (Event Sys Act)) (s : Sys) : Prop where
  known : ∀ k, ∀ x ∈ s.queue k, x ∈ items
  nodup : ∀ k, (s.queue k).Nodup
  place : ∀ x ∈ items, ∀ k, x ∈ s.queue k ↔
    reached py cfg x.funcHash (fate x.funcHash tr) k = true ∧ fate x.funcHash tr k = none
  order : ∀ x ∈ items, ∀ k, fate x.funcHash tr k ≠ none →
    reached py cfg x.funcHash (fate x.funcHash tr) k = true
  row : ∀ x ∈ items, rowView x.funcHash s.store =
    some (r3Column x.funcHash (fate x.funcHash tr .apiFilter),
      r4Column py cfg (fate x.funcHash tr .r4),some "")
  func : ∀ x ∈ items, ∃ st n, funcView x.funcHash s.store = some (x.fileHash,st,n) ∧
    (fate x.funcHash tr .r4 = none → st ≠ .passed ∧ n = 0)
  others : ∀ h, (∀ x ∈ items, x.funcHash ≠ h) → rowView h s.store = none

theorem Initial.tracked {items : List Item} {s : Sys} (h : Initial items s) :
    Tracked py cfg items [] s where
  known k x hx := by
    rw [h.queue] at hx
    split at hx
    · exact hx
    · simp at hx
  nodup k := by
    rw [h.queue]
    split
    · exact h.distinct.of_map
    · exact List.nodup_nil
  place x hx k := by
    rw [h.queue]
    cases k <;> simp [reached,fate,keptAt,hx]
  order x _ k hk := by simp [fate] at hk
  row x hx := h.row x hx
  func x hx := by
    obtain ⟨st,hst,hf⟩ := h.func x hx
    exact ⟨st,0,hf,fun _ => ⟨hst,rfl⟩⟩
  others := h.others

theorem note_of_mem {x : Item} {e : Event Sys Act} (hx : x ∈ e.act.batch) (calls : Fate) :
    note x.funcHash calls e = Function.update calls e.act.call.stage (some e.act.call) := by
  rw [note,if_pos]
  exact List.any_eq_true.mpr ⟨x,hx,beq_self_eq_true _⟩

theorem note_of_notMem {items : List Item} (hd : (items.map Item.funcHash).Nodup) {x : Item}
    (hx : x ∈ items) {e : Event Sys Act} (hb : ∀ y ∈ e.act.batch, y ∈ items)
    (hn : x ∉ e.act.batch) (calls : Fate) : note x.funcHash calls e = calls := by
  rw [note,if_neg]
  rintro hany
  obtain ⟨y,hy,hyx⟩ := List.any_eq_true.mp hany
  have heq : y = x := List.inj_on_of_nodup_map hd (hb y hy) hx (by simpa using hyx)
  exact hn (heq ▸ hy)

/-- Whether a stage is reached after the call `c` at the stage of that call. -/
theorem reached_update (h : String) (calls : Fate) (c : Call) (k : Stage) :
    reached py cfg h (Function.update calls c.stage (some c)) k =
      if c.stage.next = some k then keeps py cfg h c else reached py cfg h calls k := by
  cases hc : c.stage <;> cases k <;> simp [reached,keptAt,Stage.next,Function.update]

theorem step_spec {s u : Sys} {a : Act} (h : step py cfg confidence s a = some u) :
    (a.batch ≠ [] ∧ a.batch.Nodup ∧ (∀ x ∈ a.batch, x ∈ s.queue a.call.stage)) ∧
      u.store = (process py cfg confidence s.store a.batch a.call).1 ∧
      ∀ k, u.queue k =
        if k = a.call.stage then (s.queue k).diff a.batch
        else if a.call.stage.next = some k then
          s.queue k ++ (process py cfg confidence s.store a.batch a.call).2
        else s.queue k := by
  simp only [step] at h
  split at h
  · rename_i hg
    obtain ⟨hne,hnd,hmem,-⟩ := hg
    cases h
    exact ⟨⟨hne,hnd,hmem⟩,rfl,fun _ => rfl⟩
  · cases h

theorem next_ne_self {k j : Stage} (h : k.next = some j) : j ≠ k := by
  cases k <;> cases j <;> simp [Stage.next] at h ⊢

theorem reached_next {k j : Stage} (hn : k.next = some j) (h : String) (calls : Fate) :
    reached py cfg h calls j = keptAt py cfg h calls k := by
  cases k <;> cases j <;> simp [Stage.next] at hn <;> rfl

theorem r3Column_of_stage_ne {c : Call} (hc : c.stage ≠ .apiFilter) (h : String) :
    r3Column h (some c) = none := by
  cases c with
  | apiFilter keep fails => exact absurd rfl hc
  | phase1 keep => rfl
  | r3 analyses fails => rfl
  | r4 w => rfl

theorem r4Column_of_stage_ne {c : Call} (hc : c.stage ≠ .r4) : r4Column py cfg (some c) = none := by
  cases c with
  | apiFilter keep fails => rfl
  | phase1 keep => rfl
  | r3 analyses fails => rfl
  | r4 w => exact absurd rfl hc

variable {items : List Item} {tr : List (Event Sys Act)} {s u : Sys} {a : Act}

/-- A function that waits at a stage has been kept before, and not been judged there. -/
theorem Tracked.waiting (ht : Tracked py cfg items tr s) {k : Stage} {x : Item}
    (hx : x ∈ s.queue k) :
    reached py cfg x.funcHash (fate x.funcHash tr) k = true ∧ fate x.funcHash tr k = none :=
  (ht.place x (ht.known k x hx) k).mp hx

/-- A function that waits at a stage has not been judged at the next one. -/
theorem Tracked.not_ahead (ht : Tracked py cfg items tr s) {k j : Stage} {x : Item}
    (hx : x ∈ s.queue k) (hn : k.next = some j) :
    reached py cfg x.funcHash (fate x.funcHash tr) j = false ∧ fate x.funcHash tr j = none := by
  have hreach : reached py cfg x.funcHash (fate x.funcHash tr) j = false := by
    rw [reached_next py cfg hn,keptAt,(ht.waiting py cfg hx).2]
    rfl
  refine ⟨hreach,?_⟩
  by_contra hsome
  have hr := ht.order x (ht.known k x hx) j hsome
  rw [hreach] at hr
  cases hr

theorem Tracked.exists_registered (ht : Tracked py cfg items tr s) {batch : List Item}
    (hne : batch ≠ []) (hb : ∀ x ∈ batch, x ∈ items) : ∃ x ∈ batch, registered s.store x := by
  obtain ⟨x,hx⟩ := List.exists_mem_of_ne_nil _ hne
  obtain ⟨st,n,hf,-⟩ := ht.func x (hb x hx)
  obtain ⟨f,hlook,hview⟩ := Option.map_eq_some_iff.mp hf
  refine ⟨x,hx,?_⟩
  simp only [Prod.mk.injEq] at hview
  simp [registered,hlook,hview.1]

/-- The queues after a step: the batch has left its queue, and what the call kept stands in the
next one. -/
theorem Tracked.queue_step (ht : Tracked py cfg items tr s)
    (h : step py cfg confidence s a = some u) :
    (∀ k, (u.queue k).Nodup) ∧ ∀ x k, x ∈ u.queue k ↔
      if k = a.call.stage then x ∈ s.queue k ∧ x ∉ a.batch
      else x ∈ s.queue k ∨
        a.call.stage.next = some k ∧ x ∈ a.batch ∧ keeps py cfg x.funcHash a.call = true := by
  obtain ⟨⟨hne,hnd,hmem⟩,-,hq⟩ := step_spec py cfg confidence h
  have hitems : ∀ x ∈ a.batch, x ∈ items := fun x hx => ht.known _ x (hmem x hx)
  have hres : ∀ k, a.call.stage.next = some k →
      (process py cfg confidence s.store a.batch a.call).2 =
        a.batch.filter (fun x => keeps py cfg x.funcHash a.call) := by
    intro k hk
    refine process_results py cfg confidence (ht.exists_registered py cfg hne hitems) ?_
    rintro hr4
    simp [hr4,Stage.next] at hk
  refine ⟨fun k => ?_,fun x k => ?_⟩
  · rw [hq]
    split
    · exact (ht.nodup k).diff
    · split
      · rename_i hnext
        rw [hres k hnext]
        refine List.Nodup.append (ht.nodup k) (hnd.filter _) ?_
        intro x hx hxr
        have hxb := hmem x (List.mem_of_mem_filter hxr)
        have hr := (ht.waiting py cfg hx).1
        rw [(ht.not_ahead py cfg hxb hnext).1] at hr
        cases hr
      · exact ht.nodup k
  · rw [hq]
    by_cases hk : k = a.call.stage
    · rw [if_pos hk,if_pos hk,(ht.nodup k).mem_sdiff_iff]
    · rw [if_neg hk,if_neg hk]
      by_cases hnext : a.call.stage.next = some k
      · rw [if_pos hnext,hres k hnext,List.mem_append,List.mem_filter]
        simp [hnext]
      · rw [if_neg hnext]
        simp [hnext]

section Step

variable (hd : (items.map Item.funcHash).Nodup) (ht : Tracked py cfg items tr s)
  (h : step py cfg confidence s a = some u)

include hd ht h

theorem Tracked.fate_step {x : Item} (hx : x ∈ items) : fate x.funcHash (⟨s,a,u⟩ :: tr) =
    if x ∈ a.batch then Function.update (fate x.funcHash tr) a.call.stage (some a.call)
    else fate x.funcHash tr := by
  obtain ⟨⟨-,-,hmem⟩,-,-⟩ := step_spec py cfg confidence h
  split
  · rename_i hb
    exact note_of_mem (e := ⟨s,a,u⟩) hb _
  · rename_i hb
    exact note_of_notMem hd hx (e := ⟨s,a,u⟩) (fun y hy => ht.known _ y (hmem y hy)) hb _

theorem Tracked.place_step {x : Item} (hx : x ∈ items) (k : Stage) : x ∈ u.queue k ↔
    reached py cfg x.funcHash (fate x.funcHash (⟨s,a,u⟩ :: tr)) k = true ∧
      fate x.funcHash (⟨s,a,u⟩ :: tr) k = none := by
  obtain ⟨⟨-,-,hmem⟩,-,-⟩ := step_spec py cfg confidence h
  rw [(ht.queue_step py cfg confidence h).2,ht.place x hx k,
    ht.fate_step py cfg confidence hd h hx]
  by_cases hb : x ∈ a.batch
  · rw [if_pos hb,reached_update]
    by_cases hk : k = a.call.stage
    · rw [if_pos hk,hk]
      simp [hb]
    · rw [if_neg hk,Function.update_of_ne hk]
      by_cases hnext : a.call.stage.next = some k
      · obtain ⟨hr,hf⟩ := ht.not_ahead py cfg (hmem x hb) hnext
        simp [hnext,hr,hf,hb]
      · simp [hnext]
  · rw [if_neg hb]
    simp [hb]

theorem Tracked.order_step {x : Item} (hx : x ∈ items) (k : Stage)
    (hsome : fate x.funcHash (⟨s,a,u⟩ :: tr) k ≠ none) :
    reached py cfg x.funcHash (fate x.funcHash (⟨s,a,u⟩ :: tr)) k = true := by
  obtain ⟨⟨-,-,hmem⟩,-,-⟩ := step_spec py cfg confidence h
  rw [ht.fate_step py cfg confidence hd h hx] at hsome ⊢
  by_cases hb : x ∈ a.batch
  · rw [if_pos hb] at hsome ⊢
    rw [reached_update]
    by_cases hk : k = a.call.stage
    · rw [if_neg (fun hnext => next_ne_self hnext hk),hk]
      exact (ht.waiting py cfg (hmem x hb)).1
    · rw [Function.update_of_ne hk] at hsome
      have hnext : a.call.stage.next ≠ some k := fun hnext =>
        hsome (ht.not_ahead py cfg (hmem x hb) hnext).2
      rw [if_neg hnext]
      exact ht.order x hx k hsome
  · rw [if_neg hb] at hsome ⊢
    exact ht.order x hx k hsome

theorem Tracked.view_step_of_notMem {x : Item} (hx : x ∈ items) (hb : x ∉ a.batch) :
    view x.funcHash u.store = view x.funcHash s.store := by
  obtain ⟨⟨hne,-,hmem⟩,hstore,-⟩ := step_spec py cfg confidence h
  have hitems : ∀ y ∈ a.batch, y ∈ items := fun y hy => ht.known _ y (hmem y hy)
  rw [hstore,process_store py cfg confidence _ (ht.exists_registered py cfg hne hitems)]
  refine view_foldl_of_ne py cfg confidence (fun y hy hyx => hb ?_) _ _
  exact List.inj_on_of_nodup_map hd (hitems y hy) hx hyx ▸ hy

/-- What the step leaves in the row of a function of the batch, and in its state. -/
theorem Tracked.view_step_of_mem {x : Item} (hb : x ∈ a.batch) :
    rowView x.funcHash u.store = some
        ((r3Column x.funcHash (some a.call)).or (r3Column x.funcHash (fate x.funcHash tr .apiFilter)),
          (r4Column py cfg (some a.call)).or (r4Column py cfg (fate x.funcHash tr .r4)),some "") ∧
      ∃ st n, funcView x.funcHash u.store = some (x.fileHash,st,n) ∧
        (a.call.stage ≠ .r4 → fate x.funcHash tr .r4 = none → st ≠ .passed ∧ n = 0) := by
  obtain ⟨⟨hne,hnd,hmem⟩,hstore,-⟩ := step_spec py cfg confidence h
  have hitems : ∀ y ∈ a.batch, y ∈ items := fun y hy => ht.known _ y (hmem y hy)
  have hbatch : (a.batch.map Item.funcHash).Nodup :=
    hnd.map_on (fun y hy z hz hyz => List.inj_on_of_nodup_map hd (hitems y hy) (hitems z hz) hyz)
  obtain ⟨t,hts,hu⟩ := view_foldl py cfg confidence hb hbatch a.call s.store
  rw [← process_store py cfg confidence a.call (ht.exists_registered py cfg hne hitems),
    ← hstore] at hu
  obtain ⟨st,n,hf,hst⟩ := ht.func x (hitems x hb)
  have hrow : rowView x.funcHash t = rowView x.funcHash s.store := congrArg Prod.fst hts
  have hfunc : funcView x.funcHash t = funcView x.funcHash s.store := congrArg Prod.snd hts
  have hr4 : a.call.stage = .r4 → st ≠ .passed ∧ n = 0 := fun hc =>
    hst (hc ▸ (ht.waiting py cfg (hmem x hb)).2)
  obtain ⟨hrow',⟨st',n'⟩,hfunc',hv⟩ := view_handle py cfg confidence (hfunc.trans hf) hr4
  refine ⟨?_,st',n',(congrArg Prod.snd hu).trans hfunc',fun hc hnone => ?_⟩
  · rw [hrow,ht.row x (hitems x hb)] at hrow'
    exact (congrArg Prod.fst hu).trans hrow'
  · obtain ⟨rfl,rfl⟩ := Prod.mk.injEq _ _ _ _ ▸ hv hc
    exact hst hnone

end Step

theorem Tracked.step (hd : (items.map Item.funcHash).Nodup)
    (ht : Tracked py cfg items tr s) (h : step py cfg confidence s a = some u) :
    Tracked py cfg items (⟨s,a,u⟩ :: tr) u := by
  obtain ⟨⟨hne,-,hmem⟩,hstore,-⟩ := step_spec py cfg confidence h
  obtain ⟨hnodup,hqueue⟩ := ht.queue_step py cfg confidence h
  have hitems : ∀ y ∈ a.batch, y ∈ items := fun y hy => ht.known _ y (hmem y hy)
  refine ⟨?_,hnodup,fun x hx => ht.place_step py cfg confidence hd h hx,
    fun x hx => ht.order_step py cfg confidence hd h hx,?_,?_,?_⟩
  · intro k x hx
    rw [hqueue] at hx
    split at hx
    · exact ht.known _ x hx.1
    · rcases hx with hx | ⟨-,hx,-⟩
      · exact ht.known _ x hx
      · exact hitems x hx
  · intro x hx
    rw [ht.fate_step py cfg confidence hd h hx]
    by_cases hb : x ∈ a.batch
    · rw [if_pos hb,(ht.view_step_of_mem py cfg confidence hd h hb).1]
      have hnone := (ht.waiting py cfg (hmem x hb)).2
      by_cases hapi : a.call.stage = .apiFilter
      · rw [hapi] at hnone ⊢
        have hne : a.call.stage ≠ .r4 := by simp [hapi]
        simp [hnone,r4Column_of_stage_ne py cfg hne,r3Column]
      · rw [r3Column_of_stage_ne hapi,Function.update_of_ne (Ne.symm hapi)]
        by_cases hr4 : a.call.stage = .r4
        · rw [hr4] at hnone ⊢
          simp [hnone,r4Column]
        · rw [r4Column_of_stage_ne py cfg hr4,Function.update_of_ne (Ne.symm hr4)]
          simp
    · rw [if_neg hb,← ht.row x hx]
      exact congrArg Prod.fst (ht.view_step_of_notMem py cfg confidence hd h hx hb)
  · intro x hx
    rw [ht.fate_step py cfg confidence hd h hx]
    by_cases hb : x ∈ a.batch
    · rw [if_pos hb]
      obtain ⟨-,st,n,hf,hst⟩ := ht.view_step_of_mem py cfg confidence hd h hb
      refine ⟨st,n,hf,fun hnone => ?_⟩
      by_cases hr4 : a.call.stage = .r4
      · simp [hr4] at hnone
      · rw [Function.update_of_ne (Ne.symm hr4)] at hnone
        exact hst hr4 hnone
    · rw [if_neg hb]
      have hv : funcView x.funcHash u.store = funcView x.funcHash s.store :=
        congrArg Prod.snd (ht.view_step_of_notMem py cfg confidence hd h hx hb)
      rw [hv]
      exact ht.func x hx
  · intro k hk
    rw [hstore,process_store py cfg confidence _ (ht.exists_registered py cfg hne hitems)]
    have hv := view_foldl_of_ne py cfg confidence (fun y hy => hk y (hitems y hy)) a.call s.store
    exact (congrArg Prod.fst hv).trans (ht.others k hk)

theorem Initial.run {s₀ : Sys} (h₀ : Initial items s₀)
    (hr : Run (SuperFast.step py cfg confidence) s₀ tr u) : Tracked py cfg items tr u := by
  induction hr with
  | refl => exact h₀.tracked py cfg
  | next _ hs ih => exact ih.step py cfg confidence h₀.distinct hs

/-! ## Agreement -/

/-- The columns that `get_keep_entries` tests. -/
def keepColumns (c : Option String × Option String × Option String) : Bool :=
  c.1 == some "keep" && !excludes c.2.1 &&
    (c.2.2 == none || c.2.2 == some "" || c.2.2 != some "内部实现")

theorem returns_eq_rowView (h : String) (s : Store) :
    s.db.returns h = (rowView h s).any keepColumns := by
  simp only [FuncDb.returns,rowView,Option.any_map]
  congr 1
  funext r
  simp [FuncDb.isKeepRow,keepColumns,excludes]

/-- All queues are empty. -/
def Drained (u : Sys) : Prop := ∀ k, u.queue k = []

/-- The functions that the database lists are those that every stage keeps. -/
def FilterAgreement (items : List Item) (tr : List (Event Sys Act)) (u : Sys) : Prop :=
  ∀ h, u.store.db.returns h = true ↔
    ∃ x ∈ items, x.funcHash = h ∧ survives py cfg h (fate h tr) = true

/-- The first filter answers `keep` for the function, and the answer reaches its row. -/
def writtenKeep (h : String) (calls : Fate) : Bool :=
  r3Column h (calls .apiFilter) == some "keep"

/-- R4 answers something else than `keep`, and the answer reaches the row. -/
def writtenFilter (calls : Fate) : Bool := excludes (r4Column py cfg (calls .r4))

/-- A function that the first filter has listed is kept by the stages after it, or taken off the
list by R4; a function that the first filter has not listed is rejected by some stage. -/
def consistent (h : String) (calls : Fate) : Bool :=
  if writtenKeep h calls then
    writtenFilter py cfg calls ||
      (keptAt py cfg h calls .phase1 && keptAt py cfg h calls .r3 && keptAt py cfg h calls .r4)
  else !survives py cfg h calls

theorem Tracked.returns (ht : Tracked py cfg items tr s) {x : Item} (hx : x ∈ items) :
    s.store.db.returns x.funcHash =
      (writtenKeep x.funcHash (fate x.funcHash tr) &&
        !writtenFilter py cfg (fate x.funcHash tr)) := by
  rw [returns_eq_rowView,ht.row x hx]
  simp [keepColumns,writtenKeep,writtenFilter]

theorem kept_of_writtenKeep {h : String} {calls : Fate} (hw : writtenKeep h calls = true) :
    keptAt py cfg h calls .apiFilter = true := by
  simp only [writtenKeep,r3Column,beq_iff_eq] at hw
  split at hw
  · rename_i keep fails hc
    split at hw
    · cases hw
    · split at hw
      · rename_i hk
        simpa [keptAt,hc,keeps] using hk
      · simp at hw
  · cases hw

/-- An answer that R4 counts as `keep` does not exclude the row. -/
theorem not_writtenFilter_of_kept {h : String} {calls : Fate}
    (hk : keptAt py cfg h calls .r4 = true) : writtenFilter py cfg calls = false := by
  unfold writtenFilter r4Column
  split
  · rename_i w hc
    split
    · rename_i hasks
      have hk : crashes w = true ∨ storedAnswer py w = some "keep" := by
        simpa [keptAt,hc,keeps,hasks] using hk
      cases w with
      | crashed => rfl
      | agentFailed => rfl
      | answered file saved written =>
        cases saved <;> cases written <;> simp_all [writtenAnswer,crashes,storedAnswer,excludes]
    · rfl
  · rfl

theorem returned_eq_survives_iff (h : String) (calls : Fate) :
    ((writtenKeep h calls && !writtenFilter py cfg calls) = survives py cfg h calls) ↔
      consistent py cfg h calls = true := by
  unfold consistent
  by_cases hw : writtenKeep h calls = true
  · rw [if_pos hw,hw]
    unfold survives
    rw [kept_of_writtenKeep py cfg hw]
    by_cases h4 : keptAt py cfg h calls .r4 = true
    · rw [h4,not_writtenFilter_of_kept py cfg h4]
      cases keptAt py cfg h calls .phase1 <;> cases keptAt py cfg h calls .r3 <;> simp
    · rw [Bool.not_eq_true] at h4
      rw [h4]
      cases writtenFilter py cfg calls <;> simp
  · rw [if_neg hw]
    rw [Bool.not_eq_true] at hw
    rw [hw]
    cases survives py cfg h calls <;> simp

/-- In a drained run every function has been kept by all stages or rejected by one. -/
theorem Tracked.judged (ht : Tracked py cfg items tr s) (hd : Drained s) {x : Item}
    (hx : x ∈ items) : survives py cfg x.funcHash (fate x.funcHash tr) = true ∨
      ∃ k c, fate x.funcHash tr k = some c ∧ keeps py cfg x.funcHash c = false := by
  have hstage : ∀ k, reached py cfg x.funcHash (fate x.funcHash tr) k = true →
      keptAt py cfg x.funcHash (fate x.funcHash tr) k = true ∨
        ∃ k c, fate x.funcHash tr k = some c ∧ keeps py cfg x.funcHash c = false := by
    intro k hr
    cases hc : fate x.funcHash tr k with
    | none =>
      have hin := (ht.place x hx k).mpr ⟨hr,hc⟩
      rw [hd k] at hin
      simp at hin
    | some c =>
      by_cases hkeep : keeps py cfg x.funcHash c = true
      · exact .inl (by simp [keptAt,hc,hkeep])
      · exact .inr ⟨k,c,hc,by simpa using hkeep⟩
  rcases hstage .apiFilter rfl with h1 | hrej
  · rcases hstage .phase1 h1 with h2 | hrej
    · rcases hstage .r3 h2 with h3 | hrej
      · rcases hstage .r4 h3 with h4 | hrej
        · exact .inl (by simp [survives,h1,h2,h3,h4])
        · exact .inr hrej
      · exact .inr hrej
    · exact .inr hrej
  · exact .inr hrej

/-- When the queues have drained, every function has survived or been rejected, and the database
lists the survivors exactly if every function met answers of the consistent kind. -/
theorem drained_agreement_iff {s₀ : Sys} (h₀ : Initial items s₀)
    (hr : Run (SuperFast.step py cfg confidence) s₀ tr u) (hd : Drained u) :
    (∀ x ∈ items, survives py cfg x.funcHash (fate x.funcHash tr) = true ∨
      ∃ k c, fate x.funcHash tr k = some c ∧ keeps py cfg x.funcHash c = false) ∧
    (FilterAgreement py cfg items tr u ↔
      ∀ x ∈ items, consistent py cfg x.funcHash (fate x.funcHash tr) = true) := by
  have ht := h₀.run py cfg confidence hr
  refine ⟨fun x hx => ht.judged py cfg hd hx,?_⟩
  constructor
  · intro hagree x hx
    rw [← returned_eq_survives_iff,← ht.returns py cfg hx,Bool.eq_iff_iff,hagree]
    exact ⟨fun ⟨_,_,_,hs⟩ => hs,fun hs => ⟨x,hx,rfl,hs⟩⟩
  · intro hall h
    by_cases hknown : ∃ x ∈ items, x.funcHash = h
    · obtain ⟨x,hx,rfl⟩ := hknown
      rw [ht.returns py cfg hx,(returned_eq_survives_iff py cfg _ _).mpr (hall x hx)]
      exact ⟨fun hs => ⟨x,hx,rfl,hs⟩,fun ⟨_,_,_,hs⟩ => hs⟩
    · have hnone := ht.others h (fun x hx hxh => hknown ⟨x,hx,hxh⟩)
      rw [returns_eq_rowView,hnone]
      exact ⟨fun hf => by simp at hf,fun ⟨x,hx,hxh,_⟩ => absurd ⟨x,hx,hxh⟩ hknown⟩

end Tracking

/-! ## A function that the second filter rejects -/

def recvMsg : Item := ⟨"b9a4a82cac75","84f839ab0069","/src/recv.c"⟩

/-- One function, which R1 has registered. -/
def oneFunction : Sys where
  store :=
    { db := ⟨.empty,KeyedTable.empty.insertOrIgnore
        (newRow "b9a4a82cac75" "84f839ab0069" "on_msg" "" 10 12 "")⟩
      funcs := KeyedTable.empty.insertOrIgnore
        ⟨"b9a4a82cac75","84f839ab0069",none,none,⟨.pending,"","",0,.pending,0,""⟩⟩ }
  queue k := if k = .apiFilter then [recvMsg] else []

theorem oneFunction_initial : Initial [recvMsg] oneFunction where
  distinct := List.nodup_singleton _
  queue _ := rfl
  row x hx := by
    rw [List.mem_singleton.mp hx]
    rfl
  func x hx := by
    rw [List.mem_singleton.mp hx]
    exact ⟨.pending,by decide,rfl⟩
  others h hh := by
    have hne : "b9a4a82cac75" ≠ h := hh recvMsg (List.mem_singleton.mpr rfl)
    have hrow : oneFunction.store.db.functions.rows =
        [newRow "b9a4a82cac75" "84f839ab0069" "on_msg" "" 10 12 ""] := rfl
    simp [rowView,KeyedTable.lookup,hrow,newRow,hne]

/-- All stages keep the function. -/
def keptByAll : List Act :=
  [⟨[recvMsg],.apiFilter (some ["b9a4a82cac75"]) (fun _ => false)⟩,
   ⟨[recvMsg],.phase1 (some ["b9a4a82cac75"])⟩,
   ⟨[recvMsg],.r3 (some [.dict [("func_hash",.str "b9a4a82cac75"),("taints",.list [.str "msg"])]])
     (fun _ => false)⟩,
   ⟨[recvMsg],.r4 (answer "keep")⟩]

/-- The first filter keeps the function, the second rejects it. -/
def rejectedByPhase1 : List Act :=
  [⟨[recvMsg],.apiFilter (some ["b9a4a82cac75"]) (fun _ => false)⟩,
   ⟨[recvMsg],.phase1 (some [])⟩]

/-- The queues have drained, and `p` holds of the function's calls and of its being listed. -/
def drainedWith (p : Fate → Bool → Bool) (tr : List (Event Sys Act)) (u : Sys) : Bool :=
  (u.queue .apiFilter).isEmpty && (u.queue .phase1).isEmpty && (u.queue .r3).isEmpty &&
    (u.queue .r4).isEmpty &&
    p (fate recvMsg.funcHash tr) (u.store.db.returns recvMsg.funcHash)

theorem drained_of_drainedWith {p : Fate → Bool → Bool} {tr : List (Event Sys Act)} {u : Sys}
    (h : drainedWith p tr u = true) :
    Drained u ∧ p (fate recvMsg.funcHash tr) (u.store.db.returns recvMsg.funcHash) = true := by
  simp only [drainedWith,Bool.and_eq_true,List.isEmpty_iff] at h
  refine ⟨fun k => ?_,h.2⟩
  cases k with
  | apiFilter => exact h.1.1.1.1
  | phase1 => exact h.1.1.1.2
  | r3 => exact h.1.1.2
  | r4 => exact h.1.2

theorem kept_by_all_agrees : ∃ tr u, Initial [recvMsg] oneFunction ∧
    Run (step plainRuntime ⟨1,1⟩ (fun _ => .finite 0)) oneFunction tr u ∧ Drained u ∧
      FilterAgreement plainRuntime ⟨1,1⟩ [recvMsg] tr u := by
  obtain ⟨tr,u,hr,hp⟩ := exists_run_of_replay (step plainRuntime ⟨1,1⟩ (fun _ => .finite 0))
    oneFunction keptByAll (p := drainedWith
      (fun calls _ => consistent plainRuntime ⟨1,1⟩ recvMsg.funcHash calls)) (by decide +kernel)
  obtain ⟨hd,hc⟩ := drained_of_drainedWith hp
  refine ⟨tr,u,oneFunction_initial,hr,hd,?_⟩
  refine (drained_agreement_iff plainRuntime ⟨1,1⟩ (fun _ => .finite 0) oneFunction_initial hr
    hd).2.mpr (fun x hx => ?_)
  rw [List.mem_singleton.mp hx]
  exact hc

/-- No call raises and no write fails, and the function that was rejected is listed. -/
theorem rejected_function_listed : ∃ tr u, Initial [recvMsg] oneFunction ∧
    Run (step plainRuntime ⟨1,1⟩ (fun _ => .finite 0)) oneFunction tr u ∧ Drained u ∧
      ¬FilterAgreement plainRuntime ⟨1,1⟩ [recvMsg] tr u := by
  obtain ⟨tr,u,hr,hp⟩ := exists_run_of_replay (step plainRuntime ⟨1,1⟩ (fun _ => .finite 0))
    oneFunction rejectedByPhase1 (p := drainedWith (fun calls listed =>
      listed && !survives plainRuntime ⟨1,1⟩ recvMsg.funcHash calls)) (by decide +kernel)
  obtain ⟨hd,hc⟩ := drained_of_drainedWith hp
  refine ⟨tr,u,oneFunction_initial,hr,hd,fun hagree => ?_⟩
  simp only [Bool.and_eq_true,Bool.not_eq_true'] at hc
  obtain ⟨_,-,-,hs⟩ := (hagree recvMsg.funcHash).mp hc.1
  rw [hc.2] at hs
  cases hs

end SuperFast
end EntryAnalyse
