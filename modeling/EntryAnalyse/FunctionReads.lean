import EntryAnalyse.PublishedLists

/-! What a client reads of the functions of a task. While the task runs the readers use the
directory of the run; once it has passed they use the one that the databases of the single source
files are copied to. The shared database is not among these, and a reader that opens a database
makes it if it is not there. -/
namespace EntryAnalyse
namespace FunctionReads

open PyJson

/-! ## `list_functions_paginated` -/

/-- The `WHERE` clause of a filter. -/
def isListed (decision : Option String) (r : FunctionRow) : Bool :=
  if decision = some "keep" then r.r3Decision == some "keep"
  else if decision = some "filter" then r.r3Decision == some "filter"
  else if decision = some "entry" then r.hasExternalInput == some 1
  else if decision = some "pending" then r.r3Decision == none
  else true

/-- `ORDER BY fm.basename, f.start_line`; a missing name comes first. -/
def listOrder (db : FuncDb) (r s : FunctionRow) : Bool :=
  let base := fun r : FunctionRow => (db.fileMeta.lookup r.fileHash).map FileMeta.basename
  match base r,base s with
  | none,none => r.startLine ≤ s.startLine
  | none,some _ => true
  | some _,none => false
  | some p,some q => p < q || (p == q && r.startLine ≤ s.startLine)

def listItem (db : FuncDb) (r : FunctionRow) : List (String × PyJson) :=
  let file := db.fileMeta.lookup r.fileHash
  [("func_hash",.str r.funcHash),("file_hash",.str r.fileHash),("name",.str r.name),
   ("signature",.str r.signature),("start_line",.int r.startLine),("end_line",.int r.endLine),
   ("body_lines",.int r.bodyLines),
   ("has_external_input",(r.hasExternalInput.map PyJson.int).getD .null),
   ("entry_role",.str r.entryRole),("r3_decision",FuncDb.optText r.r3Decision),
   ("r4_decision",FuncDb.optText r.r4Decision),("analysis",r.analysis.getD (.dict [])),
   ("rel_path",FuncDb.optText (file.map FileMeta.relPath)),
   ("basename",FuncDb.optText (file.map FileMeta.basename)),
   ("original_path",FuncDb.optText (file.map FileMeta.originalPath))]

structure Page where
  items : List (List (String × PyJson))
  total : ℕ
  offset : ℕ
  limit : ℕ

def listFunctionsPaginated (db : FuncDb) (offset limit : ℕ) (decision : Option String) : Page :=
  let rows := db.functions.rows.filter (isListed decision)
  { items :=
      (((rows.insertionSort fun r s => listOrder db r s).drop offset).take limit).map (listItem db)
    total := rows.length
    offset := offset
    limit := limit }

/-! ## `get_function` -/

def functionDict (r : FunctionRow) : List (String × PyJson) :=
  [("func_hash",.str r.funcHash),("file_hash",.str r.fileHash),("name",.str r.name),
   ("signature",.str r.signature),("start_line",.int r.startLine),("end_line",.int r.endLine),
   ("body",.str r.body),("body_lines",.int r.bodyLines),("analysis",r.analysis.getD .null),
   ("has_external_input",(r.hasExternalInput.map PyJson.int).getD .null),
   ("entry_role",.str r.entryRole),
   ("entry_confidence",(r.entryConfidence.map PyJson.float).getD .null),
   ("r3_decision",FuncDb.optText r.r3Decision),("r4_decision",FuncDb.optText r.r4Decision),
   ("entry_category",FuncDb.optText r.entryCategory)]

def getFunction (db : FuncDb) (funcHash : String) : Option (List (String × PyJson)) :=
  (db.functions.lookup funcHash).map functionDict

/-! ## The call chain -/

structure CallEdge where
  callerHash : String
  calleeHash : String
  callSiteLine : ℤ

/-- What is read of `callchain.db`: the edges, and the names of the nodes. -/
structure CallGraph where
  edges : List CallEdge
  name : String → Option String

def CallGraph.empty : CallGraph := ⟨[],fun _ => none⟩

/-- The edges that the function is on one side of, each by the name of its other side. The rows
have no column `func_hash`, so that this reads as the empty text. -/
def CallGraph.neighbours (g : CallGraph) (side other : CallEdge → String) (funcHash : String) :
    PyJson :=
  let edges := (g.edges.filter fun e => side e = funcHash).insertionSort fun e e' =>
    e.callSiteLine ≤ e'.callSiteLine
  .list ((edges.take 20).map fun e =>
    .dict [("name",FuncDb.optText (g.name (other e))),("func_hash",.str "")])

def CallGraph.getCallers (g : CallGraph) : String → PyJson :=
  g.neighbours CallEdge.calleeHash CallEdge.callerHash

def CallGraph.getCallees (g : CallGraph) : String → PyJson :=
  g.neighbours CallEdge.callerHash CallEdge.calleeHash

/-! ## The readers -/

/-- The directories of a task: `run/workspace/r1-functions`, the database of the call chain, and
`output/funcdb`. -/
structure Store where
  run : Option R1Dir
  callchain : Option CallGraph
  output : Option R1Dir

inductive Response
  | page (p : Page)
  | detail (d : List (String × PyJson))
  | notFound
  | serverError

/-- The directory that the readers use. -/
def Store.source (s : Store) : Option R1Dir := s.output.or s.run

/-- The same directory, with the files that a reader has made. -/
def Store.setSource (s : Store) (dir : R1Dir) : Store :=
  match s.output with
  | some _ => { s with output := some dir }
  | none => { s with run := some dir }

def emptyPage (offset limit : ℕ) : Page := ⟨[],0,offset,limit⟩

def getTaskFuncdbFunctions (s : Store) (offset limit : ℕ) (decision : Option String) :
    Response × Store :=
  match s.source with
  | none => (.page (emptyPage offset limit),s)
  | some dir =>
    match dir.databases.lookup "functions.db" with
    | none => (.page (emptyPage offset limit),s)
    | some file =>
      (.page (listFunctionsPaginated file.db offset limit decision),s.setSource (dir.openDb ""))

/-- The scan of the files that are named like the database of one source file. -/
def scanFunctions (funcHash : String) :
    R1Dir → List String → Option (List (String × PyJson) × String) × R1Dir
  | dir,[] => (none,dir)
  | dir,name :: names =>
    let dir := dir.openDb (fileHashOf name)
    match getFunction (dir.functionsDb (fileHashOf name)) funcHash with
    | some fn => (some (fn,fileHashOf name),dir)
    | none => scanFunctions funcHash dir names

/-- The look-up in the file that is named, if one is. -/
def openNamed (s : Store) (funcHash fileHash : String) :
    Option (List (String × PyJson) × String) × Store :=
  if fileHash = "" then (none,s)
  else
    let dir := (s.source.getD .empty).openDb fileHash
    ((getFunction (dir.functionsDb fileHash) funcHash).map (·,fileHash),s.setSource dir)

def findFunction (s : Store) (funcHash fileHash : String) :
    Option (List (String × PyJson) × String) × Store :=
  let named := openNamed s funcHash fileHash
  match named.1,named.2.source with
  | none,some dir =>
    let scanned := scanFunctions funcHash dir dir.globFunctions
    (scanned.1,named.2.setSource scanned.2)
  | _,_ => named

/-- The answer for a function that is found. -/
def detailOf (py : PyRuntime) (g : CallGraph) (funcHash fileHash : String)
    (fn : List (String × PyJson)) : Response :=
  let text := fun (d : List (String × PyJson)) key => (field d key).or (.str "")
  match analysisOf py fn with
  | .dict analysis => .detail
    [("func_hash",.str funcHash),("file_hash",.str fileHash),("name",text fn "name"),
     ("signature",text fn "signature"),("start_line",field fn "start_line"),
     ("end_line",field fn "end_line"),
     ("file_path",(field fn "file_path").or (text fn "original_path")),
     ("entry_role",text fn "entry_role"),("entry_confidence",field fn "entry_confidence"),
     ("entry_category",text fn "entry_category"),("r3_decision",text fn "r3_decision"),
     ("r4_decision",text fn "r4_decision"),
     ("has_external_input",.bool (field fn "has_external_input").truthy),
     ("function_description",text analysis "function_description"),
     ("entry_reason",text analysis "entry_reason"),
     ("taint_details",(field analysis "taint_details").or (.list [])),
     ("tag",text analysis "tag"),("callers",g.getCallers funcHash),
     ("callees",g.getCallees funcHash)]
  | _ => .serverError

/-- A file hash that is not given is the empty text. -/
def getTaskFunctionDetail (py : PyRuntime) (s : Store) (funcHash fileHash : String) :
    Response × Store :=
  let found := findFunction s funcHash fileHash
  match found.1 with
  | none => (.notFound,found.2)
  | some (fn,fileHash) =>
    let g := found.2.callchain.getD .empty
    (detailOf py g funcHash fileHash fn,{ found.2 with callchain := some g })

/-! ## Completion -/

/-- `*_functions.db`. -/
def isFunctionsFile (name : String) : Bool := "_functions.db".toList.isSuffixOf name.toList

/-- The copy; a file that is there already stays as it is. -/
def copyFunctions (src dst : R1Dir) : R1Dir where
  databases := (src.databases.rows.filter fun file => isFunctionsFile file.name).foldl
    KeyedTable.insertOrIgnore dst.databases
  others := dst.others ++ src.others.filter fun name =>
    isFunctionsFile name && !dst.names.contains name

/-- What `Orchestrator.execute` does to the directories of a task that has passed. -/
def Store.complete (s : Store) : Store :=
  match s.run with
  | none => s
  | some dir => { s with output := some (copyFunctions dir (s.output.getD .empty)) }

/-! ## The property -/

inductive Read
  | list (offset limit : ℕ) (decision : Option String)
  | detail (funcHash fileHash : String)

def serve (py : PyRuntime) (s : Store) : Read → Response × Store
  | .list offset limit decision => getTaskFuncdbFunctions s offset limit decision
  | .detail funcHash fileHash => getTaskFunctionDetail py s funcHash fileHash

/-- The answers to reads that follow one another, and the directories after each. -/
def serveAll (py : PyRuntime) : Store → List Read → List (Response × Store)
  | _,[] => []
  | s,q :: qs => serve py s q :: serveAll py (serve py s q).2 qs

/-- The reads are answered after the completion as just before it, and no read makes or changes a
file. -/
structure Survives (py : PyRuntime) (run : Option R1Dir) (callchain : Option CallGraph)
    (qs : List Read) : Prop where
  same : (serveAll py (Store.complete ⟨run,callchain,none⟩) qs).map Prod.fst =
    (serveAll py ⟨run,callchain,none⟩ qs).map Prod.fst
  before : ∀ x ∈ serveAll py ⟨run,callchain,none⟩ qs, x.2 = ⟨run,callchain,none⟩
  after : ∀ x ∈ serveAll py (Store.complete ⟨run,callchain,none⟩) qs,
    x.2 = Store.complete ⟨run,callchain,none⟩

/-- A read that does not notice: a list of nothing, or a detail that is looked for nowhere. -/
def Harmless (run : Option R1Dir) : Read → Prop
  | .list _ _ decision => ∀ dir ∈ run, ∀ file ∈ dir.databases.lookup "functions.db",
      ∀ r ∈ file.db.functions.rows, isListed decision r = false
  | .detail _ fileHash => fileHash = "" ∧ ∀ dir ∈ run, dir.globFunctions = []

/-! ## Opening a database -/

variable {dir : R1Dir} {s : Store}

theorem openDb_of_lookup {file : DbFile} (h : dir.databases.lookup "functions.db" = some file)
    (fileHash : String) : dir.openDb fileHash = dir := by
  obtain ⟨hmem,hname⟩ := KeyedTable.lookup_eq_some_iff.mp h
  have hkey : openName fileHash ∈ dir.databases.rows.map DbFile.name :=
    List.mem_map.mpr ⟨file,hmem,hname⟩
  have hsame : dir.databases.insertOrIgnore ⟨openName fileHash,.empty⟩ = dir.databases :=
    dif_pos hkey
  unfold R1Dir.openDb
  rw [hsame]

/-- Whatever is opened, the shared database is there afterwards. -/
theorem lookup_openDb (dir : R1Dir) (fileHash : String) :
    ((dir.openDb fileHash).databases.lookup "functions.db").isSome = true := by
  unfold R1Dir.openDb
  rw [KeyedTable.lookup_insertOrIgnore]
  cases dir.databases.lookup "functions.db" with
  | some file => rfl
  | none => rfl

/-- The readers' directory holds the shared database. -/
def Store.HasShared (s : Store) : Prop :=
  ∃ dir ∈ s.source, (dir.databases.lookup "functions.db").isSome = true

@[simp] theorem source_setSource (s : Store) (dir : R1Dir) : (s.setSource dir).source = some dir := by
  obtain ⟨run,callchain,output⟩ := s
  cases output with
  | some output => rfl
  | none => rfl

theorem setSource_self (h : s.source = some dir) : s.setSource dir = s := by
  obtain ⟨run,callchain,output⟩ := s
  cases output with
  | some output =>
    cases h
    rfl
  | none =>
    have h : run = some dir := h
    subst h
    rfl

theorem scanFunctions_shared (funcHash : String) {names : List String}
    (h : names ≠ [] ∨ (dir.databases.lookup "functions.db").isSome = true) :
    ((scanFunctions funcHash dir names).2.databases.lookup "functions.db").isSome = true := by
  induction names generalizing dir with
  | nil => exact h.resolve_left fun hne => hne rfl
  | cons name names ih =>
    rw [scanFunctions]
    split
    · exact lookup_openDb dir _
    · exact ih (Or.inr (lookup_openDb dir _))

theorem openNamed_empty (s : Store) (funcHash : String) : openNamed s funcHash "" = (none,s) := rfl

theorem openNamed_shared {fileHash : String} (h : fileHash ≠ "") (funcHash : String) :
    (openNamed s funcHash fileHash).2.HasShared := by
  unfold openNamed
  rw [if_neg h]
  exact ⟨_,source_setSource s _,lookup_openDb _ fileHash⟩

/-- A detail that is looked for in a file that is named, or in one that is found, leaves the shared
database behind. -/
theorem findFunction_shared (funcHash : String) {fileHash : String}
    (h : fileHash ≠ "" ∨ ∃ dir ∈ s.source, dir.globFunctions ≠ []) :
    (findFunction s funcHash fileHash).2.HasShared := by
  unfold findFunction
  dsimp only
  by_cases hname : fileHash = ""
  · obtain ⟨dir,hdir,hglob⟩ := h.resolve_left fun hne => hne hname
    have hdir : s.source = some dir := hdir
    rw [hname,openNamed_empty,hdir]
    exact ⟨_,source_setSource s _,scanFunctions_shared funcHash (Or.inl hglob)⟩
  · have hshared := openNamed_shared (s := s) hname funcHash
    split
    · rename_i dir _ hdir
      obtain ⟨dir',hdir',hlookup⟩ := hshared
      rw [hdir,Option.mem_some_iff] at hdir'
      subst hdir'
      exact ⟨_,source_setSource _ _,scanFunctions_shared funcHash (Or.inr hlookup)⟩
    · exact hshared

/-- A detail that is looked for nowhere. -/
theorem detail_quiet (py : PyRuntime) (h : ∀ dir ∈ s.source, dir.globFunctions = [])
    (funcHash : String) : getTaskFunctionDetail py s funcHash "" = (.notFound,s) := by
  have hfind : findFunction s funcHash "" = (none,s) := by
    unfold findFunction
    rw [openNamed_empty]
    dsimp only
    cases hdir : s.source with
    | none => rfl
    | some dir =>
      dsimp only
      rw [h dir hdir,scanFunctions,setSource_self hdir]
  unfold getTaskFunctionDetail
  rw [hfind]

theorem detail_source (py : PyRuntime) (funcHash fileHash : String) :
    (getTaskFunctionDetail py s funcHash fileHash).2.source =
      (findFunction s funcHash fileHash).2.source := by
  unfold getTaskFunctionDetail
  dsimp only
  split <;> rfl

/-! ## The copy -/

theorem globFunctions_nil_iff :
    dir.globFunctions = [] ↔ ∀ name ∈ dir.names, isFunctionsFile name = false := by
  have hperm := List.perm_insertionSort (· ≤ ·) (dir.names.filter isFunctionsFile)
  have hnil : dir.globFunctions = [] ↔ dir.names.filter isFunctionsFile = [] := by
    constructor
    · intro h
      have hsorted : (dir.names.filter isFunctionsFile).insertionSort (· ≤ ·) = [] := h
      rw [hsorted] at hperm
      exact List.nil_perm.mp hperm
    · intro h
      unfold R1Dir.globFunctions
      have hfilter : dir.names.filter (fun name =>
          "_functions.db".toList.isSuffixOf name.toList) = [] := h
      rw [hfilter]
      rfl
  rw [hnil,List.filter_eq_nil_iff]
  simp

theorem mem_copied_rows {src : R1Dir} {file : DbFile} :
    file ∈ (copyFunctions src .empty).databases.rows ↔
      file ∈ src.databases.rows ∧ isFunctionsFile file.name = true := by
  unfold copyFunctions
  rw [KeyedTable.mem_rows_foldl_insertOrIgnore_iff]
  · simp [R1Dir.empty,KeyedTable.empty,KeyedTable.keys]
  · intro x hx y hy hxy
    exact List.inj_on_of_nodup_map src.databases.nodup (List.mem_of_mem_filter hx)
      (List.mem_of_mem_filter hy) hxy

theorem mem_copied_names {src : R1Dir} {name : String} :
    name ∈ (copyFunctions src .empty).names ↔ name ∈ src.names ∧ isFunctionsFile name = true := by
  have hothers : name ∈ (copyFunctions src .empty).others ↔
      name ∈ src.others ∧ isFunctionsFile name = true := by
    simp [copyFunctions,R1Dir.empty,R1Dir.names]
  unfold R1Dir.names KeyedTable.keys
  rw [List.mem_append,List.mem_append,hothers,List.mem_map,List.mem_map]
  constructor
  · rintro (⟨file,hfile,rfl⟩ | ⟨hname,hfun⟩)
    · obtain ⟨hmem,hfun⟩ := mem_copied_rows.mp hfile
      exact ⟨Or.inl ⟨file,hmem,rfl⟩,hfun⟩
    · exact ⟨Or.inr hname,hfun⟩
  · rintro ⟨⟨file,hmem,rfl⟩ | hname,hfun⟩
    · exact Or.inl ⟨file,mem_copied_rows.mpr ⟨hmem,hfun⟩,rfl⟩
    · exact Or.inr ⟨hname,hfun⟩

/-- The shared database is not copied. -/
theorem copied_lookup (src : R1Dir) :
    (copyFunctions src .empty).databases.lookup "functions.db" = none := by
  cases h : (copyFunctions src .empty).databases.lookup "functions.db" with
  | none => rfl
  | some file =>
    obtain ⟨hmem,hname⟩ := KeyedTable.lookup_eq_some_iff.mp h
    have hfun := (mem_copied_rows.mp hmem).2
    have hname : file.name = "functions.db" := hname
    rw [hname] at hfun
    exact absurd hfun (by decide)

theorem copied_glob (src : R1Dir) :
    (copyFunctions src .empty).globFunctions = [] ↔ src.globFunctions = [] := by
  rw [globFunctions_nil_iff,globFunctions_nil_iff]
  constructor
  · intro h name hname
    rw [Bool.eq_false_iff]
    intro hfun
    have hnot := h name (mem_copied_names.mpr ⟨hname,hfun⟩)
    rw [hfun] at hnot
    cases hnot
  · intro h name hname
    exact h name (mem_copied_names.mp hname).1

/-! ## One read -/

variable {run : Option R1Dir} {callchain : Option CallGraph}

theorem complete_source :
    (Store.complete ⟨run,callchain,none⟩).source = run.map fun dir => copyFunctions dir .empty := by
  cases run with
  | none => rfl
  | some dir => rfl

theorem complete_not_shared : ¬(Store.complete ⟨run,callchain,none⟩).HasShared := by
  rintro ⟨dir,hdir,hlookup⟩
  rw [complete_source] at hdir
  obtain ⟨src,-,rfl⟩ := Option.map_eq_some_iff.mp hdir
  rw [copied_lookup] at hlookup
  cases hlookup

variable (run callchain) in
/-- The list of the copied directory is empty. -/
theorem list_complete (offset limit : ℕ) (decision : Option String) :
    getTaskFuncdbFunctions (Store.complete ⟨run,callchain,none⟩) offset limit decision =
      (.page (emptyPage offset limit),Store.complete ⟨run,callchain,none⟩) := by
  unfold getTaskFuncdbFunctions
  rw [complete_source]
  cases run with
  | none => rfl
  | some dir =>
    rw [Option.map_some]
    dsimp only
    rw [copied_lookup]

theorem list_store (offset limit : ℕ) (decision : Option String) :
    (getTaskFuncdbFunctions s offset limit decision).2 = s := by
  unfold getTaskFuncdbFunctions
  split
  · rfl
  · rename_i dir hdir
    split
    · rfl
    · rename_i file hfile
      rw [openDb_of_lookup hfile]
      exact setSource_self hdir

theorem list_total (db : FuncDb) (offset limit : ℕ) (decision : Option String) :
    listFunctionsPaginated db offset limit decision = emptyPage offset limit ↔
      ∀ r ∈ db.functions.rows, isListed decision r = false := by
  have hnil : db.functions.rows.filter (isListed decision) = [] ↔
      ∀ r ∈ db.functions.rows, isListed decision r = false := by
    rw [List.filter_eq_nil_iff]
    simp
  rw [← hnil]
  constructor
  · intro h
    exact List.length_eq_zero_iff.mp (congrArg Page.total h)
  · intro h
    unfold listFunctionsPaginated
    dsimp only
    rw [h]
    simp [emptyPage]

variable (callchain) in
/-- A list is the same before and after iff it is a list of nothing. -/
theorem list_same_iff (offset limit : ℕ) (decision : Option String) :
    Response.page (emptyPage offset limit) =
        (getTaskFuncdbFunctions ⟨run,callchain,none⟩ offset limit decision).1 ↔
      Harmless run (.list offset limit decision) := by
  unfold getTaskFuncdbFunctions Harmless
  cases run with
  | none => simp [Store.source]
  | some dir =>
    have hsource : (Store.mk (some dir) callchain none).source = some dir := rfl
    rw [hsource]
    dsimp only
    cases hfile : dir.databases.lookup "functions.db" with
    | none => simp [hfile]
    | some file =>
      have hpage := list_total file.db offset limit decision
      constructor
      · intro h dir' hdir' file' hfile'
        cases hdir'
        rw [hfile] at hfile'
        cases hfile'
        exact hpage.mp (Response.page.inj h).symm
      · intro h
        exact congrArg Response.page (hpage.mpr (h dir rfl file hfile)).symm

variable (callchain) in
/-- A read is answered alike before and after, and leaves the files alone, iff it does not notice. -/
theorem serve_same_iff (py : PyRuntime) (q : Read) :
    ((serve py (Store.complete ⟨run,callchain,none⟩) q).1 =
          (serve py ⟨run,callchain,none⟩ q).1 ∧
        (serve py ⟨run,callchain,none⟩ q).2 = ⟨run,callchain,none⟩ ∧
        (serve py (Store.complete ⟨run,callchain,none⟩) q).2 =
          Store.complete ⟨run,callchain,none⟩) ↔
      Harmless run q := by
  cases q with
  | list offset limit decision =>
    have hcomplete := list_complete run callchain offset limit decision
    unfold serve
    dsimp only
    rw [hcomplete,list_store,← list_same_iff callchain]
    simp
  | detail funcHash fileHash =>
    constructor
    · rintro ⟨-,-,hstore⟩
      have hquiet : ¬(fileHash ≠ "" ∨ ∃ dir ∈ (Store.complete ⟨run,callchain,none⟩).source,
          dir.globFunctions ≠ []) := by
        intro hnoticed
        obtain ⟨dir,hdir,hlookup⟩ := findFunction_shared funcHash hnoticed
        rw [← detail_source py] at hdir
        have hstore : (getTaskFunctionDetail py (Store.complete ⟨run,callchain,none⟩) funcHash
          fileHash).2 = Store.complete ⟨run,callchain,none⟩ := hstore
        rw [hstore] at hdir
        exact complete_not_shared ⟨dir,hdir,hlookup⟩
      push Not at hquiet
      refine ⟨hquiet.1,fun dir hdir => ?_⟩
      refine (copied_glob dir).mp (hquiet.2 _ ?_)
      rw [complete_source,hdir]
      rfl
    · rintro ⟨rfl,hglob⟩
      have hbefore := detail_quiet (s := ⟨run,callchain,none⟩) py hglob funcHash
      have hafter : getTaskFunctionDetail py (Store.complete ⟨run,callchain,none⟩) funcHash "" =
          (.notFound,Store.complete ⟨run,callchain,none⟩) := by
        refine detail_quiet py (fun dir hdir => ?_) funcHash
        rw [complete_source] at hdir
        obtain ⟨src,hsrc,rfl⟩ := Option.map_eq_some_iff.mp hdir
        exact (copied_glob src).mpr (hglob src hsrc)
      unfold serve
      dsimp only
      rw [hbefore,hafter]
      exact ⟨rfl,rfl,rfl⟩

/-! ## Sequences of reads -/

theorem survives_cons {py : PyRuntime} {q : Read} {qs : List Read} :
    Survives py run callchain (q :: qs) ↔ Harmless run q ∧ Survives py run callchain qs := by
  rw [← serve_same_iff callchain py q]
  constructor
  · rintro ⟨hsame,hbefore,hafter⟩
    rw [serveAll,List.forall_mem_cons] at hbefore hafter
    obtain ⟨hbefore,hbefores⟩ := hbefore
    obtain ⟨hafter,hafters⟩ := hafter
    rw [serveAll,serveAll,List.map_cons,List.map_cons,hbefore,hafter] at hsame
    rw [hbefore] at hbefores
    rw [hafter] at hafters
    obtain ⟨hhead,htail⟩ := List.cons.inj hsame
    exact ⟨⟨hhead,hbefore,hafter⟩,htail,hbefores,hafters⟩
  · rintro ⟨⟨hhead,hbefore,hafter⟩,htail⟩
    refine ⟨?_,?_,?_⟩
    · rw [serveAll,serveAll,List.map_cons,List.map_cons,hhead,hbefore,hafter,htail.same]
    · rw [serveAll,List.forall_mem_cons,hbefore]
      exact ⟨rfl,htail.before⟩
    · rw [serveAll,List.forall_mem_cons,hafter]
      exact ⟨rfl,htail.after⟩

/-- The function list survives the completion of a task iff no read notices it: every list is of
nothing, and every detail is asked for without a file hash in a directory without databases of
single source files. -/
theorem survives_iff (py : PyRuntime) (run : Option R1Dir) (callchain : Option CallGraph)
    (qs : List Read) : Survives py run callchain qs ↔ ∀ q ∈ qs, Harmless run q := by
  induction qs with
  | nil =>
    refine ⟨fun _ => List.forall_mem_nil _,fun _ => ⟨rfl,?_,?_⟩⟩
    · exact List.forall_mem_nil _
    · exact List.forall_mem_nil _
  | cons q qs ih => rw [survives_cons,List.forall_mem_cons,ih]

/-- The directory of a run that has registered one function. -/
def oneFunction : R1Dir where
  databases :=
    let row := newRow "a1" "f1" "on_packet" "int on_packet(void)" 3 9 "{}"
    ⟨[⟨"functions.db",⟨.empty,⟨[row],List.nodup_singleton _⟩⟩⟩],List.nodup_singleton _⟩
  others := []

/-- Its list is empty after the completion, and a detail that names a file makes the database that is
missing there. -/
theorem list_lost :
    ¬Survives plainRuntime (some oneFunction) none [.list 0 50 none] ∧
    ¬Survives plainRuntime (some oneFunction) none [.detail "a1" "f1"] := by
  constructor
  · intro h
    have hharmless := (survives_cons.mp h).1
    have hrow := hharmless oneFunction rfl _ rfl _ (List.mem_singleton_self _)
    cases hrow
  · intro h
    have hharmless := (survives_cons.mp h).1
    exact absurd hharmless.1 (by decide)

end FunctionReads
end EntryAnalyse
