import EntryAnalyse.FuncDb
import EntryAnalyse.CallchainDb

/-! The last stage of the pipeline: the kept entries are read back from the database files of
the directory, classified by the call chain, and handed to the caller. -/
namespace EntryAnalyse

open PyJson

/-- `NodeState`. -/
inductive NodeState
  | pending | running | passed | failed
  deriving DecidableEq

/-- The fields of the pipeline that the stage reads or writes. -/
structure R6State where
  r6State : NodeState
  r6Attempts : ℕ
  r6Feedback : String
  r4JConfirmed : Bool

/-- What the stage meets: the files whose reading raises, the call-chain database if it is
there and can be queried, and the cancel event. -/
structure R6Env where
  readFails : String → Bool
  callchain : Option CallchainDb
  cancelled : Bool

/-! ## File names -/

/-- `Path(name).stem`. -/
def stem (name : String) : String :=
  let upToDot := (name.toList.reverse.dropWhile (· != '.')).reverse
  if upToDot.length ≤ 1 || upToDot.length = name.toList.length then name
  else String.ofList upToDot.dropLast

/-- `text.replace(pattern, "")`; the first `skip` characters belong to a match. -/
def removeAll (pattern : List Char) : ℕ → List Char → List Char
  | _,[] => []
  | skip + 1,_ :: cs => removeAll pattern skip cs
  | 0,c :: cs =>
    if pattern.isPrefixOf (c :: cs) then removeAll pattern (pattern.length - 1) cs
    else c :: removeAll pattern 0 cs

/-- `db_file.stem.replace("_functions", "")`. -/
def fileHashOf (name : String) : String :=
  String.ofList (removeAll "_functions".toList 0 (stem name).toList)

example : fileHashOf (openPerFileName "84f839ab0069") = "84f839ab0069" := by decide +kernel

/-! ## Reading the kept entries -/

/-- One turn of the reading loop. A file that cannot be read is passed over. -/
def readStep (fails : String → Bool) (acc : R1Dir × List (List (String × PyJson)))
    (name : String) : R1Dir × List (List (String × PyJson)) :=
  if fails name then acc
  else
    let dir := acc.1.openDb (fileHashOf name)
    (dir,acc.2 ++ (dir.functionsDb (fileHashOf name)).getKeepEntries)

/-- The loop over the database files. -/
def readKeepEntries (fails : String → Bool) (dir : R1Dir) :
    R1Dir × List (List (String × PyJson)) :=
  dir.globFunctions.foldl (readStep fails) (dir,[])

/-- Whatever file a turn is for, the one shared database is read. -/
theorem readStep_foldl (fails : String → Bool) (dir : R1Dir) (names : List String)
    (acc : R1Dir × List (List (String × PyJson)))
    (h : acc.1.functionsDb "" = dir.functionsDb "") :
    (names.foldl (readStep fails) acc).1.functionsDb "" = dir.functionsDb "" ∧
      (names.foldl (readStep fails) acc).2 = acc.2 ++ (names.filter (fun name => !fails name)).flatMap
        (fun _ => (dir.functionsDb "").getKeepEntries) := by
  induction names generalizing acc with
  | nil => simp [h]
  | cons name names ih =>
    rw [List.foldl_cons]
    by_cases hf : fails name
    · simpa [readStep,hf] using ih acc h
    · have hopen : (acc.1.openDb (fileHashOf name)).functionsDb "" = dir.functionsDb "" :=
        (R1Dir.functionsDb_openDb _ _ _).trans h
      have hread : (acc.1.openDb (fileHashOf name)).functionsDb (fileHashOf name) =
          dir.functionsDb "" := (R1Dir.functionsDb_eq _ _ _).trans hopen
      have hstep : readStep fails acc name = (acc.1.openDb (fileHashOf name),
          acc.2 ++ (dir.functionsDb "").getKeepEntries) := by
        simp [readStep,hf,hread]
      rw [hstep]
      obtain ⟨hdb,hentries⟩ := ih (acc.1.openDb (fileHashOf name),_) hopen
      exact ⟨hdb,by simp [hentries,hf]⟩

/-- The entries of the shared database, once for every file that is found. -/
theorem readKeepEntries_entries (fails : String → Bool) (dir : R1Dir) :
    (readKeepEntries fails dir).2 = (dir.globFunctions.filter (fun name => !fails name)).flatMap
      (fun _ => (dir.functionsDb "").getKeepEntries) :=
  (readStep_foldl fails dir dir.globFunctions (dir,[]) rfl).2

/-- A kept function has as many entries as there are files to be read. -/
theorem countP_readKeepEntries (fails : String → Bool) (dir : R1Dir) (h : String) :
    (readKeepEntries fails dir).2.countP (FuncDb.hasHash h) =
      (dir.globFunctions.filter (fun name => !fails name)).length *
        if ∃ r ∈ (dir.functionsDb "").functions.rows, FuncDb.isKeepRow r ∧ r.funcHash = h
        then 1 else 0 := by
  rw [readKeepEntries_entries,List.countP_flatMap,← FuncDb.countP_getKeepEntries]
  simp [Function.comp_def]

/-! ## Classification -/

def textOf : PyJson → String
  | .str s => s
  | _ => ""

def isActive (e : List (String × PyJson)) : Bool :=
  let isA := fun | PyJson.str s => s == "A" | _ => false
  isA (field e "tag") ||
    match field e "analysis" with
    | .dict d => isA (field d "tag")
    | _ => false

/-- The categories are written once for each database file that is found. -/
def writeCategories (fails : String → Bool) (dir : R1Dir)
    (detail : List (String × EntryCategory)) : R1Dir :=
  dir.globFunctions.foldl (fun dir name =>
    if fails name then dir
    else dir.update (fileHashOf name) (fun db =>
      detail.foldl (fun db p => db.updateEntryCategory p.1 p.2.label) db)) dir

/-- `_run_entry_classification`. Without the call chain every entry that has no category
counts as external. -/
def runEntryClassification (env : R6Env) (dir : R1Dir) (entries : List (List (String × PyJson))) :
    R1Dir × Option CallchainDb × List (List (String × PyJson)) :=
  let external := PyJson.str EntryCategory.external.label
  match env.callchain with
  | none => (dir,none,entries.map (fun e => PyDict.setdefault e "entry_category" external))
  | some cc =>
    let kept := (entries.map (fun e => textOf (field e "func_hash"))).dedup
    let aType := (entries.filter isActive).map (fun e => textOf (field e "func_hash"))
    let (cc,detail) := cc.classifyEntryCategories kept aType 2
    let category := fun e =>
      match detail.lookup (textOf (field e "func_hash")) with
      | some c => PyJson.str c.label
      | none => external
    (writeCategories env.readFails dir detail,some cc,
      entries.map (fun e => PyDict.set e "entry_category" (category e)))

/-! ## `_run_r6_finalize` -/

/-- The issues that the script check finds in an entry. -/
def entryIssues (e : List (String × PyJson)) : ℕ :=
  (if ((field e "function").or (field e "name")).truthy then 0 else 1)
    + (if (field e "taints").truthy then 0 else 1)
    + (if FunctionsList.isTag (field e "tag") then 0 else 1)

/-- `_script_finalize_r6`. -/
def scriptFinalizeR6 (entries : List (List (String × PyJson))) (st : R6State) : R6State :=
  { st with
    r6State := .passed
    r6Attempts := max st.r6Attempts 1
    r6Feedback := "script: " ++ toString entries.length ++ " entries, "
      ++ toString ((entries.map entryIssues).sum) ++ " field warnings" }

structure R6Result where
  dir : R1Dir
  callchain : Option CallchainDb
  state : R6State
  entries : List (List (String × PyJson))

/-- Without entries the stage counts as passed, and nothing is classified. -/
def runR6Finalize (env : R6Env) (dir : R1Dir) (st : R6State) : R6Result :=
  let read := readKeepEntries env.readFails dir
  if read.2.isEmpty then
    ⟨read.1,env.callchain,{ st with r6State := .passed, r4JConfirmed := true },[]⟩
  else if env.cancelled then ⟨read.1,env.callchain,st,read.2⟩
  else
    let (dir,cc,entries) := runEntryClassification env read.1 read.2
    let st := if st.r6State = .passed then st else scriptFinalizeR6 entries st
    ⟨dir,cc,{ st with r6State := .passed, r4JConfirmed := true },entries⟩

/-- Classification gives the entries a category and leaves the functions they stand for. -/
theorem countP_runEntryClassification (env : R6Env) (dir : R1Dir)
    (entries : List (List (String × PyJson))) (h : String) :
    (runEntryClassification env dir entries).2.2.countP (FuncDb.hasHash h) =
      entries.countP (FuncDb.hasHash h) := by
  unfold runEntryClassification
  split
  · rw [List.countP_map]
    apply List.countP_congr
    intro e _
    rw [Function.comp_apply,FuncDb.hasHash_congr (PyDict.get_setdefault_of_ne e _ (by decide))]
  · rw [List.countP_map]
    apply List.countP_congr
    intro e _
    rw [Function.comp_apply,FuncDb.hasHash_congr (PyDict.get_set_of_ne e _ (by decide))]

/-- R6 returns a function that the query selects once for every file that its loop reads. -/
theorem countP_runR6Finalize (env : R6Env) (dir : R1Dir) (st : R6State) (h : String) :
    (runR6Finalize env dir st).entries.countP (FuncDb.hasHash h) =
      (dir.globFunctions.filter (fun name => !env.readFails name)).length *
        if ∃ r ∈ (dir.functionsDb "").functions.rows, FuncDb.isKeepRow r ∧ r.funcHash = h
        then 1 else 0 := by
  rw [← countP_readKeepEntries]
  unfold runR6Finalize
  dsimp only
  split
  · rename_i hnil
    rw [List.isEmpty_iff.mp hnil]
  · split
    · rfl
    · exact countP_runEntryClassification env _ _ h

/-- Without a file to read, R6 returns nothing and leaves the directory as it was. -/
theorem runR6Finalize_of_no_files (env : R6Env) (st : R6State) {dir : R1Dir}
    (h : dir.globFunctions = []) :
    (runR6Finalize env dir st).entries = [] ∧ (runR6Finalize env dir st).dir = dir := by
  simp [runR6Finalize,readKeepEntries,h]

end EntryAnalyse
