import EntryAnalyse.R6Finalize

/-! The output of a task: `functions.list`, `handler.list` and `entry-details.json`, written
from the entries of the database or, if there are none, from what the pipeline returned. A
function that the stages decided to keep should come out exactly once. Both readers look for
files named `*_functions.db`, and `FunctionDB.open` makes no such file, so the lists come out
empty. -/
namespace EntryAnalyse

open PyJson

/-! ## `_flatten_r4_entries` -/

/-- An entry whose taints are at the top already; only a missing `file` is filled in. -/
def passEntry (e : List (String × PyJson)) : List (String × PyJson) :=
  if (field e "file").truthy then e
  else PyDict.set e "file" ((field e "file_path").or ((field e "original_path").or (.str "")))

/-- The analysis of a nested entry, parsed if it is still a text. -/
def analysisOf (py : PyRuntime) (e : List (String × PyJson)) : PyJson :=
  match (field e "analysis").or (.dict []) with
  | .str s => (py.loads s).getD (.dict [])
  | a => a

/-- The flat form of an entry with the analysis `a`. -/
def flatEntry (py : PyRuntime) (e a : List (String × PyJson)) :
    Except PyError (List (String × PyJson)) := do
  let flat : List (String × PyJson) :=
    [("tag",(field a "tag").or (.str "P")),
     ("file",(field e "file").or ((field e "file_path").or (.str ""))),
     ("line",(field e "start_line").or (.int 0)),
     ("function",(field e "name").or (.str "")),
     ("taints",(field a "taints").or (.list [])),
     ("function_description",(field a "function_description").or (.str "")),
     ("entry_reason",(field a "entry_reason").or (.str "")),
     ("taint_details",(field a "taint_details").or (.list [])),
     ("func_hash",(field e "func_hash").or (.str "")),
     ("signature",(field e "signature").or (.str "")),
     ("start_line",(field e "start_line").or (.int 0)),
     ("end_line",(field e "end_line").or (.int 0)),
     ("body_lines",(field e "body_lines").or (.int 0)),
     ("entry_category",(field e "entry_category").or (.str ""))]
  let role := (field a "entry_role").or ((field e "entry_role").or (.str ""))
  let flat := if role.truthy then PyDict.set flat "entry_role" role else flat
  match (field a "entry_confidence").or (field e "entry_confidence") with
  | .null => pure flat
  | confidence => do
    let x ← py.float confidence
    pure (PyDict.set flat "entry_confidence" (.float (py.round x)))

def flattenEntry (py : PyRuntime) (e : List (String × PyJson)) :
    Except PyError (List (String × PyJson)) :=
  match FunctionsList.isTag (field e "tag"),field e "taints" with
  | true,.list _ => .ok (passEntry e)
  | _,_ =>
    match analysisOf py e with
    | .dict a => flatEntry py e a
    | _ => .error .attributeError

def flattenR4Entries (py : PyRuntime) (entries : List (List (String × PyJson))) :
    Except PyError (List (List (String × PyJson))) :=
  entries.mapM (flattenEntry py)

/-! ## `Orchestrator.execute` -/

/-- The files that are written. -/
structure Published where
  functionsList : List PyJson
  handlerList : List PyJson
  entryDetails : List PyJson

def isProcessing (e : List (String × PyJson)) : Bool :=
  match field e "entry_category" with
  | .str s => s == EntryCategory.processing.label
  | _ => false

/-- The external entries are replaced by the repaired ones if the repair has logged
anything, and then checked. -/
def fixedEntries (py : PyRuntime) (ext : List PyJson) : Except PyError (List PyJson) :=
  if ext.isEmpty then .ok ext
  else do
    let (fixed,log) ← FunctionsList.autoFixFunctionsList py ext
    let ext := if log.isEmpty then ext else fixed
    let _errors ← FunctionsList.validateFunctionsList py ext
    pure ext

/-- The output section; `returned` is what the pipeline returned. -/
def executeOutput (py : PyRuntime) (fails : String → Bool) (dir : R1Dir)
    (returned : List (List (String × PyJson))) : Except PyError Published := do
  let read := (readKeepEntries fails dir).2
  let all ← flattenR4Entries py (if read.isEmpty then returned else read)
  let ext ← fixedEntries py ((all.filter (fun e => !isProcessing e)).map .dict)
  let hdl := (all.filter isProcessing).map PyJson.dict
  pure ⟨ext,hdl,ext ++ hdl⟩

/-- Without a file to read and an entry to fall back on, the lists are written empty. -/
theorem executeOutput_of_no_files {py : PyRuntime} {fails : String → Bool} {dir : R1Dir}
    (h : dir.globFunctions = []) : executeOutput py fails dir [] = .ok ⟨[],[],[]⟩ := by
  unfold executeOutput readKeepEntries
  rw [h]
  rfl

/-! ## The directory of a task -/

/-- No file of the directory is named like a database of a single source file. -/
def SharedOnly (dir : R1Dir) : Prop :=
  ∀ name ∈ dir.names,"_functions.db".toList.isSuffixOf name.toList = false

theorem SharedOnly.globFunctions {dir : R1Dir} (h : SharedOnly dir) : dir.globFunctions = [] := by
  have hnone : dir.names.filter (fun name => "_functions.db".toList.isSuffixOf name.toList) = [] :=
    List.filter_eq_nil_iff.mpr (fun name hname => Bool.eq_false_iff.mp (h name hname))
  rw [R1Dir.globFunctions,hnone]
  rfl

theorem sharedOnly_empty : SharedOnly .empty := by simp [SharedOnly,R1Dir.names,R1Dir.empty]

theorem SharedOnly.openDb {dir : R1Dir} (h : SharedOnly dir) (fileHash : String) :
    SharedOnly (dir.openDb fileHash) := by
  intro name hname
  rcases List.mem_append.mp hname with hdb | hother
  · rcases KeyedTable.mem_keys_insertOrIgnore.mp hdb with rfl | hdb
    · exact (by decide : "_functions.db".toList.isSuffixOf "functions.db".toList = false)
    · exact h name (List.mem_append_left _ hdb)
  · exact h name (List.mem_append_right _ hother)

theorem SharedOnly.update {dir : R1Dir} (h : SharedOnly dir) (fileHash : String)
    (f : FuncDb → FuncDb) : SharedOnly (dir.update fileHash f) := by
  have hnames : (dir.update fileHash f).names = (dir.openDb fileHash).names := by
    simp only [R1Dir.names,R1Dir.update,KeyedTable.keys_updateWhere]
    rfl
  intro name hname
  exact h.openDb fileHash name (hnames ▸ hname)

theorem SharedOnly.addOther {dir : R1Dir} (h : SharedOnly dir) {name : String}
    (hname : "_functions.db".toList.isSuffixOf name.toList = false) :
    SharedOnly { dir with others := name :: dir.others } := by
  intro other hother
  rcases List.mem_append.mp hother with hdb | hother
  · exact h other (List.mem_append_left _ hdb)
  · rcases List.mem_cons.mp hother with rfl | hother
    · exact hname
    · exact h other (List.mem_append_right _ hother)

theorem gaps_not_functions (fileHash : String) :
    "_functions.db".toList.isSuffixOf (fileHash ++ "_gaps.json").toList = false := by
  rw [Bool.eq_false_iff]
  intro hsuffix
  obtain ⟨pre,hpre⟩ := List.isSuffixOf_iff_suffix.mp hsuffix
  have hlast := congrArg List.getLast? hpre
  simp at hlast

/-- One step of the stages before R6. -/
theorem SharedOnly.step {dir : R1Dir} (h : SharedOnly dir) (py : PyRuntime) (act : R1Act) :
    SharedOnly (dir.step py act) := by
  cases act with
  | openDb fileHash => exact h.openDb fileHash
  | write fileHash w => exact h.update fileHash _
  | gaps fileHash => exact h.addOther (gaps_not_functions fileHash)
  | incomplete => exact h.addOther (by decide)

theorem sharedOnly_run (py : PyRuntime) (acts : List R1Act) :
    SharedOnly (R1Dir.empty.run py acts) := by
  have hrun : ∀ dir : R1Dir,SharedOnly dir → SharedOnly (dir.run py acts) := by
    induction acts with
    | nil => exact fun _ h => h
    | cons act acts ih => exact fun dir h => ih (dir.step py act) (h.step py act)
  exact hrun _ sharedOnly_empty

/-! ## What the lists should hold -/

/-- An analysis that makes a function an entry: it reads outside data itself, or one of its
taints is in the format. -/
def hasInput (r : FunctionRow) : Bool :=
  match r.analysis with
  | some (.dict a) =>
    (match field a "tag" with | .str s => s == "A" | _ => false) ||
      match field a "taints" with
      | .list taints => taints.any (fun | .str t => FunctionsList.taintRe t | _ => false)
      | _ => false
  | _ => false

/-- A function that no stage has filtered and that has an analysis to show for it. -/
def isKeptEntry (r : FunctionRow) : Bool := FuncDb.isKeepRow r && hasInput r

def itemHasHash (h : String) : PyJson → Bool
  | .dict d => FuncDb.hasHash h d
  | _ => false

/-- The kept entries of the database, each once, and nothing else. -/
structure ListsKeptEntries (db : FuncDb) {α : Type} (hasHash : String → α → Bool)
    (items : List α) : Prop where
  once : ∀ r ∈ db.functions.rows,isKeptEntry r → items.countP (hasHash r.funcHash) = 1
  only : ∀ x ∈ items,∃ r ∈ db.functions.rows,isKeptEntry r ∧ hasHash r.funcHash x

theorem ListsKeptEntries.nil {db : FuncDb} {α : Type} {hasHash : String → α → Bool}
    (h : ∀ r ∈ db.functions.rows,isKeptEntry r = false) :
    ListsKeptEntries db hasHash ([] : List α) where
  once r hr he := by simp [h r hr] at he
  only x hx := by simp at hx

/-- R6 returns, and the output section publishes, the kept entries of the database as R6
leaves it. -/
def PublishesKeptEntries (py : PyRuntime) (env : R6Env) (st : R6State) (dir : R1Dir) : Prop :=
  let r6 := runR6Finalize env dir st
  ListsKeptEntries (r6.dir.functionsDb "") FuncDb.hasHash r6.entries ∧
    ∃ pub,executeOutput py env.readFails r6.dir r6.entries = .ok pub ∧
      ListsKeptEntries (r6.dir.functionsDb "") itemHasHash (pub.functionsList ++ pub.handlerList)

/-- Whatever the stages have written, the kept entries are published only if there are none
to publish. -/
theorem kept_entries_published_iff (py : PyRuntime) (env : R6Env) (st : R6State)
    (acts : List R1Act) :
    PublishesKeptEntries py env st (R1Dir.empty.run py acts) ↔
      ∀ r ∈ ((R1Dir.empty.run py acts).functionsDb "").functions.rows,isKeptEntry r = false := by
  have hfiles := (sharedOnly_run py acts).globFunctions
  generalize R1Dir.empty.run py acts = dir at hfiles ⊢
  obtain ⟨hentries,hdir⟩ := runR6Finalize_of_no_files env st hfiles
  constructor
  · rintro ⟨hfinal,-⟩ r hr
    rw [hdir] at hfinal
    rw [Bool.eq_false_iff]
    intro he
    have hone := hfinal.once r hr he
    rw [countP_runR6Finalize,hfiles] at hone
    simp at hone
  · intro hnone
    refine ⟨?_,⟨[],[],[]⟩,?_,?_⟩
    · rw [hentries,hdir]
      exact .nil hnone
    · rw [hentries,hdir]
      exact executeOutput_of_no_files hfiles
    · rw [hdir]
      exact .nil hnone

/-- An interpreter that formats and rounds plain values only. -/
def plainRuntime : PyRuntime where
  repr
    | .null => "None"
    | .bool b => if b then "True" else "False"
    | .int i => toString i
    | .str s => "'" ++ s ++ "'"
    | _ => ""
  dumps
    | .null => "null"
    | .bool b => if b then "true" else "false"
    | .int i => toString i
    | .str s => "\"" ++ s ++ "\""
    | _ => ""
  loads := fun _ => none
  floatOfInt i := some i
  floatOfStr := fun _ => none
  round2 q := ⌊q * 100 + 1 / 2⌋ / 100

/-- One source file with one function, which the stages R1 to R4 have kept. -/
def oneKeptFunction : List R1Act :=
  [.write "84f839ab0069" (.writeFunctions "84f839ab0069" "/src/recv.c"
     [⟨"on_msg","void on_msg(char *msg)",10,12,"void on_msg(char *msg)\n\x7b\n\x7d"⟩]
     ["b9a4a82cac75"] "recv.c"),
   .write "84f839ab0069" (.setAnalysis "b9a4a82cac75"
     [("has_external_input",.bool true),("tag",.str "P"),("taints",.list [.str "msg"]),
      ("entry_role",.str "boundary")] (.finite (45 / 100))),
   .write "84f839ab0069" (.updateR3Decision "b9a4a82cac75" "keep"),
   .write "84f839ab0069" (.updateR4Decision "b9a4a82cac75" "keep")]

/-- Nothing fails and nothing is cancelled, and yet the kept function is neither returned nor
written. -/
theorem kept_entry_not_published :
    ((R1Dir.empty.run plainRuntime oneKeptFunction).functionsDb "").functions.rows.any isKeptEntry
        = true ∧
      ¬PublishesKeptEntries plainRuntime ⟨fun _ => false,some ⟨.empty,.empty⟩,false⟩
        ⟨.pending,0,"",false⟩ (R1Dir.empty.run plainRuntime oneKeptFunction) := by
  have hkept : ((R1Dir.empty.run plainRuntime oneKeptFunction).functionsDb
      "").functions.rows.any isKeptEntry = true := by decide +kernel
  refine ⟨hkept,?_⟩
  obtain ⟨r,hr,he⟩ := List.any_eq_true.mp hkept
  have hfiles := (sharedOnly_run plainRuntime oneKeptFunction).globFunctions
  obtain ⟨hentries,hdir⟩ := runR6Finalize_of_no_files ⟨fun _ => false,some ⟨.empty,.empty⟩,false⟩
    ⟨.pending,0,"",false⟩ hfiles
  rintro ⟨hfinal,-⟩
  rw [hentries,hdir] at hfinal
  have hone := hfinal.once r hr he
  simp at hone

end EntryAnalyse
