import EntryAnalyse.KeyedTable
import EntryAnalyse.FunctionsList

/-! The function database: the tables `file_meta` and `functions`, the methods of `FunctionDB`
that write them, the query for the entries to keep, and the directory that holds the database
file. -/
namespace EntryAnalyse

open PyJson

/-! ## Rows -/

/-- A row of `file_meta`. -/
structure FileMeta where
  fileHash : String
  originalPath : String
  relPath : String
  basename : String
  totalFuncs : ℕ

/-- A row of `functions`. The text in `analysis` is given by the value that it parses to; every
writer stores the output of `json.dumps`. -/
structure FunctionRow where
  funcHash : String
  fileHash : String
  name : String
  signature : String
  startLine : ℤ
  endLine : ℤ
  body : String
  bodyLines : ℤ
  analysis : Option PyJson
  hasExternalInput : Option ℤ
  entryRole : String
  entryConfidence : Option PyFloat
  r3Decision : Option String
  r4Decision : Option String
  entryCategory : Option String

/-- The extractor's description of a function. -/
structure FunctionExtract where
  name : String
  signature : String
  startLine : ℤ
  endLine : ℤ
  body : String

/-- An item of a `functions.json` document, with the defaults filled in. -/
structure JsonFunction where
  funcHash : String
  name : String
  signature : String
  startLine : ℤ
  endLine : ℤ
  body : String
  analysis : PyJson

/-- `body.count("\n") + 1 if body.strip() else 0`. -/
def countBodyLines (body : String) : ℤ :=
  if strip body = "" then 0 else body.toList.count '\n' + 1

/-- `Path(p).name`. -/
def pathName (p : String) : String :=
  ((p.splitToList (· == '/')).filter (fun s => s != "" && s != ".")).getLastD ""

/-- A row as the inserting statements leave it: the columns they do not name have their
defaults. -/
def newRow (funcHash fileHash name signature : String) (startLine endLine : ℤ) (body : String) :
    FunctionRow where
  funcHash := funcHash
  fileHash := fileHash
  name := name
  signature := signature
  startLine := startLine
  endLine := endLine
  body := body
  bodyLines := countBodyLines body
  analysis := none
  hasExternalInput := none
  entryRole := ""
  entryConfidence := none
  r3Decision := none
  r4Decision := none
  entryCategory := some ""

structure FuncDb where
  fileMeta : KeyedTable FileMeta.fileHash
  functions : KeyedTable FunctionRow.funcHash

namespace FuncDb

def empty : FuncDb := ⟨.empty,.empty⟩

/-! ## Writing -/

/-- `write_functions`: rows that are there already stay as they are. -/
def writeFunctions (db : FuncDb) (fileHash originalPath : String) (funcs : List FunctionExtract)
    (funcHashes : List String) (relPath : String) : FuncDb where
  fileMeta := db.fileMeta.insertOrReplace
    ⟨fileHash,originalPath,relPath,pathName originalPath,funcs.length⟩
  functions := (funcs.zip funcHashes).foldl (fun t p =>
    t.insertOrIgnore
      (newRow p.2 fileHash p.1.name p.1.signature p.1.startLine p.1.endLine p.1.body)) db.functions

/-- `UPDATE functions SET … WHERE func_hash = ?`. -/
def updateFunctions (db : FuncDb) (funcHash : String) (f : FunctionRow → FunctionRow)
    (hf : ∀ r, (f r).funcHash = r.funcHash) : FuncDb :=
  { db with functions := db.functions.updateWhere (fun r => r.funcHash = funcHash) f hf }

theorem lookup_updateFunctions (db : FuncDb) (h : String) (f : FunctionRow → FunctionRow)
    (hf : ∀ r, (f r).funcHash = r.funcHash) (k : String) :
    (db.updateFunctions h f hf).functions.lookup k =
      if k = h then (db.functions.lookup k).map f else db.functions.lookup k := by
  unfold updateFunctions
  rw [KeyedTable.lookup_updateWhere]
  cases hr : db.functions.lookup k with
  | none => simp
  | some r =>
    have hk : r.funcHash = k := (KeyedTable.lookup_eq_some_iff.mp hr).2
    by_cases hh : k = h <;> simp [hk,hh]

/-- `update_function`: a keyword that is absent or `None` leaves its column alone. -/
def updateFunction (db : FuncDb) (funcHash : String) (name signature : Option String)
    (startLine endLine : Option ℤ) (body : Option String) : FuncDb :=
  db.updateFunctions funcHash (fun r =>
    { r with
      name := name.getD r.name
      signature := signature.getD r.signature
      startLine := startLine.getD r.startLine
      endLine := endLine.getD r.endLine
      body := body.getD r.body
      bodyLines := (body.map countBodyLines).getD r.bodyLines }) (fun _ => rfl)

def deleteFunction (db : FuncDb) (funcHash : String) : FuncDb :=
  { db with functions := db.functions.deleteWhere (fun r => r.funcHash = funcHash) }

/-- `set_analysis`; `confidence` is the score computed from the analysis. -/
def setAnalysis (py : PyRuntime) (db : FuncDb) (funcHash : String)
    (analysis : List (String × PyJson)) (confidence : PyFloat) : FuncDb :=
  let role := py.text (field analysis "entry_role")
  db.updateFunctions funcHash (fun r =>
    { r with
      analysis := some (.dict analysis)
      hasExternalInput := some (if (field analysis "has_external_input").truthy then 1 else 0)
      entryRole := if FunctionsList.validEntryRoles.contains role then role else ""
      entryConfidence := some confidence }) (fun _ => rfl)

def updateConfidence (db : FuncDb) (funcHash : String) (confidence : PyFloat) : FuncDb :=
  db.updateFunctions funcHash (fun r => { r with entryConfidence := some confidence })
    (fun _ => rfl)

def updateR3Decision (db : FuncDb) (funcHash decision : String) : FuncDb :=
  db.updateFunctions funcHash (fun r => { r with r3Decision := some decision }) (fun _ => rfl)

def setFastModeResult (db : FuncDb) (funcHash decision : String) (hasExternalInput : ℤ) :
    FuncDb :=
  db.updateFunctions funcHash (fun r =>
    { r with r3Decision := some decision, hasExternalInput := some hasExternalInput })
    (fun _ => rfl)

def updateR4Decision (db : FuncDb) (funcHash decision : String) : FuncDb :=
  db.updateFunctions funcHash (fun r => { r with r4Decision := some decision }) (fun _ => rfl)

def updateEntryCategory (db : FuncDb) (funcHash category : String) : FuncDb :=
  db.updateFunctions funcHash (fun r => { r with entryCategory := some category })
    (fun _ => rfl)

/-- The row that `apply_corrections` inserts for a function the extractor had missed. -/
def insertFunction (db : FuncDb) (funcHash fileHash name signature : String)
    (startLine endLine : ℤ) (body : String) : FuncDb :=
  { db with
    functions := db.functions.insertOrIgnore
      (newRow funcHash fileHash name signature startLine endLine body) }

def upsertFunction (db : FuncDb) (funcHash fileHash name signature : String)
    (startLine endLine : ℤ) (body : String) : FuncDb :=
  { db with
    functions := db.functions.insertOrReplace
      (newRow funcHash fileHash name signature startLine endLine body) }

/-- The row that `sync_from_json` stores for an item. -/
def jsonRow (fileHash : String) (item : JsonFunction) : FunctionRow :=
  { newRow item.funcHash fileHash item.name item.signature item.startLine item.endLine item.body
    with
    analysis := if item.analysis.truthy then some item.analysis else none
    hasExternalInput :=
      match item.analysis with
      | .dict [] => none
      | .dict d => some (if (field d "has_external_input").truthy then 1 else 0)
      | _ => none }

/-- `sync_from_json`: the items replace the rows with their hashes, and the rows of the file
that are not among them are deleted, unless there are no items at all. -/
def syncFromJson (db : FuncDb) (fileHash originalPath relPath : String)
    (items : List JsonFunction) : FuncDb :=
  let named := items.filter (fun item => item.funcHash != "")
  let hashes := named.map JsonFunction.funcHash
  let functions := named.foldl (fun t item => t.insertOrReplace (jsonRow fileHash item)) db.functions
  { fileMeta :=
      if fileHash = "" then db.fileMeta
      else db.fileMeta.insertOrReplace
        ⟨fileHash,originalPath,relPath,pathName originalPath,items.length⟩
    functions :=
      if fileHash = "" || hashes.isEmpty then functions
      else functions.deleteWhere (fun r => r.fileHash = fileHash && !hashes.contains r.funcHash) }

end FuncDb

/-- A call of one of the writing methods. -/
inductive FuncDbWrite
  | writeFunctions (fileHash originalPath : String) (funcs : List FunctionExtract)
      (funcHashes : List String) (relPath : String)
  | updateFunction (funcHash : String) (name signature : Option String)
      (startLine endLine : Option ℤ) (body : Option String)
  | deleteFunction (funcHash : String)
  | setAnalysis (funcHash : String) (analysis : List (String × PyJson)) (confidence : PyFloat)
  | updateConfidence (funcHash : String) (confidence : PyFloat)
  | updateR3Decision (funcHash decision : String)
  | setFastModeResult (funcHash decision : String) (hasExternalInput : ℤ)
  | updateR4Decision (funcHash decision : String)
  | updateEntryCategory (funcHash category : String)
  | insertFunction (funcHash fileHash name signature : String) (startLine endLine : ℤ)
      (body : String)
  | upsertFunction (funcHash fileHash name signature : String) (startLine endLine : ℤ)
      (body : String)
  | syncFromJson (fileHash originalPath relPath : String) (items : List JsonFunction)

namespace FuncDb

def write (py : PyRuntime) (db : FuncDb) : FuncDbWrite → FuncDb
  | .writeFunctions fileHash path funcs hashes rel =>
    db.writeFunctions fileHash path funcs hashes rel
  | .updateFunction h name sig s e body => db.updateFunction h name sig s e body
  | .deleteFunction h => db.deleteFunction h
  | .setAnalysis h analysis confidence => db.setAnalysis py h analysis confidence
  | .updateConfidence h confidence => db.updateConfidence h confidence
  | .updateR3Decision h decision => db.updateR3Decision h decision
  | .setFastModeResult h decision input => db.setFastModeResult h decision input
  | .updateR4Decision h decision => db.updateR4Decision h decision
  | .updateEntryCategory h category => db.updateEntryCategory h category
  | .insertFunction h fileHash name sig s e body => db.insertFunction h fileHash name sig s e body
  | .upsertFunction h fileHash name sig s e body => db.upsertFunction h fileHash name sig s e body
  | .syncFromJson fileHash path rel items => db.syncFromJson fileHash path rel items

/-! ## `get_keep_entries` -/

def relPathOf (db : FuncDb) (r : FunctionRow) : Option String :=
  (db.fileMeta.lookup r.fileHash).map FileMeta.relPath

/-- The `WHERE` clause. -/
def isKeepRow (r : FunctionRow) : Bool :=
  r.r3Decision == some "keep"
    && (r.r4Decision == none || r.r4Decision == some "keep")
    && (r.entryCategory == none || r.entryCategory == some ""
      || r.entryCategory != some "内部实现")

/-- `ORDER BY fm.rel_path, f.start_line`; a missing path comes first. -/
def keepOrder (db : FuncDb) (r s : FunctionRow) : Bool :=
  match db.relPathOf r,db.relPathOf s with
  | none,none => r.startLine ≤ s.startLine
  | none,some _ => true
  | some _,none => false
  | some p,some q => p < q || (p == q && r.startLine ≤ s.startLine)

def optText : Option String → PyJson
  | some s => .str s
  | none => .null

/-- The dictionary for a row; the tag of the analysis is lifted to the top. -/
def keepEntry (db : FuncDb) (r : FunctionRow) : List (String × PyJson) :=
  [("func_hash",.str r.funcHash),("file_hash",.str r.fileHash),("name",.str r.name),
   ("signature",.str r.signature),("start_line",.int r.startLine),("end_line",.int r.endLine),
   ("body_lines",.int r.bodyLines),
   ("has_external_input",(r.hasExternalInput.map PyJson.int).getD .null),
   ("analysis",r.analysis.getD .null),("entry_role",.str r.entryRole),
   ("entry_confidence",(r.entryConfidence.map PyJson.float).getD .null),
   ("r3_decision",optText r.r3Decision),("r4_decision",optText r.r4Decision),
   ("entry_category",optText r.entryCategory),
   ("file_path",optText (db.relPathOf r)),
   ("original_path",optText ((db.fileMeta.lookup r.fileHash).map FileMeta.originalPath)),
   ("tag",match r.analysis with
     | some (.dict d) => PyDict.getD d "tag" (.str "")
     | _ => .str "")]

def getKeepEntries (db : FuncDb) : List (List (String × PyJson)) :=
  ((db.functions.rows.filter isKeepRow).insertionSort (fun r s => db.keepOrder r s)).map
    db.keepEntry

/-- An entry of the function with this hash. -/
def hasHash (h : String) (e : List (String × PyJson)) : Bool :=
  match field e "func_hash" with
  | .str s => s == h
  | _ => false

theorem hasHash_congr {h : String} {e e' : List (String × PyJson)}
    (hget : PyDict.get e "func_hash" = PyDict.get e' "func_hash") : hasHash h e = hasHash h e' := by
  simp only [hasHash,field,PyDict.getD,hget]

/-- A function that the query selects has one entry, any other none. -/
theorem countP_getKeepEntries (db : FuncDb) (h : String) :
    db.getKeepEntries.countP (hasHash h) =
      if ∃ r ∈ db.functions.rows, isKeepRow r ∧ r.funcHash = h then 1 else 0 := by
  rw [← db.functions.count_keys_filter isKeepRow h]
  unfold getKeepEntries
  rw [List.countP_map,(List.perm_insertionSort _ _).countP_eq,List.count,List.countP_map]
  rfl

/-- The query returns the function with this hash. -/
def returns (db : FuncDb) (h : String) : Bool := (db.functions.lookup h).any isKeepRow

theorem countP_eq_returns (db : FuncDb) (h : String) :
    db.getKeepEntries.countP (hasHash h) = (db.returns h).toNat := by
  rw [countP_getKeepEntries,returns]
  cases hr : db.functions.lookup h with
  | none =>
    rw [if_neg]
    · rfl
    · rintro ⟨r,hmem,-,hk⟩
      rw [KeyedTable.lookup_eq_some_iff.mpr ⟨hmem,hk⟩] at hr
      cases hr
  | some r =>
    obtain ⟨hmem,hk⟩ := KeyedTable.lookup_eq_some_iff.mp hr
    by_cases hkeep : isKeepRow r
    · rw [if_pos ⟨r,hmem,hkeep,hk⟩]
      simp [hkeep]
    · rw [if_neg]
      · simp [hkeep]
      · rintro ⟨r',hmem',hkeep',hk'⟩
        have heq := KeyedTable.lookup_eq_some_iff.mpr ⟨hmem',hk'⟩
        rw [hr,Option.some_inj] at heq
        rw [heq] at hkeep
        exact hkeep hkeep'

end FuncDb

/-! ## The directory -/

/-- A database file and its content. -/
structure DbFile where
  name : String
  db : FuncDb

/-- The directory `r1-functions`. -/
structure R1Dir where
  databases : KeyedTable DbFile.name
  others : List String

/-- The file that `FunctionDB.open` opens: the file hash is ignored. -/
def openName (_fileHash : String) : String := "functions.db"

/-- The file that `FunctionDB.open_per_file` opens. -/
def openPerFileName (fileHash : String) : String := fileHash ++ "_functions.db"

namespace R1Dir

def empty : R1Dir := ⟨.empty,[]⟩

def names (dir : R1Dir) : List String := dir.databases.keys ++ dir.others

/-- `FunctionDB.open`: the file is made with empty tables if it is not there. -/
def openDb (dir : R1Dir) (fileHash : String) : R1Dir :=
  { dir with databases := dir.databases.insertOrIgnore ⟨openName fileHash,.empty⟩ }

/-- The content that `FunctionDB.open` finds. -/
def functionsDb (dir : R1Dir) (fileHash : String) : FuncDb :=
  ((dir.databases.lookup (openName fileHash)).map DbFile.db).getD .empty

/-- Every file hash opens the same database. -/
theorem functionsDb_eq (dir : R1Dir) (h h' : String) : dir.functionsDb h = dir.functionsDb h' :=
  rfl

theorem functionsDb_openDb (dir : R1Dir) (h h' : String) :
    (dir.openDb h).functionsDb h' = dir.functionsDb h' := by
  unfold functionsDb openDb
  rw [KeyedTable.lookup_insertOrIgnore]
  cases dir.databases.lookup (openName h') with
  | some file => rfl
  | none => rfl

/-- A method called on the opened database. -/
def update (dir : R1Dir) (fileHash : String) (f : FuncDb → FuncDb) : R1Dir :=
  { dir with
    databases := (dir.openDb fileHash).databases.updateWhere
      (fun file => file.name = openName fileHash) (fun file => { file with db := f file.db })
      (fun _ => rfl) }

end R1Dir

/-- What the stages before R6 do in the directory. -/
inductive R1Act
  | openDb (fileHash : String)
  | write (fileHash : String) (w : FuncDbWrite)
  | gaps (fileHash : String)
  | incomplete

namespace R1Dir

def step (py : PyRuntime) (dir : R1Dir) : R1Act → R1Dir
  | .openDb fileHash => dir.openDb fileHash
  | .write fileHash w => dir.update fileHash (fun db => db.write py w)
  | .gaps fileHash => { dir with others := (fileHash ++ "_gaps.json") :: dir.others }
  | .incomplete => { dir with others := "incomplete_functions.json" :: dir.others }

def run (py : PyRuntime) (dir : R1Dir) (acts : List R1Act) : R1Dir := acts.foldl (step py) dir

/-- `glob("*_functions.db")`, sorted. -/
def globFunctions (dir : R1Dir) : List String :=
  (dir.names.filter (fun name => "_functions.db".toList.isSuffixOf name.toList)).insertionSort
    (· ≤ ·)

theorem openPerFileName_globbed {dir : R1Dir} {fileHash : String}
    (h : openPerFileName fileHash ∈ dir.names) : openPerFileName fileHash ∈ dir.globFunctions := by
  unfold globFunctions
  rw [List.mem_insertionSort,List.mem_filter]
  exact ⟨h,by simp [openPerFileName]⟩

end R1Dir
end EntryAnalyse
