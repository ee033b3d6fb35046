import EntryAnalyse.PublishedLists
import EntryAnalyse.RequestMetrics

/-! The stage of the chain that runs the command line once for each module and reads back what the
next stage is given. The command line writes below the directory of its own task; the stage reads a
file beside that directory, which no run writes. -/
namespace EntryAnalyse
namespace ChainedRunner

open Metrics

/-! ## `parse_entry_table` -/

structure Entry where
  file : String
  function : String
  line : String
  entryType : String
  params : String
  description : String
  moduleName : String := ""
  deriving DecidableEq

/-- `text.strip("|")`. -/
def stripBars (text : List Char) : List Char := (text.dropWhile (· == '|')).rdropWhile (· == '|')

def cells (line : String) : List String :=
  ((stripBars (strip line).toList).splitOn '|').map fun cell => strip (String.ofList cell)

/-- A line of the table; the heading and the rule below it are no entries. -/
def parseRow (line : String) : Option Entry :=
  if line.toList.head? = some '|' then
    match cells line with
    | number :: file :: function :: lineNo :: entryType :: params :: rest =>
      if number = "#" ∨ number = "---" then none
      else if file = "文件" ∨ function = "函数名" then none
      else some ⟨file,function,lineNo,entryType,params,rest.headD "",""⟩
    | _ => none
  else none

def parseEntryTable (text : String) : List Entry := (splitlines text).filterMap parseRow

/-! ## The files of the stage -/

/-- The files below the output directory of the stage, by their paths. -/
abbrev Files := List String → Option String

def write (fs : Files) (path : List String) (text : String) : Files :=
  Function.update fs path (some text)

/-- `make_id`: the time and the first eight hexadecimal digits of a UUID. -/
def makeId (time : ℕ) (hex : List (Fin 16)) : String :=
  "task-" ++ toString time ++ "-" ++ String.ofList (hex.map fun d => Nat.digitChar d)

/-- `re.sub(r'[^\w.-]','_',name)`; `alnum` is `str.isalnum` of one character. -/
def sanitize (alnum : Char → Bool) (name : String) : String :=
  String.ofList (name.toList.map fun c =>
    if alnum c || c == '_' || c == '.' || c == '-' then c else '_')

def moduleOut (name : String) : List String := ["modules",name]

def resultFile (alnum : Char → Bool) (name : String) : List String :=
  moduleOut name ++ [sanitize alnum name ++ ".md"]

/-! ## The command line -/

inductive Exit
  | passed
  | calledProcessError (returncode : ℤ)
  | timeoutExpired
  deriving DecidableEq

/-- A run of the command line: the id of its task, how it ends, the lists that it publishes, and the
other files that the orchestrator and the pipeline leave below the directory of the task. -/
structure CliRun where
  time : ℕ
  hex : List (Fin 16)
  hexLength : hex.length = 8
  exit : Exit
  published : Published
  others : List (List String × String)

/-- The output section of `Orchestrator.execute`. -/
def outputFiles (py : PyRuntime) (p : Published) : List (List String × String) :=
  [(["output","functions.list"],py.dumps (.list p.functionsList)),
   (["output","handler.list"],py.dumps (.list p.handlerList)),
   (["output","entry-details.json"],py.dumps (.list p.entryDetails)),
   (["output","flag"],"1")]

/-- What a run leaves below its output directory. -/
def CliRun.writes (py : PyRuntime) (r : CliRun) : List (List String × String) :=
  (r.others ++ if r.exit = .passed then outputFiles py r.published else []).map fun w =>
    (makeId r.time r.hex :: w.1,w.2)

/-- A run whose output directory is linked to that of the module. -/
def runCli (py : PyRuntime) (fs : Files) (name : String) (r : CliRun) : Files :=
  (r.writes py).foldl (fun fs w => write fs (moduleOut name ++ w.1) w.2) fs

/-! ## `run_real` -/

def exceptionName : Exit → String
  | .passed => ""
  | .calledProcessError _ => "CalledProcessError"
  | .timeoutExpired => "TimeoutExpired"

structure Stage where
  files : Files
  entries : List Entry
  skipped : List (String × String)

/-- The entries of the result file of a module. -/
def readResult (alnum : Char → Bool) (fs : Files) (name : String) : List Entry :=
  match fs (resultFile alnum name) with
  | some text => parseEntryTable text
  | none => []

/-- The loop's body for one module. -/
def runModule (py : PyRuntime) (alnum : Char → Bool) (runs : String → CliRun) (s : Stage)
    (name : String) : Stage :=
  let fs := runCli py s.files name (runs name)
  if (runs name).exit = .passed then
    { s with
      files := fs
      entries := s.entries ++
        (readResult alnum fs name).map fun entry => { entry with moduleName := name } }
  else
    { s with files := fs, skipped := s.skipped ++ [(name,exceptionName (runs name).exit)] }

/-- The documents that are written at the end. -/
structure Documents where
  entrypoints : List Entry
  nextRequest : List Entry
  moduleCount : ℕ
  entryCount : ℕ
  skippedModules : List (String × String)

def runReal (py : PyRuntime) (alnum : Char → Bool) (fs : Files) (modules : Finset String)
    (runs : String → CliRun) : Documents :=
  let names := modules.sort
  let s := names.foldl (runModule py alnum runs) ⟨fs,[],[]⟩
  ⟨s.entries,s.entries,names.length,s.entries.length,s.skipped⟩

/-! ## The property -/

/-- File, function and line. -/
abbrev Place := String × String × String

def Entry.place (e : Entry) : Place := (e.file,e.function,e.line)

def Entry.tagged (e : Entry) : String × Place := (e.moduleName,e.place)

/-- The place of an item of `functions.list`. -/
def itemPlace (py : PyRuntime) (x : PyJson) : Place :=
  let d := match x with
    | .dict d => d
    | _ => []
  (py.str (PyJson.field d "file"),py.str (PyJson.field d "function"),
    py.str (PyJson.field d "line"))

def publishedPlaces (py : PyRuntime) (runs : String → CliRun) (name : String) : List Place :=
  if (runs name).exit = .passed then (runs name).published.functionsList.map (itemPlace py)
  else []

/-- What the next stage should be given. -/
def expected (py : PyRuntime) (modules : Finset String) (runs : String → CliRun) :
    List (String × Place) :=
  modules.sort.flatMap fun name => (publishedPlaces py runs name).map (Prod.mk name)

/-- The documents list each published item once, under its module, and nothing else; and the modules
whose items are missing are named. -/
structure Forwards (py : PyRuntime) (modules : Finset String) (runs : String → CliRun)
    (d : Documents) : Prop where
  entrypoints : (d.entrypoints.map Entry.tagged).Perm (expected py modules runs)
  nextRequest : (d.nextRequest.map Entry.tagged).Perm (expected py modules runs)
  skipped : d.skippedModules.map Prod.fst = modules.sort.filter fun name =>
    (runs name).exit ≠ .passed

/-! ## No run writes a result file -/

theorem write_other {fs : Files} {path path' : List String} (text : String) (h : path' ≠ path) :
    write fs path text path' = fs path' := by
  unfold write
  rw [Function.update_of_ne h]

/-- The id of a task is not the name of a Markdown file: `m` is no hexadecimal digit. -/
theorem makeId_ne_md (time : ℕ) {hex : List (Fin 16)} (h : hex.length = 8) (name : String) :
    makeId time hex ≠ name ++ ".md" := by
  intro heq
  have hchars := congrArg (fun text : String => text.toList.reverse[1]?) heq
  match hex,h with
  | [d0,d1,d2,d3,d4,d5,d6,d7],_ =>
    simp [makeId] at hchars

theorem runCli_resultFile (py : PyRuntime) (alnum : Char → Bool) (fs : Files) (name name' : String)
    (r : CliRun) : runCli py fs name r (resultFile alnum name') = fs (resultFile alnum name') := by
  have hne : ∀ w ∈ r.writes py, resultFile alnum name' ≠ moduleOut name ++ w.1 := by
    intro w hw heq
    obtain ⟨v,-,rfl⟩ := List.mem_map.mp hw
    simp only [resultFile,moduleOut,List.cons_append,List.nil_append,List.cons.injEq] at heq
    exact makeId_ne_md r.time r.hexLength (sanitize alnum name') heq.2.2.1.symm
  unfold runCli
  generalize r.writes py = writes at hne
  induction writes generalizing fs with
  | nil => rfl
  | cons w writes ih =>
    rw [List.foldl_cons,ih _ fun v hv => hne v (List.mem_cons_of_mem w hv)]
    exact write_other w.2 (hne w List.mem_cons_self)

/-! ## What is forwarded -/

variable {py : PyRuntime} {alnum : Char → Bool} {runs : String → CliRun} {fs : Files}
  {modules : Finset String}

/-- What a passed run leaves for the next stage: the rows of a file that was there before. -/
def forwardedPlaces (alnum : Char → Bool) (fs : Files) (runs : String → CliRun) (name : String) :
    List Place :=
  if (runs name).exit = .passed then (readResult alnum fs name).map Entry.place else []

theorem runModule_files (s : Stage) (name : String) :
    (runModule py alnum runs s name).files = runCli py s.files name (runs name) := by
  unfold runModule
  dsimp only
  split <;> rfl

theorem runModule_tagged {s : Stage}
    (hfs : ∀ name, s.files (resultFile alnum name) = fs (resultFile alnum name)) (name : String) :
    (runModule py alnum runs s name).entries.map Entry.tagged =
      s.entries.map Entry.tagged ++ (forwardedPlaces alnum fs runs name).map (Prod.mk name) := by
  have hread : readResult alnum (runCli py s.files name (runs name)) name =
      readResult alnum fs name := by
    unfold readResult
    rw [runCli_resultFile,hfs]
  unfold runModule forwardedPlaces
  dsimp only
  by_cases hpassed : (runs name).exit = .passed
  · rw [if_pos hpassed,if_pos hpassed,hread]
    dsimp only
    rw [List.map_append,List.map_map,List.map_map]
    rfl
  · rw [if_neg hpassed,if_neg hpassed]
    exact (List.append_nil _).symm

theorem runModule_skipped (s : Stage) (name : String) :
    (runModule py alnum runs s name).skipped.map Prod.fst =
      s.skipped.map Prod.fst ++ [name].filter fun name => (runs name).exit ≠ .passed := by
  unfold runModule
  dsimp only
  by_cases hpassed : (runs name).exit = .passed
  · simp [hpassed]
  · simp [hpassed]

variable (py alnum runs) in
/-- The loop over the modules. -/
theorem foldl_runModule (s : Stage) (names : List String)
    (hfs : ∀ name, s.files (resultFile alnum name) = fs (resultFile alnum name)) :
    (names.foldl (runModule py alnum runs) s).entries.map Entry.tagged =
        s.entries.map Entry.tagged ++
          names.flatMap (fun name => (forwardedPlaces alnum fs runs name).map (Prod.mk name)) ∧
      (names.foldl (runModule py alnum runs) s).skipped.map Prod.fst =
        s.skipped.map Prod.fst ++ names.filter fun name => (runs name).exit ≠ .passed := by
  induction names generalizing s with
  | nil => simp
  | cons name names ih =>
    have hnext : ∀ name', (runModule py alnum runs s name).files (resultFile alnum name') =
        fs (resultFile alnum name') := by
      intro name'
      rw [runModule_files,runCli_resultFile,hfs]
    obtain ⟨hentries,hskipped⟩ := ih _ hnext
    constructor
    · rw [List.foldl_cons,hentries,runModule_tagged hfs,List.flatMap_cons,List.append_assoc]
    · rw [List.foldl_cons,hskipped,runModule_skipped,List.append_assoc,← List.filter_append]
      rfl

theorem runReal_entrypoints :
    (runReal py alnum fs modules runs).entrypoints.map Entry.tagged =
      modules.sort.flatMap fun name =>
        (forwardedPlaces alnum fs runs name).map (Prod.mk name) := by
  have h := foldl_runModule py alnum runs ⟨fs,[],[]⟩ modules.sort fun _ => rfl
  exact h.1

theorem runReal_skipped :
    (runReal py alnum fs modules runs).skippedModules.map Prod.fst =
      modules.sort.filter fun name => (runs name).exit ≠ .passed := by
  have h := foldl_runModule py alnum runs ⟨fs,[],[]⟩ modules.sort fun _ => rfl
  exact h.2

section Tags

variable {α β : Type} [DecidableEq α] {f g : α → List β} {l : List α} {a : α}

/-- What is listed under a tag. -/
theorem filter_tag (hl : l.Nodup) (ha : a ∈ l) :
    ((l.flatMap fun a => (f a).map (Prod.mk a)).filter fun p => p.1 = a).map Prod.snd = f a := by
  have hother : ∀ b ≠ a, ((f b).map (Prod.mk b)).filter (fun p => decide (p.1 = a)) = [] := by
    intro b hb
    rw [List.filter_eq_nil_iff]
    intro p hp
    obtain ⟨x,-,rfl⟩ := List.mem_map.mp hp
    simp [hb]
  induction l with
  | nil => cases ha
  | cons b l ih =>
    obtain ⟨hb,hl⟩ := List.nodup_cons.mp hl
    rw [List.flatMap_cons,List.filter_append,List.map_append]
    by_cases hab : a = b
    · subst hab
      have hrest : (l.flatMap fun a => (f a).map (Prod.mk a)).filter (fun p => decide (p.1 = a)) =
          [] := by
        rw [List.filter_flatMap,List.flatMap_eq_nil_iff]
        intro c hc
        exact hother c fun hca => hb (hca ▸ hc)
      have hself : ((f a).map (Prod.mk a)).filter (fun p => decide (p.1 = a)) =
          (f a).map (Prod.mk a) := by
        rw [List.filter_eq_self]
        intro p hp
        obtain ⟨x,-,rfl⟩ := List.mem_map.mp hp
        simp
      rw [hrest,hself,List.map_map]
      simp
    · rw [hother b (Ne.symm hab),ih hl ((List.mem_cons.mp ha).resolve_left hab)]
      rfl

/-- Tagged lists agree up to order iff they agree under each tag. -/
theorem flatMap_tag_perm_iff (hl : l.Nodup) :
    (l.flatMap fun a => (f a).map (Prod.mk a)).Perm (l.flatMap fun a => (g a).map (Prod.mk a)) ↔
      ∀ a ∈ l, (f a).Perm (g a) := by
  constructor
  · intro h a ha
    have hf := filter_tag (f := f) hl ha
    have hg := filter_tag (f := g) hl ha
    rw [← hf,← hg]
    exact (h.filter _).map _
  · intro h
    exact List.Perm.flatMap_left l fun a ha => (h a ha).map _

end Tags

theorem entrypoints_perm_iff :
    ((runReal py alnum fs modules runs).entrypoints.map Entry.tagged).Perm
        (expected py modules runs) ↔
      ∀ name ∈ modules, (runs name).exit = .passed →
        ((readResult alnum fs name).map Entry.place).Perm
          ((runs name).published.functionsList.map (itemPlace py)) := by
  rw [runReal_entrypoints,expected,flatMap_tag_perm_iff (modules.sort_nodup _)]
  refine forall_congr' fun name => ?_
  rw [Finset.mem_sort]
  refine imp_congr Iff.rfl ?_
  unfold forwardedPlaces publishedPlaces
  by_cases hpassed : (runs name).exit = .passed
  · simp [hpassed]
  · simp [hpassed]

/-- The request repeats the entry points, and the skipped modules are always named. -/
theorem forwards_iff_entrypoints :
    Forwards py modules runs (runReal py alnum fs modules runs) ↔
      ((runReal py alnum fs modules runs).entrypoints.map Entry.tagged).Perm
        (expected py modules runs) :=
  ⟨fun h => h.entrypoints,fun h => ⟨h,h,runReal_skipped⟩⟩

/-- The stage forwards every entry iff the rows of the Markdown file that lay beside the output of
each passed run before the stage are already what that run has published. -/
theorem runReal_forwards_iff (py : PyRuntime) (alnum : Char → Bool) (fs : Files)
    (modules : Finset String) (runs : String → CliRun) :
    Forwards py modules runs (runReal py alnum fs modules runs) ↔
      ∀ name ∈ modules, (runs name).exit = .passed →
        ((readResult alnum fs name).map Entry.place).Perm
          ((runs name).published.functionsList.map (itemPlace py)) :=
  forwards_iff_entrypoints.trans entrypoints_perm_iff

/-- In a directory without such files only empty lists are forwarded. -/
theorem fresh_forwards_iff (hfresh : ∀ name ∈ modules, fs (resultFile alnum name) = none) :
    Forwards py modules runs (runReal py alnum fs modules runs) ↔
      ∀ name ∈ modules, (runs name).exit = .passed →
        (runs name).published.functionsList = [] := by
  rw [forwards_iff_entrypoints,entrypoints_perm_iff]
  refine forall₂_congr fun name hname => imp_congr Iff.rfl ?_
  have hread : readResult alnum fs name = [] := by
    unfold readResult
    rw [hfresh name hname]
  rw [hread,List.map_nil,List.nil_perm,List.map_eq_nil_iff]

/-- A passed run that has published one external entry. -/
def oneEntryRun : CliRun where
  time := 1
  hex := List.replicate 8 0
  hexLength := List.length_replicate
  exit := .passed
  published :=
    let entry := PyJson.dict [("tag",.str "P"),("file",.str "net.c"),("line",.int 12),
      ("function",.str "on_packet")]
    ⟨[entry],[],[entry]⟩
  others := []

/-- Its entry is not forwarded. -/
theorem published_entry_lost :
    ¬Forwards plainRuntime {"net"} (fun _ => oneEntryRun)
      (runReal plainRuntime Char.isAlphanum (fun _ => none) {"net"} fun _ => oneEntryRun) := by
  intro h
  have hempty := (fresh_forwards_iff fun _ _ => rfl).mp h "net" (Finset.mem_singleton_self _) rfl
  cases hempty

end ChainedRunner
end EntryAnalyse
