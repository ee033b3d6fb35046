import EntryAnalyse.FirstAnswer
import EntryAnalyse.ModuleLoader
import EntryAnalyse.PyText
import EntryAnalyse.SessionReaders
import EntryAnalyse.SessionRepair

/-! `list_modules` and `load_module` of `module_loader.py`: which modules a directory offers, and what
is loaded for a name. The two look in the same places by rules of their own. -/
namespace EntryAnalyse
namespace ModuleDiscovery

open PyText ModuleLoader FirstAnswer

abbrev Text := List Char

/-! ## Paths and the file system -/

/-- A `Path`, by its components. -/
structure PurePath where
  absolute : Bool
  names : List String
  deriving DecidableEq

/-- The components of a path; empty ones and `.` do not count. -/
def pathParts (path : String) : List String :=
  ((path.toList.splitOn '/').filter fun name => name ≠ [] ∧ name ≠ ['.']).map String.ofList

namespace PurePath

def of (path : String) : PurePath := ⟨isabs path,pathParts path⟩

/-- `path / rest`. -/
def div (p : PurePath) (rest : String) : PurePath :=
  if isabs rest then of rest else ⟨p.absolute,p.names ++ pathParts rest⟩

/-- `path.name`. -/
def name (p : PurePath) : String := p.names.getLast?.getD ""

end PurePath

/-- `path.stem` and `path.suffix` by the name of the path. -/
def splitSuffix (name : String) : String × String :=
  let behind := (name.toList.reverse.takeWhile (· ≠ '.')).reverse
  if '.' ∈ name.toList ∧ behind ≠ [] ∧ behind.length + 1 < name.toList.length then
    (String.ofList (name.toList.take (name.toList.length - (behind.length + 1))),
      String.ofList ('.' :: behind))
  else (name,"")

/-- A name that an entry of a directory can have. -/
def IsFileName (name : String) : Prop :=
  name ≠ "" ∧ '/' ∉ name.toList ∧ name ≠ "." ∧ name ≠ ".."

abbrev FileName := { name : String // IsFileName name }

/-- What `os.stat` finds; it fails for a name that is too long, say. -/
inductive Stat
  | file | dir | missing | fails
  deriving DecidableEq

inductive ReadError
  | os | decode

/-- A directory that `os.walk` visits, below the one where it starts, and the files in it. -/
structure Visit where
  below : List FileName
  files : List FileName

/-- The file system. `walk` lists the directories in the order of `os.walk`. -/
structure FileSystem where
  stat : PurePath → Stat
  readText : PurePath → Except ReadError Text
  iterdir : PurePath → List FileName
  walk : PurePath → List Visit

inductive Error
  | os | decode | json | recursion | type | notFound
  deriving DecidableEq

namespace FileSystem
variable (fs : FileSystem)

def isFile (p : PurePath) : Except Error Bool :=
  match fs.stat p with
  | .fails => .error .os
  | s => .ok (s == .file)

def isDir (p : PurePath) : Except Error Bool :=
  match fs.stat p with
  | .fails => .error .os
  | s => .ok (s == .dir)

/-- `path.read_text(encoding="utf-8")`. -/
def text (p : PurePath) : Except Error Text :=
  match fs.readText p with
  | .ok t => .ok t
  | .error .os => .error .os
  | .error .decode => .error .decode

end FileSystem

/-! ## Files of several modules -/

/-- `\s+` and then a rest with the property. -/
def spacesThen (p : Text → Bool) : Text → Bool
  | [] => false
  | c :: cs => pyIsSpace c && (p cs || spacesThen p cs)

/-- `^#{1,3}\s+` and then a rest with the property. -/
def heading (p : Text → Bool) (stripped : Text) : Bool :=
  [1,2,3].any fun k =>
    (List.replicate k '#').isPrefixOf stripped && spacesThen p (stripped.drop k)

/-- `sec_re_bracket` and `sec_re_heading`, of a line without white space at its ends. -/
def headerOf (name : Text) (stripped : Text) : Bool :=
  stripped == '[' :: (name ++ [']']) ||
    heading (fun rest => name.isPrefixOf rest && (rest.drop name.length).all pyIsSpace) stripped

/-- `new_sec_re`. -/
def newSection (stripped : Text) : Bool :=
  stripped.head? == some '[' && (stripped.drop 2).contains ']' ||
    heading (fun rest => rest.head?.any fun c => !pyIsSpace c) stripped

/-- `.+\.\w+` up to the end; a dot is no `\w`. -/
def hasSuffix (isWord : Char → Bool) (body : Text) : Bool :=
  let before := body.reverse.dropWhile isWord
  before.length < body.length && before.head? == some '.' && 2 ≤ before.length

/-- The group of `^[-*]?\s*(.+\.\w+)\s*$`, stripped. When the name behind the mark and the spaces is
a suffix only, a space belongs to the group; without a space the mark does. -/
def fileLine (isWord : Char → Bool) (stripped : Text) : Option Text :=
  let whole := if hasSuffix isWord stripped then some stripped else none
  match stripped with
  | [] => none
  | c :: rest =>
    if c = '-' ∨ c = '*' then
      let body := rest.dropWhile pyIsSpace
      if hasSuffix isWord body then some body
      else if body.length < rest.length ∧ hasSuffix isWord (' ' :: body) = true then some body
      else whole
    else whole

/-- The loop of `_parse_multi_module_file`. -/
def parseSections (isWord : Char → Bool) (name : Text) : Bool → List Text → List Text
  | _,[] => []
  | inSection,line :: lines =>
    if headerOf name (trim line) then parseSections isWord name true lines
    else if inSection && newSection (trim line) then []
    else if inSection && !(trim line).isEmpty then
      (fileLine isWord (trim line)).toList ++ parseSections isWord name inSection lines
    else parseSections isWord name inSection lines

/-! ## Loading -/

/-- What the interpreter's libraries decide. -/
structure Runtime extends SessionReaders.Json where
  /-- `\w`. -/
  isWord : Char → Bool

/-- Where a file list comes from. -/
inductive Origin
  | directory (p : PurePath)
  | key (k : String)
  | single (p : PurePath)
  | sections (lines : List Text)

structure Answer where
  origin : Origin
  files : PyJson

/-- The formats, and the file of each one that has its own. -/
inductive Format
  | moduleDir | map (file : String) | json | txt | sections (file : String) | directDir | self | walk

def Format.order : List Format :=
  [.moduleDir,.map "module_map.json",.map "modules.json",.json,.txt,.sections "modules.txt",
    .sections "modules.md",.directDir,.self,.walk]

/-- The lines that are not blank and no comments. -/
def listLines (text : Text) : PyJson :=
  .list ((((splitFrom [] text).map trim).filter fun line =>
    !line.isEmpty && line.head? != some '#').map fun line => .str (String.ofList line))

/-- `data[name]`, if `name in data`. -/
def item (data : PyJson) (name : String) : Except Error (Option PyJson) :=
  match data with
  | .dict kvs => .ok (PyDict.get kvs name)
  | .list xs =>
    if xs.any fun | .str s => s == name | _ => false then .error .type else .ok none
  | .str s => if name.toList <:+: s.toList then .error .type else .ok none
  | _ => .error .type

def entryFiles : PyJson → PyJson
  | .dict kvs => PyDict.getD kvs "files" (.list [])
  | .list xs => .list xs
  | _ => .list []

/-- `entry.get("files", entry)` or the entry itself, if that is a list. -/
def singleFiles (entry : PyJson) : PyJson :=
  let files :=
    match entry with
    | .dict kvs => PyDict.getD kvs "files" entry
    | _ => entry
  match files with
  | .list xs => .list xs
  | _ => .list []

section Load
variable (rt : Runtime) (fs : FileSystem) (target : PurePath) (name : String)

def loads (text : Text) : Except Error PyJson :=
  match rt.loads (String.ofList text) with
  | .value v => .ok v
  | .malformed => .error .json
  | .raises => .error .recursion

/-- The answer that a file gives, if it is there. -/
def fromFile (p : PurePath) (answer : Text → Except Error (Option Answer)) :
    Except Error (Option Answer) := do
  if ← fs.isFile p then answer (← fs.text p) else pure none

def filesList (dir : PurePath) : Except Error (Option Answer) :=
  fromFile fs (dir.div "files.list") fun text => pure (some ⟨.directory dir,listLines text⟩)

def Visit.path (v : Visit) : PurePath := ⟨target.absolute,target.names ++ v.below.map (·.1)⟩

/-- The directory at most three levels down with that name and a file list. -/
def visited (v : Visit) : Bool :=
  v.below.length ≤ 3 && v.files.any (·.1 == "files.list") &&
    match v.below.getLast? with
    | none => name == target.name
    | some last => last.1 == name

/-- The scan of the directories. An `OSError` ends it without an answer. -/
def fromWalk : Except Error (Option Answer) :=
  match (fs.walk target).find? (visited target name) with
  | none => .ok none
  | some v =>
    match fs.readText ((Visit.path target v).div "files.list") with
    | .ok text => .ok (some ⟨.directory (Visit.path target v),listLines text⟩)
    | .error .os => .ok none
    | .error .decode => .error .decode

/-- What a format has for the name. -/
def look : Format → Except Error (Option Answer)
  | .moduleDir => filesList fs ((target.div "modules").div name)
  | .map file => fromFile fs (target.div file) fun text => do
    let entry ← item (← loads rt text) name
    pure (entry.map fun e => ⟨.key name,entryFiles e⟩)
  | .json =>
    let p := (target.div "modules").div (name ++ ".json")
    fromFile fs p fun text => do
      let entry ← loads rt text
      pure (some ⟨.single p,singleFiles entry⟩)
  | .txt =>
    let p := (target.div "modules").div (name ++ ".txt")
    fromFile fs p fun text => pure (some ⟨.single p,listLines text⟩)
  | .sections file => fromFile fs (target.div file) fun text =>
    let lines := splitFrom [] text
    match parseSections rt.isWord name.toList false lines with
    | [] => pure none
    | f :: fs => pure (some ⟨.sections lines,.list ((f :: fs).map fun f => .str (String.ofList f))⟩)
  | .directDir => filesList fs (target.div name)
  | .self => if name = target.name then filesList fs target else .ok none
  | .walk => fromWalk fs target name

/-- `load_module`. Making the message for a module that is not found can raise other errors. -/
def loadModule : Except Error Answer := firstAnswer (look rt fs target name) .notFound Format.order

end Load

/-! ## Listing -/

section List
variable (rt : Runtime) (fs : FileSystem) (target : PurePath)

/-- The keys of a map. A map that cannot be opened or parsed is passed over. -/
def mapNames (file : String) : Except Error (List String) := do
  if ← fs.isFile (target.div file) then
    match fs.readText (target.div file) with
    | .error .os => pure []
    | .error .decode => .error .decode
    | .ok text =>
      match rt.loads (String.ofList text) with
      | .value (.dict kvs) => pure (kvs.map Prod.fst)
      | .value _ => pure []
      | .malformed => pure []
      | .raises => .error .recursion
  else pure []

def singleName (f : FileName) : Except Error (Option String) := do
  if ← fs.isFile ((target.div "modules").div f.1) then
    pure (if (splitSuffix f.1).2 ∈ [".json",".txt",".md"] then some (splitSuffix f.1).1 else none)
  else pure none

def singleNames : Except Error (List String) := do
  if ← fs.isDir (target.div "modules") then
    let names ← (fs.iterdir (target.div "modules")).mapM (singleName fs target)
    pure (names.filterMap id)
  else pure []

/-- The names of the directories with a file list. The levels below the third are not entered. -/
def walkNames : List String :=
  ((fs.walk target).filter fun v => v.below.length ≤ 3 && v.files.any (·.1 == "files.list")).map
    fun v => (v.below.getLast?.map (·.1)).getD target.name

/-- `list_modules`. -/
def listModules : Except Error (List String) := do
  let first ← mapNames rt fs target "module_map.json"
  let second ← mapNames rt fs target "modules.json"
  let singles ← singleNames fs target
  pure ((first ++ second ++ singles ++ walkNames fs target).dedup.mergeSort fun a b => decide (a ≤ b))

end List

/-! ## Names of modules -/

/-- A line is a header of the name, or of any other one that is not empty. -/
def IsHeader (name : Text) (stripped : Text) : Prop :=
  headerOf name stripped = true ∨ ∃ m, m ≠ [] ∧ headerOf m stripped = true

/-- The file stands in a section of the name: the nearest header above it is one of the name. -/
def InSection (isWord : Char → Bool) (name : Text) (lines : List Text) (file : Text) : Prop :=
  ∃ before header between line after, lines = before ++ header :: (between ++ line :: after) ∧
    headerOf name (trim header) = true ∧
    (∀ l ∈ between, IsHeader name (trim l) → headerOf name (trim l) = true) ∧
    fileLine isWord (trim line) = some file

/-- The list is of the module with that name: of the directory, key, file or section that has it.
A path that ends in `..` is of no directory with that name, but where it is the target's own. -/
def Answer.IsOf (isWord : Char → Bool) (target : PurePath) (name : String) (a : Answer) : Prop :=
  match a.origin with
  | .directory p => p.name = name ∧ (p = target ∨ p.names.getLast? ≠ some "..")
  | .key k => k = name
  | .single p => (splitSuffix p.name).1 = name
  | .sections lines => ∃ files : List Text, a.files = .list (files.map fun f => .str (String.ofList f)) ∧
      ∀ f ∈ files, InSection isWord name.toList lines f

/-- Each module that is listed can be loaded, and what is loaded is of the module. -/
structure Coherent (rt : Runtime) (fs : FileSystem) (target : PurePath) : Prop where
  listed : ∀ names, listModules rt fs target = .ok names → ∀ name ∈ names,
    ∃ a, loadModule rt fs target name = .ok a
  own : ∀ name a, loadModule rt fs target name = .ok a → a.IsOf rt.isWord target name

/-- Nothing fails while the directory is listed. -/
def Scannable (rt : Runtime) (fs : FileSystem) (target : PurePath) : Prop :=
  (∀ file ∈ ["module_map.json","modules.json"], ∃ keys, mapNames rt fs target file = .ok keys) ∧
    ∃ singles, singleNames fs target = .ok singles

/-- The directory offers the name: as the key of a map, by a file in `modules` or by a file list. -/
def Offered (rt : Runtime) (fs : FileSystem) (target : PurePath) (name : String) : Prop :=
  (∃ file ∈ ["module_map.json","modules.json"], ∃ keys, mapNames rt fs target file = .ok keys ∧
    name ∈ keys) ∨
  (∃ singles, singleNames fs target = .ok singles ∧ name ∈ singles) ∨
  name ∈ walkNames fs target

/-- The name is offered by something that is looked for in loading: a key of a map, a file
`modules/<name>.json` or `.txt`, a file list that can be opened. -/
def Sure (rt : Runtime) (fs : FileSystem) (target : PurePath) (name : String) : Prop :=
  (∃ file ∈ ["module_map.json","modules.json"], ∃ keys, mapNames rt fs target file = .ok keys ∧
    name ∈ keys) ∨
  (∃ suffix ∈ [".json",".txt"],
    fs.isFile ((target.div "modules").div (name ++ suffix)) = .ok true) ∨
  ∃ v, (fs.walk target).find? (visited target name) = some v ∧
    fs.readText ((Visit.path target v).div "files.list") ≠ .error .os

/-- The names for which a format finds what has that name. -/
def Format.Fits (target : PurePath) (name : String) : Format → Prop
  | .moduleDir => IsFileName name
  | .directDir => IsFileName name ∨ name = "" ∧ target.names = []
  | .json | .txt => name ≠ "" ∧ '/' ∉ name.toList
  | _ => True

/-- What the directory must be like: a name that is offered only by a file `modules/<name>.md`, or by
a file list that cannot be opened, is found in some other way; of the places where an offered name is
looked for, the first one that has something does not fail; and no path made of a name that is none
of a file is answered. -/
structure Agrees (rt : Runtime) (fs : FileSystem) (target : PurePath) : Prop where
  found : Scannable rt fs target → ∀ name, Offered rt fs target name → ¬Sure rt fs target name →
    ∃ f ∈ Format.order, look rt fs target name f ≠ .ok none
  readable : Scannable rt fs target → ∀ name, Offered rt fs target name →
    ∀ f, Decides (look rt fs target name) Format.order f → ∀ e, look rt fs target name f ≠ .error e
  plain : ∀ name f, Decides (look rt fs target name) Format.order f →
    (∃ a, look rt fs target name f = .ok (some a)) → f.Fits target name

/-! ## Sections -/

section Sections
variable {isWord : Char → Bool} {p : Text → Bool} {name text m line f : Text} {lines : List Text}
  {b : Bool}

theorem spacesThen_iff : spacesThen p text = true ↔ ∃ spaces rest, spaces ≠ [] ∧
    (∀ c ∈ spaces, pyIsSpace c = true) ∧ text = spaces ++ rest ∧ p rest = true := by
  induction text with
  | nil =>
    refine iff_of_false Bool.false_ne_true ?_
    rintro ⟨spaces,rest,hne,-,heq,-⟩
    exact hne (List.append_eq_nil_iff.mp heq.symm).1
  | cons c cs ih =>
    rw [spacesThen,Bool.and_eq_true,Bool.or_eq_true,ih]
    constructor
    · rintro ⟨hc,hp | ⟨spaces,rest,-,hsp,rfl,hp⟩⟩
      · exact ⟨[c],cs,by simp,by simpa using hc,rfl,hp⟩
      · exact ⟨c :: spaces,rest,by simp,List.forall_mem_cons.mpr ⟨hc,hsp⟩,rfl,hp⟩
    · rintro ⟨spaces,rest,hne,hsp,heq,hp⟩
      cases spaces with
      | nil => exact absurd rfl hne
      | cons d spaces =>
        cases heq
        obtain ⟨hc,hsp⟩ := List.forall_mem_cons.mp hsp
        refine ⟨hc,?_⟩
        cases spaces with
        | nil => exact Or.inl hp
        | cons e spaces => exact Or.inr ⟨e :: spaces,rest,by simp,hsp,rfl,hp⟩

/-- A header of any name that is not empty begins a new section. -/
theorem newSection_of_header (hm : m ≠ []) (h : headerOf m (trim line) = true) :
    newSection (trim line) = true := by
  unfold newSection
  rw [Bool.or_eq_true]
  rcases Bool.or_eq_true_iff.mp h with h | h
  · left
    obtain ⟨c,m,rfl⟩ := List.exists_cons_of_ne_nil hm
    rw [eq_of_beq h]
    simp
  · right
    obtain ⟨k,hk,h⟩ := List.any_eq_true.mp h
    obtain ⟨hpre,h⟩ := Bool.and_eq_true_iff.mp h
    obtain ⟨spaces,rest,hne,hsp,heq,hrest⟩ := spacesThen_iff.mp h
    obtain ⟨tail,rfl⟩ := List.isPrefixOf_iff_prefix.mp (Bool.and_eq_true_iff.mp hrest).1
    have hlast : ∀ c ∈ (m ++ tail).getLast?, pyIsSpace c = false := by
      intro c hc
      have htrim : trim (trim line) = trim line := trim_trim
      refine (trim_eq_self_iff.mp htrim).2 c ?_
      rw [← List.take_append_drop k (trim line),heq,List.getLast?_append,List.getLast?_append]
      rw [Option.mem_def] at hc ⊢
      rw [hc]
      rfl
    -- the first character behind all the spaces
    have hbody : (m ++ tail).dropWhile pyIsSpace ≠ [] := by
      intro hnil
      obtain ⟨c,hc⟩ : ∃ c, (m ++ tail).getLast? = some c := by
        rw [← Option.isSome_iff_exists,List.getLast?_isSome]
        simp [hm]
      have hspace := List.dropWhile_eq_nil_iff.mp hnil c (List.mem_of_getLast? hc)
      rw [hlast c hc] at hspace
      cases hspace
    refine List.any_eq_true.mpr ⟨k,hk,Bool.and_eq_true_iff.mpr ⟨hpre,spacesThen_iff.mpr ?_⟩⟩
    refine ⟨spaces ++ (m ++ tail).takeWhile pyIsSpace,(m ++ tail).dropWhile pyIsSpace,by simp [hne],
      ?_,?_,?_⟩
    · intro c hc
      rcases List.mem_append.mp hc with hc | hc
      · exact hsp c hc
      · exact List.mem_takeWhile_imp hc
    · rw [heq,List.append_assoc,List.takeWhile_append_dropWhile]
    · obtain ⟨c,cs,hcs⟩ := List.exists_cons_of_ne_nil hbody
      have hc := List.head_dropWhile_not pyIsSpace hbody
      simp only [hcs,List.head_cons] at hc
      simp [hcs,hc]

theorem InSection.cons (h : InSection isWord name lines f) :
    InSection isWord name (line :: lines) f := by
  obtain ⟨before,header,between,l,after,rfl,h⟩ := h
  exact ⟨line :: before,header,between,l,after,rfl,h⟩

/-- By induction on the lines: what is behind a header belongs to its section. -/
theorem mem_parseSections (hf : f ∈ parseSections isWord name b lines) :
    (b = true ∧ ∃ between l after, lines = between ++ l :: after ∧
      (∀ x ∈ between, IsHeader name (trim x) → headerOf name (trim x) = true) ∧
      fileLine isWord (trim l) = some f) ∨ InSection isWord name lines f := by
  induction lines generalizing b with
  | nil => cases hf
  | cons line lines ih =>
    unfold parseSections at hf
    -- a line that stays in the section is no header of another module
    have hstay : b = true → newSection (trim line) = false → headerOf name (trim line) = false →
        f ∈ parseSections isWord name b lines →
        (b = true ∧ ∃ between l after, line :: lines = between ++ l :: after ∧
          (∀ x ∈ between, IsHeader name (trim x) → headerOf name (trim x) = true) ∧
          fileLine isWord (trim l) = some f) ∨ InSection isWord name (line :: lines) f := by
      intro hb hnew hother hf
      rcases ih hf with ⟨-,between,l,after,rfl,hbetween,hl⟩ | h
      · refine Or.inl ⟨hb,line :: between,l,after,rfl,List.forall_mem_cons.mpr ⟨?_,hbetween⟩,hl⟩
        rintro (h | ⟨m,hm,h⟩)
        · exact h
        · rw [newSection_of_header hm h] at hnew
          cases hnew
      · exact Or.inr h.cons
    split at hf
    · rename_i hheader
      rcases ih hf with ⟨-,between,l,after,rfl,hbetween,hl⟩ | h
      · exact Or.inr ⟨[],line,between,l,after,rfl,hheader,hbetween,hl⟩
      · exact Or.inr h.cons
    · rename_i hother
      have hother := Bool.eq_false_of_not_eq_true hother
      split at hf
      · cases hf
      · rename_i hstop
        split at hf
        · rename_i hbody
          have hb := (Bool.and_eq_true_iff.mp hbody).1
          have hnew : newSection (trim line) = false := by simpa [hb] using hstop
          rcases List.mem_append.mp hf with hf | hf
          · exact Or.inl ⟨hb,[],line,lines,rfl,by simp,Option.mem_toList.mp hf⟩
          · exact hstay hb hnew hother hf
        · cases b with
          | false =>
            rcases ih hf with ⟨hb,-⟩ | h
            · cases hb
            · exact Or.inr h.cons
          | true => exact hstay rfl (by simpa using hstop) hother hf

theorem inSection_of_mem (hf : f ∈ parseSections isWord name false lines) :
    InSection isWord name lines f := by
  rcases mem_parseSections hf with ⟨hb,-⟩ | h
  · cases hb
  · exact h

end Sections

/-! ## Paths -/

section Paths
variable {base target : PurePath} {name path x suffix : String}

/-- What a component of a path is. -/
def IsPart (x : String) : Prop := x ≠ "" ∧ x ≠ "." ∧ '/' ∉ x.toList

theorem isPart_of_mem (h : x ∈ pathParts path) : IsPart x := by
  obtain ⟨cs,hcs,rfl⟩ := List.mem_map.mp h
  obtain ⟨hmem,hkeep⟩ := List.mem_filter.mp hcs
  obtain ⟨hnil,hdot⟩ := of_decide_eq_true hkeep
  refine ⟨fun h => hnil ?_,fun h => hdot ?_,?_⟩
  · exact String.ofList_eq_empty_iff.mp h
  · have hlist := congrArg String.toList h
    rw [String.toList_ofList] at hlist
    exact hlist
  · rw [String.toList_ofList]
    exact SessionRepair.sep_not_mem hmem

theorem pathParts_of_isPart (h : IsPart name) : pathParts name = [name] := by
  obtain ⟨hempty,hdot,hslash⟩ := h
  unfold pathParts
  rw [List.splitOn_eq_singleton hslash,List.filter_cons_of_pos]
  · rw [List.filter_nil,List.map_singleton,String.ofList_toList]
  · refine decide_eq_true ⟨fun h => hempty (String.toList_eq_nil_iff.mp h),fun h => hdot ?_⟩
    rw [← String.toList_inj,h]
    rfl

theorem slash_of_isabs (h : isabs name = true) : '/' ∈ name.toList := by
  obtain ⟨rest,hrest⟩ := List.isPrefixOf_iff_prefix.mp h
  rw [← hrest]
  exact List.mem_append_left _ (by decide)

theorem div_of_isPart (h : IsPart name) :
    base.div name = ⟨base.absolute,base.names ++ [name]⟩ := by
  unfold PurePath.div
  rw [if_neg fun habs => h.2.2 (slash_of_isabs habs),pathParts_of_isPart h]

theorem div_modules : base.div "modules" = ⟨base.absolute,base.names ++ ["modules"]⟩ :=
  div_of_isPart ⟨by decide,by decide,by decide⟩

theorem IsFileName.isPart (h : IsFileName name) : IsPart name := ⟨h.1,h.2.2.1,h.2.1⟩

def Solid (p : PurePath) : Prop := ∀ x ∈ p.names, IsPart x

theorem solid_of (path : String) : Solid (.of path) := fun _ hx => isPart_of_mem hx

theorem Solid.div (h : Solid base) (rest : String) : Solid (base.div rest) := by
  unfold PurePath.div
  split
  · exact solid_of rest
  · intro x hx
    rcases List.mem_append.mp hx with hx | hx
    · exact h x hx
    · exact isPart_of_mem hx

/-- The name of a path has no slash, and is empty only where the path has no components. -/
theorem Solid.name_cases (h : Solid base) : base.names = [] ∧ base.name = "" ∨
    base.names.getLast? = some base.name ∧ IsPart base.name := by
  unfold PurePath.name
  cases hlast : base.names.getLast? with
  | none => exact Or.inl ⟨List.getLast?_eq_none_iff.mp hlast,rfl⟩
  | some x => exact Or.inr ⟨rfl,h x (List.mem_of_getLast? hlast)⟩

theorem Solid.slash_not_mem_name (h : Solid base) : '/' ∉ base.name.toList := by
  rcases h.name_cases with ⟨-,hname⟩ | ⟨-,hpart⟩
  · rw [hname]
    decide
  · exact hpart.2.2

/-- A path that has the name that it was made of was made of a component. -/
theorem isPart_of_name (hbase : Solid base) (h : (base.div name).name = name)
    (hsome : isabs name = true ∨ pathParts name ≠ []) : IsPart name := by
  rcases (hbase.div name).name_cases with ⟨hnil,hname⟩ | ⟨-,hpart⟩
  · exfalso
    rw [h] at hname
    rcases hsome with habs | hparts
    · rw [hname] at habs
      revert habs
      decide
    · rw [hname] at hparts
      exact hparts (by decide)
  · rw [h] at hpart
    exact hpart

/-- Where a name leads nowhere it names the directory itself. -/
theorem div_of_no_parts (habs : isabs name = false) (hparts : pathParts name = []) :
    base.div name = base := by
  unfold PurePath.div
  rw [if_neg (by simp [habs]),hparts,List.append_nil]

theorem name_concat {b : Bool} {names : List String} : PurePath.name ⟨b,names ++ [name]⟩ = name := by
  unfold PurePath.name
  rw [List.getLast?_concat]
  rfl

theorem own_of_fileName (h : IsFileName name) :
    (base.div name).name = name ∧ (base.div name).names.getLast? ≠ some ".." := by
  rw [div_of_isPart h.isPart]
  refine ⟨name_concat,?_⟩
  rw [List.getLast?_concat]
  exact fun heq => h.2.2.2 (Option.some.inj heq)

theorem moduleDir_own_iff (htarget : Solid target) :
    (((target.div "modules").div name).name = name ∧ ((target.div "modules").div name = target ∨
      ((target.div "modules").div name).names.getLast? ≠ some "..")) ↔ IsFileName name := by
  constructor
  · rintro ⟨hname,hown⟩
    have hbase : Solid (target.div "modules") := htarget.div _
    have hpart : IsPart name := by
      by_cases habs : isabs name = true
      · exact isPart_of_name hbase hname (Or.inl habs)
      by_cases hparts : pathParts name = []
      · exfalso
        rw [div_of_no_parts (Bool.eq_false_of_not_eq_true habs) hparts,div_modules,
          name_concat] at hname
        rw [← hname] at hparts
        revert hparts
        decide
      · exact isPart_of_name hbase hname (Or.inr hparts)
    refine ⟨hpart.1,hpart.2.2,hpart.2.1,fun hdots => ?_⟩
    rw [div_of_isPart hpart,div_modules] at hown
    rcases hown with heq | hlast
    · have hlen := congrArg (fun p => p.names.length) heq
      simp at hlen
    · exact hlast (by rw [List.getLast?_concat,hdots])
  · intro h
    exact (own_of_fileName h).imp_right Or.inr

theorem directDir_own_iff (htarget : Solid target) :
    ((target.div name).name = name ∧ (target.div name = target ∨
      (target.div name).names.getLast? ≠ some "..")) ↔
      IsFileName name ∨ name = "" ∧ target.names = [] := by
  constructor
  · rintro ⟨hname,hown⟩
    by_cases hsome : isabs name = true ∨ pathParts name ≠ []
    · left
      have hpart := isPart_of_name htarget hname hsome
      refine ⟨hpart.1,hpart.2.2,hpart.2.1,fun hdots => ?_⟩
      rw [div_of_isPart hpart] at hown
      rcases hown with heq | hlast
      · have hlen := congrArg (fun p => p.names.length) heq
        simp at hlen
      · exact hlast (by rw [List.getLast?_concat,hdots])
    · obtain ⟨habs,hparts⟩ := not_or.mp hsome
      have hparts := not_not.mp hparts
      rw [div_of_no_parts (Bool.eq_false_of_not_eq_true habs) hparts] at hname
      rcases htarget.name_cases with ⟨hnil,hempty⟩ | ⟨-,hpart⟩
      · exact Or.inr ⟨hname.symm.trans hempty,hnil⟩
      · rw [hname] at hpart
        rw [pathParts_of_isPart hpart] at hparts
        cases hparts
  · rintro (h | ⟨rfl,hnil⟩)
    · exact (own_of_fileName h).imp_right Or.inr
    · rw [div_of_no_parts (by decide) (by decide)]
      refine ⟨?_,Or.inl rfl⟩
      unfold PurePath.name
      rw [hnil]
      rfl

end Paths

/-! ## Suffixes -/

section Suffix
variable {base : PurePath} {name suffix : String} {behind : List Char}

theorem splitSuffix_append (hsuffix : suffix.toList = '.' :: behind) (hne : behind ≠ [])
    (hdot : '.' ∉ behind) (hname : name ≠ "") : splitSuffix (name ++ suffix) = (name,suffix) := by
  have hlist : (name ++ suffix).toList = name.toList ++ '.' :: behind := by
    rw [String.toList_append,hsuffix]
  have htake : ((name ++ suffix).toList.reverse.takeWhile (· ≠ '.')).reverse = behind := by
    rw [hlist,List.reverse_append,List.reverse_cons,List.append_assoc,List.singleton_append,
      List.takeWhile_append_of_pos]
    · simp
    · intro c hc
      exact decide_eq_true fun h => hdot (h ▸ List.mem_reverse.mp hc)
  have hpos : 0 < name.toList.length := List.length_pos_iff.mpr (mt String.toList_eq_nil_iff.mp hname)
  unfold splitSuffix
  rw [htake,if_pos ⟨by simp [hlist],hne,by simp [hlist]; omega⟩,hlist]
  have hdrop : (name.toList ++ '.' :: behind).length - (behind.length + 1) = name.toList.length := by
    simp
  rw [hdrop,List.take_left,String.ofList_toList,← hsuffix,String.ofList_toList]

theorem splitSuffix_of_suffix (hsuffix : suffix.toList = '.' :: behind) (hdot : '.' ∉ behind) :
    splitSuffix suffix = (suffix,"") := by
  have htake : (suffix.toList.reverse.takeWhile (· ≠ '.')).reverse = behind := by
    rw [hsuffix,List.reverse_cons,List.takeWhile_append_of_pos]
    · simp
    · intro c hc
      exact decide_eq_true fun h => hdot (h ▸ List.mem_reverse.mp hc)
  unfold splitSuffix
  rw [htake,if_neg]
  rintro ⟨-,-,h⟩
  rw [hsuffix,List.length_cons] at h
  exact lt_irrefl _ h

theorem mem_of_mem_stem {c : Char} (h : c ∈ (splitSuffix name).1.toList) : c ∈ name.toList := by
  unfold splitSuffix at h
  dsimp only at h
  split at h
  · rw [String.toList_ofList] at h
    exact List.mem_of_mem_take h
  · exact h

/-- A file with that suffix has the name as its stem where the name is one component. -/
theorem stem_own_iff (hbase : Solid base) (hsuffix : suffix.toList = '.' :: behind) (hne : behind ≠ [])
    (hdot : '.' ∉ behind) (hslash : '/' ∉ behind) :
    (splitSuffix (base.div (name ++ suffix)).name).1 = name ↔ name ≠ "" ∧ '/' ∉ name.toList := by
  have hpart (hname : '/' ∉ name.toList) : IsPart (name ++ suffix) := by
    have hlist : (name ++ suffix).toList = name.toList ++ '.' :: behind := by
      rw [String.toList_append,hsuffix]
    obtain ⟨c,cs,rfl⟩ := List.exists_cons_of_ne_nil hne
    refine ⟨fun h => ?_,fun h => ?_,?_⟩
    · simpa [hlist] using congrArg String.toList h
    · have hlen := congrArg (fun s => s.toList.length) h
      simp [hlist] at hlen
      omega
    · rw [hlist]
      simp [hname,List.not_mem_of_not_mem_cons hslash,List.ne_of_not_mem_cons hslash]
  constructor
  · intro h
    have hname : '/' ∉ name.toList := by
      intro hmem
      rw [← h] at hmem
      exact (hbase.div _).slash_not_mem_name (mem_of_mem_stem hmem)
    refine ⟨fun hempty => ?_,hname⟩
    rw [div_of_isPart (hpart hname),name_concat,hempty,String.empty_append,
      splitSuffix_of_suffix hsuffix hdot] at h
    have hnil : suffix = "" := h
    rw [hnil] at hsuffix
    cases hsuffix
  · rintro ⟨hempty,hname⟩
    rw [div_of_isPart (hpart hname),name_concat,splitSuffix_append hsuffix hne hdot hempty]

end Suffix

/-! ## What is loaded -/

section Load
variable {rt : Runtime} {fs : FileSystem} {target p : PurePath} {name : String} {a : Answer}
  {answer : Text → Except Error (Option Answer)} {f : Format}

theorem fromFile_eq_some (h : fromFile fs p answer = .ok (some a)) :
    ∃ text, fs.text p = .ok text ∧ answer text = .ok (some a) := by
  obtain ⟨there,-,h⟩ := bind_eq_ok.mp h
  cases there with
  | false => cases h
  | true => exact bind_eq_ok.mp h

/-- A file that is there is not passed over, unless it has nothing. -/
theorem fromFile_of_isFile (hfile : fs.isFile p = .ok true)
    (hloud : ∀ text, fs.text p = .ok text → answer text ≠ .ok none) :
    fromFile fs p answer ≠ .ok none := by
  intro h
  obtain ⟨there,hthere,h⟩ := bind_eq_ok.mp h
  rw [hfile] at hthere
  cases hthere
  obtain ⟨text,htext,h⟩ := bind_eq_ok.mp h
  exact hloud text htext h

theorem filesList_eq_some (h : filesList fs p = .ok (some a)) : a.origin = .directory p := by
  obtain ⟨text,-,h⟩ := fromFile_eq_some h
  cases h
  rfl

/-- A map that offers a name is a dict that can be read. -/
theorem mapNames_keys {file : String} {keys : List String} (h : mapNames rt fs target file = .ok keys)
    (hne : keys ≠ []) : ∃ kvs, fs.isFile (target.div file) = .ok true ∧
      ∃ text, fs.text (target.div file) = .ok text ∧ loads rt text = .ok (.dict kvs) ∧
        keys = kvs.map Prod.fst := by
  obtain ⟨there,hthere,h⟩ := bind_eq_ok.mp h
  cases there with
  | false =>
    cases h
    exact absurd rfl hne
  | true =>
    rw [if_pos rfl] at h
    split at h
    · cases h
      exact absurd rfl hne
    · cases h
    · rename_i text htext
      split at h
      · rename_i kvs hdata
        cases h
        refine ⟨kvs,hthere,text,?_,?_,rfl⟩
        · unfold FileSystem.text
          rw [htext]
        · unfold loads
          rw [hdata]
      · cases h
        exact absurd rfl hne
      · cases h
        exact absurd rfl hne
      · cases h

/-- The directory that the scan finds has the name. -/
theorem fromWalk_isOf {isWord : Char → Bool} (h : fromWalk fs target name = .ok (some a)) :
    a.IsOf isWord target name := by
  unfold fromWalk at h
  split at h
  · cases h
  · rename_i v hv
    split at h
    · cases h
      have hvisited := List.find?_some hv
      unfold visited at hvisited
      rw [Bool.and_eq_true] at hvisited
      have hname := hvisited.2
      unfold Answer.IsOf Visit.path
      cases hlast : v.below.getLast? with
      | none =>
        rw [hlast] at hname
        rw [List.getLast?_eq_none_iff.mp hlast,List.map_nil,List.append_nil]
        exact ⟨(eq_of_beq hname).symm,Or.inl rfl⟩
      | some last =>
        rw [hlast] at hname
        have hpath : (target.names ++ v.below.map (·.1)).getLast? = some name := by
          rw [List.getLast?_append,List.getLast?_map,hlast,Option.map_some,eq_of_beq hname]
          rfl
        refine ⟨?_,Or.inr ?_⟩
        · unfold PurePath.name
          rw [hpath]
          rfl
        · rw [hpath,← eq_of_beq hname]
          exact fun heq => last.2.2.2.2 (Option.some.inj heq)
    · cases h
    · cases h

/-- What a format finds is of the module where the name fits the format; one case for each format. -/
theorem isOf_iff (htarget : Solid target) (h : look rt fs target name f = .ok (some a)) :
    a.IsOf rt.isWord target name ↔ f.Fits target name := by
  cases f with
  | moduleDir =>
    unfold Answer.IsOf
    rw [filesList_eq_some h]
    exact moduleDir_own_iff htarget
  | directDir =>
    unfold Answer.IsOf
    rw [filesList_eq_some h]
    exact directDir_own_iff htarget
  | map file =>
    refine iff_of_true ?_ trivial
    obtain ⟨text,-,h⟩ := fromFile_eq_some h
    obtain ⟨data,-,h⟩ := bind_eq_ok.mp h
    obtain ⟨entry,-,h⟩ := bind_eq_ok.mp h
    cases entry with
    | none => cases h
    | some entry =>
      cases h
      exact rfl
  | json =>
    obtain ⟨text,-,h⟩ := fromFile_eq_some h
    obtain ⟨entry,-,h⟩ := bind_eq_ok.mp h
    cases h
    exact stem_own_iff (htarget.div _) (String.toList_ofList (l := ['.','j','s','o','n']))
      (by simp) (by decide) (by decide)
  | txt =>
    obtain ⟨text,-,h⟩ := fromFile_eq_some h
    cases h
    exact stem_own_iff (htarget.div _) (String.toList_ofList (l := ['.','t','x','t']))
      (by simp) (by decide) (by decide)
  | sections file =>
    refine iff_of_true ?_ trivial
    obtain ⟨text,-,h⟩ := fromFile_eq_some h
    dsimp only at h
    cases hfiles : parseSections rt.isWord name.toList false (splitFrom [] text) with
    | nil =>
      rw [hfiles] at h
      cases h
    | cons g gs =>
      rw [hfiles] at h
      cases h
      exact ⟨g :: gs,rfl,fun x hx => inSection_of_mem (hfiles ▸ hx)⟩
  | self =>
    refine iff_of_true ?_ trivial
    change (if name = target.name then filesList fs target else .ok none) = .ok (some a) at h
    by_cases hname : name = target.name
    · rw [if_pos hname] at h
      unfold Answer.IsOf
      rw [filesList_eq_some h]
      exact ⟨hname.symm,Or.inl rfl⟩
    · rw [if_neg hname] at h
      cases h
  | walk => exact iff_of_true (fromWalk_isOf h) trivial

/-- The look for something that is there does not come back empty. -/
theorem exists_loud_of_sure (h : Sure rt fs target name) :
    ∃ f ∈ Format.order, look rt fs target name f ≠ .ok none := by
  rcases h with ⟨file,hfile,keys,hkeys,hname⟩ | ⟨suffix,hsuffix,hfile⟩ | ⟨v,hv,hread⟩
  · refine ⟨.map file,?_,?_⟩
    · rcases List.mem_pair.mp hfile with rfl | rfl
      · simp [Format.order]
      · simp [Format.order]
    · obtain ⟨kvs,hthere,text,htext,hdata,rfl⟩ := mapNames_keys hkeys (List.ne_nil_of_mem hname)
      refine fromFile_of_isFile hthere fun text' htext' hnone => ?_
      cases htext.symm.trans htext'
      obtain ⟨data,hloads,hnone⟩ := bind_eq_ok.mp hnone
      cases hdata.symm.trans hloads
      obtain ⟨entry,hentry,hnone⟩ := bind_eq_ok.mp hnone
      have hsome := (PyDict.isSome_get kvs name).mpr hname
      have hget : PyDict.get kvs name = entry := Except.ok.inj hentry
      rw [hget] at hsome
      obtain ⟨e,rfl⟩ := Option.isSome_iff_exists.mp hsome
      cases hnone
  · rcases List.mem_pair.mp hsuffix with rfl | rfl
    · refine ⟨.json,by simp [Format.order],fromFile_of_isFile hfile fun text _ hnone => ?_⟩
      obtain ⟨entry,-,hnone⟩ := bind_eq_ok.mp hnone
      cases hnone
    · refine ⟨.txt,by simp [Format.order],fromFile_of_isFile hfile fun text _ hnone => ?_⟩
      cases hnone
  · refine ⟨.walk,by simp [Format.order],fun hnone => ?_⟩
    change fromWalk fs target name = .ok none at hnone
    unfold fromWalk at hnone
    rw [hv] at hnone
    dsimp only at hnone
    split at hnone
    · cases hnone
    · rename_i hos
      exact hread hos
    · cases hnone

end Load

/-! ## Every listed module -/

section Coherence
variable {rt : Runtime} {fs : FileSystem} {target : PurePath} {name : String}

theorem listed_iff : (∃ names, listModules rt fs target = .ok names ∧ name ∈ names) ↔
    Scannable rt fs target ∧ Offered rt fs target name := by
  constructor
  · rintro ⟨names,h,hname⟩
    obtain ⟨first,hfirst,h⟩ := bind_eq_ok.mp h
    obtain ⟨second,hsecond,h⟩ := bind_eq_ok.mp h
    obtain ⟨singles,hsingles,h⟩ := bind_eq_ok.mp h
    cases h
    rw [List.mem_mergeSort,List.mem_dedup,List.mem_append,List.mem_append,List.mem_append] at hname
    refine ⟨⟨?_,singles,hsingles⟩,?_⟩
    · intro file hfile
      rcases List.mem_pair.mp hfile with rfl | rfl
      · exact ⟨first,hfirst⟩
      · exact ⟨second,hsecond⟩
    · rcases hname with ((hname | hname) | hname) | hname
      · exact Or.inl ⟨_,by simp,first,hfirst,hname⟩
      · exact Or.inl ⟨_,by simp,second,hsecond,hname⟩
      · exact Or.inr (Or.inl ⟨singles,hsingles,hname⟩)
      · exact Or.inr (Or.inr hname)
  · rintro ⟨⟨hmaps,singles,hsingles⟩,hoffered⟩
    obtain ⟨first,hfirst⟩ := hmaps "module_map.json" (by simp)
    obtain ⟨second,hsecond⟩ := hmaps "modules.json" (by simp)
    refine ⟨_,bind_eq_ok.mpr ⟨first,hfirst,bind_eq_ok.mpr ⟨second,hsecond,bind_eq_ok.mpr
      ⟨singles,hsingles,rfl⟩⟩⟩,?_⟩
    rw [List.mem_mergeSort,List.mem_dedup,List.mem_append,List.mem_append,List.mem_append]
    rcases hoffered with ⟨file,hfile,keys,hkeys,hname⟩ | ⟨singles',hsingles',hname⟩ | hname
    · rcases List.mem_pair.mp hfile with rfl | rfl
      · rw [Except.ok.inj (hkeys.symm.trans hfirst)] at hname
        exact Or.inl (Or.inl (Or.inl hname))
      · rw [Except.ok.inj (hkeys.symm.trans hsecond)] at hname
        exact Or.inl (Or.inl (Or.inr hname))
    · rw [Except.ok.inj (hsingles'.symm.trans hsingles)] at hname
      exact Or.inl (Or.inr hname)
    · exact Or.inr hname

/-- A directory `/t` with nothing but `modules/net.md` in it. -/
def markdownOnly : FileSystem where
  stat p :=
    if p ∈ [⟨true,["t"]⟩,⟨true,["t","modules"]⟩] then .dir
    else if p = ⟨true,["t","modules","net.md"]⟩ then .file else .missing
  readText p :=
    if p = ⟨true,["t","modules","net.md"]⟩ then .ok ['n','e','t','.','c'] else .error .os
  iterdir p :=
    if p = ⟨true,["t","modules"]⟩ then [⟨"net.md",by unfold IsFileName; decide⟩] else []
  walk p :=
    if p = ⟨true,["t"]⟩ then
      [⟨[],[]⟩,⟨[⟨"modules",by unfold IsFileName; decide⟩],[⟨"net.md",by unfold IsFileName; decide⟩]⟩]
    else []

/-- An interpreter; the directory has no JSON in it. -/
def interpreter : Runtime := ⟨⟨fun _ => .malformed,rfl⟩,fun c => c.isAlphanum || c == '_'⟩

end Coherence

end ModuleDiscovery
end EntryAnalyse
