import EntryAnalyse.Dataclass
import EntryAnalyse.R6Finalize
import EntryAnalyse.Runs

/-! The pipeline state and its file `pipeline_state.json`: three nested dataclasses, each with a
`to_dict` and a `from_dict` written by hand, and the run of a task on them. -/
namespace EntryAnalyse
namespace PipelineState

open Dataclass PyJson Runs

/-! ## Fields -/

/-- The value of an attribute. A `NodeState` is a member of its enumeration; everything else is
what JSON can hold. -/
inductive Value
  | node (s : NodeState)
  | json (v : PyJson)

/-- `NodeState.value`. -/
def nodeValue : NodeState → String
  | .pending => "pending"
  | .running => "running"
  | .passed => "passed"
  | .failed => "failed"

/-- `NodeState(v)`. -/
def nodeOf : PyJson → Except PyError NodeState
  | .str "pending" => .ok .pending
  | .str "running" => .ok .running
  | .str "passed" => .ok .passed
  | .str "failed" => .ok .failed
  | _ => .error .valueError

theorem nodeOf_nodeValue (s : NodeState) : nodeOf (.str (nodeValue s)) = .ok s := by
  cases s <;> rfl

/-- What `json` writes and reads back: `NodeState` is a `str`, so its member is written as the
text that it holds. -/
def Value.toJson : Value → PyJson
  | .node s => .str (nodeValue s)
  | .json v => v

/-- A dictionary that `json` has read. -/
abbrev JsonDict := List (String × PyJson)

abbrev Attrs := List (String × Value)

def isText : Value → Bool
  | .json (.str _) => true
  | _ => false

/-- `entry_role` is declared as a text, and two stages store `None` in it. -/
def isOptText : Value → Bool
  | .json (.str _) | .json .null => true
  | _ => false

def isNumber : Value → Bool
  | .json (.int _) => true
  | _ => false

def isFlag : Value → Bool
  | .json (.bool _) => true
  | _ => false

def isOptFlag : Value → Bool
  | .json (.bool _) | .json .null => true
  | _ => false

def isReal : Value → Bool
  | .json (.float _) => true
  | _ => false

def isNode : Value → Bool
  | .node _ => true
  | _ => false

def required (name : String) (admits : Value → Bool) : DataField Value := ⟨name,admits,none⟩

def text (name : String) : DataField Value := ⟨name,isText,some (.json (.str ""))⟩

def number (name : String) : DataField Value := ⟨name,isNumber,some (.json (.int 0))⟩

def flag (name : String) : DataField Value := ⟨name,isFlag,some (.json (.bool false))⟩

def node (name : String) : DataField Value := ⟨name,isNode,some (.node .pending)⟩

/-- `updated_at`, by default the time at which the instance is built. -/
def updatedAt (now : PyFloat) : DataField Value := ⟨"updated_at",isReal,some (.json (.float now))⟩

/-- The fields of `FunctionState`. -/
def functionFields (now : PyFloat) : List (DataField Value) :=
  [required "func_hash" isText,required "name" isText,required "start_line" isNumber,
    number "end_line",text "signature",
    node "r2_w_state",number "r2_w_attempts",node "r2_j_state",number "r2_j_attempts",
    text "r2_j_feedback",text "r2_j_feedback_path",flag "r2_source_incomplete",
    ⟨"api_filter_state",isText,some (.json (.str "pending"))⟩,number "api_filter_attempts",
    text "api_filter_decision",text "api_filter_skip_reason",text "api_filter_last_error",
    flag "api_filter_timed_out",number "api_filter_duration_ms",
    node "fast_mode_state",text "fast_mode_result",number "fast_mode_batch",
    node "r3_w_state",number "r3_w_attempts",text "r3_w_feedback",
    ⟨"has_external_input",isOptFlag,some (.json .null)⟩,
    node "r3_j_state",number "r3_j_attempts",text "r3_j_feedback_path",
    text "r3_j_feedback_summary",⟨"entry_role",isOptText,some (.json (.str ""))⟩,
    text "r4_decision",text "r4_note",text "r4_reason",node "r4_state",number "r4_attempts",
    node "r4_j_state",number "r4_j_attempts",text "r4_j_feedback",
    node "r5_state",number "r5_attempts",text "r5_path",updatedAt now]

/-- The fields that `to_dict` and `from_dict` of a function convert one by one. -/
def functionNodes : List String :=
  ["r2_w_state","r2_j_state","r3_w_state","r3_j_state","r4_state","r4_j_state","r5_state"]

/-- The fields of `FileState` without `functions`. -/
def fileFields (now : PyFloat) : List (DataField Value) :=
  [required "file_hash" isText,required "original_path" isText,
    node "r1_w_state",node "r1_j_state",number "r1_attempts",text "r1_feedback",updatedAt now]

def fileNodes : List String := ["r1_w_state","r1_j_state"]

/-- The fields of `PipelineState` without `files` and the lock. -/
def pipelineFields (now : PyFloat) : List (DataField Value) :=
  [required "task_id" isText,node "cc_state",number "cc_attempts",
    node "r6_state",number "r6_attempts",text "r6_feedback",updatedAt now]

def pipelineNodes : List String := ["cc_state","r6_state"]

structure FileState where
  attrs : Attrs
  functions : List (String × Attrs)

end PipelineState

structure PipelineState where
  attrs : PipelineState.Attrs
  files : List (String × PipelineState.FileState)

namespace PipelineState

open Dataclass PyJson Runs

/-! ## `to_dict` -/

/-- The attributes as `json` reads them back, after `.value` was taken of the listed ones. -/
def attrsToDict (nodes : List String) (obj : Attrs) : Except PyError JsonDict :=
  obj.mapM fun p =>
    if nodes.contains p.1 then
      match p.2 with
      | .node s => .ok (p.1,.str (nodeValue s))
      | .json _ => .error .attributeError
    else .ok (p.1,p.2.toJson)

/-- `FunctionState.to_dict`. -/
def functionToDict (obj : Attrs) : Except PyError JsonDict := attrsToDict functionNodes obj

/-- `FileState.to_dict`. -/
def FileState.toDict (f : FileState) : Except PyError JsonDict := do
  let attrs ← attrsToDict fileNodes f.attrs
  let functions ← f.functions.mapM fun p => do pure (p.1,PyJson.dict (← functionToDict p.2))
  pure (attrs ++ [("functions",.dict functions)])

/-- `PipelineState.to_dict`. -/
def toDict (s : PipelineState) : Except PyError JsonDict := do
  let attrs ← attrsToDict pipelineNodes s.attrs
  let files ← s.files.mapM fun p => do pure (p.1,PyJson.dict (← p.2.toDict))
  pure (attrs ++ [("files",.dict files)])

/-! ## `from_dict` -/

/-- What a `from_dict` returns, and the dictionary that it was given after the call. -/
structure Decoded (α : Type) where
  result : Except PyError α
  argument : JsonDict

def has (d : JsonDict) (k : String) : Bool := (PyDict.get d k).isSome

/-- `data[new] = data.get(old, default)`, one after the other. -/
def moveKeys (d : JsonDict) (moves : List (String × String × PyJson)) : JsonDict :=
  moves.foldl (fun d m => PyDict.set d m.1 (PyDict.getD d m.2.1 m.2.2)) d

def migrate (test : Bool) (moves : List (String × String × PyJson)) (d : JsonDict) : JsonDict :=
  if test then moveKeys d moves else d

/-- The names of older versions, as `FunctionState.from_dict` renames them. -/
def migrateFunction (d : JsonDict) : JsonDict :=
  let d := migrate (has d "r1b_j_state" && !has d "r2_j_state")
    [("r2_j_state","r1b_j_state",.str "pending"),("r2_j_attempts","r1b_j_attempts",.int 0),
      ("r2_j_feedback","r1b_j_feedback",.str ""),
      ("r2_j_feedback_path","r1b_j_feedback_path",.str "")] d
  let d := migrate (has d "r1b_w_state" && !has d "r2_w_state")
    [("r2_w_state","r1b_w_state",.str "pending"),("r2_w_attempts","r1b_w_attempts",.int 0)] d
  let d := migrate (has d "r1_j_state" && !has d "r2_j_state")
    [("r2_j_state","r1_j_state",.str "pending"),("r2_j_attempts","r1_j_attempts",.int 0)] d
  let d := migrate (has d "r2_w_state" && !has d "r3_w_state" &&
      (has d "r1b_j_state" || has d "r1_j_state"))
    [("r3_w_state","r2_w_state",.str "pending"),("r3_w_attempts","r2_w_attempts",.int 0),
      ("r3_w_feedback","r2_w_feedback",.str ""),("has_external_input","has_external_input",.null),
      ("r3_j_state","r2_j_state",.str "pending"),("r3_j_attempts","r2_j_attempts",.int 0),
      ("r2_j_state","r1b_j_state",PyDict.getD d "r1_j_state" (.str "pending")),
      ("r2_j_attempts","r1b_j_attempts",.int 0),
      ("r2_w_state","r1b_w_state",.str "pending"),("r2_w_attempts","r1b_w_attempts",.int 0)] d
  let d := migrate (has d "r3_decision" && !has d "r4_decision")
    [("r4_decision","r3_decision",.str ""),("r4_note","r3_cross_file_note",.str "")] d
  migrate (has d "report_state" && !has d "r5_state")
    [("r5_state","report_state",.str "pending"),("r5_attempts","report_attempts",.int 0),
      ("r5_path","report_path",.str "")] d

/-- The `setdefault` calls of `FunctionState.from_dict`. -/
def functionDefaults : JsonDict :=
  [("entry_role",.str ""),("api_filter_state",.str "pending"),("api_filter_attempts",.int 0),
    ("api_filter_decision",.str ""),("api_filter_skip_reason",.str ""),
    ("api_filter_last_error",.str ""),("api_filter_timed_out",.bool false),
    ("api_filter_duration_ms",.int 0),("r4_decision",.str ""),("r4_note",.str ""),
    ("r4_j_feedback",.str ""),("r5_path",.str "")]

def migrateFile (d : JsonDict) : JsonDict :=
  if has d "r1_w_state_legacy" && !has d "r1_w_state" then
    moveKeys d [("r1_w_state","r1_w_state_legacy",.str "pending"),
      ("r1_j_state","r1a_j_state",.str "pending"),("r1_attempts","r1a_attempts",.int 0),
      ("r1_feedback","r1_feedback",.str "")]
  else migrate (has d "r1_w_state" && !has d "r1_j_state")
    [("r1_j_state","r1_w_state",.str "pending")] d

def migratePipeline (d : JsonDict) : JsonDict :=
  if has d "r4_final_j_state" && !has d "r6_state" then
    moveKeys d [("r6_state","r4_final_j_state",.str "pending"),
      ("r6_attempts","r4_final_j_attempts",.int 0),("r6_feedback","r4_final_j_feedback",.str "")]
  else if has d "report_final_state" && !has d "r6_state" then
    moveKeys d [("r6_state","report_final_state",.str "pending"),
      ("r6_attempts","report_final_attempts",.int 0)]
  else migrate (has d "r4_state" && !has d "r6_state")
    [("r6_state","r4_state",.str "pending"),("r6_attempts","r4_attempts",.int 0)] d

/-- `data[f] = NodeState(data.get(f, 'pending'))` for the listed fields. -/
def readNodes (nodes : List String) (d : JsonDict) : Except PyError (List (String × NodeState)) :=
  nodes.mapM fun f => do pure (f,← nodeOf (PyDict.getD d f (.str "pending")))

def keywords (nodes : List (String × NodeState)) (d : JsonDict) (k : String) : Option Value :=
  match nodes.lookup k with
  | some s => some (.node s)
  | none => (PyDict.get d k).map .json

/-- The conversions and the call of the constructor at the end of a `from_dict`. -/
def readAttrs (fields : List (DataField Value)) (nodes : List String)
    (defaults d : JsonDict) : Except PyError Attrs := do
  let states ← readNodes nodes d
  construct fields (keywords states (defaults.foldl (fun d p => PyDict.setdefault d p.1 p.2) d))

/-- `dict.items()`. -/
def items : PyJson → Except PyError JsonDict
  | .dict d => .ok d
  | _ => .error .attributeError

variable (now : PyFloat)

/-- `FunctionState.from_dict`, which works on a copy. -/
def functionFromDict (data : JsonDict) : Decoded Attrs where
  result := readAttrs (functionFields now) functionNodes functionDefaults (migrateFunction data)
  argument := data

/-- `FileState.from_dict` takes `functions` out of its argument before it makes a copy. -/
def FileState.fromDict (data : JsonDict) : Decoded FileState where
  result := do
    let attrs ← readAttrs (fileFields now) fileNodes []
      (migrateFile (PyDict.pop data "functions"))
    let functions ← (← items (PyDict.getD data "functions" (.dict []))).mapM fun p => do
      pure (p.1,← (functionFromDict now (← items p.2)).result)
    pure ⟨attrs,functions⟩
  argument := PyDict.pop data "functions"

/-- `PipelineState.from_dict` does the same with `files`. The lock is no argument of the
constructor. -/
def fromDict (data : JsonDict) : Decoded PipelineState where
  result := do
    let rest := migratePipeline (PyDict.pop data "files")
    let attrs ← readAttrs (pipelineFields now) pipelineNodes
      [("cc_attempts",.int 0),("r6_feedback",.str "")] rest
    if has rest "_lock" then .error .typeError
    let files ← (← items (PyDict.getD data "files" (.dict []))).mapM fun p => do
      pure (p.1,← (FileState.fromDict now (← items p.2)).result)
    pure ⟨attrs,files⟩
  argument := PyDict.pop data "files"

/-! ## The run of a task -/

def argument (given : List (String × PyJson)) (k : String) : Option Value :=
  (given.lookup k).map .json

/-- `PipelineState(task_id=task_id)`. -/
def new (taskId : String) : Except PyError PipelineState := do
  pure ⟨← construct (pipelineFields now) (argument [("task_id",.str taskId)]),[]⟩

def newFile (fileHash path : String) : Except PyError FileState := do
  pure ⟨← construct (fileFields now)
    (argument [("file_hash",.str fileHash),("original_path",.str path)]),[]⟩

/-- A function as `register_functions` is given it, and when it is filed. -/
structure NewFunction where
  hash : String
  name : String
  signature : String
  start : ℤ
  stop : ℤ
  now : PyFloat

def NewFunction.toAttrs (f : NewFunction) : Except PyError Attrs :=
  construct (functionFields f.now) (argument [("func_hash",.str f.hash),("name",.str f.name),
    ("signature",.str f.signature),("start_line",.int f.start),("end_line",.int f.stop)])

/-- `PipelineState.load_or_create`, given what the file holds: `none` for no file or one that is
not JSON. -/
def loadOrCreate (file : Option PyJson) (taskId : String) : Except PyError PipelineState :=
  match file with
  | some (.dict data) =>
    match (fromDict now data).result with
    | .ok s =>
      match s.attrs.lookup "task_id" with
      | some (.json (.str t)) => if t = taskId then .ok s else new now taskId
      | _ => new now taskId
    | .error _ => new now taskId
  | _ => new now taskId

/-- `register_files`. -/
def registerFiles (s : PipelineState) (files : List (String × String × PyFloat)) :
    Except PyError PipelineState :=
  files.foldlM (fun s f =>
    if (s.files.lookup f.1).isSome then .ok s
    else do pure { s with files := s.files ++ [(f.1,← newFile f.2.2 f.1 f.2.1)] }) s

/-- One function of `_register_functions_unlocked`. -/
def FileState.register (fs : FileState) (f : NewFunction) : Except PyError FileState :=
  if (fs.functions.lookup f.hash).isSome then .ok fs
  else do pure { fs with functions := fs.functions ++ [(f.hash,← f.toAttrs)] }

/-- `fs.functions[fh] = FunctionState(…)`. -/
def FileState.assign (fs : FileState) (f : NewFunction) : Except PyError FileState := do
  let obj ← f.toAttrs
  pure { fs with functions :=
    if (fs.functions.lookup f.hash).isSome then
      fs.functions.map (fun p => if p.1 = f.hash then (p.1,obj) else p)
    else fs.functions ++ [(f.hash,obj)] }

def modifyFile (s : PipelineState) (h : String) (g : FileState → Except PyError FileState) :
    Except PyError PipelineState := do
  pure { s with files := ← s.files.mapM fun p =>
    if p.1 = h then do pure (p.1,← g p.2) else .ok p }

def FileState.modifyFunction (fs : FileState) (h : String) (g : Attrs → Attrs) : FileState :=
  { fs with functions := fs.functions.map (fun p => if p.1 = h then (p.1,g p.2) else p) }

/-- The value has the type of the field. -/
def admits (fields : List (DataField Value)) (field : String) (v : Value) : Bool :=
  fields.all (fun f => f.name != field || f.admits v)

/-- What changes the state: the two registrations, and the assignments of the stages, each of a
value of the field's own type. No stage changes the task. -/
inductive Update
  | registerFiles (files : List (String × String × PyFloat))
  | registerFunctions (h : String) (funcs : List NewFunction)
  | assignFunction (h : String) (f : NewFunction)
  | setPipeline (field : String) (v : Value)
  | setFile (h field : String) (v : Value)
  | setFunction (h g field : String) (v : Value)

def step (s : PipelineState) : Update → Option PipelineState
  | .registerFiles files => (registerFiles s files).toOption
  | .registerFunctions h funcs =>
    (modifyFile s h (fun fs => funcs.foldlM FileState.register fs)).toOption
  | .assignFunction h f => (modifyFile s h (fun fs => fs.assign f)).toOption
  | .setPipeline field v =>
    if field ≠ "task_id" ∧ admits (pipelineFields .nan) field v = true then
      some { s with attrs := setattr s.attrs field v }
    else none
  | .setFile h field v =>
    if admits (fileFields .nan) field v = true then
      (modifyFile s h (fun fs => .ok { fs with attrs := setattr fs.attrs field v })).toOption
    else none
  | .setFunction h g field v =>
    if admits (functionFields .nan) field v = true then
      (modifyFile s h
        (fun fs => .ok (fs.modifyFunction g (fun obj => setattr obj field v)))).toOption
    else none

/-! ## What is written is read back -/

/-- The attributes as `json` holds them. -/
def image (obj : Attrs) : JsonDict := obj.map (fun p => (p.1,p.2.toJson))

/-- An attribute that `from_dict` does not convert keeps the value that `json` gave it. -/
def reread (nodes : List String) (p : String × Value) : String × Value :=
  if nodes.contains p.1 then p else (p.1,.json p.2.toJson)

theorem has_eq (d : JsonDict) (k : String) : has d k = decide (k ∈ d.map Prod.fst) := by
  rw [Bool.eq_iff_iff,decide_eq_true_iff]
  exact PyDict.isSome_get d k

theorem image_names (obj : Attrs) : (image obj).map Prod.fst = obj.map Prod.fst := by
  simp [image]

theorem exists_of_isNode {v : Value} (h : isNode v = true) : ∃ s, v = .node s := by
  cases v with
  | node s => exact ⟨s,rfl⟩
  | json v => cases h

theorem attrsToDict_eq {nodes : List String} {obj : Attrs}
    (hnode : ∀ p ∈ obj, nodes.contains p.1 = true → isNode p.2 = true) :
    attrsToDict nodes obj = .ok (image obj) := by
  rw [attrsToDict,image,mapM_ok_iff,List.forall₂_map_right_iff,List.forall₂_same]
  intro p hp
  by_cases hn : nodes.contains p.1 = true
  · obtain ⟨s,hs⟩ := exists_of_isNode (hnode p hp hn)
    rw [if_pos hn,hs]
    rfl
  · rw [if_neg hn]

theorem foldl_setdefault {defaults d : JsonDict}
    (h : ∀ p ∈ defaults, p.1 ∈ d.map Prod.fst) :
    defaults.foldl (fun d p => PyDict.setdefault d p.1 p.2) d = d := by
  induction defaults with
  | nil => rfl
  | cons p defaults ih =>
    have hp := (PyDict.isSome_get d p.1).mpr (h p List.mem_cons_self)
    rw [List.foldl_cons,PyDict.setdefault,if_pos hp]
    exact ih fun q hq => h q (List.mem_cons_of_mem _ hq)

theorem get_image {obj : Attrs} (hnd : (obj.map Prod.fst).Nodup) {p : String × Value}
    (hp : p ∈ obj) : PyDict.get (image obj) p.1 = some p.2.toJson := by
  induction obj with
  | nil => cases hp
  | cons q obj ih =>
    rw [List.map_cons,List.nodup_cons] at hnd
    rw [image,List.map_cons,PyDict.get_cons]
    rcases List.mem_cons.mp hp with rfl | hp'
    · rw [if_pos rfl]
    · have hne : p.1 ≠ q.1 := fun h => hnd.1 (h ▸ List.mem_map_of_mem hp')
      rw [if_neg hne]
      exact ih hnd.2 hp'

theorem lookup_of_nodup {obj : Attrs} (hnd : (obj.map Prod.fst).Nodup) {p : String × Value}
    (hp : p ∈ obj) : obj.lookup p.1 = some p.2 := by
  induction obj with
  | nil => cases hp
  | cons q obj ih =>
    rw [List.map_cons,List.nodup_cons] at hnd
    rw [List.lookup_cons]
    rcases List.mem_cons.mp hp with rfl | hp'
    · rw [beq_self_eq_true]
    · have hne : p.1 ≠ q.1 := fun h => hnd.1 (h ▸ List.mem_map_of_mem hp')
      rw [beq_false_of_ne hne]
      exact ih hnd.2 hp'

/-- The state that a listed attribute holds. -/
def stateOf (obj : Attrs) (f : String) : NodeState :=
  match obj.lookup f with
  | some (.node s) => s
  | _ => .pending

theorem readNodes_image {nodes : List String} {obj : Attrs} (hnd : (obj.map Prod.fst).Nodup)
    (hmem : ∀ f ∈ nodes, f ∈ obj.map Prod.fst)
    (hnode : ∀ p ∈ obj, nodes.contains p.1 = true → isNode p.2 = true) :
    readNodes nodes (image obj) = .ok (nodes.map (fun f => (f,stateOf obj f))) := by
  rw [readNodes,mapM_ok_iff,List.forall₂_map_right_iff,List.forall₂_same]
  intro f hf
  obtain ⟨p,hp,rfl⟩ := List.mem_map.mp (hmem f hf)
  obtain ⟨s,hs⟩ := exists_of_isNode (hnode p hp (List.contains_iff_mem.mpr hf))
  have hstate : stateOf obj p.1 = s := by
    rw [stateOf,lookup_of_nodup hnd hp,hs]
  rw [PyDict.getD,get_image hnd hp,hs,hstate]
  simp only [Option.getD_some,Value.toJson,nodeOf_nodeValue]
  rfl

theorem lookup_map_self {nodes : List String} {g : String → NodeState} (f : String) :
    (nodes.map (fun f => (f,g f))).lookup f = if nodes.contains f then some (g f) else none := by
  induction nodes with
  | nil => rfl
  | cons n nodes ih =>
    rw [List.map_cons,List.lookup_cons,List.contains_cons,ih]
    by_cases h : f = n
    · rw [h,beq_self_eq_true]
      rfl
    · rw [beq_false_of_ne h,Bool.false_or]

/-- The fields of a class, with those that `to_dict` and `from_dict` convert and those that
have a default in `from_dict` too. -/
structure Table (fields : List (DataField Value)) (nodes : List String) (defaults : JsonDict) :
    Prop where
  nodup : (fields.map DataField.name).Nodup
  nodes_mem : ∀ f ∈ nodes, f ∈ fields.map DataField.name
  defaults_mem : ∀ p ∈ defaults, p.1 ∈ fields.map DataField.name
  isNode : ∀ f ∈ fields, nodes.contains f.name = true → f.admits = isNode

section Table

variable {fields : List (DataField Value)} {nodes : List String} {defaults : JsonDict}
  {obj : Attrs}

theorem Table.isNode_of_typed (ht : Table fields nodes defaults) (h : Typed fields obj) :
    ∀ p ∈ obj, nodes.contains p.1 = true → PipelineState.isNode p.2 = true := by
  intro p hp hn
  obtain ⟨f,hf,hname,hadmits⟩ := h.exists_field hp
  rw [hname] at hn
  rw [← ht.isNode f hf hn]
  exact hadmits

/-- The instance that `from_dict` builds from the written attributes. -/
theorem Table.readAttrs_image (ht : Table fields nodes defaults) (h : Typed fields obj) :
    readAttrs fields nodes defaults (image obj) = .ok (obj.map (reread nodes)) := by
  have hnode := ht.isNode_of_typed h
  have hnd : (obj.map Prod.fst).Nodup := h.names ▸ ht.nodup
  have hset : defaults.foldl (fun d p => PyDict.setdefault d p.1 p.2) (image obj) = image obj :=
    foldl_setdefault fun p hp => by
      rw [image_names,h.names]
      exact ht.defaults_mem p hp
  rw [readAttrs,readNodes_image hnd (h.names ▸ ht.nodes_mem) hnode,hset]
  refine construct_of_keywords ?_ fun q hq => ?_
  · rw [← h.names,List.map_map]
    exact List.map_congr_left fun p _ => by
      rw [Function.comp_apply,reread]
      split <;> rfl
  · obtain ⟨p,hp,rfl⟩ := List.mem_map.mp hq
    have hname : (reread nodes p).1 = p.1 := by
      rw [reread]
      split <;> rfl
    rw [hname,keywords,lookup_map_self,get_image hnd hp,reread]
    by_cases hn : nodes.contains p.1 = true
    · obtain ⟨s,hs⟩ := exists_of_isNode (hnode p hp hn)
      rw [if_pos hn,if_pos hn,stateOf,lookup_of_nodup hnd hp,hs]
    · rw [if_neg hn,if_neg hn]
      rfl

end Table

variable {now}

/-- What becomes of an attribute of a function: `fast_mode_state` comes back as a text. -/
def asLoaded (p : String × Value) : String × Value :=
  if p.1 = "fast_mode_state" then (p.1,.json p.2.toJson) else p

def FileState.asLoaded (f : FileState) : FileState :=
  { f with functions := f.functions.map (fun p => (p.1,p.2.map PipelineState.asLoaded)) }

/-- The state as `from_dict` gives it back. -/
def reloaded (s : PipelineState) : PipelineState :=
  { s with files := s.files.map (fun p => (p.1,p.2.asLoaded)) }

/-- Every attribute of the file and of its functions has the type of its field. -/
structure FileState.WellTyped (f : FileState) : Prop where
  attrs : Typed (fileFields .nan) f.attrs
  functions : ∀ p ∈ f.functions, Typed (functionFields .nan) p.2

structure WellTyped (taskId : String) (s : PipelineState) : Prop where
  attrs : Typed (pipelineFields .nan) s.attrs
  task : s.attrs.lookup "task_id" = some (.json (.str taskId))
  files : ∀ p ∈ s.files, p.2.WellTyped

theorem functionNodes_isNode : ∀ f ∈ functionFields now,
    functionNodes.contains f.name = true → f.admits = isNode := by
  simp only [functionFields,List.forall_mem_cons]
  and_intros <;> first
    | exact fun _ => rfl
    | exact fun h => absurd h (by decide)
    | exact fun h => absurd (show functionNodes.contains "updated_at" = true from h) (by decide)
    | exact fun _ h => absurd h List.not_mem_nil

theorem fileNodes_isNode : ∀ f ∈ fileFields now,
    fileNodes.contains f.name = true → f.admits = isNode := by
  simp only [fileFields,List.forall_mem_cons]
  and_intros <;> first
    | exact fun _ => rfl
    | exact fun h => absurd h (by decide)
    | exact fun h => absurd (show fileNodes.contains "updated_at" = true from h) (by decide)
    | exact fun _ h => absurd h List.not_mem_nil

theorem pipelineNodes_isNode : ∀ f ∈ pipelineFields now,
    pipelineNodes.contains f.name = true → f.admits = isNode := by
  simp only [pipelineFields,List.forall_mem_cons]
  and_intros <;> first
    | exact fun _ => rfl
    | exact fun h => absurd h (by decide)
    | exact fun h => absurd (show pipelineNodes.contains "updated_at" = true from h) (by decide)
    | exact fun _ h => absurd h List.not_mem_nil

theorem functionTable (now : PyFloat) :
    Table (functionFields now) functionNodes functionDefaults where
  nodup := show ((functionFields .nan).map DataField.name).Nodup by decide
  nodes_mem := show ∀ f ∈ functionNodes, f ∈ (functionFields .nan).map DataField.name by decide
  defaults_mem :=
    show ∀ p ∈ functionDefaults, p.1 ∈ (functionFields .nan).map DataField.name by decide
  isNode := functionNodes_isNode

theorem fileTable (now : PyFloat) : Table (fileFields now) fileNodes [] where
  nodup := show ((fileFields .nan).map DataField.name).Nodup by decide
  nodes_mem := show ∀ f ∈ fileNodes, f ∈ (fileFields .nan).map DataField.name by decide
  defaults_mem := fun _ hp => absurd hp List.not_mem_nil
  isNode := fileNodes_isNode

theorem pipelineTable (now : PyFloat) :
    Table (pipelineFields now) pipelineNodes [("cc_attempts",.int 0),("r6_feedback",.str "")] where
  nodup := show ((pipelineFields .nan).map DataField.name).Nodup by decide
  nodes_mem := show ∀ f ∈ pipelineNodes, f ∈ (pipelineFields .nan).map DataField.name by decide
  defaults_mem := show ∀ k ∈ [("cc_attempts",PyJson.int 0),("r6_feedback",.str "")],
      k.1 ∈ (pipelineFields .nan).map DataField.name by
    simp only [List.forall_mem_cons]
    exact ⟨by decide,by decide,fun _ hp => absurd hp List.not_mem_nil⟩
  isNode := pipelineNodes_isNode

/-- The other fields hold no `NodeState`. -/
theorem functionFields_json : ∀ f ∈ functionFields now, functionNodes.contains f.name = false →
    f.name ≠ "fast_mode_state" → ∀ s, f.admits (.node s) = false := by
  simp only [functionFields,List.forall_mem_cons]
  and_intros <;> first
    | exact fun _ _ _ => rfl
    | exact fun h => absurd h (by decide)
    | exact fun _ h => absurd rfl h
    | exact fun _ h => absurd h List.not_mem_nil

theorem fileFields_json : ∀ f ∈ fileFields now, fileNodes.contains f.name = false →
    ∀ s, f.admits (.node s) = false := by
  simp only [fileFields,List.forall_mem_cons]
  and_intros <;> first
    | exact fun _ _ => rfl
    | exact fun h => absurd h (by decide)
    | exact fun _ h => absurd h List.not_mem_nil

theorem pipelineFields_json : ∀ f ∈ pipelineFields now, pipelineNodes.contains f.name = false →
    ∀ s, f.admits (.node s) = false := by
  simp only [pipelineFields,List.forall_mem_cons]
  and_intros <;> first
    | exact fun _ _ => rfl
    | exact fun h => absurd h (by decide)
    | exact fun _ h => absurd h List.not_mem_nil

theorem reread_of_json {nodes : List String} {p : String × Value}
    (h : nodes.contains p.1 = false → ∃ v, p.2 = .json v) : reread nodes p = p := by
  rw [reread]
  split
  · rfl
  · rename_i hn
    obtain ⟨v,hv⟩ := h (Bool.eq_false_iff.mpr hn)
    obtain ⟨k,w⟩ := p
    cases hv
    rfl

theorem exists_json {v : Value} {f : DataField Value} (hadmits : f.admits v = true)
    (hf : ∀ s, f.admits (.node s) = false) : ∃ j, v = .json j := by
  cases v with
  | node s => rw [hf s] at hadmits; cases hadmits
  | json j => exact ⟨j,rfl⟩

theorem map_reread {fields : List (DataField Value)} {nodes : List String} {obj : Attrs}
    (h : Typed fields obj)
    (hfields : ∀ f ∈ fields, nodes.contains f.name = false → ∀ s, f.admits (.node s) = false) :
    obj.map (reread nodes) = obj := by
  refine (List.map_congr_left fun p hp => ?_).trans (List.map_id _)
  obtain ⟨f,hf,hname,hadmits⟩ := h.exists_field hp
  exact reread_of_json fun hn => exists_json hadmits (hfields f hf (hname ▸ hn))

theorem map_reread_function {obj : Attrs} (h : Typed (functionFields now) obj) :
    obj.map (reread functionNodes) = obj.map asLoaded := by
  refine List.map_congr_left fun p hp => ?_
  rw [asLoaded]
  by_cases hfast : p.1 = "fast_mode_state"
  · rw [if_pos hfast,reread,if_neg]
    rw [hfast]
    decide
  · rw [if_neg hfast]
    obtain ⟨f,hf,hname,hadmits⟩ := h.exists_field hp
    exact reread_of_json fun hn =>
      exists_json hadmits (functionFields_json f hf (hname ▸ hn) (hname ▸ hfast))

theorem Typed.function {obj : Attrs} (h : Typed (functionFields .nan) obj) (now : PyFloat) :
    Typed (functionFields now) obj := h.congr rfl

def FileState.image (f : FileState) : JsonDict :=
  PipelineState.image f.attrs ++
    [("functions",.dict (f.functions.map (fun p => (p.1,.dict (PipelineState.image p.2)))))]

/-- The dictionary of the whole state. -/
def written (s : PipelineState) : JsonDict :=
  image s.attrs ++ [("files",.dict (s.files.map (fun p => (p.1,.dict p.2.image))))]

theorem has_image {names : List String} {obj : Attrs} (h : obj.map Prod.fst = names)
    (k : String) : has (image obj) k = decide (k ∈ names) := by
  rw [has_eq,image_names,h]

theorem pop_append {d : JsonDict} {k : String} (v : PyJson) (h : has d k = false) :
    PyDict.pop (d ++ [(k,v)]) k = d := by
  rw [has_eq,decide_eq_false_iff_not] at h
  rw [PyDict.pop,List.filter_append,List.filter_eq_self.mpr,List.filter_cons_of_neg]
  · exact List.append_nil d
  · simp
  · intro p hp
    rw [bne_iff_ne]
    rintro rfl
    exact h (List.mem_map_of_mem hp)

theorem getD_append {d : JsonDict} {k : String} (v w : PyJson) (h : has d k = false) :
    PyDict.getD (d ++ [(k,v)]) k w = v := by
  rw [has,Option.isSome_eq_false_iff,Option.isNone_iff_eq_none] at h
  rw [PyDict.getD,PyDict.get_append,h,PyDict.get_cons,if_pos rfl]
  rfl

theorem migrateFunction_image {obj : Attrs} (h : Typed (functionFields now) obj) :
    migrateFunction (image obj) = image obj := by
  have hk : obj.map Prod.fst = (functionFields .nan).map DataField.name := h.names
  have h₁ : has (image obj) "r1b_j_state" = false := by rw [has_image hk]; decide
  have h₂ : has (image obj) "r1b_w_state" = false := by rw [has_image hk]; decide
  have h₃ : has (image obj) "r1_j_state" = false := by rw [has_image hk]; decide
  have h₄ : has (image obj) "r3_decision" = false := by rw [has_image hk]; decide
  have h₅ : has (image obj) "report_state" = false := by rw [has_image hk]; decide
  simp [migrateFunction,migrate,h₁,h₂,h₃,h₄,h₅]

theorem migrateFile_image {obj : Attrs} (h : Typed (fileFields now) obj) :
    migrateFile (image obj) = image obj := by
  have hk : obj.map Prod.fst = (fileFields .nan).map DataField.name := h.names
  have h₁ : has (image obj) "r1_w_state_legacy" = false := by rw [has_image hk]; decide
  have h₂ : has (image obj) "r1_j_state" = true := by rw [has_image hk]; decide
  simp [migrateFile,migrate,h₁,h₂]

theorem migratePipeline_image {obj : Attrs} (h : Typed (pipelineFields now) obj) :
    migratePipeline (image obj) = image obj := by
  have hk : obj.map Prod.fst = (pipelineFields .nan).map DataField.name := h.names
  have h₁ : has (image obj) "r6_state" = true := by rw [has_image hk]; decide
  simp [migratePipeline,migrate,h₁]

section Levels

variable {obj : Attrs} {f : FileState} {s : PipelineState}

theorem functionToDict_eq (h : Typed (functionFields now) obj) :
    functionToDict obj = .ok (image obj) :=
  attrsToDict_eq ((functionTable now).isNode_of_typed h)

theorem functionFromDict_image (h : Typed (functionFields now) obj) :
    (functionFromDict now (image obj)).result = .ok (obj.map asLoaded) := by
  rw [functionFromDict,migrateFunction_image h,← map_reread_function h]
  exact (functionTable now).readAttrs_image h

theorem FileState.toDict_eq (h : f.WellTyped) : f.toDict = .ok f.image := by
  have hattrs : attrsToDict fileNodes f.attrs = .ok (PipelineState.image f.attrs) :=
    attrsToDict_eq ((fileTable .nan).isNode_of_typed h.attrs)
  have hfuncs : (f.functions.mapM fun p => do pure (p.1,PyJson.dict (← functionToDict p.2))) =
      (.ok (f.functions.map (fun p => (p.1,.dict (PipelineState.image p.2)))) :
        Except PyError JsonDict) := by
    rw [mapM_ok_iff,List.forall₂_map_right_iff,List.forall₂_same]
    intro p hp
    rw [functionToDict_eq (h.functions p hp)]
    rfl
  rw [FileState.toDict,hattrs,hfuncs]
  rfl

theorem FileState.fromDict_image (h : f.WellTyped) (now : PyFloat) :
    (FileState.fromDict now f.image).result = .ok f.asLoaded := by
  have hattrs : Typed (fileFields now) f.attrs := h.attrs.congr rfl
  have hk : f.attrs.map Prod.fst = (fileFields .nan).map DataField.name := h.attrs.names
  have hno : has (PipelineState.image f.attrs) "functions" = false := by
    rw [has_image hk]
    decide
  have hread : readAttrs (fileFields now) fileNodes [] (PipelineState.image f.attrs) =
      .ok f.attrs := by
    rw [(fileTable now).readAttrs_image hattrs,map_reread hattrs fileFields_json]
  have hfuncs : ((f.functions.map (fun p => (p.1,PyJson.dict (PipelineState.image p.2)))).mapM
      fun p => do pure (p.1,← (functionFromDict now (← items p.2)).result)) =
      (.ok (f.functions.map (fun p => (p.1,p.2.map PipelineState.asLoaded))) :
        Except PyError _) := by
    rw [mapM_ok_iff,List.forall₂_map_left_iff,List.forall₂_map_right_iff,List.forall₂_same]
    intro p hp
    have hp := functionFromDict_image (Typed.function (h.functions p hp) now)
    simp only [items,bind,Except.bind,hp,pure,Except.pure]
  rw [FileState.fromDict,FileState.image,pop_append _ hno,getD_append _ _ hno,
    migrateFile_image hattrs,hread]
  simp only [items,bind,Except.bind] at hfuncs ⊢
  rw [hfuncs]
  rfl

theorem toDict_eq {taskId : String} (h : s.WellTyped taskId) : s.toDict = .ok s.written := by
  have hattrs : attrsToDict pipelineNodes s.attrs = .ok (image s.attrs) :=
    attrsToDict_eq ((pipelineTable .nan).isNode_of_typed h.attrs)
  have hfiles : (s.files.mapM fun p => do pure (p.1,PyJson.dict (← p.2.toDict))) =
      (.ok (s.files.map (fun p => (p.1,.dict p.2.image))) : Except PyError JsonDict) := by
    rw [mapM_ok_iff,List.forall₂_map_right_iff,List.forall₂_same]
    intro p hp
    rw [FileState.toDict_eq (h.files p hp)]
    rfl
  rw [toDict,hattrs,hfiles]
  rfl

theorem fromDict_written {taskId : String} (h : s.WellTyped taskId) :
    (fromDict now s.written).result = .ok s.reloaded := by
  have hattrs : Typed (pipelineFields now) s.attrs := h.attrs.congr rfl
  have hk : s.attrs.map Prod.fst = (pipelineFields .nan).map DataField.name := h.attrs.names
  have hno : has (image s.attrs) "files" = false := by
    rw [has_image hk]
    decide
  have hlock : has (image s.attrs) "_lock" = false := by
    rw [has_image hk]
    decide
  have hread : readAttrs (pipelineFields now) pipelineNodes
      [("cc_attempts",.int 0),("r6_feedback",.str "")] (image s.attrs) = .ok s.attrs := by
    rw [(pipelineTable now).readAttrs_image hattrs,map_reread hattrs pipelineFields_json]
  have hfiles : ((s.files.map (fun p => (p.1,PyJson.dict p.2.image))).mapM
      fun p => do pure (p.1,← (FileState.fromDict now (← items p.2)).result)) =
      (.ok (s.files.map (fun p => (p.1,p.2.asLoaded))) : Except PyError _) := by
    rw [mapM_ok_iff,List.forall₂_map_left_iff,List.forall₂_map_right_iff,List.forall₂_same]
    intro p hp
    have hp := FileState.fromDict_image (h.files p hp) now
    simp only [items,bind,Except.bind,hp,pure,Except.pure]
  rw [fromDict,written,pop_append _ hno,getD_append _ _ hno,migratePipeline_image hattrs]
  simp only [items,bind,Except.bind,hread,hlock] at hfiles ⊢
  rw [hfiles]
  rfl

end Levels

/-! ## Every state of a run is well typed -/

theorem admits_iff {fields : List (DataField Value)} {k : String} {v : Value} :
    admits fields k v = true ↔ ∀ f ∈ fields, f.name = k → f.admits v = true := by
  simp [admits,Decidable.imp_iff_not_or]

/-- An instance built from arguments of the right types. -/
theorem typed_new {fields : List (DataField Value)} {given : List (String × PyJson)} {obj : Attrs}
    (hgiven : ∀ p ∈ given, admits fields p.1 (.json p.2) = true)
    (hdefault : ∀ f ∈ fields, ∀ v, f.default = some v → f.admits v = true)
    (h : construct fields (argument given) = .ok obj) : Typed fields obj := by
  refine typed_construct (fun f hf v hv => ?_) h
  rcases Option.or_eq_some_iff.mp hv with hv | ⟨-,hv⟩
  · obtain ⟨j,hj,rfl⟩ := Option.map_eq_some_iff.mp hv
    obtain ⟨l,r,rfl,-⟩ := List.lookup_eq_some_iff.mp hj
    have hp : (f.name,j) ∈ l ++ (f.name,j) :: r :=
      List.mem_append_right _ List.mem_cons_self
    exact admits_iff.mp (hgiven _ hp) f hf rfl
  · exact hdefault f hf v hv

theorem functionFields_default (now : PyFloat) : ∀ f ∈ functionFields now, ∀ v,
    f.default = some v → f.admits v = true := by
  simp only [functionFields,List.forall_mem_cons]
  and_intros <;> exact fun v hv => by cases hv <;> rfl

theorem fileFields_default (now : PyFloat) : ∀ f ∈ fileFields now, ∀ v,
    f.default = some v → f.admits v = true := by
  simp only [fileFields,List.forall_mem_cons]
  and_intros <;> exact fun v hv => by cases hv <;> rfl

theorem pipelineFields_default (now : PyFloat) : ∀ f ∈ pipelineFields now, ∀ v,
    f.default = some v → f.admits v = true := by
  simp only [pipelineFields,List.forall_mem_cons]
  and_intros <;> exact fun v hv => by cases hv <;> rfl

theorem NewFunction.typed {f : NewFunction} {obj : Attrs} (h : f.toAttrs = .ok obj) :
    Typed (functionFields .nan) obj := by
  have hobj : Typed (functionFields f.now) obj := by
    refine typed_new (fun p hp => ?_) (functionFields_default _) h
    fin_cases hp <;> rfl
  exact hobj.congr rfl

theorem newFile_wellTyped {now : PyFloat} {h path : String} {f : FileState}
    (hf : newFile now h path = .ok f) : f.WellTyped := by
  cases hc : construct (fileFields now)
      (argument [("file_hash",.str h),("original_path",.str path)]) with
  | error e => rw [newFile,hc] at hf; cases hf
  | ok attrs =>
    rw [newFile,hc] at hf
    cases hf
    have hattrs : Typed (fileFields now) attrs := by
      refine typed_new (fun p hp => ?_) (fileFields_default _) hc
      fin_cases hp <;> rfl
    exact ⟨hattrs.congr rfl,fun p hp => absurd hp List.not_mem_nil⟩

theorem toOption_eq_some {ε α : Type} {x : Except ε α} {a : α} (h : x.toOption = some a) :
    x = .ok a := by
  cases x with
  | error e => cases h
  | ok b => cases h; rfl

/-- What each turn of a loop keeps holds after it. -/
theorem foldlM_ok {ε α β : Type} {f : β → α → Except ε β} {P : β → Prop} {l : List α} {b b' : β}
    (hstep : ∀ a ∈ l, ∀ b b', P b → f b a = .ok b' → P b') (hb : P b)
    (h : l.foldlM f b = .ok b') : P b' := by
  induction l generalizing b with
  | nil =>
    cases h
    exact hb
  | cons a l ih =>
    rw [List.foldlM_cons] at h
    cases hf : f b a with
    | error e =>
      rw [hf] at h
      cases h
    | ok c =>
      rw [hf] at h
      exact ih (fun x hx => hstep x (List.mem_cons_of_mem _ hx))
        (hstep a List.mem_cons_self b c hb hf) h

theorem FileState.WellTyped.append {f : FileState} (h : f.WellTyped) {g : String} {obj : Attrs}
    (hobj : Typed (functionFields .nan) obj) :
    FileState.WellTyped { f with functions := f.functions ++ [(g,obj)] } := by
  refine ⟨h.attrs,fun p hp => ?_⟩
  rcases List.mem_append.mp hp with hp | hp
  · exact h.functions p hp
  · rw [List.mem_singleton.mp hp]
    exact hobj

theorem FileState.WellTyped.modify {f : FileState} (h : f.WellTyped) {g : String}
    {m : Attrs → Attrs}
    (hm : ∀ obj, Typed (functionFields .nan) obj → Typed (functionFields .nan) (m obj)) :
    (f.modifyFunction g m).WellTyped := by
  refine ⟨h.attrs,fun p hp => ?_⟩
  obtain ⟨q,hq,rfl⟩ := List.mem_map.mp hp
  split
  · exact hm _ (h.functions q hq)
  · exact h.functions q hq

theorem FileState.WellTyped.register {f f' : FileState} (h : f.WellTyped) {g : NewFunction}
    (hr : f.register g = .ok f') : f'.WellTyped := by
  rw [FileState.register] at hr
  split at hr
  · cases hr
    exact h
  · cases hg : g.toAttrs with
    | error e =>
      rw [hg] at hr
      cases hr
    | ok obj =>
      rw [hg] at hr
      cases hr
      exact h.append (NewFunction.typed hg)

theorem FileState.WellTyped.assign {f f' : FileState} (h : f.WellTyped) {g : NewFunction}
    (hr : f.assign g = .ok f') : f'.WellTyped := by
  rw [FileState.assign] at hr
  cases hg : g.toAttrs with
  | error e =>
    rw [hg] at hr
    cases hr
  | ok obj =>
    rw [hg] at hr
    cases hr
    have hobj := NewFunction.typed hg
    split
    · exact h.modify (m := fun _ => obj) fun _ _ => hobj
    · exact h.append hobj

section Step

variable {taskId : String} {s s' : PipelineState}

theorem WellTyped.modifyFile (h : s.WellTyped taskId) {k : String}
    {g : FileState → Except PyError FileState}
    (hg : ∀ f f', f.WellTyped → g f = .ok f' → f'.WellTyped)
    (hm : s.modifyFile k g = .ok s') : s'.WellTyped taskId := by
  rw [PipelineState.modifyFile] at hm
  cases hfiles : s.files.mapM fun p => if p.1 = k then do pure (p.1,← g p.2) else .ok p with
  | error e =>
    rw [hfiles] at hm
    cases hm
  | ok files =>
    rw [hfiles] at hm
    cases hm
    refine ⟨h.attrs,h.task,fun q hq => ?_⟩
    obtain ⟨p,hp,hpq⟩ := forall₂_mem_right (mapM_ok_iff.mp hfiles) hq
    have hwell := h.files p hp
    split at hpq
    · cases hgp : g p.2 with
      | error e =>
        rw [hgp] at hpq
        cases hpq
      | ok f' =>
        rw [hgp] at hpq
        cases hpq
        exact hg _ _ hwell hgp
    · cases hpq
      exact hwell

theorem WellTyped.registerFiles (h : s.WellTyped taskId) {files : List (String × String × PyFloat)}
    (hr : s.registerFiles files = .ok s') : s'.WellTyped taskId := by
  refine foldlM_ok (P := WellTyped taskId) (fun f _ s s' h hs => ?_) h hr
  split at hs
  · cases hs
    exact h
  · cases hf : newFile f.2.2 f.1 f.2.1 with
    | error e =>
      rw [hf] at hs
      cases hs
    | ok fs =>
      rw [hf] at hs
      cases hs
      refine ⟨h.attrs,h.task,fun p hp => ?_⟩
      rcases List.mem_append.mp hp with hp | hp
      · exact h.files p hp
      · rw [List.mem_singleton.mp hp]
        exact newFile_wellTyped hf

theorem lookup_setattr {obj : Attrs} {k field : String} {v : Value} (hne : field ≠ k) :
    (setattr obj field v).lookup k = obj.lookup k := by
  induction obj with
  | nil => rfl
  | cons p obj ih =>
    rw [setattr,List.map_cons,List.lookup_cons,List.lookup_cons]
    rw [setattr] at ih
    by_cases hp : p.1 = field
    · rw [if_pos hp,ih,hp,beq_false_of_ne hne.symm]
    · rw [if_neg hp,ih]

theorem WellTyped.step {a : Update} (h : s.WellTyped taskId) (hs : PipelineState.step s a = some s') :
    s'.WellTyped taskId := by
  cases a with
  | registerFiles files => exact h.registerFiles (toOption_eq_some hs)
  | registerFunctions k funcs =>
    refine h.modifyFile (fun f f' hf hr => ?_) (toOption_eq_some hs)
    exact foldlM_ok (P := FileState.WellTyped) (fun _ _ _ _ hf hr => hf.register hr) hf hr
  | assignFunction k f =>
    exact h.modifyFile (fun _ _ hf hr => hf.assign hr) (toOption_eq_some hs)
  | setPipeline field v =>
    obtain ⟨⟨hne,ha⟩,rfl⟩ := guarded hs
    refine ⟨h.attrs.setattr (admits_iff.mp ha),?_,h.files⟩
    rw [lookup_setattr hne]
    exact h.task
  | setFile k field v =>
    simp only [PipelineState.step] at hs
    split at hs
    · rename_i ha
      refine h.modifyFile (fun f f' hf hr => ?_) (toOption_eq_some hs)
      cases hr
      exact ⟨hf.attrs.setattr (admits_iff.mp ha),hf.functions⟩
    · cases hs
  | setFunction k g field v =>
    simp only [PipelineState.step] at hs
    split at hs
    · rename_i ha
      refine h.modifyFile (fun f f' hf hr => ?_) (toOption_eq_some hs)
      cases hr
      exact hf.modify fun _ hobj => hobj.setattr (admits_iff.mp ha)
    · cases hs

theorem new_wellTyped {now : PyFloat} (h : PipelineState.new now taskId = .ok s) :
    s.WellTyped taskId := by
  have hs : s = ⟨[("task_id",.json (.str taskId)),("cc_state",.node .pending),
      ("cc_attempts",.json (.int 0)),("r6_state",.node .pending),("r6_attempts",.json (.int 0)),
      ("r6_feedback",.json (.str "")),("updated_at",.json (.float now))],[]⟩ := by
    cases h
    rfl
  rw [hs]
  refine ⟨?_,rfl,fun p hp => absurd hp List.not_mem_nil⟩
  exact .cons ⟨rfl,rfl⟩ (.cons ⟨rfl,rfl⟩ (.cons ⟨rfl,rfl⟩ (.cons ⟨rfl,rfl⟩ (.cons ⟨rfl,rfl⟩
    (.cons ⟨rfl,rfl⟩ (.cons ⟨rfl,rfl⟩ .nil))))))

end Step

/-! ## Saving and loading -/

theorem Typed.fast_mem {obj : Attrs} (h : Typed (functionFields .nan) obj) :
    ∃ st, ("fast_mode_state",.node st) ∈ obj := by
  have hmem : "fast_mode_state" ∈ obj.map Prod.fst := by
    rw [h.names]
    decide
  obtain ⟨⟨k,v⟩,hp,rfl⟩ := List.mem_map.mp hmem
  obtain ⟨f,hf,hname,hadmits⟩ := h.exists_field hp
  have hnode : ∀ f ∈ functionFields .nan, f.name = "fast_mode_state" → f.admits = isNode := by
    simp only [functionFields,List.forall_mem_cons]
    and_intros <;> first
      | exact fun _ => rfl
      | exact fun h => absurd h (by decide)
      | exact fun _ h => absurd h List.not_mem_nil
  rw [hnode f hf hname.symm] at hadmits
  obtain ⟨st,rfl⟩ := exists_of_isNode hadmits
  exact ⟨st,hp⟩

section RoundTrip

variable {taskId : String} {s : PipelineState}

/-- A function that is filed does not come back as it was. -/
theorem WellTyped.reloaded_eq_iff (h : s.WellTyped taskId) :
    s.reloaded = s ↔ ∀ p ∈ s.files, p.2.functions = [] := by
  constructor
  · intro heq p hp
    have hfiles : s.files.map (fun p => (p.1,p.2.asLoaded)) = s.files.map id :=
      (congrArg PipelineState.files heq).trans (List.map_id _).symm
    have hfile : p.2.asLoaded = p.2 := congrArg Prod.snd (List.map_inj_left.mp hfiles p hp)
    refine List.eq_nil_iff_forall_not_mem.mpr fun q hq => ?_
    have hfuncs : p.2.functions.map (fun p => (p.1,p.2.map asLoaded)) = p.2.functions.map id :=
      (congrArg FileState.functions hfile).trans (List.map_id _).symm
    have hattrs : q.2.map asLoaded = q.2.map id :=
      (congrArg Prod.snd (List.map_inj_left.mp hfuncs q hq)).trans (List.map_id _).symm
    obtain ⟨st,hst⟩ := Typed.fast_mem ((h.files p hp).functions q hq)
    have hfast : asLoaded ("fast_mode_state",.node st) = ("fast_mode_state",.node st) :=
      List.map_inj_left.mp hattrs _ hst
    rw [asLoaded,if_pos rfl] at hfast
    cases hfast
  · intro hall
    obtain ⟨attrs,files⟩ := s
    rw [reloaded,PipelineState.mk.injEq]
    refine ⟨rfl,(List.map_congr_left fun p hp => ?_).trans (List.map_id _)⟩
    have hnone := hall p hp
    obtain ⟨k,f,functions⟩ := p
    cases hnone
    rfl

theorem WellTyped.loadOrCreate (h : s.WellTyped taskId) (now : PyFloat) :
    loadOrCreate now (some (.dict s.written)) taskId = .ok s.reloaded := by
  have htask : s.reloaded.attrs.lookup "task_id" = some (.json (.str taskId)) := h.task
  rw [PipelineState.loadOrCreate,fromDict_written h]
  simp only [htask,if_pos]

theorem written_pop_ne (s : PipelineState) : PyDict.pop s.written "files" ≠ s.written := by
  intro h
  have hget := PyDict.get_pop_self s.written "files"
  rw [h,← Option.not_isSome_iff_eq_none,PyDict.isSome_get] at hget
  exact hget (by simp [written])

/-- What a round trip should be: `from_dict` gives the state back, every value of its own type,
and leaves its argument alone, and so `load_or_create` gives back what was saved. -/
def RoundTrips (now : PyFloat) (taskId : String) (s : PipelineState) : Prop :=
  ∃ d, s.toDict = .ok d ∧ (fromDict now d).result = .ok s ∧ (fromDict now d).argument = d ∧
    PipelineState.loadOrCreate now (some (.dict d)) taskId = .ok s

theorem WellTyped.not_roundTrips (h : s.WellTyped taskId) (now : PyFloat) :
    ¬RoundTrips now taskId s := by
  rintro ⟨d,hd,-,hkept,-⟩
  rw [toDict_eq h,Except.ok.injEq] at hd
  subst hd
  exact written_pop_ne s hkept

theorem wellTyped_of_run {now : PyFloat} {s₀ : PipelineState}
    {tr : List (Event PipelineState Update)} (hnew : PipelineState.new now taskId = .ok s₀)
    (hr : Run step s₀ tr s) : s.WellTyped taskId :=
  hr.invariant (J := fun _ s => s.WellTyped taskId) (along_forall.mpr fun _ _ => trivial)
    (new_wellTyped hnew) fun _ _ _ _ hj _ hs => hj.step hs

/-- The round trip of a state that a run can reach. All that changes is `fast_mode_state`, which
comes back as a text, so that the state is the same iff no function is filed. The argument of
`from_dict` always loses its `files`. -/
theorem round_trip {now now' : PyFloat} {s₀ : PipelineState} {tr : List (Event PipelineState Update)}
    (hnew : PipelineState.new now taskId = .ok s₀) (hr : Run step s₀ tr s) :
    ¬RoundTrips now' taskId s ∧ ∃ d, s.toDict = .ok d ∧
      (fromDict now' d).result = .ok s.reloaded ∧
      PipelineState.loadOrCreate now' (some (.dict d)) taskId = .ok s.reloaded ∧
      (s.reloaded = s ↔ ∀ p ∈ s.files, p.2.functions = []) ∧
      (fromDict now' d).argument = PyDict.pop d "files" ∧ (fromDict now' d).argument ≠ d := by
  have hwell := wellTyped_of_run hnew hr
  exact ⟨hwell.not_roundTrips now',s.written,toDict_eq hwell,fromDict_written hwell,
    hwell.loadOrCreate now',hwell.reloaded_eq_iff,rfl,written_pop_ne s⟩

/-- The value that a function of the state holds in `fast_mode_state`. -/
def fastModeState (s : PipelineState) (h g : String) : Option Value :=
  ((s.files.lookup h).bind (fun f => f.functions.lookup g)).bind
    (fun obj => obj.lookup "fast_mode_state")

/-- One file with one function, which the fast mode has judged. -/
def judgedFunction : List Update :=
  [.registerFiles [("a1","/src/net.c",.finite 1)],
    .registerFunctions "a1" [⟨"f1","recv_msg","int recv_msg(void)",10,20,.finite 2⟩],
    .setFunction "a1" "f1" "fast_mode_state" (.node .passed)]

theorem judged_function_reached : ∃ s₀ tr s, PipelineState.new (.finite 0) "t" = .ok s₀ ∧
    Run step s₀ tr s ∧ fastModeState s "a1" "f1" = some (.node .passed) :=
  ⟨_,_,_,rfl,.next (a := judgedFunction[2]) (.next (a := judgedFunction[1])
    (.next (a := judgedFunction[0]) .refl rfl) rfl) rfl,rfl⟩

/-- The verdict of the fast mode is loaded as a text, and the loaded dictionary is emptied. -/
theorem fast_mode_state_is_text : ∃ s₀ tr s d r, PipelineState.new (.finite 0) "t" = .ok s₀ ∧
    Run step s₀ tr s ∧ s.toDict = .ok d ∧ (fromDict (.finite 3) d).result = .ok r ∧
    fastModeState s "a1" "f1" = some (.node .passed) ∧
    fastModeState r "a1" "f1" = some (.json (.str "passed")) ∧
    has d "files" = true ∧ has (fromDict (.finite 3) d).argument "files" = false ∧
    ¬RoundTrips (.finite 3) "t" s := by
  refine ⟨_,_,_,_,_,rfl,.next (a := judgedFunction[2]) (.next (a := judgedFunction[1])
    (.next (a := judgedFunction[0]) .refl rfl) rfl) rfl,rfl,rfl,rfl,rfl,rfl,rfl,?_⟩
  rintro ⟨d,hd,-,hkept,-⟩
  cases hd
  exact absurd (congrArg (fun d => has d "files") hkept) (by decide)

theorem round_trip_judged : ∃ s₀ tr s, PipelineState.new (.finite 0) "t" = .ok s₀ ∧
    Run step s₀ tr s ∧ fastModeState s "a1" "f1" = some (.node .passed) ∧
    ¬RoundTrips (.finite 3) "t" s ∧ ∃ d, s.toDict = .ok d ∧
      (fromDict (.finite 3) d).result = .ok s.reloaded ∧
      PipelineState.loadOrCreate (.finite 3) (some (.dict d)) "t" = .ok s.reloaded ∧
      (s.reloaded = s ↔ ∀ p ∈ s.files, p.2.functions = []) ∧
      (fromDict (.finite 3) d).argument = PyDict.pop d "files" ∧
      (fromDict (.finite 3) d).argument ≠ d := by
  obtain ⟨s₀,tr,s,hnew,hr,hfast⟩ := judged_function_reached
  exact ⟨s₀,tr,s,hnew,hr,hfast,round_trip hnew hr⟩

end RoundTrip

end PipelineState
end EntryAnalyse
