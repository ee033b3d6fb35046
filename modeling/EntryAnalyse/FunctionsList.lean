import EntryAnalyse.PyJson

/-! The `functions.list` format: which taints it admits, the repairs that
`auto_fix_functions_list` makes to a list before it is written, and the check after them. -/
namespace EntryAnalyse
namespace FunctionsList

open PyJson

/-! ## Taints -/

/-- Where a match of `_TAINT_RE` stands: before the first character, in an identifier, inside
`->` or `::`, behind a separator, inside the final `()`, and behind it. -/
inductive TaintState
  | start | ident | dash | colon | separator | paren | closed
  deriving DecidableEq

def isIdentStart (c : Char) : Bool :=
  ('a' ≤ c && c ≤ 'z') || ('A' ≤ c && c ≤ 'Z') || c == '_'

def isIdentPart (c : Char) : Bool := isIdentStart c || ('0' ≤ c && c ≤ '9')

def taintStep : TaintState → Char → Option TaintState
  | .start,c => if isIdentStart c || c == '@' then some .ident else none
  | .ident,c =>
    if isIdentPart c then some .ident
    else if c == '-' then some .dash
    else if c == ':' then some .colon
    else if c == '.' || c == '@' then some .separator
    else if c == '(' then some .paren
    else none
  | .dash,c => if c == '>' then some .separator else none
  | .colon,c => if c == ':' then some .separator else none
  | .separator,c => if isIdentStart c then some .ident else none
  | .paren,c => if c == ')' then some .closed else none
  | .closed,_ => none

def taintDone : TaintState → Bool
  | .ident | .closed => true
  | _ => false

/-- `$` also matches before a line break that ends the text. -/
def taintRun : TaintState → List Char → Bool
  | s,[] => taintDone s
  | s,c :: cs =>
    (taintDone s && c == '\n' && cs.isEmpty) ||
      match taintStep s c with
      | some s' => taintRun s' cs
      | none => false

/-- `_TAINT_RE.match(t)` for
`^[a-zA-Z_@][a-zA-Z0-9_]*(?:(?:->|::|[.@])[a-zA-Z_][a-zA-Z0-9_]*)*(?:\(\))?$`. -/
def taintRe (t : String) : Bool := taintRun .start t.toList

example : taintRe "msg->hdr.len()" = true := by decide
example : taintRe "buf[0]" = false := by decide

/-- The match of `[a-zA-Z_][a-zA-Z0-9_]*` at the start of a text. -/
def leadingIdent (t : String) : Option String :=
  match t.toList with
  | [] => none
  | c :: cs => if isIdentStart c then some (String.ofList (c :: cs.takeWhile isIdentPart)) else none

/-! ## Default texts -/

def validEntryRoles : List String := ["boundary","dispatch_target","callback","ipc_handler"]

def functionOrDefault (functionName : String) : String :=
  if strip functionName = "" then "该函数" else strip functionName

def defaultFunctionDescription (functionName : String) : String :=
  functionOrDefault functionName ++ " 是当前识别到的外部入口函数，具体职责需结合源码进一步确认。"

def defaultEntryReason (tag functionName : String) : String :=
  if tag = "A" then
    functionOrDefault functionName ++ " 被判定为主动拉取型入口，函数内部存在外部输入读取或接收行为。"
  else functionOrDefault functionName ++ " 被判定为被动回调型入口，参数中携带来自外部的可控输入。"

def typeName : PyJson → String
  | .null => "NoneType"
  | .bool _ => "bool"
  | .int _ => "int"
  | .float _ => "float"
  | .str _ => "str"
  | .list _ => "list"
  | .dict _ => "dict"

variable (py : PyRuntime)

/-! ## `_normalize_taint_details` -/

/-- An entry of `detail_map`; an empty source or kind is left out. -/
def taintDetail (name desc descriptionSource sourceKind : String) : List (String × PyJson) :=
  [("name",.str name),("description",.str desc)]
    ++ (if descriptionSource = "" then [] else [("description_source",.str descriptionSource)])
    ++ (if sourceKind = "" then [] else [("source_kind",.str sourceKind)])

/-- `description_source` as given, else `agent` for a description that is there. -/
def descriptionSource (given desc : String) : String :=
  if given = "" then (if desc = "" then "" else "agent") else given

/-- The name under which an element of a detail list is filed. -/
def detailName (d : List (String × PyJson)) : String :=
  py.text ((field d "name").or ((field d "taint").or (field d "param")))

def detailText (d : List (String × PyJson)) : String :=
  py.text ((field d "description").or (field d "summary"))

/-- An item of a `details` dictionary. -/
def mappedDetail (p : String × PyJson) : Option (String × List (String × PyJson)) :=
  let name := py.text (.str p.1)
  if name = "" then none
  else match p.2 with
    | .dict d =>
      let desc := py.text (field d "description")
      let source := descriptionSource (py.text (field d "description_source")) desc
      some (name,taintDetail name desc source (py.text (field d "source_kind")))
    | v => some (name,taintDetail name (py.text v) (descriptionSource "" (py.text v)) "")

/-- An element of a `details` list. -/
def listedDetail : PyJson → Option (String × List (String × PyJson))
  | .dict d =>
    let name := detailName py d
    let desc := detailText py d
    let source := descriptionSource (py.text (field d "description_source")) desc
    if name = "" then none
    else some (name,taintDetail name desc source (py.text (field d "source_kind")))
  | _ => none

/-- `detail_map`, the entry that counts for a name first. -/
def detailMap : PyJson → List (String × List (String × PyJson))
  | .dict kvs => (kvs.filterMap (mappedDetail py)).reverse
  | .list xs => (xs.filterMap (listedDetail py)).reverse
  | _ => []

def normalizeTaintDetail (details : PyJson) (taint : String) : List (String × PyJson) :=
  let item := PyDict.set (((detailMap py details).lookup taint).getD []) "name" (.str taint)
  let item :=
    if py.text (field item "description") = "" then
      PyDict.set item "description"
        (.str ("参数 `" ++ taint ++ "` 被识别为外部可控污点，需要在下游继续追踪其传播与使用。"))
    else item
  let item :=
    if py.text (field item "description_source") = "" then
      PyDict.set item "description_source" (.str "default")
    else item
  let sourceKind := py.text (field item "source_kind")
  if sourceKind = "" then PyDict.pop item "source_kind"
  else PyDict.set item "source_kind" (.str sourceKind)

def normalizeTaintDetails (taints : List String) (details : PyJson) :
    List (List (String × PyJson)) :=
  taints.map (normalizeTaintDetail py details)

/-! ## `auto_fix_functions_list` -/

def isTag : PyJson → Bool
  | .str s => s == "P" || s == "A"
  | _ => false

/-- A text with an `@` among the taints makes the entry active. -/
def inferTag (item : List (String × PyJson)) : Except PyError String := do
  let taints ← ((field item "taints").or (.list [])).iter
  pure (if taints.any (fun | .str s => s.toList.contains '@' | _ => false) then "A" else "P")

def fixTag (pre : String) (item : List (String × PyJson)) :
    Except PyError (List (String × PyJson) × List String) :=
  let tag := field item "tag"
  if isTag tag then .ok (item,[])
  else do
    let newTag ← inferTag item
    pure (PyDict.set item "tag" (.str newTag),
      [pre ++ " tag=" ++ py.repr tag ++ " 修复为 " ++ py.repr (.str newTag)])

def fixLine (pre : String) (item : List (String × PyJson)) :
    List (String × PyJson) × List String :=
  let line := field item "line"
  if line.isInt then (item,[])
  else (PyDict.set item "line" (.int 0),[pre ++ " line=" ++ py.repr line ++ " 修复为 0"])

/-- A taint that the filter keeps. -/
def goodTaint : PyJson → Option String
  | .str s => if strip s ≠ "" && taintRe (strip s) then some s else none
  | _ => none

def isBadTaint (good : List String) : PyJson → Bool
  | .str s => !good.contains s
  | _ => true

def badTaintsLog (pre : String) (bad : List PyJson) : List String :=
  if bad.isEmpty then []
  else [pre ++ " 过滤 " ++ toString bad.length ++ " 个非法 taint: " ++
    py.dumps (.list (bad.take 3)) ++ (if 3 < bad.length then " ..." else "")]

def rescuedTaints (taints : List PyJson) : List String :=
  (taints.filterMap (fun | .str s => leadingIdent (strip s) | _ => none)).eraseDups

/-- The log of an entry none of whose taints is kept, and whether the entry is. The rescued
names go to the log only: the statement after this branch stores the filtered list. -/
def withoutTaints (pre : String) (item : List (String × PyJson)) (taints : List PyJson) :
    Bool × List String :=
  if py.text (field item "tag") = "A" then (true,[])
  else
    let fn := py.repr (PyDict.getD item "function" (.str ""))
    let rescued := rescuedTaints taints
    if rescued.isEmpty then (false,[pre ++ " 过滤后 taints 为空，跳过条目 function=" ++ fn])
    else (true,[pre ++ " taint 含非法字符，提取有效前缀 " ++
      py.repr (.list (rescued.map .str)) ++ "，function=" ++ fn])

def fixRole (pre : String) (item : List (String × PyJson)) :
    List (String × PyJson) × List String :=
  let role := py.text (field item "entry_role")
  if role = "" then (item,[])
  else if validEntryRoles.contains role then (PyDict.set item "entry_role" (.str role),[])
  else (PyDict.set item "entry_role" (.str "boundary"),
    [pre ++ " entry_role=" ++ py.repr (.str role) ++ " 非法，修复为 'boundary'"])

/-- A number too large for a double is not among the exceptions that are caught. -/
def fixConfidence (pre : String) (item : List (String × PyJson)) :
    Except PyError (List (String × PyJson) × List String) :=
  match field item "entry_confidence" with
  | .null => .ok (item,[])
  | conf =>
    match py.float conf with
    | .ok v => .ok (PyDict.set item "entry_confidence" (.float (py.round v.clamp)),[])
    | .error .overflowError => .error .overflowError
    | .error _ => .ok (PyDict.pop item "entry_confidence",
        [pre ++ " entry_confidence=" ++ py.repr conf ++ " 非法，设置为 None"])

def fixDefinition (item : List (String × PyJson)) : List (String × PyJson) :=
  let given := lower (py.text (field item "definition_kind"))
  let found := PyDict.getD item "is_definition_found"
  let kind :=
    if ["definition","declaration","unknown"].contains given then given
    else if (found (.bool true)).truthy then "definition"
    else "unknown"
  PyDict.set (PyDict.set item "definition_kind" (.str kind)) "is_definition_found"
    (.bool (found (.bool (kind == "definition"))).truthy)

/-- `raw or default`, and where the text comes from. -/
def fixText (item : List (String × PyJson)) (key default : String) : List (String × PyJson) :=
  let raw := py.text (field item key)
  PyDict.set (PyDict.set item key (.str (if raw = "" then default else raw))) (key ++ "_source")
    (.str (if raw = "" then "default" else "agent"))

def fixTexts (item : List (String × PyJson)) : List (String × PyJson) :=
  let fn := py.str ((field item "function").or (.str ""))
  let item := fixText py item "function_description" (defaultFunctionDescription fn)
  fixText py item "entry_reason"
    (defaultEntryReason (py.str ((field item "tag").or (.str ""))) fn)

/-- `raw_detail_map`, the entry that counts for a name first. -/
def rawDetailMap (details : List PyJson) : List (String × String) :=
  (details.filterMap (fun
    | .dict d => if detailName py d = "" then none else some (detailName py d,detailText py d)
    | _ => none)).reverse

def fixDetails (good : List String) (item : List (String × PyJson)) :
    Except PyError (List (String × PyJson)) := do
  let details := (field item "taint_details").or ((field item "taint_descriptions").or (.list []))
  let raw ← details.iter
  let described := fun (d : List (String × PyJson)) =>
    ((rawDetailMap py raw).lookup (py.text (field d "name"))).getD "" != ""
  let normalized := (normalizeTaintDetails py good details).map (fun d =>
    PyJson.dict (PyDict.set d "description_source"
      (.str (if described d then "agent" else "default"))))
  pure (PyDict.set item "taint_details" (.list normalized))

/-- The loop body for one dictionary: the entry that is kept, if it is, and its log. -/
def fixItem (pre : String) (item : List (String × PyJson)) :
    Except PyError (Option PyJson × List String) := do
  let (item,tagLog) ← fixTag py pre item
  let (item,lineLog) := fixLine py pre item
  match field item "taints" with
  | .list taints =>
    let good := taints.filterMap goodTaint
    let badLog := badTaintsLog py pre (taints.filter (isBadTaint good))
    let (kept,emptyLog) := if good.isEmpty then withoutTaints py pre item taints else (true,[])
    if kept then do
      let item := PyDict.set item "taints" (.list (good.map .str))
      let (item,roleLog) := fixRole py pre item
      let (item,confidenceLog) ← fixConfidence py pre item
      let item ← fixDetails py good (fixTexts py (fixDefinition py item))
      pure (some (.dict item),tagLog ++ lineLog ++ badLog ++ emptyLog ++ roleLog ++ confidenceLog)
    else pure (none,tagLog ++ lineLog ++ badLog ++ emptyLog)
  | _ => pure (none,tagLog ++ lineLog ++ [pre ++ " taints 不是数组，跳过条目"])

def fixElement (i : ℕ) (item : PyJson) : Except PyError (Option PyJson × List String) :=
  let pre := "[" ++ toString i ++ "]"
  match item with
  | .dict d =>
    if (PyDict.get d "_error").isSome then .ok (none,[pre ++ " 跳过含 _error 字段的条目"])
    else fixItem py pre d
  | v => .ok (none,[pre ++ " 跳过非字典元素: " ++ typeName v])

/-- The repaired list and the log, which is empty when nothing had to be repaired. -/
def autoFixFunctionsList (items : List PyJson) : Except PyError (List PyJson × List String) := do
  let fixed ← items.zipIdx.mapM (fun p => fixElement py p.2 p.1)
  pure (fixed.filterMap Prod.fst,fixed.flatMap Prod.snd)

/-! ## `validate_functions_list` -/

/-- An error if the value is not a text with more than white space. -/
def textErrors (pre key : String) (v : PyJson) : List String :=
  match v with
  | .str s => if strip s = "" then [pre ++ " " ++ key ++ " 为空或非字符串: " ++ py.repr v] else []
  | _ => [pre ++ " " ++ key ++ " 为空或非字符串: " ++ py.repr v]

def taintErrors (pre : String) (item : List (String × PyJson)) : List String :=
  let active := py.text (field item "tag") = "A"
  match field item "taints" with
  | .list [] =>
    if active then [] else [pre ++ " taints=" ++ py.dumps (.list []) ++ " 为空或非数组"]
  | .list taints =>
    if taints.any (fun | .str s => strip s = "" | _ => true) then
      [pre ++ " taints 含空字符串元素: " ++ py.dumps (.list taints)]
    else
      let bad := taints.filter (fun | .str s => !taintRe s | _ => true)
      if bad.isEmpty then []
      else [pre ++ " taints 含非法元素（只允许参数名/成员访问/末尾()/@return，不能含空格/中文/带参括号）: " ++
        py.dumps (.list bad)]
  | v => [pre ++ " taints=" ++ py.dumps v ++ " 为空或非数组"]

def roleErrors (pre : String) (role : PyJson) : List String :=
  match role with
  | .null => []
  | role =>
    if validEntryRoles.contains (py.str role) then []
    else [pre ++ " entry_role=" ++ py.repr role ++ " 不合法，必须是 " ++
      py.repr (.list ((validEntryRoles.insertionSort (· ≤ ·)).map .str)) ++ " 之一"]

def confidenceErrors (pre : String) (conf : PyJson) : Except PyError (List String) :=
  match conf with
  | .null => .ok []
  | conf =>
    match py.float conf with
    | .ok v =>
      .ok (if v.inUnit then []
        else [pre ++ " entry_confidence=" ++ py.repr conf ++ " 超出范围 [0.0, 1.0]"])
    | .error .overflowError => .error .overflowError
    | .error _ => .ok [pre ++ " entry_confidence=" ++ py.repr conf ++ " 不是有效浮点数"]

def detailErrors (pre : String) (item : List (String × PyJson)) :
    Except PyError (List String) := do
  let taints := (field item "taints").or (.list [])
  match field item "taint_details" with
  | .list details =>
    if details.length ≠ (← taints.len) then pure [pre ++ " taint_details 数量与 taints 不一致"]
    else do
      let expected := (← taints.iter).map (fun t => strip (py.str t))
      let names := details.filterMap (fun
        | .dict d => some (py.text (field d "name"))
        | _ => none)
      pure ((if names = expected then []
          else [pre ++ " taint_details.name 与 taints 顺序或名称不一致"]) ++
        details.zipIdx.flatMap (fun
          | (.dict d,j) =>
            if py.text (field d "description") = "" then
              [pre ++ " taint_details[" ++ toString j ++ "].description 为空"]
            else []
          | (_,j) => [pre ++ " taint_details[" ++ toString j ++ "] 不是对象"]))
  | _ => pure [pre ++ " taint_details 数量与 taints 不一致"]

def validateItem (pre : String) (item : List (String × PyJson)) : Except PyError (List String) := do
  let tag := field item "tag"
  let line := field item "line"
  let kind := py.text (field item "definition_kind")
  let confidence ← confidenceErrors py pre (field item "entry_confidence")
  let details ← detailErrors py pre item
  pure ((if isTag tag then [] else [pre ++ " tag=" ++ py.repr tag ++ " 不合法，必须是 'P' 或 'A'"])
    ++ textErrors py pre "file" (PyDict.getD item "file" (.str ""))
    ++ (if line.isInt then [] else [pre ++ " line=" ++ py.repr line ++ " 类型错误，必须是整数"])
    ++ textErrors py pre "function" (PyDict.getD item "function" (.str ""))
    ++ taintErrors py pre item
    ++ roleErrors py pre (field item "entry_role")
    ++ confidence
    ++ textErrors py pre "function_description" (field item "function_description")
    ++ (if kind = "" || ["definition","declaration","unknown"].contains kind then []
      else [pre ++ " definition_kind=" ++ py.repr (.str kind) ++ " 不合法"])
    ++ textErrors py pre "entry_reason" (field item "entry_reason")
    ++ details)

def validateElement (i : ℕ) (item : PyJson) : Except PyError (List String) :=
  let pre := "[" ++ toString i ++ "]"
  match item with
  | .dict d =>
    match PyDict.get d "_error" with
    | some e => .ok [pre ++ " 含 _error 字段: " ++ py.str e]
    | none => validateItem py pre d
  | v => .ok [pre ++ " 元素类型错误: " ++ typeName v]

/-- The errors of a list; there are none when it is in the format. -/
def validateFunctionsList (items : List PyJson) : Except PyError (List String) :=
  match items with
  | [] => .ok ["数组为空 — 应包含至少 1 个入口"]
  | items => do
    let errors ← items.zipIdx.mapM (fun p => validateElement py p.2 p.1)
    pure errors.flatten

end FunctionsList
end EntryAnalyse
