import EntryAnalyse.ListValidity

/-! The synchronisation of `functions.list` with the merged entries: the check of the entries, the
items that are generated from them, and which lists lose nothing on the way. -/
namespace EntryAnalyse
namespace EntrySync

open PyJson PyDict FunctionsList

variable (py : PyRuntime)

/-! ## `validate_entry_items` -/

def requiredKeys : List String :=
  ["tag","file","function","taints","function_description","entry_reason","taint_details"]

/-- `isinstance(details, list) and len(details) == len(taints or [])`. -/
def detailsMatch (item : List (String × PyJson)) : Except PyError Bool :=
  match field item "taint_details" with
  | .list details => do
    let n ← ((field item "taints").or (.list [])).len
    pure (decide (details.length = n))
  | _ => pure false

def entryTaintErrors (pre : String) (item : List (String × PyJson)) : List String :=
  match field item "taints" with
  | .list (t :: ts) =>
    if (t :: ts).any (fun | .str s => strip s = "" | _ => true) then [pre ++ " taints 含空值"]
    else []
  | _ => [pre ++ " taints 为空或非数组"]

def blankErrors (pre key : String) (item : List (String × PyJson)) : List String :=
  if py.text (field item key) = "" then [pre ++ " " ++ key ++ " 为空"] else []

/-- The loop body for one dictionary. -/
def entryItemErrors (pre : String) (item : List (String × PyJson)) :
    Except PyError (List String) := do
  let details ← detailsMatch item
  pure ((requiredKeys.filter fun key => (get item key).isNone).map
      (fun key => pre ++ " 缺少字段 " ++ key) ++
    (if isTag (field item "tag") then []
      else [pre ++ " tag 不合法: " ++ py.repr (field item "tag")]) ++
    blankErrors py pre "file" item ++ blankErrors py pre "function" item ++
    entryTaintErrors pre item ++
    blankErrors py pre "function_description" item ++ blankErrors py pre "entry_reason" item ++
    (if details then [] else [pre ++ " taint_details 数量与 taints 不一致"]))

def entryElementErrors (i : ℕ) (item : PyJson) : Except PyError (List String) :=
  let pre := "[" ++ toString i ++ "]"
  match item with
  | .dict d => entryItemErrors py pre d
  | _ => .ok [pre ++ " 不是对象"]

def validateEntryItems (items : List PyJson) : Except PyError (List String) :=
  match items with
  | [] => .ok ["entry-list 为空"]
  | items => do
    let errors ← items.zipIdx.mapM (fun p => entryElementErrors py p.2 p.1)
    pure errors.flatten

/-! ## `generate_functions_list` -/

/-- `v if isinstance(v, int) else default`; a `bool` is an `int`. -/
def intOr (v default : PyJson) : PyJson :=
  match v with
  | .int _ | .bool _ => v
  | _ => default

def generatedKind (item : List (String × PyJson)) : String :=
  let given := lower (py.text (field item "definition_kind"))
  if definitionKinds.contains given then given
  else match field item "body_lines" with
    | .int n => if 0 < n then "definition" else "declaration"
    | .bool b => if b then "definition" else "declaration"
    | _ => if (getD item "is_definition_found" (.bool true)).truthy then "definition" else "unknown"

/-- The confidence of an item, if it has one; a number too large for a double is not among the
exceptions that are caught. -/
def generatedConfidence (conf : PyJson) : Except PyError (List (String × PyJson)) :=
  match conf with
  | .null => .ok []
  | conf =>
    match py.float conf with
    | .ok v => .ok [("entry_confidence",.float (py.round v))]
    | .error .overflowError => .error .overflowError
    | .error _ => .ok []

def hasLine : PyJson → Bool
  | .dict d => (field d "line").truthy
  | _ => false

/-- The names under which the details of an item are normalized. -/
def taintNames (taints : List PyJson) : List String :=
  (taints.map fun t => strip (py.str t)).filter (· ≠ "")

/-- What `_derive_description_source` says of a text. -/
def source (text : String) : String := if text = "" then "default" else "agent"

/-- The item that is generated from an entry. -/
def generateItem (item : List (String × PyJson)) : Except PyError (List (String × PyJson)) := do
  let taints := (field item "taints").or (.list [])
  let tag ← if isTag (field item "tag") then pure (field item "tag")
    else do
      let tag ← inferTag item
      pure (.str tag)
  let line := intOr (field item "line") (.int 0)
  let role := py.text (field item "entry_role")
  let kind := generatedKind py item
  let sources ← ((field item "entry_source_lines").or (.list [])).iter
  let description := py.text (field item "function_description")
  let reason := py.text (field item "entry_reason")
  let values ← taints.iter
  let details := normalizeTaintDetails py (taintNames py values) (detailsOf item)
  let category := py.text (field item "entry_category")
  let confidence ← generatedConfidence py (field item "entry_confidence")
  pure ([("tag",tag),("file",getD item "file" (.str "")),("line",line),
    ("function",getD item "function" (.str "")),("taints",taints),
    ("entry_source_lines",.list (sources.filter hasLine)),
    ("function_description",.str description),
    ("function_description_source",.str (source description)),("entry_reason",.str reason),
    ("entry_reason_source",.str (source reason)),("taint_details",.list (details.map .dict)),
    ("definition_file",(field item "definition_file").or (getD item "file" (.str ""))),
    ("definition_line",intOr (field item "definition_line") line),("definition_kind",.str kind),
    ("is_definition_found",
      .bool (getD item "is_definition_found" (.bool (kind == "definition"))).truthy),
    ("signature_params",match field item "signature_params" with
      | .list l => .list l
      | _ => .list [])] ++
    ((if role = "" then [] else [("entry_role",.str role)]) ++
    ((if category = "外部入口" ∨ category = "处理入口" then [("entry_category",.str category)]
      else []) ++ confidence)))

/-- `generate_functions_list` of a JSON array. -/
def generateFunctionsList (items : List PyJson) : Except PyError (List PyJson) := do
  let generated ← (items.filterMap asDict).mapM (generateItem py)
  pure (generated.map .dict)

/-! ## `sync_functions_list_from_entry` -/

/-- `EntryArtifactResult`, and the list that is written. -/
structure EntryArtifactResult where
  entryCount : ℕ
  functionsCount : ℕ
  validationErrors : List String
  fixes : List String
  written : List PyJson

def isDict : PyJson → Bool
  | .dict _ => true
  | _ => false

/-- `_load_entry_items`, of the array in the file. -/
def loadEntryItems (data : List PyJson) : List PyJson := data.filter isDict

/-- `sync_functions_list_from_entry`, of the array in the file. -/
def syncFunctionsListFromEntry (data : List PyJson) : Except PyError EntryArtifactResult := do
  let items := loadEntryItems data
  let entryErrors ← validateEntryItems py items
  let parsed ← generateFunctionsList py items
  let (fixed,fixes) ← autoFixFunctionsList py parsed
  let errors ← validateFunctionsList py fixed
  pure ⟨items.length,fixed.length,entryErrors ++ errors,fixes,fixed⟩

/-! ## Valid entries -/

/-- What the check asks of an entry. -/
structure ValidEntry (py : PyRuntime) (d : List (String × PyJson)) (taints : List PyJson) :
    Prop where
  tag : isTag (field d "tag") = true
  file : py.text (field d "file") ≠ ""
  function : py.text (field d "function") ≠ ""
  listed : field d "taints" = .list taints
  tainted : taints ≠ []

section Valid

variable {py} {d flat : List (String × PyJson)} {taints : List PyJson} {pre : String}

theorem ite_singleton_nil {p : Prop} [Decidable p] {e : String} :
    (if p then [e] else []) = [] ↔ ¬p := by
  by_cases h : p <;> simp [h]

theorem validEntry_of_errors (h : entryItemErrors py pre d = .ok []) :
    ∃ taints, ValidEntry py d taints := by
  unfold entryItemErrors at h
  obtain ⟨details,-,h⟩ := bind_eq_ok.mp h
  have h := Except.ok.inj h
  simp only [List.append_eq_nil_iff,blankErrors,ite_nil,ite_singleton_nil] at h
  obtain ⟨⟨⟨⟨⟨⟨⟨-,htag⟩,hfile⟩,hfunction⟩,htaints⟩,-⟩,-⟩,-⟩ := h
  unfold entryTaintErrors at htaints
  split at htaints
  · rename_i t ts heq
    exact ⟨t :: ts,htag,hfile,hfunction,heq,List.cons_ne_nil t ts⟩
  · cases htaints

/-- A list that passes the check holds valid entries only. -/
theorem validEntries {entries : List PyJson} (h : validateEntryItems py entries = .ok []) :
    entries ≠ [] ∧ ∀ x ∈ entries, ∃ d taints, x = .dict d ∧ ValidEntry py d taints := by
  cases entries with
  | nil => cases h
  | cons y l =>
    refine ⟨List.cons_ne_nil y l,fun x hx => ?_⟩
    obtain ⟨errors,hm,hflat⟩ := bind_eq_ok.mp h
    have hflat := List.flatten_eq_nil_iff.mp (Except.ok.inj hflat)
    obtain ⟨i,hi,hxi⟩ := List.getElem_of_mem hx
    have hmem : (x,i) ∈ (y :: l).zipIdx := by
      rw [List.mem_zipIdx_iff_getElem?,List.getElem?_eq_some_iff]
      exact ⟨hi,hxi⟩
    obtain ⟨e,he,hxe⟩ := forall₂_mem_left (mapM_ok_iff.mp hm) hmem
    rw [hflat e he] at hxe
    cases x with
    | dict d =>
      obtain ⟨taints,hvalid⟩ := validEntry_of_errors hxe
      exact ⟨d,taints,rfl,hvalid⟩
    | _ => cases hxe

end Valid

/-! ## Generated items -/

/-- Nothing that the generator reads of the entry makes it raise. -/
structure Generates (py : PyRuntime) (d : List (String × PyJson)) : Prop where
  confidence : ¬Overflows py d
  sources : ∃ l, ((field d "entry_source_lines").or (.list [])).iter = .ok l

/-- What the repair and the check read of a generated item. -/
structure Generated (py : PyRuntime) (d : List (String × PyJson)) (taints : List PyJson)
    (flat : List (String × PyJson)) : Prop where
  error : get flat "_error" = none
  tag : field flat "tag" = field d "tag"
  file : field flat "file" = getD d "file" (.str "")
  function : field flat "function" = getD d "function" (.str "")
  listed : field flat "taints" = .list taints
  role : py.text (field flat "entry_role") = "" → field flat "entry_role" = .null
  confidence : ¬Overflows py flat
  details : ∃ raw, (detailsOf flat).iter = .ok raw

section Items

variable {py} {d flat : List (String × PyJson)} {taints : List PyJson}

theorem generatedConfidence_isOk_iff : (∃ r, generatedConfidence py (field d "entry_confidence") =
    .ok r) ↔ ¬Overflows py d := by
  unfold Overflows generatedConfidence
  split
  · rename_i hnull
    rw [hnull]
    exact iff_of_true ⟨_,rfl⟩ (by simp [PyRuntime.float])
  · cases hfloat : py.float (field d "entry_confidence") with
    | ok v => simp
    | error e => cases e <;> simp

theorem or_cons (h : taints ≠ []) : (PyJson.list taints).or (.list []) = .list taints := by
  cases taints with
  | nil => exact absurd rfl h
  | cons t ts => rfl

theorem generateItem_isOk_iff (h : ValidEntry py d taints) :
    (∃ flat, generateItem py d = .ok flat) ↔ Generates py d := by
  unfold generateItem
  rw [if_pos h.tag,h.listed,or_cons h.tainted]
  constructor
  · rintro ⟨flat,hok⟩
    obtain ⟨tag,-,hok⟩ := bind_eq_ok.mp hok
    obtain ⟨sources,hsources,hok⟩ := bind_eq_ok.mp hok
    obtain ⟨values,-,hok⟩ := bind_eq_ok.mp hok
    obtain ⟨confidence,hconfidence,-⟩ := bind_eq_ok.mp hok
    exact ⟨generatedConfidence_isOk_iff.mp ⟨confidence,hconfidence⟩,sources,hsources⟩
  · rintro ⟨hconfidence,sources,hsources⟩
    obtain ⟨confidence,hconfidence⟩ := generatedConfidence_isOk_iff.mpr hconfidence
    exact ⟨_,bind_eq_ok.mpr ⟨_,rfl,bind_eq_ok.mpr ⟨sources,hsources,
      bind_eq_ok.mpr ⟨taints,rfl,bind_eq_ok.mpr ⟨confidence,hconfidence,rfl⟩⟩⟩⟩⟩

theorem field_append_left {d e : List (String × PyJson)} {k : String} {v : PyJson}
    (h : get d k = some v) : field (d ++ e) k = v := by
  rw [field,getD,get_append,h]
  rfl

theorem get_append_right {d e : List (String × PyJson)} {k : String} (h : get d k = none) :
    get (d ++ e) k = get e k := by
  rw [get_append,h]
  exact Option.none_or

theorem field_append_right {d e : List (String × PyJson)} {k : String} (h : get d k = none) :
    field (d ++ e) k = field e k := by
  rw [field,getD,get_append_right h,field,getD]

/-- The confidence of an item is a number, or there is none. -/
theorem generatedConfidence_cases {conf : PyJson} {items : List (String × PyJson)}
    (h : generatedConfidence py conf = .ok items) :
    items = [] ∨ ∃ x, items = [("entry_confidence",.float x)] := by
  unfold generatedConfidence at h
  split at h
  · cases h
    exact Or.inl rfl
  · split at h
    · cases h
      exact Or.inr ⟨_,rfl⟩
    · cases h
    · cases h
      exact Or.inl rfl

/-- The fields of an item behind the ones that every item has. -/
theorem generated_tail (py : PyRuntime) {role : String} (category : String) {items : List (String × PyJson)}
    (hrole : strip role = role) (h : items = [] ∨ ∃ x, items = [("entry_confidence",.float x)]) :
    let tail := (if role = "" then [] else [("entry_role",.str role)]) ++
      ((if category = "外部入口" ∨ category = "处理入口" then [("entry_category",.str category)]
        else []) ++ items)
    get tail "_error" = none ∧ field tail "taint_descriptions" = .null ∧
      (py.text (field tail "entry_role") = "" → field tail "entry_role" = .null) ∧
      (field tail "entry_confidence" = .null ∨
        ∃ x, field tail "entry_confidence" = .float x) := by
  intro tail
  have hitems : get items "_error" = none ∧ get items "taint_descriptions" = none ∧
      get items "entry_role" = none ∧ (field items "entry_confidence" = .null ∨
        ∃ x, field items "entry_confidence" = .float x) := by
    rcases h with rfl | ⟨x,rfl⟩
    · exact ⟨rfl,rfl,rfl,Or.inl rfl⟩
    · exact ⟨rfl,rfl,rfl,Or.inr ⟨x,rfl⟩⟩
  obtain ⟨herror,hdescriptions,hentry,hconf⟩ := hitems
  have hskip : ∀ k, k ≠ "entry_role" → k ≠ "entry_category" → get tail k = get items k := by
    intro k hk hk'
    have hcategory : get (if category = "外部入口" ∨ category = "处理入口" then
        [("entry_category",PyJson.str category)] else []) k = none := by
      split
      · rw [get_cons,if_neg hk']
        rfl
      · rfl
    have hempty : get (if role = "" then [] else [("entry_role",PyJson.str role)]) k = none := by
      split
      · rfl
      · rw [get_cons,if_neg hk]
        rfl
    rw [get_append,get_append,hempty,hcategory]
    rfl
  refine ⟨?_,?_,?_,?_⟩
  · rw [hskip _ (by decide) (by decide),herror]
  · rw [field,getD,hskip _ (by decide) (by decide),hdescriptions]
    rfl
  · by_cases hempty : role = ""
    · have hnone : get tail "entry_role" = none := by
        rw [get_append,get_append,if_pos hempty]
        split <;> exact hentry
      rw [field,getD,hnone]
      exact fun _ => rfl
    · have hsome : field tail "entry_role" = .str role := by
        rw [field,getD,get_append,if_neg hempty]
        rfl
      rw [hsome,py.text_str,hrole]
      exact fun hnot => absurd hnot hempty
  · rw [field,getD,hskip _ (by decide) (by decide)]
    exact hconf

/-- A list of details can be gone through, as can what is taken where it is empty. -/
theorem details_iter (l : List PyJson) :
    ∃ raw, ((PyJson.list l).or (PyJson.null.or (.list []))).iter = .ok raw := by
  cases l with
  | nil => exact ⟨[],rfl⟩
  | cons x l => exact ⟨x :: l,rfl⟩

theorem generateItem_spec (h : ValidEntry py d taints) (hok : generateItem py d = .ok flat) :
    Generated py d taints flat := by
  unfold generateItem at hok
  rw [if_pos h.tag,h.listed,or_cons h.tainted] at hok
  obtain ⟨tag,htag,hok⟩ := bind_eq_ok.mp hok
  obtain ⟨sources,-,hok⟩ := bind_eq_ok.mp hok
  obtain ⟨values,-,hok⟩ := bind_eq_ok.mp hok
  obtain ⟨confidence,hconfidence,hok⟩ := bind_eq_ok.mp hok
  obtain ⟨herror,hdescriptions,hrole,hconf⟩ := generated_tail py
    (py.text (field d "entry_category")) (py.strip_text (field d "entry_role"))
    (generatedConfidence_cases hconfidence)
  cases htag
  cases hok
  refine ⟨?_,field_append_left rfl,field_append_left rfl,field_append_left rfl,
    field_append_left rfl,?_,?_,?_⟩
  · rw [get_append_right rfl]
    exact herror
  · rw [field_append_right rfl]
    exact hrole
  · rw [Overflows,field_append_right rfl]
    rcases hconf with hnull | ⟨x,hx⟩
    · rw [hnull]
      exact fun hnot => by cases hnot
    · rw [hx]
      exact fun hnot => by cases hnot
  · rw [detailsOf,field_append_left rfl,field_append_right rfl,hdescriptions]
    exact details_iter _

end Items

/-! ## The repair of a generated item -/

/-- The two are dictionaries with the same function and file. -/
def SameEntry : PyJson → PyJson → Prop
  | .dict d,.dict d' =>
    field d' "function" = field d "function" ∧ field d' "file" = field d "file"
  | _,_ => False

/-- What an entry that passes the check needs besides: what is read as a list can be gone through,
the confidence is not too large for a double, file and function are texts, there is a usable taint
where one is needed, and none that is usable has white space around it. -/
structure Convertible (py : PyRuntime) (d : List (String × PyJson)) (taints : List PyJson) :
    Prop where
  generates : Generates py d
  file : Named d "file"
  function : Named d "function"
  tainted : Tainted d taints
  unpadded : ∀ s ∈ goodTaints taints, taintRe s = true

section Repair

variable {py} {d flat : List (String × PyJson)} {taints : List PyJson} {i : ℕ} {y : PyJson}
  {r : Option PyJson × List String}

theorem tainted_flat (hg : Generated py d taints flat) : Tainted flat taints ↔ Tainted d taints := by
  unfold Tainted FunctionsList.isActive repairedTag
  rw [hg.tag]

theorem field_getD {k : String} (h : py.text (field d k) ≠ "") :
    getD d k (.str "") = field d k := by
  rw [field,getD,getD]
  cases hk : get d k with
  | some v => rfl
  | none =>
    rw [field,getD,hk] at h
    exact absurd py.text_null h

theorem not_raises (hv : ValidEntry py d taints) (hg : Generated py d taints flat) :
    ¬Raises py (.dict flat) := by
  rintro ⟨d',hd,-,hread | ⟨taints',-,-,hover | ⟨e,he⟩⟩⟩
  · cases hd
    refine hread (Or.inl ?_)
    rw [hg.tag]
    exact hv.tag
  · cases hd
    exact hg.confidence hover
  · cases hd
    obtain ⟨raw,hraw⟩ := hg.details
    rw [hraw] at he
    cases he

/-- What becomes of a generated item: one item for the entry, that passes the check iff the entry
has what it needs, or a line in the log. -/
theorem repair_generated (hround : RoundsUnit py) (hv : ValidEntry py d taints)
    (hg : Generated py d taints flat) (hr : fixElement py i (.dict flat) = .ok r) :
    (r.1 = none → r.2 ≠ []) ∧ (Tainted d taints → r.1.isSome = true) ∧
    ∀ y, r.1 = some y → SameEntry (.dict d) y ∧ ∀ j, (validateElement py j y = .ok [] ↔
      Named d "file" ∧ Named d "function" ∧ Tainted d taints ∧
        ∀ s ∈ goodTaints taints, taintRe s = true) := by
  have hfate := fixElement_fate py i (.dict flat)
  rw [hr] at hfate
  cases hfate with
  | dropped log hnot hdrop hlog =>
    refine ⟨fun _ => hlog,fun htainted => ?_,fun y hy => by cases hy⟩
    refine absurd ?_ (hdrop flat taints rfl hg.error hg.listed)
    rcases (tainted_flat hg).mpr htainted with hgood | hactive
    · exact Or.inl hgood
    · exact Or.inr (Or.inl hactive)
  | kept d' taints' raw d'' log hx herror htaints hkept hnot hraw hlog hrepaired hdetails =>
    cases hx
    rw [hg.listed] at htaints
    cases htaints
    refine ⟨fun hnone => absurd hnone (Option.some_ne_none _),fun _ => rfl,fun y hy => ?_⟩
    cases hy
    refine ⟨⟨?_,?_⟩,fun j => ?_⟩
    · rw [hrepaired.edits.field (by decide),hg.function,field_getD hv.function]
    · rw [hrepaired.edits.field (by decide),hg.file,field_getD hv.file]
    · have herror' : get d'' "_error" = none :=
        (hrepaired.edits "_error" (by decide)).1.trans herror
      have hfile : Named flat "file" ↔ Named d "file" := by
        rw [Named,hg.file,field_getD hv.file,Named]
      have hfunction : Named flat "function" ↔ Named d "function" := by
        rw [Named,hg.function,field_getD hv.function,Named]
      have hrole : py.text (field flat "entry_role") = "" → field flat "entry_role" = .null ∨
          py.str (field flat "entry_role") ∈ validEntryRoles := fun h => Or.inl (hg.role h)
      simp only [validateElement,herror']
      rw [validateItem_repaired hround hrepaired hdetails,roleErrors_eq_nil,hfile,hfunction,
        tainted_flat hg,and_iff_left hrole]

end Repair

/-! ## The whole list -/

/-- The written list has one item for each entry, in order, and passes the check. -/
def Synced (py : PyRuntime) (entries : List PyJson) : Prop :=
  ∃ r, syncFunctionsListFromEntry py entries = .ok r ∧
    List.Forall₂ SameEntry entries r.written ∧ validateFunctionsList py r.written = .ok []

/-- Every entry that is not among the written items has lines of its own among the fixes: the
written items and the fixes come from the results of the repair, one for each entry. -/
def DropsReported (py : PyRuntime) (entries : List PyJson) : Prop :=
  ∀ r, syncFunctionsListFromEntry py entries = .ok r →
    ∃ results : List (Option PyJson × List String), results.length = entries.length ∧
      r.written = results.filterMap Prod.fst ∧ r.fixes = results.flatMap Prod.snd ∧
      List.Forall₂ (fun x p => ∀ y, p.1 = some y → SameEntry x y) entries results ∧
      ∀ p ∈ results, p.1 = none → p.2 ≠ []

section Lists

variable {py} {entries : List PyJson}

theorem load_valid (h : ∀ x ∈ entries, ∃ d taints, x = .dict d ∧ ValidEntry py d taints) :
    loadEntryItems entries = entries ∧ ∃ ds, entries = ds.map .dict ∧
      entries.filterMap asDict = ds ∧ ∀ d ∈ ds, ∃ taints, ValidEntry py d taints := by
  induction entries with
  | nil => exact ⟨rfl,[],rfl,rfl,fun d hd => absurd hd List.not_mem_nil⟩
  | cons x entries ih =>
    obtain ⟨⟨d,taints,rfl,hv⟩,hrest⟩ := List.forall_mem_cons.mp h
    obtain ⟨hload,ds,rfl,hds,hall⟩ := ih hrest
    refine ⟨?_,d :: ds,rfl,?_,List.forall_mem_cons.mpr ⟨⟨taints,hv⟩,hall⟩⟩
    · rw [loadEntryItems,List.filter_cons_of_pos rfl]
      exact congrArg _ hload
    · exact congrArg (List.cons d) hds

theorem forall₂_comp {α β γ : Type} {R : α → β → Prop} {S : β → γ → Prop} {l : List α}
    {m : List β} {n : List γ} (h : List.Forall₂ R l m) (h' : List.Forall₂ S m n) :
    List.Forall₂ (fun a c => ∃ b, R a b ∧ S b c) l n := by
  induction h generalizing n with
  | nil =>
    cases h'
    exact .nil
  | cons hab _ ih =>
    cases h' with
    | cons hbc hrest => exact .cons ⟨_,hab,hbc⟩ (ih hrest)

/-- How the result for an entry comes about. -/
def ResultOf (py : PyRuntime) (x : PyJson) (p : Option PyJson × List String) : Prop :=
  ∃ d taints flat i, x = .dict d ∧ ValidEntry py d taints ∧ Generates py d ∧
    Generated py d taints flat ∧ fixElement py i (.dict flat) = .ok p

theorem results_of_steps {ds gs : List (List (String × PyJson))} {fixed : List PyJson}
    {fixes : List String} (hvalid : ∀ d ∈ ds, ∃ taints, ValidEntry py d taints)
    (hgs : ds.mapM (generateItem py) = .ok gs)
    (hfix : autoFixFunctionsList py (gs.map .dict) = .ok (fixed,fixes)) :
    ∃ results, List.Forall₂ (ResultOf py) (ds.map .dict) results ∧
      fixed = results.filterMap Prod.fst ∧ fixes = results.flatMap Prod.snd := by
  obtain ⟨results,hresults,hfixed,hfixes⟩ := autoFix_ok hfix
  rw [List.forall₂_map_left_iff] at hresults
  refine ⟨results,?_,hfixed,hfixes⟩
  rw [List.forall₂_map_left_iff]
  have hboth := forall₂_comp (mapM_ok_iff.mp hgs) hresults
  refine ((List.forall₂_and_left ds results).mpr ⟨hvalid,hboth⟩).imp ?_
  rintro d p ⟨⟨taints,hv⟩,flat,hflat,i,hi⟩
  exact ⟨d,taints,flat,i,rfl,hv,(generateItem_isOk_iff hv).mp ⟨flat,hflat⟩,
    generateItem_spec hv hflat,hi⟩

/-- A synchronisation that raises nothing has a result for each entry. -/
theorem sync_results (hvalid : validateEntryItems py entries = .ok []) {r : EntryArtifactResult}
    (h : syncFunctionsListFromEntry py entries = .ok r) :
    ∃ results, List.Forall₂ (ResultOf py) entries results ∧
      r.written = results.filterMap Prod.fst ∧ r.fixes = results.flatMap Prod.snd := by
  obtain ⟨hload,ds,rfl,hds,hall⟩ := load_valid (validEntries hvalid).2
  unfold syncFunctionsListFromEntry at h
  rw [hload] at h
  obtain ⟨errors,-,h⟩ := bind_eq_ok.mp h
  obtain ⟨parsed,hparsed,h⟩ := bind_eq_ok.mp h
  obtain ⟨⟨fixed,fixes⟩,hfix,h⟩ := bind_eq_ok.mp h
  obtain ⟨errors',-,h⟩ := bind_eq_ok.mp h
  cases h
  obtain ⟨gs,hgs,hparsed⟩ := bind_eq_ok.mp hparsed
  cases hparsed
  rw [hds] at hgs
  exact results_of_steps hall hgs hfix

/-- Entries on which the generator raises nothing have results, and are synchronised if the check
of the written list raises nothing either. -/
theorem sync_of_generates (hvalid : validateEntryItems py entries = .ok [])
    (hgen : ∀ d, .dict d ∈ entries → Generates py d) :
    ∃ results, List.Forall₂ (ResultOf py) entries results ∧
      ∀ errors, validateFunctionsList py (results.filterMap Prod.fst) = .ok errors →
        ∃ r, syncFunctionsListFromEntry py entries = .ok r ∧
          r.written = results.filterMap Prod.fst := by
  obtain ⟨hload,ds,rfl,hds,hall⟩ := load_valid (validEntries hvalid).2
  have hgs : ∃ gs, ds.mapM (generateItem py) = .ok gs := by
    refine mapM_isOk fun d hd => ?_
    obtain ⟨taints,hv⟩ := hall d hd
    exact (generateItem_isOk_iff hv).mpr (hgen d (List.mem_map_of_mem hd))
  obtain ⟨gs,hgs⟩ := hgs
  have hparsed : generateFunctionsList py (ds.map .dict) = .ok (gs.map .dict) := by
    rw [generateFunctionsList,hds,hgs]
    rfl
  cases hfix : autoFixFunctionsList py (gs.map .dict) with
  | error e =>
    obtain ⟨x,hx,hraise⟩ := autoFix_error hfix
    obtain ⟨flat,hflat,rfl⟩ := List.mem_map.mp hx
    obtain ⟨d,hd,hgen⟩ := forall₂_mem_right (mapM_ok_iff.mp hgs) hflat
    obtain ⟨taints,hv⟩ := hall d hd
    exact absurd hraise (not_raises hv (generateItem_spec hv hgen))
  | ok p =>
    obtain ⟨results,hresults,hfixed,-⟩ := results_of_steps hall hgs hfix
    refine ⟨results,hresults,fun errors herrors => 
      ⟨⟨(ds.map PyJson.dict).length,p.1.length,errors,p.2,p.1⟩,?_,hfixed⟩⟩
    rw [← hfixed] at herrors
    unfold syncFunctionsListFromEntry
    rw [hload]
    exact bind_eq_ok.mpr ⟨[],hvalid,bind_eq_ok.mpr ⟨_,hparsed,bind_eq_ok.mpr ⟨p,hfix,
      bind_eq_ok.mpr ⟨errors,herrors,rfl⟩⟩⟩⟩

/-- Each entry with the item that is written for it, where none is dropped. -/
theorem forall₂_written {results : List (Option PyJson × List String)}
    (h : List.Forall₂ (fun x p => ∀ y, p.1 = some y → SameEntry x y) entries results)
    (hsome : ∀ p ∈ results, p.1.isSome = true) :
    List.Forall₂ SameEntry entries (results.filterMap Prod.fst) := by
  induction h with
  | nil => exact .nil
  | @cons x p entries results hxp _ ih =>
    obtain ⟨hp,hrest⟩ := List.forall_mem_cons.mp hsome
    obtain ⟨y,hy⟩ := Option.isSome_iff_exists.mp hp
    rw [List.filterMap_cons_some hy]
    exact .cons (hxp y hy) (ih hrest)

/-- Where no result is dropped, the written items are as many as the entries. -/
theorem isSome_of_length {results : List (Option PyJson × List String)}
    (h : (results.filterMap Prod.fst).length = results.length) :
    ∀ p ∈ results, p.1.isSome = true := by
  rw [List.filterMap_length_eq_length] at h
  exact h

theorem same_results (hround : RoundsUnit py) {results : List (Option PyJson × List String)}
    (h : List.Forall₂ (ResultOf py) entries results) :
    List.Forall₂ (fun x p => ∀ y, p.1 = some y → SameEntry x y) entries results := by
  refine h.imp ?_
  rintro x p ⟨d,taints,flat,i,rfl,hv,-,hg,hfix⟩ y hy
  exact ((repair_generated hround hv hg hfix).2.2 y hy).1

/-- Every element of the list is an entry with what it needs. -/
def AllConvertible (py : PyRuntime) (entries : List PyJson) : Prop :=
  ∀ d taints, .dict d ∈ entries → field d "taints" = .list taints → Convertible py d taints

theorem synced_iff (hround : RoundsUnit py) (hvalid : validateEntryItems py entries = .ok []) :
    Synced py entries ↔ AllConvertible py entries := by
  constructor
  · rintro ⟨r,hr,hsame,hwritten⟩ d taints hd htaints
    obtain ⟨results,hresults,heq,-⟩ := sync_results hvalid hr
    have hsome : ∀ p ∈ results, p.1.isSome = true := by
      refine isSome_of_length ?_
      rw [← heq,← hsame.length_eq,hresults.length_eq]
    obtain ⟨p,hp,d',taints',flat,i,hx,hv,hgen,hg,hfix⟩ := forall₂_mem_left hresults hd
    cases hx
    have hlisted := hv.listed
    rw [htaints] at hlisted
    cases hlisted
    obtain ⟨y,hy⟩ := Option.isSome_iff_exists.mp (hsome p hp)
    have hmem : y ∈ r.written := by
      rw [heq]
      exact List.mem_filterMap.mpr ⟨p,hp,hy⟩
    obtain ⟨j,hj⟩ := validateElement_of_list hwritten hmem
    obtain ⟨hfile,hfunction,htainted,hunpadded⟩ :=
      (((repair_generated hround hv hg hfix).2.2 y hy).2 j).mp hj
    exact ⟨hgen,hfile,hfunction,htainted,hunpadded⟩
  · intro hall
    obtain ⟨hne,hvalids⟩ := validEntries hvalid
    have hgen : ∀ d, .dict d ∈ entries → Generates py d := by
      intro d hd
      obtain ⟨d',taints,hx,hv⟩ := hvalids _ hd
      cases hx
      exact (hall d taints hd hv.listed).generates
    obtain ⟨results,hresults,hsync⟩ := sync_of_generates hvalid hgen
    have hconvert : ∀ p ∈ results, p.1.isSome = true ∧
        ∀ y, p.1 = some y → ∀ j, validateElement py j y = .ok [] := by
      intro p hp
      obtain ⟨x,hx,d,taints,flat,i,rfl,hv,-,hg,hfix⟩ := forall₂_mem_right hresults hp
      have hc := hall d taints hx hv.listed
      obtain ⟨-,hsome,hitem⟩ := repair_generated hround hv hg hfix
      exact ⟨hsome hc.tainted,fun y hy j =>
        ((hitem y hy).2 j).mpr ⟨hc.file,hc.function,hc.tainted,hc.unpadded⟩⟩
    have hsame := forall₂_written (same_results hround hresults) fun p hp => (hconvert p hp).1
    have hpass : ∀ y ∈ results.filterMap Prod.fst, ∀ j, validateElement py j y = .ok [] := by
      intro y hy
      obtain ⟨p,hp,hpy⟩ := List.mem_filterMap.mp hy
      exact (hconvert p hp).2 y hpy
    have hwritten : validateFunctionsList py (results.filterMap Prod.fst) = .ok [] := by
      refine (validateList_eq_nil fun y hy i j _ => hpass y hy j).mpr hpass ?_
      intro hnil
      rw [hnil] at hsame
      exact hne (List.forall₂_nil_right_iff.mp hsame)
    obtain ⟨r,hr,heq⟩ := hsync [] hwritten
    exact ⟨r,hr,by rw [heq]; exact hsame,by rw [heq]; exact hwritten⟩

theorem drops_reported (hround : RoundsUnit py)
    (hvalid : validateEntryItems py entries = .ok []) : DropsReported py entries := by
  intro r hr
  obtain ⟨results,hresults,hwritten,hfixes⟩ := sync_results hvalid hr
  refine ⟨results,hresults.length_eq.symm,hwritten,hfixes,same_results hround hresults,?_⟩
  intro p hp hnone
  obtain ⟨x,-,d,taints,flat,i,-,hv,-,hg,hfix⟩ := forall₂_mem_right hresults hp
  exact (repair_generated hround hv hg hfix).1 hnone

end Lists

/-- A list of entries that passes its check is synchronised iff every entry is convertible; what is
dropped is reported in any case. -/
theorem entries_synced_iff {py : PyRuntime} (hround : RoundsUnit py) (entries : List PyJson)
    (hvalid : validateEntryItems py entries = .ok []) :
    (Synced py entries ↔ AllConvertible py entries) ∧ DropsReported py entries :=
  ⟨synced_iff hround hvalid,drops_reported hround hvalid⟩

/-- An entry with all its texts. -/
def fullEntry (taint : String) : PyJson := .dict
  [("tag",.str "P"),("file",.str "/src/recv.c"),("line",.int 10),("function",.str "on_msg"),
    ("taints",.list [.str taint]),("function_description",.str "reads a message"),
    ("entry_reason",.str "msg is external"),
    ("taint_details",.list [.dict [("name",.str taint),("description",.str "raw bytes")]])]

theorem plain_entry_synced : validateEntryItems plainRuntime [fullEntry "msg"] = .ok [] ∧
    (Synced plainRuntime [fullEntry "msg"] ↔ AllConvertible plainRuntime [fullEntry "msg"]) ∧
      DropsReported plainRuntime [fullEntry "msg"] := by
  have hvalid : validateEntryItems plainRuntime [fullEntry "msg"] = .ok [] := by rfl
  exact ⟨hvalid,entries_synced_iff plainRuntime_roundsUnit _ hvalid⟩

/-- An entry whose taint has an index passes its check, and the item that is written for it has no
taints and fails the one of the list. -/
theorem indexed_taint_not_synced :
    validateEntryItems plainRuntime [fullEntry "data[0]"] = .ok [] ∧
      ¬Synced plainRuntime [fullEntry "data[0]"] := by
  have hvalid : validateEntryItems plainRuntime [fullEntry "data[0]"] = .ok [] := by rfl
  refine ⟨hvalid,fun h => ?_⟩
  have hall := (synced_iff plainRuntime_roundsUnit hvalid).mp h
  rcases (hall _ _ List.mem_cons_self rfl).tainted with hgood | hactive
  · exact hgood (by decide)
  · exact absurd hactive (by decide)

end EntrySync
end EntryAnalyse
