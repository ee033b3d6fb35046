import EntryAnalyse.ConfigService

/-! The configuration with which a task is run: the saved one, the overrides of the task, and what
is built from the two. Where one of them is not valid, the second branch of the function that
takes it up does not help. -/
namespace EntryAnalyse
namespace Config

open PyJson

/-! ## Models -/

inductive FieldType
  | int (low high : Option ℤ)
  | optionalInt
  | float
  | bool
  | str
  | role
  deriving DecidableEq

/-- What the validation of a field makes of a value; `none` is an error. A role is kept as the
JSON object that it is dumped to. -/
structure Pydantic where
  int : PyJson → Option ℤ
  float : PyJson → Option PyFloat
  bool : PyJson → Option Bool
  str : PyJson → Option String
  role : PyJson → Option PyJson

/-- A `RoleConfig` of defaults. -/
def roleDefault : PyJson :=
  .dict [("default_model",.str ""),
    ("default_tools",.list [.str "read",.str "bash",.str "edit",.str "write"]),
    ("system_prompt_dir",.str "./prompts/workers"),("default_thinking_level",.str "off"),
    ("agents",.list [])]

/-- A value of the type of a field stays as it is. -/
structure Pydantic.Documented (p : Pydantic) : Prop where
  int : ∀ i, p.int (.int i) = some i
  float : ∀ x, p.float (.float x) = some x
  bool : ∀ b, p.bool (.bool b) = some b
  str : ∀ s, p.str (.str s) = some s
  role : ∀ v w, p.role v = some w → p.role w = some w
  roleDefault : p.role Config.roleDefault = some Config.roleDefault

structure ModelField where
  name : String
  type : FieldType
  default : PyJson

def plainInt : FieldType := .int none none

/-- The fields of `ServiceConfig`. -/
def serviceFields : List ModelField :=
  [⟨"max_rounds",plainInt,.int (-1)⟩,
    ⟨"max_rounds_exceeded_action",.str,.str "treat_as_passed"⟩,
    ⟨"min_rounds",.int (some 1) (some 10),.int 2⟩,
    ⟨"pass_threshold",.optionalInt,.null⟩,
    ⟨"max_concurrent_tasks",plainInt,.int 8⟩,
    ⟨"agent_process_limit",plainInt,.int 8⟩,
    ⟨"agent_max_retries",plainInt,.int (-1)⟩,
    ⟨"agent_retry_delay",.float,.float (.finite 30)⟩,
    ⟨"agent_run_timeout_seconds",plainInt,.int 1800⟩,
    ⟨"agent_timeout_retry_enabled",.bool,.bool true⟩,
    ⟨"agent_timeout_max_retries",plainInt,.int 20⟩,
    ⟨"pi_max_retries",plainInt,.int (-1)⟩,
    ⟨"pi_retry_delay",.float,.float (.finite 5)⟩,
    ⟨"max_consecutive_empty_responses",plainInt,.int 3⟩,
    ⟨"master_merge_mode",.str,.str "hierarchical"⟩,
    ⟨"master_shard_size",plainInt,.int 10⟩,
    ⟨"master_shard_parallelism",plainInt,.int 4⟩,
    ⟨"r1_max_rounds",plainInt,.int (-1)⟩,
    ⟨"r2_max_rounds",plainInt,.int (-1)⟩,
    ⟨"r3_max_rounds",plainInt,.int (-1)⟩,
    ⟨"r3_j_max_rounds",plainInt,.int (-1)⟩,
    ⟨"r4_func_max_rounds",plainInt,.int (-1)⟩,
    ⟨"r4_func_j_max_rounds",plainInt,.int (-1)⟩,
    ⟨"r4_final_max_rounds",plainInt,.int (-1)⟩,
    ⟨"report_func_max_rounds",plainInt,.int (-1)⟩,
    ⟨"report_final_max_rounds",plainInt,.int (-1)⟩,
    ⟨"workers",.role,roleDefault⟩,
    ⟨"judges",.role,roleDefault⟩,
    ⟨"pipeline_prompts_dir",.str,.str "./prompts/pipeline"⟩,
    ⟨"output_dir",.str,.str "/data/output"⟩,
    ⟨"archive_dir",.str,.str "/data/output"⟩,
    ⟨"result_dir",.str,.str "/data/output"⟩,
    ⟨"fast_mode",.bool,.bool false⟩,
    ⟨"fast_mode_batch_size",.int (some 10) (some 50),.int 20⟩,
    ⟨"super_fast_mode",.bool,.bool false⟩]

/-- How `build_task_config` reads a field of the configuration. -/
inductive Reading
  | keep
  | normalized (kind : FieldKind)
  | textOr (default : String)
  | rangeOr (low high default : ℤ)
  | toInt
  | toBool
  deriving DecidableEq

structure TaskField where
  name : String
  type : FieldType
  reading : Reading

/-- The fields of `TaskConfig` that `build_task_config` takes from the configuration. -/
def taskFields : List TaskField :=
  [⟨"max_rounds",plainInt,.keep⟩,
    ⟨"max_rounds_exceeded_action",.str,.normalized .action⟩,
    ⟨"min_rounds",plainInt,.keep⟩,
    ⟨"pass_threshold",.optionalInt,.keep⟩,
    ⟨"max_concurrent_tasks",plainInt,.normalized (.limit 8 128)⟩,
    ⟨"agent_process_limit",plainInt,.normalized (.limit 8 128)⟩,
    ⟨"master_merge_mode",.str,.textOr "hierarchical"⟩,
    ⟨"master_shard_size",plainInt,.rangeOr 2 100 10⟩,
    ⟨"master_shard_parallelism",plainInt,.rangeOr 1 64 4⟩,
    ⟨"agent_max_retries",plainInt,.keep⟩,
    ⟨"agent_retry_delay",.float,.keep⟩,
    ⟨"agent_run_timeout_seconds",plainInt,.keep⟩,
    ⟨"agent_timeout_retry_enabled",.bool,.keep⟩,
    ⟨"agent_timeout_max_retries",plainInt,.keep⟩,
    ⟨"pi_max_retries",plainInt,.keep⟩,
    ⟨"pi_retry_delay",.float,.keep⟩,
    ⟨"max_consecutive_empty_responses",plainInt,.toInt⟩,
    ⟨"workers",.role,.keep⟩,
    ⟨"judges",.role,.keep⟩,
    ⟨"pipeline_prompts_dir",.str,.keep⟩,
    ⟨"output_dir",.str,.keep⟩,
    ⟨"archive_dir",.str,.keep⟩,
    ⟨"result_dir",.str,.keep⟩,
    ⟨"r1_max_rounds",plainInt,.toInt⟩,
    ⟨"r2_max_rounds",plainInt,.toInt⟩,
    ⟨"r3_max_rounds",plainInt,.toInt⟩,
    ⟨"r3_j_max_rounds",plainInt,.toInt⟩,
    ⟨"r4_func_max_rounds",plainInt,.toInt⟩,
    ⟨"r4_func_j_max_rounds",plainInt,.toInt⟩,
    ⟨"r4_final_max_rounds",plainInt,.toInt⟩,
    ⟨"report_func_max_rounds",plainInt,.toInt⟩,
    ⟨"report_final_max_rounds",plainInt,.toInt⟩,
    ⟨"fast_mode",.bool,.toBool⟩,
    ⟨"fast_mode_batch_size",.int (some 10) (some 50),.toInt⟩,
    ⟨"super_fast_mode",.bool,.toBool⟩]

/-- `_TASK_CONFIG_OVERRIDE_FIELDS`. -/
def overrideFields : List String :=
  ["max_rounds","max_rounds_exceeded_action","min_rounds","pass_threshold","agent_max_retries",
    "agent_retry_delay","agent_run_timeout_seconds","agent_timeout_retry_enabled",
    "agent_timeout_max_retries","pi_max_retries","pi_retry_delay",
    "max_consecutive_empty_responses","r1_max_rounds","r2_max_rounds","r3_max_rounds",
    "r3_j_max_rounds","r4_func_max_rounds","r4_func_j_max_rounds","r4_final_max_rounds",
    "report_func_max_rounds","report_final_max_rounds","master_merge_mode","master_shard_size",
    "master_shard_parallelism","pipeline_prompts_dir","fast_mode","fast_mode_batch_size",
    "super_fast_mode"]

section Model

variable (p : Pydantic) (py : PyRuntime) (intOfStr : String → Option ℤ)

def FieldType.validate : FieldType → PyJson → Option PyJson
  | .int low high,v =>
    (p.int v).bind fun i => if low.all (· ≤ i) && high.all (i ≤ ·) then some (.int i) else none
  | .optionalInt,.null => some .null
  | .optionalInt,v => (p.int v).map .int
  | .float,v => (p.float v).map .float
  | .bool,v => (p.bool v).map .bool
  | .str,v => (p.str v).map .str
  | .role,v => p.role v

/-- A field of `ServiceConfig(**data)`; a `ValidationError` is a `ValueError`. -/
def ModelField.read (data : Dict) (f : ModelField) : Except PyError (String × PyJson) :=
  match PyDict.get data f.name with
  | none => .ok (f.name,f.default)
  | some v =>
    match f.type.validate p v with
    | some w => .ok (f.name,w)
    | none => .error .valueError

/-- `ServiceConfig(**data)`. -/
def serviceConfig (data : Dict) : Except PyError Dict := serviceFields.mapM (ModelField.read p data)

def Reading.value : Reading → PyJson → Except PyError PyJson
  | .keep,v => .ok v
  | .normalized kind,v => kind.value py intOfStr (some v)
  | .textOr default,v => .ok (.str (py.str (v.or (.str default))))
  | .rangeOr low high default,v =>
    (intOf intOfStr (v.or (.int default))).map fun i => .int (max low (min i high))
  | .toInt,v => (intOf intOfStr v).map .int
  | .toBool,v => .ok (.bool v.truthy)

def TaskField.build (svc : Dict) (f : TaskField) : Except PyError (String × PyJson) := do
  let v ← f.reading.value py intOfStr (field svc f.name)
  match f.type.validate p v with
  | some w => .ok (f.name,w)
  | none => .error .valueError

/-- `build_task_config`. -/
def buildTaskConfig (svc : Dict) : Except PyError Dict :=
  taskFields.mapM (TaskField.build p py intOfStr svc)

/-- The overrides of a task in the place of the fields of a configuration. -/
def withOverrides (svc taskConfig : Dict) : Dict :=
  overrideFields.foldl (fun merged key =>
    match PyDict.get taskConfig key with
    | some v => PyDict.set merged key v
    | none => merged) svc

/-- `_apply_task_config_overrides`: after an exception the fields are set as they are. -/
def applyTaskConfigOverrides (svc taskConfig : Dict) : Dict :=
  match normalizeRuntimeFields py intOfStr (withOverrides svc taskConfig) >>= serviceConfig p with
  | .ok svc => svc
  | .error _ => withOverrides svc taskConfig

/-- The saved configuration as a `ServiceConfig`. -/
def savedServiceConfig (now : Option String) (t : ConfigTable) : Except PyError Dict := do
  let (_,cfgDict) ← getConfig py intOfStr now t
  serviceConfig p (PyDict.pop (PyDict.pop cfgDict "updated_at") "project_id")

/-- `_load_svc_config(db)`. After an exception it calls `_load_svc_config()`. This is no longer the
function that reads the file, but the one that needs `db`: its name was defined a second time. -/
def loadSvcConfig (now : Option String) (t : ConfigTable) : Except PyError Dict :=
  match savedServiceConfig p py intOfStr now t with
  | .ok svc => .ok svc
  | .error _ => .error .typeError

/-! ## Valid configurations -/

/-- Every field holds a value of its type, within its bounds. -/
def Valid (svc : Dict) : Prop :=
  ∀ f ∈ serviceFields, ∃ v, PyDict.get svc f.name = some v ∧ f.type.validate p v = some v

/-- Every field that is brought into a range is in it. -/
def Clamped (svc : Dict) : Prop :=
  ∀ rule ∈ firstRules ++ lastRules, ∀ v, PyDict.get svc rule.key = some v →
    rule.kind.value py intOfStr (some v) = .ok v

/-- A task can be configured: the saved configuration is loaded, or the one of the file when the
saved one is not valid; with the overrides of the task it is valid, and the task's configuration
is built from it. -/
def Configured (now : Option String) (t : ConfigTable) (file taskConfig : Dict) : Prop :=
  ∃ svc, loadSvcConfig p py intOfStr now t = .ok svc ∧
    (svc = match savedServiceConfig p py intOfStr now t with
      | .ok saved => saved
      | .error _ => file) ∧
    Valid p (applyTaskConfigOverrides p py intOfStr svc taskConfig) ∧
    Clamped py intOfStr (applyTaskConfigOverrides p py intOfStr svc taskConfig) ∧
    ∃ cfg, buildTaskConfig p py intOfStr (applyTaskConfigOverrides p py intOfStr svc taskConfig) =
      .ok cfg

/-- The fields whose rule takes the integer part of a number. -/
def rangeKeys : List String :=
  ["min_rounds","master_shard_size","master_shard_parallelism","fast_mode_batch_size"]

def isInfinite : PyJson → Bool
  | .float .posInf | .float .negInf => true
  | _ => false

/-- No number that is brought into a range is infinite, and the fields that are taken over as they
are hold what their validation accepts. -/
def OverridesValid (taskConfig : Dict) : Prop :=
  (∀ k ∈ rangeKeys, ∀ v, PyDict.get taskConfig k = some v → isInfinite v = false) ∧
  ∀ f ∈ serviceFields, f.name ∈ overrideFields → f.name ∉ firstKeys ++ lastKeys →
    ∀ v, PyDict.get taskConfig f.name = some v → (f.type.validate p v).isSome

end Model

/-! ## The tables fit together -/

/-- The type of a field admits what is written to it. -/
def FieldKind.fits : FieldKind → FieldType → Bool
  | .action,.str | .mode,.str | .flag,.bool => true
  | .unlimited,.int none none => true
  | .limit _ _,.int none none => true
  | .range low high _,.int l h => l.all (· ≤ low) && h.all (high ≤ ·)
  | _,_ => false

def FieldKind.isNumber : FieldKind → Bool
  | .limit _ _ | .range _ _ _ => true
  | _ => false

def FieldType.isInt : FieldType → Bool
  | .int _ _ => true
  | _ => false

/-- The second type admits what is read from a field of the first. -/
def Reading.fits : Reading → FieldType → FieldType → Bool
  | .keep,.int _ _,.int none none => true
  | .keep,a,b => a == b
  | .normalized kind,a,b => kind.hasDefault && kind.fits b && (!kind.isNumber || a.isInt)
  | .textOr _,.str,.str | .toBool,.bool,.bool => true
  | .rangeOr _ _ _,.int _ _,.int none none => true
  | .toInt,.int l h,.int l' h' => (l' == none || l == l') && (h' == none || h == h')
  | _,_,_ => false

/-- How the tables fit together: every name stands once and is kept, every rule and every reading
admits the type of its field, and every number has an integer field. -/
theorem tables_fit : (serviceFields.map ModelField.name).Nodup ∧
    (∀ f ∈ serviceFields, f.name ∉ staleKeys) ∧
    (∀ f ∈ serviceFields, ∀ rule ∈ firstRules ++ lastRules, rule.key = f.name →
      rule.kind.fits f.type = true) ∧
    (∀ rule ∈ firstRules ++ lastRules, rule.kind.isNumber = true →
      (rule.key ∈ overrideFields → rule.key ∈ rangeKeys) ∧
      ∃ f ∈ serviceFields, f.name = rule.key ∧ f.type.isInt = true) ∧
    (∀ k ∈ rangeKeys, k ∈ overrideFields ∧
      (∃ f ∈ serviceFields, f.name = k ∧ f.type.isInt = true) ∧
      ∃ rule ∈ firstRules ++ lastRules, rule.key = k ∧ rule.kind.isNumber = true) ∧
    ∀ f ∈ taskFields, ∃ f' ∈ serviceFields, f'.name = f.name ∧
      f.reading.fits f'.type f.type = true := by
  decide +kernel

theorem names_nodup : (serviceFields.map ModelField.name).Nodup := tables_fit.1

theorem fields_not_stale : ∀ f ∈ serviceFields, f.name ∉ staleKeys := tables_fit.2.1

theorem rules_fit : ∀ f ∈ serviceFields, ∀ rule ∈ firstRules ++ lastRules, rule.key = f.name →
    rule.kind.fits f.type = true :=
  tables_fit.2.2.1

/-- A number that is brought into a range, or has a limit, is an integer field; only the first can
be overridden. -/
theorem number_rules : ∀ rule ∈ firstRules ++ lastRules, rule.kind.isNumber = true →
    (rule.key ∈ overrideFields → rule.key ∈ rangeKeys) ∧
    ∃ f ∈ serviceFields, f.name = rule.key ∧ f.type.isInt = true :=
  tables_fit.2.2.2.1

theorem range_rules : ∀ k ∈ rangeKeys, k ∈ overrideFields ∧
    (∃ f ∈ serviceFields, f.name = k ∧ f.type.isInt = true) ∧
    ∃ rule ∈ firstRules ++ lastRules, rule.key = k ∧ rule.kind.isNumber = true :=
  tables_fit.2.2.2.2.1

theorem readings_fit : ∀ f ∈ taskFields, ∃ f' ∈ serviceFields, f'.name = f.name ∧
    f.reading.fits f'.type f.type = true :=
  tables_fit.2.2.2.2.2

section Fit

variable {p : Pydantic} {py : PyRuntime} {intOfStr : String → Option ℤ} {type type' : FieldType}
  {kind : FieldKind} {v w : PyJson} {d svc taskConfig : Dict}

theorem validate_int {low high : Option ℤ} (h : (FieldType.int low high).validate p v = some w) :
    ∃ i, w = .int i ∧ low.all (· ≤ i) = true ∧ high.all (i ≤ ·) = true := by
  obtain ⟨i,-,hi⟩ := Option.bind_eq_some_iff.mp h
  split at hi
  · rename_i hrange
    exact ⟨i,(Option.some.inj hi).symm,Bool.and_eq_true_iff.mp hrange⟩
  · cases hi

theorem validate_of_int (hp : p.Documented) {low high : Option ℤ} {i : ℤ}
    (hlow : low.all (· ≤ i) = true) (hhigh : high.all (i ≤ ·) = true) :
    (FieldType.int low high).validate p (.int i) = some (.int i) := by
  rw [FieldType.validate,hp.int,Option.bind_some,hlow,hhigh]
  rfl

/-- What a validation gave is valid. -/
theorem validate_idem (hp : p.Documented) (h : type.validate p v = some w) :
    type.validate p w = some w := by
  have hmap : ∀ {α : Type} {o : Option α} {f : α → PyJson}, o.map f = some w → ∃ a, w = f a := by
    intro α o f ho
    obtain ⟨a,-,ha⟩ := Option.map_eq_some_iff.mp ho
    exact ⟨a,ha.symm⟩
  cases type with
  | int low high =>
    obtain ⟨i,rfl,hlow,hhigh⟩ := validate_int h
    exact validate_of_int hp hlow hhigh
  | optionalInt =>
    have hint : w = .null ∨ ∃ i, w = .int i := by
      cases v <;> first | exact Or.inl (Option.some.inj h).symm | exact Or.inr (hmap h)
    rcases hint with rfl | ⟨i,rfl⟩
    · rfl
    · rw [FieldType.validate,hp.int]
      · rfl
      · exact fun h => by cases h
  | float =>
    obtain ⟨x,rfl⟩ := hmap h
    rw [FieldType.validate,hp.float]
    rfl
  | bool =>
    obtain ⟨b,rfl⟩ := hmap h
    rw [FieldType.validate,hp.bool]
    rfl
  | str =>
    obtain ⟨s,rfl⟩ := hmap h
    rw [FieldType.validate,hp.str]
    rfl
  | role => exact hp.role v w h

theorem defaults_valid (hp : p.Documented) :
    ∀ f ∈ serviceFields, f.type.validate p f.default = some f.default := by
  simp [serviceFields,plainInt,FieldType.validate,hp.int,hp.float,hp.bool,hp.str,hp.roleDefault]

/-- What is written to a field passes its validation. -/
theorem kind_valid (hp : p.Documented) (hfits : kind.fits type = true) {o : Option PyJson}
    (hdefault : kind.hasDefault = true) (h : kind.value py intOfStr o = .ok v) :
    type.validate p v = some v := by
  cases kind with
  | action =>
    cases type <;> cases hfits
    cases h
    exact validate_idem hp (by rw [FieldType.validate,hp.str]; rfl)
  | unlimited =>
    cases type with
    | int low high =>
      cases h
      cases low <;> cases high <;> cases hfits
      exact validate_of_int hp rfl rfl
    | _ => cases hfits
  | limit default high =>
    cases type with
    | int l h' =>
      obtain ⟨i,-,rfl⟩ : ∃ i, normalizeLimit intOfStr default high (o.getD .null) = .ok i ∧
          v = .int i := by
        unfold FieldKind.value at h
        dsimp only at h
        cases hn : normalizeLimit intOfStr default high (o.getD .null) with
        | error e => rw [hn] at h; cases h
        | ok i => rw [hn] at h; cases h; exact ⟨i,rfl,rfl⟩
      cases l <;> cases h' <;> cases hfits
      exact validate_of_int hp rfl rfl
    | _ => cases hfits
  | range low high default =>
    simp only [FieldKind.hasDefault,Bool.and_eq_true,decide_eq_true_eq] at hdefault
    cases type with
    | int l h' =>
      obtain ⟨i,hlow,hhigh,rfl⟩ : ∃ i, low ≤ i ∧ i ≤ high ∧ v = .int i := by
        unfold FieldKind.value at h
        dsimp only at h
        split at h
        · cases h
          exact ⟨_,by omega,by omega,rfl⟩
        · cases h
          exact ⟨_,hdefault.1,hdefault.2,rfl⟩
        · cases h
          exact ⟨_,hdefault.1,hdefault.2,rfl⟩
        · cases h
      simp only [FieldKind.fits,Bool.and_eq_true,Option.all_eq_true,decide_eq_true_eq] at hfits
      refine validate_of_int hp ?_ ?_
      · exact Option.all_eq_true _ _ |>.mpr fun b hb =>
          decide_eq_true ((hfits.1 b hb).trans hlow)
      · exact Option.all_eq_true _ _ |>.mpr fun b hb =>
          decide_eq_true (hhigh.trans (hfits.2 b hb))
    | _ => cases hfits
  | mode =>
    cases type <;> cases hfits
    cases h
    exact validate_idem hp (by rw [FieldType.validate,hp.str]; rfl)
  | flag =>
    cases type <;> cases hfits
    cases h
    exact validate_idem hp (by rw [FieldType.validate,hp.bool]; rfl)

theorem intOf_finite (h : isInfinite v = false) : (∃ i, intOf intOfStr v = .ok i) ∨
    intOf intOfStr v = .error .typeError ∨ intOf intOfStr v = .error .valueError := by
  cases v with
  | float x =>
    cases x with
    | finite q => exact Or.inl ⟨_,rfl⟩
    | nan => exact Or.inr (Or.inr rfl)
    | posInf => cases h
    | negInf => cases h
  | str s =>
    rw [intOf]
    cases intOfStr s with
    | some i => exact Or.inl ⟨i,rfl⟩
    | none => exact Or.inr (Or.inr rfl)
  | null => exact Or.inr (Or.inl rfl)
  | bool b => exact Or.inl ⟨_,rfl⟩
  | int i => exact Or.inl ⟨i,rfl⟩
  | list xs => exact Or.inr (Or.inl rfl)
  | dict kvs => exact Or.inr (Or.inl rfl)

/-- Only a number that is infinite is not brought into its range. -/
theorem value_isOk {o : Option PyJson}
    (h : kind.isNumber = true → ∀ v, o = some v → isInfinite v = false) :
    ∃ w, kind.value py intOfStr o = .ok w := by
  cases o with
  | none => exact value_none py intOfStr kind
  | some v =>
    have hnumber : kind.isNumber = true → (∃ i, intOf intOfStr v = .ok i) ∨
        intOf intOfStr v = .error .typeError ∨ intOf intOfStr v = .error .valueError :=
      fun hk => intOf_finite (h hk v rfl)
    cases kind with
    | limit default high =>
      simp only [FieldKind.value,Option.getD_some,normalizeLimit]
      rcases hnumber rfl with ⟨i,hi⟩ | hi | hi <;> exact ⟨_,by rw [hi]; rfl⟩
    | range low high default =>
      simp only [FieldKind.value,Option.getD_some]
      rcases hnumber rfl with ⟨i,hi⟩ | hi | hi <;> exact ⟨_,by rw [hi]⟩
    | _ => exact ⟨_,rfl⟩

theorem value_infinite (hkind : kind.isNumber = true) (h : isInfinite v = true) :
    kind.value py intOfStr (some v) = .error .overflowError := by
  have hv : v = .float .posInf ∨ v = .float .negInf := by
    cases v with
    | float x => cases x <;> first | exact Or.inl rfl | exact Or.inr rfl | cases h
    | _ => cases h
  cases kind with
  | limit default high => rcases hv with rfl | rfl <;> rfl
  | range low high default => rcases hv with rfl | rfl <;> rfl
  | _ => cases hkind

/-! ## `ServiceConfig` -/

theorem read_fst {f : ModelField} {q : String × PyJson} (h : f.read p d = .ok q) :
    q.1 = f.name := by
  unfold ModelField.read at h
  split at h
  · cases h
    rfl
  · split at h
    · cases h
      rfl
    · cases h

theorem read_valid (hp : p.Documented) {f : ModelField} (hf : f ∈ serviceFields)
    {q : String × PyJson} (h : f.read p d = .ok q) : f.type.validate p q.2 = some q.2 := by
  unfold ModelField.read at h
  split at h
  · cases h
    exact defaults_valid hp f hf
  · split at h
    · rename_i hw
      cases h
      exact validate_idem hp hw
    · cases h

theorem keys_serviceConfig (h : serviceConfig p d = .ok svc) :
    keys svc = serviceFields.map ModelField.name := by
  have hall : ∀ fs (svc : Dict), List.Forall₂ (fun f q => ModelField.read p d f = .ok q) fs svc →
      keys svc = fs.map ModelField.name := by
    intro fs svc hread
    induction hread with
    | nil => rfl
    | cons hq _ ih => exact congrArg₂ List.cons (read_fst hq) ih
  exact hall _ _ (mapM_ok_iff.mp h)

/-- Every field of a `ServiceConfig` was read. -/
theorem get_serviceConfig (h : serviceConfig p d = .ok svc) {f : ModelField}
    (hf : f ∈ serviceFields) :
    ∃ w, PyDict.get svc f.name = some w ∧ f.read p d = .ok (f.name,w) := by
  have hnd : (keys svc).Nodup := by
    rw [keys_serviceConfig h]
    exact names_nodup
  obtain ⟨q,hq,hread⟩ := forall₂_mem_left (mapM_ok_iff.mp h) hf
  have hname := read_fst hread
  refine ⟨q.2,?_,by rw [hread,← hname]⟩
  rw [← hname]
  exact get_of_mem hnd hq

theorem valid_serviceConfig (hp : p.Documented) (h : serviceConfig p d = .ok svc) :
    Valid p svc := by
  intro f hf
  obtain ⟨w,hw,hread⟩ := get_serviceConfig h hf
  exact ⟨w,hw,read_valid hp hf hread⟩

theorem serviceConfig_isOk (h : ∀ f ∈ serviceFields, ∀ v, PyDict.get d f.name = some v →
    (f.type.validate p v).isSome) : ∃ svc, serviceConfig p d = .ok svc := by
  refine mapM_isOk fun f hf => ?_
  unfold ModelField.read
  cases hv : PyDict.get d f.name with
  | none => exact ⟨_,rfl⟩
  | some v =>
    obtain ⟨w,hw⟩ := Option.isSome_iff_exists.mp (h f hf v hv)
    exact ⟨(f.name,w),by simp only [hw]⟩

/-! ## `TaskConfig` -/

/-- What is read from a valid field can be taken over. -/
theorem reading_valid (hp : p.Documented) {reading : Reading}
    (hfits : reading.fits type type' = true) (hv : type.validate p v = some v) :
    ∃ w, reading.value py intOfStr v = .ok w ∧ (type'.validate p w).isSome := by
  have hint : type.isInt = true → ∃ i, v = .int i := by
    intro h
    cases type with
    | int low high =>
      obtain ⟨i,rfl,-⟩ := validate_int hv
      exact ⟨i,rfl⟩
    | _ => cases h
  have hplain : ∀ i, ((FieldType.int none none).validate p (.int i)).isSome := by
    intro i
    rw [validate_of_int hp rfl rfl]
    rfl
  cases reading with
  | keep =>
    refine ⟨v,rfl,?_⟩
    by_cases htype : type = type'
    · rw [← htype,hv]
      rfl
    · cases type with
      | int low high =>
        obtain ⟨i,rfl⟩ := hint rfl
        cases type' with
        | int l h =>
          cases l <;> cases h <;> first | exact hplain i | skip
          all_goals exact absurd (by simpa [Reading.fits] using hfits) htype
        | _ => cases hfits
      | _ => exact absurd (by simpa [Reading.fits] using hfits) htype
  | normalized kind =>
    simp only [Reading.fits,Bool.and_eq_true,Bool.or_eq_true,Bool.not_eq_true'] at hfits
    obtain ⟨⟨hdefault,hkind⟩,hnumber⟩ := hfits
    have hfinite : kind.isNumber = true → ∀ u, some v = some u → isInfinite u = false := by
      rintro hk u ⟨⟩
      obtain ⟨i,rfl⟩ := hint (hnumber.resolve_left (by simp [hk]))
      rfl
    obtain ⟨w,hw⟩ : ∃ w, kind.value py intOfStr (some v) = .ok w := value_isOk hfinite
    exact ⟨w,hw,by rw [kind_valid hp hkind hdefault hw]; rfl⟩
  | textOr default =>
    cases type <;> cases type' <;> cases hfits
    exact ⟨_,rfl,by rw [FieldType.validate,hp.str]; rfl⟩
  | rangeOr low high default =>
    cases type with
    | int l h =>
      obtain ⟨i,rfl⟩ := hint rfl
      cases type' with
      | int l' h' =>
        cases l' <;> cases h' <;> cases hfits
        have hor : ∃ j, (PyJson.int i).or (.int default) = .int j := by
          unfold PyJson.or
          split
          · exact ⟨_,rfl⟩
          · exact ⟨_,rfl⟩
        obtain ⟨j,hj⟩ := hor
        exact ⟨.int (max low (min j high)),by rw [Reading.value,hj]; rfl,hplain _⟩
      | _ => cases hfits
    | _ => cases hfits
  | toInt =>
    cases type with
    | int l h =>
      obtain ⟨i,hi,hlow,hhigh⟩ := validate_int hv
      cases type' with
      | int l' h' =>
        simp only [Reading.fits,Bool.and_eq_true,Bool.or_eq_true,beq_iff_eq] at hfits
        refine ⟨.int i,by rw [hi]; rfl,?_⟩
        rw [validate_of_int hp]
        · rfl
        · rcases hfits.1 with rfl | rfl
          · rfl
          · exact hlow
        · rcases hfits.2 with rfl | rfl
          · rfl
          · exact hhigh
      | _ => cases hfits
    | _ => cases hfits
  | toBool =>
    cases type <;> cases type' <;> cases hfits
    exact ⟨_,rfl,by rw [FieldType.validate,hp.bool]; rfl⟩

/-- A task's configuration is built from every valid one. -/
theorem buildTaskConfig_isOk (hp : p.Documented) (h : Valid p svc) :
    ∃ cfg, buildTaskConfig p py intOfStr svc = .ok cfg := by
  refine mapM_isOk fun f hf => ?_
  obtain ⟨f',hf',hname,hfits⟩ := readings_fit f hf
  obtain ⟨v,hget,hv⟩ := h f' hf'
  obtain ⟨w,hw,hsome⟩ : ∃ w, f.reading.value py intOfStr v = .ok w ∧
      (f.type.validate p w).isSome := reading_valid hp hfits hv
  obtain ⟨u,hu⟩ := Option.isSome_iff_exists.mp hsome
  have hfield : field svc f.name = v := by
    rw [field,PyDict.getD,← hname,hget,Option.getD_some]
  exact ⟨(f.name,u),bind_eq_ok.mpr ⟨w,by rw [hfield]; exact hw,by rw [hu]⟩⟩

/-! ## Overrides -/

theorem get_withOverrides {k : String} : PyDict.get (withOverrides svc taskConfig) k =
    if k ∈ overrideFields then (PyDict.get taskConfig k).or (PyDict.get svc k)
    else PyDict.get svc k := by
  have hfold : ∀ (ks : List String) (m : Dict), PyDict.get (ks.foldl (fun merged key =>
      match PyDict.get taskConfig key with
      | some v => PyDict.set merged key v
      | none => merged) m) k =
      if k ∈ ks then (PyDict.get taskConfig k).or (PyDict.get m k) else PyDict.get m k := by
    intro ks
    induction ks with
    | nil => simp
    | cons key ks ih =>
      intro m
      rw [List.foldl_cons,ih]
      by_cases hk : k = key
      · rw [← hk]
        cases hv : PyDict.get taskConfig k with
        | none => simp
        | some v => simp [PyDict.get_set_self]
      · have hstep : PyDict.get (match PyDict.get taskConfig key with
            | some v => PyDict.set m key v
            | none => m) k = PyDict.get m k := by
          cases PyDict.get taskConfig key with
          | none => rfl
          | some v => exact PyDict.get_set_of_ne m v hk
        rw [hstep]
        simp [hk]
  exact hfold overrideFields svc

theorem get_overridden {k : String} (hk : k ∈ overrideFields) (h : PyDict.get taskConfig k = some v) :
    PyDict.get (withOverrides svc taskConfig) k = some v := by
  rw [get_withOverrides,if_pos hk,h]
  rfl

/-- A field of a valid configuration with overrides holds an override, or what it held. -/
theorem get_withOverrides_cases {k : String}
    (h : PyDict.get (withOverrides svc taskConfig) k = some v) :
    (k ∈ overrideFields ∧ PyDict.get taskConfig k = some v) ∨ PyDict.get svc k = some v := by
  rw [get_withOverrides] at h
  split at h
  · rename_i hk
    cases ht : PyDict.get taskConfig k with
    | none =>
      rw [ht] at h
      exact Or.inr h
    | some u =>
      rw [ht] at h
      exact Or.inl ⟨hk,h⟩
  · exact Or.inr h

theorem Valid.field (h : Valid p svc) {f : ModelField} (hf : f ∈ serviceFields)
    (hv : PyDict.get svc f.name = some v) : f.type.validate p v = some v := by
  obtain ⟨w,hw,hvalid⟩ := h f hf
  rw [hv] at hw
  rw [← Option.some.inj hw] at hvalid
  exact hvalid

/-- An integer field of a valid configuration is not infinite. -/
theorem Valid.finite (h : Valid p svc) {k : String}
    (hk : ∃ f ∈ serviceFields, f.name = k ∧ f.type.isInt = true)
    (hv : PyDict.get svc k = some v) : isInfinite v = false := by
  obtain ⟨f,hf,rfl,hint⟩ := hk
  have hvalid := h.field hf hv
  cases htype : f.type with
  | int low high =>
    rw [htype] at hvalid
    obtain ⟨i,rfl,-⟩ := validate_int hvalid
    rfl
  | _ =>
    rw [htype] at hint
    cases hint

theorem hasDefault_rules : ∀ rule ∈ firstRules ++ lastRules, rule.kind.hasDefault = true := by
  decide

/-- Valid overrides are normalised, and what they give is valid. -/
theorem overrides_isOk (hp : p.Documented) (hsvc : Valid p svc) (h : OverridesValid p taskConfig) :
    ∃ n new, normalizeRuntimeFields py intOfStr (withOverrides svc taskConfig) = .ok n ∧
      serviceConfig p n = .ok new := by
  have hrules : ∀ rule ∈ firstRules ++ lastRules, ∃ v, rule.kind.value py intOfStr
      (PyDict.get (withOverrides svc taskConfig) rule.key) = .ok v := by
    intro rule hrule
    refine value_isOk fun hnumber v hv => ?_
    obtain ⟨hrange,hint⟩ := number_rules rule hrule hnumber
    rcases get_withOverrides_cases hv with ⟨hk,ht⟩ | hs
    · exact h.1 _ (hrange hk) v ht
    · exact hsvc.finite hint hs
  obtain ⟨n,hn⟩ := normalize_isOk hrules
  have hfields : ∀ f ∈ serviceFields, ∀ v, PyDict.get n f.name = some v →
      (f.type.validate p v).isSome := by
    intro f hf v hv
    by_cases hk : f.name ∈ firstKeys ++ lastKeys
    · obtain ⟨rule,hrule,hkey⟩ := exists_rule hk
      obtain ⟨w,hw,hget⟩ := normalize_field hn rule hrule
      rw [hkey,hv] at hget
      rw [Option.some.inj hget,kind_valid hp (rules_fit f hf rule hrule hkey)
        (hasDefault_rules rule hrule) hw]
      rfl
    · rw [normalize_other hn hk,if_neg (fields_not_stale f hf)] at hv
      rcases get_withOverrides_cases hv with ⟨ho,ht⟩ | hs
      · exact h.2 f hf ho hk v ht
      · rw [hsvc.field hf hs]
        rfl
  obtain ⟨new,hnew⟩ := serviceConfig_isOk hfields
  exact ⟨n,new,hn,hnew⟩

/-- A configuration read from normalised fields is in their ranges. -/
theorem clamped_serviceConfig (hp : p.Documented) {n new : Dict}
    (hn : normalizeRuntimeFields py intOfStr d = .ok n) (hnew : serviceConfig p n = .ok new) :
    Clamped py intOfStr new := by
  intro rule hrule v hv
  have hkey : rule.key ∈ serviceFields.map ModelField.name := by
    rw [← keys_serviceConfig hnew,keys,← PyDict.isSome_get,hv]
    rfl
  obtain ⟨f,hf,hname⟩ := List.mem_map.mp hkey
  obtain ⟨w,hw,hread⟩ := get_serviceConfig hnew hf
  obtain ⟨u,hu,hget⟩ := normalize_field hn rule hrule
  have hvalid := kind_valid hp (rules_fit f hf rule hrule hname.symm)
    (hasDefault_rules rule hrule) hu
  have hwu : w = u := by
    unfold ModelField.read at hread
    rw [hname,hget] at hread
    dsimp only at hread
    rw [hvalid] at hread
    exact (Prod.mk.inj (Except.ok.inj hread)).2.symm
  rw [hname,hv] at hw
  rw [Option.some.inj hw,hwu]
  exact (rules_stable hrule _ u hu).1

/-- Overrides with which the configuration is valid are valid, whichever branch was taken. -/
theorem overrides_valid (h : Valid p (applyTaskConfigOverrides p py intOfStr svc taskConfig)) :
    OverridesValid p taskConfig := by
  unfold applyTaskConfigOverrides at h
  cases hb : normalizeRuntimeFields py intOfStr (withOverrides svc taskConfig) >>=
      serviceConfig p with
  | error e =>
    rw [hb] at h
    refine ⟨fun k hk v hv => ?_,fun f hf ho _ v hv => ?_⟩
    · obtain ⟨ho,hint,-⟩ := range_rules k hk
      exact h.finite hint (get_overridden ho hv)
    · rw [h.field hf (get_overridden ho hv)]
      rfl
  | ok new =>
    obtain ⟨n,hn,hnew⟩ := bind_eq_ok.mp hb
    refine ⟨fun k hk v hv => ?_,fun f hf ho hk v hv => ?_⟩
    · obtain ⟨ho,-,rule,hrule,rfl,hnumber⟩ := range_rules k hk
      obtain ⟨w,hw,-⟩ := normalize_field hn rule hrule
      rw [get_overridden ho hv] at hw
      cases hinf : isInfinite v with
      | false => rfl
      | true =>
        rw [value_infinite hnumber hinf] at hw
        cases hw
    · obtain ⟨w,-,hread⟩ := get_serviceConfig hnew hf
      unfold ModelField.read at hread
      rw [normalize_other hn hk,if_neg (fields_not_stale f hf),get_overridden ho hv] at hread
      cases hw : f.type.validate p v with
      | some u => rfl
      | none =>
        dsimp only at hread
        rw [hw] at hread
        cases hread

variable (p py intOfStr) in
/-- A task can be configured iff the saved configuration is valid and its overrides are. -/
theorem configured_iff (hp : p.Documented) (now : Option String) (t : ConfigTable)
    (file taskConfig : Dict) : Configured p py intOfStr now t file taskConfig ↔
      (∃ svc, savedServiceConfig p py intOfStr now t = .ok svc) ∧
      OverridesValid p taskConfig := by
  constructor
  · rintro ⟨svc,hload,-,hvalid,-⟩
    refine ⟨?_,overrides_valid hvalid⟩
    unfold loadSvcConfig at hload
    cases hs : savedServiceConfig p py intOfStr now t with
    | ok svc => exact ⟨svc,rfl⟩
    | error e =>
      rw [hs] at hload
      cases hload
  · rintro ⟨⟨svc,hs⟩,hov⟩
    obtain ⟨⟨t',g⟩,-,hg⟩ := bind_eq_ok.mp hs
    have hsvc : Valid p svc := valid_serviceConfig hp hg
    obtain ⟨n,new,hn,hnew⟩ : ∃ n new,
        normalizeRuntimeFields py intOfStr (withOverrides svc taskConfig) = .ok n ∧
        serviceConfig p n = .ok new := overrides_isOk hp hsvc hov
    have happly : applyTaskConfigOverrides p py intOfStr svc taskConfig = new := by
      unfold applyTaskConfigOverrides
      rw [bind_eq_ok.mpr ⟨n,hn,hnew⟩]
    have hvalid : Valid p new := valid_serviceConfig hp hnew
    unfold Configured loadSvcConfig
    rw [hs]
    refine ⟨svc,rfl,rfl,?_⟩
    rw [happly]
    exact ⟨hvalid,clamped_serviceConfig hp hn hnew,buildTaskConfig_isOk hp hvalid⟩

end Fit

/-! ## Instances -/

/-- A validation that converts numbers only. -/
def plainPydantic : Pydantic where
  int
    | .int i => some i
    | .bool b => some (if b then 1 else 0)
    | .float (.finite q) => if q.den = 1 then some q.num else none
    | _ => none
  float
    | .float x => some x
    | .int i => some (.finite i)
    | .bool b => some (.finite (if b then 1 else 0))
    | _ => none
  bool
    | .bool b => some b
    | .int 0 => some false
    | .int 1 => some true
    | _ => none
  str
    | .str s => some s
    | _ => none
  role
    | .dict kvs => some (.dict (kvs.filter fun q => q.1 != "stage_models"))
    | _ => none

theorem plainPydantic_documented : plainPydantic.Documented where
  int _ := rfl
  float _ := rfl
  bool _ := rfl
  str _ := rfl
  role v w h := by
    cases v with
    | dict kvs =>
      cases h
      exact congrArg (fun l => some (PyJson.dict l)) (by rw [List.filter_filter]; simp)
    | _ => cases h
  roleDefault := by rfl

/-- Nothing is saved, and the task sets a threshold: the task is configured. -/
theorem threshold_configured :
    Configured plainPydantic plainRuntime (fun _ => none) none ⟨none,none⟩ []
      [("pass_threshold",.int 2)] := by
  refine (configured_iff plainPydantic plainRuntime (fun _ => none) plainPydantic_documented none
    ⟨none,none⟩ [] [("pass_threshold",.int 2)]).mpr ⟨?_,?_,?_⟩
  · exact ⟨_,rfl⟩
  · decide +kernel
  · decide +kernel

/-- With a text as the threshold it is not: the text is set as it is. -/
theorem text_threshold_not_configured :
    ¬Configured plainPydantic plainRuntime (fun _ => none) none ⟨none,none⟩ []
      [("pass_threshold",.str "all")] := by
  rintro ⟨svc,-,-,hvalid,-⟩
  have hthreshold := (overrides_valid hvalid).2 ⟨"pass_threshold",.optionalInt,.null⟩
    (by simp [serviceFields]) (by decide) (by decide) (.str "all") rfl
  cases hthreshold

end Config
end EntryAnalyse
