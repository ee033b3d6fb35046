import EntryAnalyse.ConfigMerge

/-! The configuration that all projects share: its defaults, and the fields that are brought into
their ranges. -/
namespace EntryAnalyse
namespace Config

open PyJson

/-! ## The defaults -/

def agentDefaults : PyJson :=
  .list [.dict [("model",.str "gaiasec/auto"),("tools",.null),("system_prompt",.null),
    ("thinking_level",.null)]]

/-- `_DEFAULT_CONFIG`. -/
def defaultConfig : Dict :=
  [("max_rounds",.int (-1)),
    ("max_rounds_exceeded_action",.str "treat_as_passed"),
    ("min_rounds",.int 2),
    ("pass_threshold",.int 0),
    ("max_concurrent_tasks",.int 8),
    ("agent_process_limit",.int 8),
    ("agent_max_retries",.int (-1)),
    ("agent_retry_delay",.int 30),
    ("agent_run_timeout_seconds",.int 1800),
    ("agent_timeout_retry_enabled",.bool true),
    ("agent_timeout_max_retries",.int 20),
    ("pi_max_retries",.int (-1)),
    ("pi_retry_delay",.int 5),
    ("max_consecutive_empty_responses",.int 3),
    ("r1_max_rounds",.int (-1)),
    ("r2_max_rounds",.int (-1)),
    ("r3_max_rounds",.int (-1)),
    ("r3_j_max_rounds",.int (-1)),
    ("r4_func_max_rounds",.int (-1)),
    ("r4_func_j_max_rounds",.int (-1)),
    ("r4_final_max_rounds",.int (-1)),
    ("report_func_max_rounds",.int (-1)),
    ("report_final_max_rounds",.int (-1)),
    ("lean_mode",.bool false),
    ("lean_file_max_rounds",.int (-1)),
    ("lean_module_max_rounds",.int (-1)),
    ("api_filter_entry_judge",.bool false),
    ("fast_mode",.bool false),
    ("fast_mode_batch_size",.int 20),
    ("super_fast_mode",.bool false),
    ("master_merge_mode",.str "hierarchical"),
    ("master_shard_size",.int 10),
    ("master_shard_parallelism",.int 4),
    ("workers",.dict
      [("default_model",.str ""),
        ("default_tools",.list [.str "read",.str "bash",.str "edit",.str "write",.str "grep",
          .str "find"]),
        ("system_prompt_dir",.str "/app/prompts/workers"),
        ("default_thinking_level",.str "off"),
        ("agents",agentDefaults),
        ("stage_models",.dict [])]),
    ("judges",.dict
      [("default_model",.str ""),
        ("default_tools",.list [.str "read",.str "bash",.str "grep",.str "find"]),
        ("system_prompt_dir",.str "/app/prompts/judges"),
        ("default_thinking_level",.str "off"),
        ("agents",agentDefaults),
        ("stage_models",.dict [])]),
    ("output_dir",.str "/data/output"),
    ("archive_dir",.str "/data/output"),
    ("result_dir",.str "/data/output")]

/-! ## The fields -/

section Fields

variable (py : PyRuntime) (intOfStr : String → Option ℤ)

/-- `int(v)`. -/
def intOf : PyJson → Except PyError ℤ
  | .int i => .ok i
  | .bool b => .ok (if b then 1 else 0)
  | .float (.finite q) => .ok (if 0 ≤ q then ⌊q⌋ else ⌈q⌉)
  | .float .nan => .error .valueError
  | .float _ => .error .overflowError
  | .str s =>
    match intOfStr s with
    | some i => .ok i
    | none => .error .valueError
  | _ => .error .typeError

def normalizeMaxRoundsExceededAction (v : PyJson) : String :=
  let candidate := lower (py.text v)
  if candidate = "treat_as_passed" ∨ candidate = "treat_as_failed" then candidate
  else "treat_as_passed"

/-- A limit on what runs at once. -/
def normalizeLimit (default limit : ℤ) (v : PyJson) : Except PyError ℤ :=
  match intOf intOfStr v with
  | .ok candidate => .ok (if candidate < 1 then 1 else min candidate limit)
  | .error .typeError | .error .valueError => .ok default
  | .error e => .error e

def normalizeMaxConcurrentTasks : PyJson → Except PyError ℤ := normalizeLimit intOfStr 8 128

def normalizeAgentProcessLimit : PyJson → Except PyError ℤ := normalizeLimit intOfStr 8 128

/-- What is done to a field: the action is one of two, rounds are never limited, what runs at once
has a limit, a number is brought into a range, the mode is one of two, and a flag is a `bool`. -/
inductive FieldKind
  | action
  | unlimited
  | limit (default high : ℤ)
  | range (low high default : ℤ)
  | mode
  | flag
  deriving DecidableEq

/-- What is written to a field, from the value that is there. -/
def FieldKind.value : FieldKind → Option PyJson → Except PyError PyJson
  | .action,v => .ok (.str (normalizeMaxRoundsExceededAction py (v.getD .null)))
  | .unlimited,_ => .ok (.int (-1))
  | .limit default high,v => (normalizeLimit intOfStr default high (v.getD .null)).map .int
  | .range low high default,v =>
    match intOf intOfStr (v.getD (.int default)) with
    | .ok i => .ok (.int (max low (min i high)))
    | .error .typeError | .error .valueError => .ok (.int default)
    | .error e => .error e
  | .mode,v =>
    let mode := lower (strip (py.str ((v.getD .null).or (.str "hierarchical"))))
    .ok (.str (if mode = "single" ∨ mode = "hierarchical" then mode else "hierarchical"))
  | .flag,v => .ok (.bool (v.getD (.bool false)).truthy)

structure FieldRule where
  key : String
  kind : FieldKind
  deriving DecidableEq

def maxRoundsKeys : List String :=
  ["max_rounds","r1_max_rounds","r1a_max_rounds","r1b_max_rounds","r2_max_rounds","r3_max_rounds",
    "r3_j_max_rounds","r4_func_max_rounds","r4_func_j_max_rounds","r4_final_max_rounds",
    "report_func_max_rounds","report_final_max_rounds"]

/-- What is written before the keys of older versions are taken out. -/
def firstRules : List FieldRule :=
  ⟨"max_rounds_exceeded_action",.action⟩ :: maxRoundsKeys.map (fun key => ⟨key,.unlimited⟩) ++
    [⟨"min_rounds",.range 1 10 2⟩,⟨"max_concurrent_tasks",.limit 8 128⟩,
      ⟨"agent_process_limit",.limit 8 128⟩,⟨"master_shard_size",.range 2 100 10⟩,
      ⟨"master_shard_parallelism",.range 1 64 4⟩,⟨"master_merge_mode",.mode⟩]

def staleKeys : List String :=
  ["worker_parallel","worker_parallelism","pipeline_parallelism","model_capacity_enabled",
    "model_max_concurrency","api_filter_entry_judge","api_filter_timeout_seconds",
    "api_filter_max_timeouts","api_filter_parse_max_retries","lean_mode","lean_file_max_rounds",
    "lean_module_max_rounds"]

def lastRules : List FieldRule :=
  [⟨"fast_mode",.flag⟩,⟨"fast_mode_batch_size",.range 10 50 20⟩,⟨"super_fast_mode",.flag⟩]

def applyRules : List FieldRule → Dict → Except PyError Dict
  | [],data => .ok data
  | rule :: rules,data => do
    let v ← rule.kind.value py intOfStr (PyDict.get data rule.key)
    applyRules rules (PyDict.set data rule.key v)

/-- `_normalize_runtime_fields`. -/
def normalizeRuntimeFields (data : Dict) : Except PyError Dict := do
  let normalized ← applyRules py intOfStr firstRules data
  applyRules py intOfStr lastRules (staleKeys.foldl PyDict.pop normalized)

end Fields

/-! ## What the fields hold -/

section Rules

variable (py : PyRuntime) (intOfStr : String → Option ℤ)

/-- A value that is left as it is once it is written, and that is no object. -/
def FieldKind.Stable (kind : FieldKind) : Prop :=
  ∀ o v, kind.value py intOfStr o = .ok v → kind.value py intOfStr (some v) = .ok v ∧
    isDict v = false ∧ uniqueKeys v = true

variable {py intOfStr}

theorem strip_lower_fixed {s : String} (hs : s ∈ ["treat_as_passed","treat_as_failed","single",
    "hierarchical"]) : lower (strip s) = s ∧ s ≠ "" := by
  simp only [List.mem_cons,List.not_mem_nil,or_false] at hs
  rcases hs with rfl | rfl | rfl | rfl <;> decide

theorem action_stable : FieldKind.action.Stable py intOfStr := by
  intro o v h
  have hfix : ∀ s, s = "treat_as_passed" ∨ s = "treat_as_failed" →
      normalizeMaxRoundsExceededAction py (.str s) = s := by
    intro s hs
    have hlower : lower (py.text (.str s)) = s := by
      rw [PyRuntime.text_str]
      exact (strip_lower_fixed (by rcases hs with rfl | rfl <;> simp)).1
    unfold normalizeMaxRoundsExceededAction
    dsimp only
    rw [hlower,if_pos hs]
  cases h
  refine ⟨congrArg (fun s => Except.ok (PyJson.str s)) (hfix _ ?_),rfl,rfl⟩
  unfold normalizeMaxRoundsExceededAction
  dsimp only
  split
  · assumption
  · exact Or.inl rfl

theorem limit_stable {default limit : ℤ} (hdefault : 1 ≤ default) (hlimit : default ≤ limit) :
    (FieldKind.limit default limit).Stable py intOfStr := by
  intro o v h
  have hfix : ∀ i, 1 ≤ i → i ≤ limit → normalizeLimit intOfStr default limit (.int i) = .ok i := by
    intro i hlow hhigh
    rw [normalizeLimit,intOf]
    dsimp only
    rw [if_neg (by omega),min_eq_left hhigh]
  have hvalue : ∀ i, normalizeLimit intOfStr default limit (o.getD .null) = .ok i →
      1 ≤ i ∧ i ≤ limit := by
    intro i hi
    unfold normalizeLimit at hi
    split at hi
    · cases hi
      split <;> omega
    · cases hi
      exact ⟨hdefault,hlimit⟩
    · cases hi
      exact ⟨hdefault,hlimit⟩
    · cases hi
  unfold FieldKind.value at h ⊢
  dsimp only at h ⊢
  cases hn : normalizeLimit intOfStr default limit (o.getD .null) with
  | error e =>
    rw [hn] at h
    cases h
  | ok i =>
    rw [hn] at h
    cases h
    obtain ⟨hlow,hhigh⟩ := hvalue i hn
    rw [Option.getD_some,hfix i hlow hhigh]
    exact ⟨rfl,rfl,rfl⟩

theorem range_stable {low high default : ℤ} (hlow : low ≤ default) (hhigh : default ≤ high) :
    (FieldKind.range low high default).Stable py intOfStr := by
  intro o v h
  have hfix : ∀ i, low ≤ i → i ≤ high →
      (FieldKind.range low high default).value py intOfStr (some (.int i)) = .ok (.int i) := by
    intro i hl hh
    simp only [FieldKind.value,Option.getD_some,intOf,min_eq_left hh,max_eq_right hl]
  unfold FieldKind.value at h
  dsimp only at h
  split at h
  · cases h
    exact ⟨hfix _ (by omega) (by omega),rfl,rfl⟩
  · cases h
    exact ⟨hfix _ hlow hhigh,rfl,rfl⟩
  · cases h
    exact ⟨hfix _ hlow hhigh,rfl,rfl⟩
  · cases h

theorem mode_stable : FieldKind.mode.Stable py intOfStr := by
  intro o v h
  have hfix : ∀ s, s = "single" ∨ s = "hierarchical" →
      FieldKind.mode.value py intOfStr (some (.str s)) = .ok (.str s) := by
    intro s hs
    have hmem : s ∈ ["treat_as_passed","treat_as_failed","single","hierarchical"] := by
      rcases hs with rfl | rfl <;> simp
    obtain ⟨hlower,hne⟩ := strip_lower_fixed hmem
    have hor : (PyJson.str s).or (.str "hierarchical") = .str s := by
      simp [PyJson.or,truthy,hne]
    simp only [FieldKind.value,Option.getD_some,hor,PyRuntime.str,hlower,if_pos hs]
  unfold FieldKind.value at h
  dsimp only at h
  cases h
  refine ⟨hfix _ ?_,rfl,rfl⟩
  split
  · assumption
  · exact Or.inr rfl

/-- The default of a number is in its range. -/
def FieldKind.hasDefault : FieldKind → Bool
  | .limit default high => 1 ≤ default && default ≤ high
  | .range low high default => low ≤ default && default ≤ high
  | _ => true

theorem FieldKind.stable {kind : FieldKind} (h : kind.hasDefault = true) :
    kind.Stable py intOfStr := by
  cases kind with
  | action => exact action_stable
  | unlimited =>
    intro o v hv
    cases hv
    exact ⟨rfl,rfl,rfl⟩
  | limit default high =>
    simp only [hasDefault,Bool.and_eq_true,decide_eq_true_eq] at h
    exact limit_stable h.1 h.2
  | range low high default =>
    simp only [hasDefault,Bool.and_eq_true,decide_eq_true_eq] at h
    exact range_stable h.1 h.2
  | mode => exact mode_stable
  | flag =>
    intro o v hv
    cases hv
    exact ⟨rfl,rfl,rfl⟩

/-- Every rule keeps what it wrote. -/
theorem rules_stable {rule : FieldRule} (h : rule ∈ firstRules ++ lastRules) :
    rule.kind.Stable py intOfStr := by
  have hall : ∀ rule ∈ firstRules ++ lastRules, rule.kind.hasDefault = true := by decide
  exact FieldKind.stable (hall rule h)

/-! ## All fields at once -/

variable {rules : List FieldRule} {d d' : Dict} {k : String}

theorem applyRules_cons {rule : FieldRule} (h : applyRules py intOfStr (rule :: rules) d = .ok d') :
    ∃ v, rule.kind.value py intOfStr (PyDict.get d rule.key) = .ok v ∧
      applyRules py intOfStr rules (PyDict.set d rule.key v) = .ok d' := by
  exact bind_eq_ok.mp h

theorem applyRules_other (h : applyRules py intOfStr rules d = .ok d') (hk : k ∉ rules.map FieldRule.key) :
    PyDict.get d' k = PyDict.get d k := by
  induction rules generalizing d with
  | nil =>
    cases h
    rfl
  | cons rule rules ih =>
    obtain ⟨hne,hrest⟩ := not_or.mp (mt List.mem_cons.mpr hk)
    obtain ⟨v,-,h⟩ := applyRules_cons h
    rw [ih h hrest,PyDict.get_set_of_ne d v hne]

/-- Each field holds what its rule makes of the value that was there. -/
theorem applyRules_field (h : applyRules py intOfStr rules d = .ok d') (hnd : (rules.map FieldRule.key).Nodup) :
    ∀ rule ∈ rules, ∃ v, rule.kind.value py intOfStr (PyDict.get d rule.key) = .ok v ∧
      PyDict.get d' rule.key = some v := by
  induction rules generalizing d with
  | nil => exact List.forall_mem_nil _
  | cons rule rules ih =>
    obtain ⟨hkey,hrest⟩ := List.nodup_cons.mp hnd
    obtain ⟨v,hv,h⟩ := applyRules_cons h
    rw [List.forall_mem_cons]
    refine ⟨⟨v,hv,?_⟩,fun rule' hmem => ?_⟩
    · rw [applyRules_other h hkey,PyDict.get_set_self]
    · have hne : rule'.key ≠ rule.key := fun heq => hkey (heq ▸ List.mem_map_of_mem hmem)
      obtain ⟨v',hv',hget⟩ := ih h hrest rule' hmem
      rw [PyDict.get_set_of_ne d v hne] at hv'
      exact ⟨v',hv',hget⟩

theorem applyRules_isOk (hnd : (rules.map FieldRule.key).Nodup)
    (h : ∀ rule ∈ rules, ∃ v, rule.kind.value py intOfStr (PyDict.get d rule.key) = .ok v) :
    ∃ d', applyRules py intOfStr rules d = .ok d' := by
  induction rules generalizing d with
  | nil => exact ⟨d,rfl⟩
  | cons rule rules ih =>
    obtain ⟨hkey,hrest⟩ := List.nodup_cons.mp hnd
    obtain ⟨⟨v,hv⟩,h⟩ := List.forall_mem_cons.mp h
    have hnext : ∀ rule' ∈ rules, ∃ v',
        rule'.kind.value py intOfStr (PyDict.get (PyDict.set d rule.key v) rule'.key) = .ok v' := by
      intro rule' hmem
      have hne : rule'.key ≠ rule.key := fun heq => hkey (heq ▸ List.mem_map_of_mem hmem)
      rw [PyDict.get_set_of_ne d v hne]
      exact h rule' hmem
    obtain ⟨d',hd'⟩ := ih hrest hnext
    exact ⟨d',bind_eq_ok.mpr ⟨v,hv,hd'⟩⟩

theorem get_popAll {stale : List String} : PyDict.get (stale.foldl PyDict.pop d) k =
    if k ∈ stale then none else PyDict.get d k := by
  induction stale generalizing d with
  | nil => simp
  | cons s stale ih =>
    rw [List.foldl_cons,ih]
    by_cases hk : k ∈ stale
    · rw [if_pos hk,if_pos (List.mem_cons_of_mem s hk)]
    · by_cases hs : k = s
      · rw [if_neg hk,hs,PyDict.get_pop_self,if_pos List.mem_cons_self]
      · rw [if_neg hk,PyDict.get_pop_of_ne d hs,if_neg (by simp [hk,hs])]

def firstKeys : List String :=
  "max_rounds_exceeded_action" :: maxRoundsKeys ++ ["min_rounds","max_concurrent_tasks",
    "agent_process_limit","master_shard_size","master_shard_parallelism","master_merge_mode"]

def lastKeys : List String := ["fast_mode","fast_mode_batch_size","super_fast_mode"]

theorem keys_firstRules : firstRules.map FieldRule.key = firstKeys := rfl

theorem keys_lastRules : lastRules.map FieldRule.key = lastKeys := rfl

/-- The fields, the keys of older versions and the two keys that are not saved are different. -/
theorem keys_apart : (firstKeys ++ lastKeys).Nodup ∧
    (∀ k ∈ firstKeys ++ lastKeys, k ∉ staleKeys ∧ k ∉ ["project_id","updated_at"]) ∧
    ∀ k ∈ staleKeys, k ∉ ["project_id","updated_at"] := by
  decide +kernel

variable (py intOfStr) in
/-- All fields hold what their rules leave as it is, and no key of an older version is there. -/
structure Normal (d : Dict) : Prop where
  field : ∀ rule ∈ firstRules ++ lastRules, ∃ v,
    PyDict.get d rule.key = some v ∧ rule.kind.value py intOfStr (some v) = .ok v ∧ isDict v = false
  stale : ∀ k ∈ staleKeys, PyDict.get d k = none

theorem rule_key {rule : FieldRule} (h : rule ∈ firstRules ++ lastRules) :
    rule.key ∈ firstKeys ++ lastKeys := by
  rw [← keys_firstRules,← keys_lastRules,← List.map_append]
  exact List.mem_map_of_mem h

theorem exists_rule (hk : k ∈ firstKeys ++ lastKeys) :
    ∃ rule ∈ firstRules ++ lastRules, rule.key = k := by
  rw [← keys_firstRules,← keys_lastRules,← List.map_append] at hk
  exact List.mem_map.mp hk

theorem normalize_parts (h : normalizeRuntimeFields py intOfStr d = .ok d') :
    ∃ m, applyRules py intOfStr firstRules d = .ok m ∧
      applyRules py intOfStr lastRules (staleKeys.foldl PyDict.pop m) = .ok d' := by
  exact bind_eq_ok.mp h

theorem nodup_first : (firstRules.map FieldRule.key).Nodup :=
  (List.nodup_append.mp keys_apart.1).1

theorem nodup_last : (lastRules.map FieldRule.key).Nodup :=
  (List.nodup_append.mp keys_apart.1).2.1

theorem first_not_last {k : String} (hk : k ∈ firstKeys) : k ∉ lastKeys := fun hl =>
  (List.nodup_append.mp keys_apart.1).2.2 k hk k hl rfl

/-- The normalised fields, from the values that were there. -/
theorem normalize_field (h : normalizeRuntimeFields py intOfStr d = .ok d') :
    ∀ rule ∈ firstRules ++ lastRules, ∃ v,
      rule.kind.value py intOfStr (PyDict.get d rule.key) = .ok v ∧ PyDict.get d' rule.key = some v := by
  obtain ⟨m,hm,hd'⟩ := normalize_parts h
  intro rule hrule
  have hstale : rule.key ∉ staleKeys := (keys_apart.2.1 _ (rule_key hrule)).1
  rcases List.mem_append.mp hrule with hfirst | hlast
  · obtain ⟨v,hv,hget⟩ := applyRules_field hm nodup_first rule hfirst
    refine ⟨v,hv,?_⟩
    have hkey : rule.key ∉ lastKeys := first_not_last (List.mem_map_of_mem hfirst)
    rw [applyRules_other hd' hkey,get_popAll,if_neg hstale]
    exact hget
  · obtain ⟨v,hv,hget⟩ := applyRules_field hd' nodup_last rule hlast
    have hkey : rule.key ∉ firstKeys := fun hf =>
      first_not_last hf (List.mem_map_of_mem hlast)
    rw [get_popAll,if_neg hstale,applyRules_other hm hkey] at hv
    exact ⟨v,hv,hget⟩

theorem normalize_other (h : normalizeRuntimeFields py intOfStr d = .ok d')
    (hk : k ∉ firstKeys ++ lastKeys) :
    PyDict.get d' k = if k ∈ staleKeys then none else PyDict.get d k := by
  obtain ⟨m,hm,hd'⟩ := normalize_parts h
  obtain ⟨hfirst,hlast⟩ := not_or.mp (mt List.mem_append.mpr hk)
  rw [applyRules_other hd' hlast,get_popAll,applyRules_other hm hfirst]

theorem normalize_isOk (h : ∀ rule ∈ firstRules ++ lastRules, ∃ v,
    rule.kind.value py intOfStr (PyDict.get d rule.key) = .ok v) :
    ∃ d', normalizeRuntimeFields py intOfStr d = .ok d' := by
  obtain ⟨m,hm⟩ := applyRules_isOk nodup_first fun rule hr => h rule (List.mem_append_left _ hr)
  have hnext : ∀ rule ∈ lastRules, ∃ v,
      rule.kind.value py intOfStr (PyDict.get (staleKeys.foldl PyDict.pop m) rule.key) = .ok v := by
    intro rule hlast
    have hrule := List.mem_append_right firstRules hlast
    have hkey : rule.key ∉ firstKeys := fun hf =>
      first_not_last hf (List.mem_map_of_mem hlast)
    rw [get_popAll,if_neg (keys_apart.2.1 _ (rule_key hrule)).1,applyRules_other hm hkey]
    exact h rule hrule
  obtain ⟨d',hd'⟩ := applyRules_isOk nodup_last hnext
  exact ⟨d',bind_eq_ok.mpr ⟨m,hm,hd'⟩⟩

theorem normal_of_normalize (h : normalizeRuntimeFields py intOfStr d = .ok d') :
    Normal py intOfStr d' where
  field rule hrule := by
    obtain ⟨v,hv,hget⟩ := normalize_field h rule hrule
    obtain ⟨hstable,hdict,-⟩ := rules_stable hrule _ v hv
    exact ⟨v,hget,hstable,hdict⟩
  stale k hk := by
    rw [normalize_other h fun hr => (keys_apart.2.1 k hr).1 hk,if_pos hk]

/-- Normalising once more changes nothing. -/
theorem Normal.normalize (h : Normal py intOfStr d) :
    ∃ d', normalizeRuntimeFields py intOfStr d = .ok d' ∧
      ∀ k, PyDict.get d' k = PyDict.get d k := by
  have hok : ∀ rule ∈ firstRules ++ lastRules, ∃ v,
      rule.kind.value py intOfStr (PyDict.get d rule.key) = .ok v := by
    intro rule hrule
    obtain ⟨v,hget,hv,-⟩ := h.field rule hrule
    exact ⟨v,by rw [hget]; exact hv⟩
  obtain ⟨d',hd'⟩ := normalize_isOk hok
  refine ⟨d',hd',fun k => ?_⟩
  by_cases hk : k ∈ firstKeys ++ lastKeys
  · obtain ⟨rule,hrule,rfl⟩ := exists_rule hk
    obtain ⟨v,hget,hv,-⟩ := h.field rule hrule
    obtain ⟨v',hv',hget'⟩ := normalize_field hd' rule hrule
    rw [hget] at hv' ⊢
    rw [hget',← Except.ok.inj (hv.symm.trans hv')]
  · rw [normalize_other hd' hk]
    split
    · rename_i hs
      exact (h.stale k hs).symm
    · rfl

/-- No default of a field, or of a key of an older version, is an object. -/
theorem defaults_flat : ∀ k ∈ firstKeys ++ lastKeys ++ staleKeys,
    (PyDict.get defaultConfig k).any isDict = false := by
  decide +kernel

theorem defaults_unique : uniqueKeys (.dict defaultConfig) = true := by decide +kernel

theorem defaults_reserved : ∀ k ∈ ["project_id","updated_at"],
    PyDict.get defaultConfig k = none := by
  decide +kernel

theorem combineAt_flat {o : Option PyJson} {v : PyJson} (h : o.any isDict = false) :
    combineAt o (some v) = some v := by
  cases o with
  | none => rfl
  | some b => cases b <;> first | rfl | cases h

/-- A saved configuration that is normal is read back, with the defaults below it. -/
theorem Normal.read (h : Normal py intOfStr d) (hnd : (keys d).Nodup) :
    ∃ g, normalizeRuntimeFields py intOfStr (deepMerge defaultConfig d) = .ok g ∧
      ∀ k, PyDict.get g k =
        if k ∈ staleKeys then none else combineAt (PyDict.get defaultConfig k) (PyDict.get d k) := by
  have hfield : ∀ rule ∈ firstRules ++ lastRules, ∃ v,
      PyDict.get d rule.key = some v ∧ rule.kind.value py intOfStr (some v) = .ok v ∧
      PyDict.get (deepMerge defaultConfig d) rule.key = some v := by
    intro rule hrule
    obtain ⟨v,hget,hv,-⟩ := h.field rule hrule
    have hflat := defaults_flat _ (List.mem_append_left _ (rule_key hrule))
    exact ⟨v,hget,hv,by rw [get_deepMerge hnd,hget,combineAt_flat hflat]⟩
  have hok : ∀ rule ∈ firstRules ++ lastRules, ∃ v,
      rule.kind.value py intOfStr (PyDict.get (deepMerge defaultConfig d) rule.key) = .ok v := by
    intro rule hrule
    obtain ⟨v,-,hv,hmerged⟩ := hfield rule hrule
    exact ⟨v,by rw [hmerged]; exact hv⟩
  obtain ⟨g,hg⟩ := normalize_isOk hok
  refine ⟨g,hg,fun k => ?_⟩
  by_cases hk : k ∈ firstKeys ++ lastKeys
  · obtain ⟨rule,hrule,rfl⟩ := exists_rule hk
    obtain ⟨v,hget,hv,hmerged⟩ := hfield rule hrule
    obtain ⟨v',hv',hget'⟩ := normalize_field hg rule hrule
    have hflat := defaults_flat _ (List.mem_append_left _ hk)
    rw [hmerged] at hv'
    rw [hget',if_neg (keys_apart.2.1 _ hk).1,hget,combineAt_flat hflat,
      Except.ok.inj (hv.symm.trans hv')]
  · rw [normalize_other hg hk,get_deepMerge hnd]

end Rules

end Config
end EntryAnalyse
