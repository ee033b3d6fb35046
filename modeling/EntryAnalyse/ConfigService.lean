import EntryAnalyse.ConfigFields
import EntryAnalyse.PublishedLists

/-! The table of the configurations: what is saved is normalised, what is read is merged over the
defaults and normalised again. -/
namespace EntryAnalyse
namespace Config

open PyJson

/-! ## The table -/

/-- A row of the configurations of the projects. -/
structure ConfigRow where
  configJson : Option Dict
  updatedAt : Option String

/-- The row of all projects, and the latest one of a single project. -/
structure ConfigTable where
  global : Option ConfigRow
  legacy : Option ConfigRow

/-- `updated_at` in a result. -/
def stampValue : Option String → PyJson
  | none => .null
  | some s => .str s

section Table

variable (py : PyRuntime) (intOfStr : String → Option ℤ)

/-- `_ensure_global_config_row`; `now` is the time stamp of a row that is written. -/
def ensureGlobalConfigRow (now : Option String) (t : ConfigTable) : Option ConfigRow × ConfigTable :=
  match t.global with
  | some row => (some row,t)
  | none =>
    match t.legacy with
    | none => (none,t)
    | some legacy =>
      let migrated : ConfigRow := ⟨some (legacy.configJson.getD []),now⟩
      (some migrated,{ t with global := some migrated })

/-- The saved configuration; where nothing is saved it is empty. -/
def savedConfig (row : Option ConfigRow) : Dict := (row.bind ConfigRow.configJson).getD []

def getConfig (now : Option String) (t : ConfigTable) : Except PyError (ConfigTable × Dict) := do
  let (row,t) := ensureGlobalConfigRow now t
  let data :=
    if (savedConfig row).isEmpty then defaultConfig
    else deepMerge defaultConfig (savedConfig row)
  let data ← normalizeRuntimeFields py intOfStr data
  pure (t,PyDict.set data "updated_at" (stampValue (row.bind ConfigRow.updatedAt)))

/-- `saved` is the time stamp that the saved row has. -/
def saveConfig (now saved : Option String) (t : ConfigTable) (configData : Dict) :
    Except PyError (ConfigTable × Dict) := do
  let blob := configData.filter fun p => p.1 ∉ ["project_id","updated_at"]
  let blob ← normalizeRuntimeFields py intOfStr blob
  let (_,t) := ensureGlobalConfigRow now t
  let t := { t with global := some ⟨some blob,saved⟩ }
  let result ← normalizeRuntimeFields py intOfStr (deepMerge defaultConfig blob)
  pure (t,PyDict.set result "updated_at" (stampValue saved))

end Table

/-! ## What is in a row -/

/-- A JSON object, with no key twice at any depth. -/
structure JsonObject where
  items : Dict
  unique : uniqueKeys (.dict items) = true

/-- What `save_config` leaves in a row. -/
structure Saved (blob : Dict) : Prop where
  unique : uniqueKeys (.dict blob) = true
  reserved : ∀ k ∈ ["project_id","updated_at"], PyDict.get blob k = none

structure ConfigTable.WellFormed (t : ConfigTable) : Prop where
  global : ∀ row, t.global = some row → Saved (row.configJson.getD [])
  legacy : ∀ row, t.legacy = some row → Saved (row.configJson.getD [])

section Saved

variable {py : PyRuntime} {intOfStr : String → Option ℤ} {t t' u : ConfigTable} {d d' g : Dict}
  {now saved : Option String} {k : String} {v : PyJson}

theorem uniqueKeys_set (hd : uniqueKeys (.dict d) = true) (hv : uniqueKeys v = true) :
    uniqueKeys (.dict (PyDict.set d k v)) = true := by
  obtain ⟨hnd,hall⟩ := uniqueKeys_dict.mp hd
  rw [uniqueKeys_dict,keys_set]
  constructor
  · split
    · exact hnd
    · rename_i hk
      exact hnd.append (List.nodup_singleton k) (by simpa using hk)
  · intro p hp
    unfold PyDict.set at hp
    split at hp
    · obtain ⟨q,hq,rfl⟩ := List.mem_map.mp hp
      split
      · exact hv
      · exact hall q hq
    · rcases List.mem_append.mp hp with hp | hp
      · exact hall p hp
      · rw [List.mem_singleton.mp hp]
        exact hv

theorem uniqueKeys_filter (p : String × PyJson → Bool) (hd : uniqueKeys (.dict d) = true) :
    uniqueKeys (.dict (d.filter p)) = true := by
  obtain ⟨hnd,hall⟩ := uniqueKeys_dict.mp hd
  exact uniqueKeys_dict.mpr ⟨hnd.sublist (List.filter_sublist.map Prod.fst),
    fun q hq => hall q (List.mem_of_mem_filter hq)⟩

theorem uniqueKeys_applyRules {rules : List FieldRule} (hrules : ∀ rule ∈ rules, rule.kind.Stable py intOfStr)
    (hd : uniqueKeys (.dict d) = true) (h : applyRules py intOfStr rules d = .ok d') :
    uniqueKeys (.dict d') = true := by
  induction rules generalizing d with
  | nil =>
    cases h
    exact hd
  | cons rule rules ih =>
    obtain ⟨hrule,hrest⟩ := List.forall_mem_cons.mp hrules
    obtain ⟨v,hv,h⟩ := applyRules_cons h
    exact ih hrest (uniqueKeys_set hd (hrule _ v hv).2.2) h

theorem uniqueKeys_normalize (hd : uniqueKeys (.dict d) = true)
    (h : normalizeRuntimeFields py intOfStr d = .ok d') : uniqueKeys (.dict d') = true := by
  obtain ⟨m,hm,hd'⟩ := normalize_parts h
  have hpop : ∀ (stale : List String) (e : Dict), uniqueKeys (.dict e) = true →
      uniqueKeys (.dict (stale.foldl PyDict.pop e)) = true := by
    intro stale
    induction stale with
    | nil => exact fun e he => he
    | cons s stale ih => exact fun e he => ih _ (uniqueKeys_filter _ he)
  have hm' := uniqueKeys_applyRules (fun rule hr => rules_stable (List.mem_append_left _ hr)) hd hm
  have hlast : ∀ rule ∈ lastRules, rule.kind.Stable py intOfStr := fun rule hr =>
    rules_stable (List.mem_append_right firstRules hr)
  exact uniqueKeys_applyRules hlast (hpop staleKeys m hm') hd'

theorem get_filter_keys (ks : List String) :
    PyDict.get (d.filter fun p => p.1 ∉ ks) k = if k ∈ ks then none else PyDict.get d k := by
  induction d with
  | nil => simp [PyDict.get]
  | cons p d ih =>
    rw [List.filter_cons,PyDict.get_cons]
    by_cases hp : p.1 ∈ ks
    · rw [if_neg (by simpa using hp),ih]
      by_cases hk : k = p.1
      · rw [hk,if_pos hp,if_pos hp]
      · rw [if_neg hk]
    · rw [if_pos (by simpa using hp),PyDict.get_cons,ih]
      by_cases hk : k = p.1
      · rw [if_pos hk,if_pos hk,hk,if_neg hp]
      · rw [if_neg hk,if_neg hk]

/-- `configData` without the two keys that are not saved. -/
def stripped (configData : Dict) : Dict :=
  configData.filter fun p => p.1 ∉ ["project_id","updated_at"]

/-- The normalised fields keep clear of the two keys. -/
theorem normalize_reserved (h : normalizeRuntimeFields py intOfStr d = .ok d')
    (hk : k ∈ ["project_id","updated_at"]) : PyDict.get d' k = PyDict.get d k := by
  rw [normalize_other h fun hr => (keys_apart.2.1 k hr).2 hk,
    if_neg fun hs => keys_apart.2.2 k hs hk]

theorem saved_blob (hd : uniqueKeys (.dict d) = true)
    (h : normalizeRuntimeFields py intOfStr (stripped d) = .ok d') : Saved d' where
  unique := uniqueKeys_normalize (uniqueKeys_filter _ hd) h
  reserved k hk := by
    rw [normalize_reserved h hk,stripped,get_filter_keys,if_pos hk]

theorem saved_nil : Saved [] := ⟨rfl,fun _ _ => rfl⟩

theorem saved_ensured (ht : t.WellFormed) :
    Saved (savedConfig (ensureGlobalConfigRow now t).1) ∧
      (ensureGlobalConfigRow now t).2.WellFormed := by
  unfold ensureGlobalConfigRow
  cases hg : t.global with
  | some row => exact ⟨ht.global row hg,ht⟩
  | none =>
    cases hl : t.legacy with
    | none => exact ⟨saved_nil,ht⟩
    | some row =>
      have hrow := ht.legacy row hl
      refine ⟨hrow,⟨?_,?_⟩⟩
      · rintro row' ⟨⟩
        exact hrow
      · rintro row' ⟨⟩
        exact hrow

/-- A read merges what is saved, if anything, over the defaults. -/
theorem getConfig_ok_iff : getConfig py intOfStr now t = .ok (u,g) ↔
    u = (ensureGlobalConfigRow now t).2 ∧ ∃ d, normalizeRuntimeFields py intOfStr
        (deepMerge defaultConfig (savedConfig (ensureGlobalConfigRow now t).1)) = .ok d ∧
      g = PyDict.set d "updated_at"
        (stampValue ((ensureGlobalConfigRow now t).1.bind ConfigRow.updatedAt)) := by
  have hdata : (if (savedConfig (ensureGlobalConfigRow now t).1).isEmpty then defaultConfig
      else deepMerge defaultConfig (savedConfig (ensureGlobalConfigRow now t).1)) =
      deepMerge defaultConfig (savedConfig (ensureGlobalConfigRow now t).1) := by
    split
    · rename_i h
      rw [List.isEmpty_iff.mp h]
      rfl
    · rfl
  unfold getConfig
  dsimp only
  rw [hdata]
  rw [bind_eq_ok]
  constructor
  · rintro ⟨d,hd,h⟩
    obtain ⟨rfl,rfl⟩ := Prod.mk.inj (Except.ok.inj h)
    exact ⟨rfl,d,hd,rfl⟩
  · rintro ⟨rfl,d,hd,rfl⟩
    exact ⟨d,hd,rfl⟩

theorem saveConfig_ok_iff {configData result : Dict} :
    saveConfig py intOfStr now saved t configData = .ok (u,result) ↔
      ∃ blob d, normalizeRuntimeFields py intOfStr (stripped configData) = .ok blob ∧
        normalizeRuntimeFields py intOfStr (deepMerge defaultConfig blob) = .ok d ∧
        u = { (ensureGlobalConfigRow now t).2 with global := some ⟨some blob,saved⟩ } ∧
        result = PyDict.set d "updated_at" (stampValue saved) := by
  unfold saveConfig
  dsimp only
  rw [bind_eq_ok]
  constructor
  · rintro ⟨blob,hblob,h⟩
    obtain ⟨d,hd,h⟩ := bind_eq_ok.mp h
    obtain ⟨rfl,rfl⟩ := Prod.mk.inj (Except.ok.inj h)
    exact ⟨blob,d,hblob,hd,rfl,rfl⟩
  · rintro ⟨blob,d,hblob,hd,rfl,rfl⟩
    exact ⟨blob,hblob,bind_eq_ok.mpr ⟨d,hd,rfl⟩⟩

end Saved

/-! ## Saving and reading -/

/-- The same configuration, apart from its time stamp. -/
def SameConfig (a b : Dict) : Prop := ∀ k, k ≠ "updated_at" → PyDict.get a k = PyDict.get b k

/-- Each object among the defaults is an object of the configuration, with all its keys: the keys
of older versions excepted. -/
def KeepsDefaults (config : Dict) : Prop :=
  ∀ path x, valueAt (.dict defaultConfig) path = some (.dict x) →
    ∃ y, valueAt (.dict config) path = some (.dict y) ∧
      ∀ k ∈ keys x, (path = [] → k ∉ staleKeys) → k ∈ keys y

section Agree

variable (py : PyRuntime) (intOfStr : String → Option ℤ)

/-- What reads make of a table. -/
def Reads : ConfigTable → ConfigTable → Prop :=
  Relation.ReflTransGen fun t u => ∃ now g, getConfig py intOfStr now t = .ok (u,g)

/-- Every read after a save gives what the save gave. -/
def SaveAgrees (t : ConfigTable) : Prop :=
  ∀ (c : JsonObject) now saved t' result,
    saveConfig py intOfStr now saved t c.items = .ok (t',result) →
    t'.WellFormed ∧ KeepsDefaults result ∧ ∀ u, Reads py intOfStr t' u → ∀ later,
      ∃ g, getConfig py intOfStr later u = .ok (u,g) ∧ SameConfig g result

/-- What is read can be saved, and what is read then is the same. -/
def ReadIsSaved (t : ConfigTable) : Prop :=
  ∀ now u g, getConfig py intOfStr now t = .ok (u,g) →
    u.WellFormed ∧ KeepsDefaults g ∧ ∀ now' saved, ∃ u' result,
      saveConfig py intOfStr now' saved u g = .ok (u',result) ∧ SameConfig result g ∧
      ∀ later, ∃ g', getConfig py intOfStr later u' = .ok (u',g') ∧ SameConfig g' g

variable {py intOfStr} {t u : ConfigTable} {d g blob result : Dict} {k : String}

theorem combineAt_idem {base override : Dict} (hbase : uniqueKeys (.dict base) = true)
    (hover : uniqueKeys (.dict override) = true) :
    combineAt (PyDict.get base k) (combineAt (PyDict.get base k) (PyDict.get override k)) =
      combineAt (PyDict.get base k) (PyDict.get override k) := by
  have hb := (uniqueKeys_dict.mp hbase).1
  have ho := (uniqueKeys_dict.mp hover).1
  rw [← get_deepMerge ho,← get_deepMerge (nodup_deepMerge hb ho),deepMerge_idem hbase hover]

/-- The two operations give the same for a row that was just saved. -/
theorem get_saved {saved later : Option String}
    (hd : normalizeRuntimeFields py intOfStr (deepMerge defaultConfig blob) = .ok d)
    (ht : t.global = some ⟨some blob,saved⟩) :
    getConfig py intOfStr later t = .ok (t,PyDict.set d "updated_at" (stampValue saved)) := by
  have hrow : ensureGlobalConfigRow later t = (some ⟨some blob,saved⟩,t) := by
    rw [ensureGlobalConfigRow,ht]
  exact getConfig_ok_iff.mpr ⟨by rw [hrow],d,by rw [hrow]; exact hd,by rw [hrow]; rfl⟩

theorem sameConfig_stamp (d : Dict) (a b : PyJson) :
    SameConfig (PyDict.set d "updated_at" a) (PyDict.set d "updated_at" b) := fun k hk => by
  rw [PyDict.get_set_of_ne d a hk,PyDict.get_set_of_ne d b hk]

theorem valueAt_congr {a b : Dict} {k : String} (h : PyDict.get a k = PyDict.get b k)
    (path : List String) : valueAt (.dict a) (k :: path) = valueAt (.dict b) (k :: path) := by
  rw [valueAt,valueAt,h]

/-- Merged defaults are kept by the fields. -/
theorem keepsDefaults_normalize (hblob : uniqueKeys (.dict blob) = true)
    (hd : normalizeRuntimeFields py intOfStr (deepMerge defaultConfig blob) = .ok d) (v : PyJson) :
    KeepsDefaults (PyDict.set d "updated_at" v) := by
  have hnd := (uniqueKeys_dict.mp hblob).1
  intro path x hx
  obtain ⟨y,hy,hsub⟩ := deepMerge_keeps hblob hx
  cases path with
  | nil =>
    cases hx
    cases hy
    refine ⟨_,rfl,fun k hk hstale => ?_⟩
    have hstale := hstale rfl
    rw [keys,← PyDict.isSome_get]
    by_cases hu : k = "updated_at"
    · rw [hu,PyDict.get_set_self]
      rfl
    · rw [PyDict.get_set_of_ne d v hu]
      by_cases hfield : k ∈ firstKeys ++ lastKeys
      · obtain ⟨rule,hrule,rfl⟩ := exists_rule hfield
        obtain ⟨w,-,hget⟩ := normalize_field hd rule hrule
        rw [hget]
        rfl
      · rw [normalize_other hd hfield,if_neg hstale,PyDict.isSome_get]
        exact hsub hk
  | cons k path =>
    -- the first key leads to an object, so it is neither a field nor a key of an older version
    obtain ⟨b,hb,hpath⟩ := Option.bind_eq_some_iff.mp hx
    have hdict : isDict b = true := by
      cases b with
      | dict kvs => rfl
      | _ => cases path <;> cases hpath
    have hother : k ∉ firstKeys ++ lastKeys ++ staleKeys := fun hk => by
      have hflat := defaults_flat k hk
      rw [hb,Option.any_some,hdict] at hflat
      cases hflat
    have hne : k ≠ "updated_at" := by
      rintro rfl
      rw [defaults_reserved "updated_at" (by decide)] at hb
      cases hb
    obtain ⟨hfield,hstale⟩ := not_or.mp (mt List.mem_append.mpr hother)
    have hsame : PyDict.get (PyDict.set d "updated_at" v) k =
        PyDict.get (deepMerge defaultConfig blob) k := by
      rw [PyDict.get_set_of_ne d v hne,normalize_other hd hfield,if_neg hstale]
    rw [valueAt_congr hsame]
    exact ⟨y,hy,fun k' hk' _ => hsub hk'⟩

theorem save_agrees (ht : t.WellFormed) : SaveAgrees py intOfStr t := by
  intro c now saved t' result h
  obtain ⟨blob,d,hblob,hd,rfl,rfl⟩ := saveConfig_ok_iff.mp h
  have hsaved := saved_blob c.unique hblob
  refine ⟨⟨?_,(saved_ensured ht).2.legacy⟩,keepsDefaults_normalize hsaved.unique hd _,?_⟩
  · rintro row ⟨⟩
    exact hsaved
  · intro u hu later
    have hget : ∀ later, getConfig py intOfStr later
        { (ensureGlobalConfigRow now t).2 with global := some ⟨some blob,saved⟩ } =
        .ok (_,PyDict.set d "updated_at" (stampValue saved)) := fun later => get_saved hd rfl
    have hsame : u = { (ensureGlobalConfigRow now t).2 with global := some ⟨some blob,saved⟩ } := by
      induction hu with
      | refl => rfl
      | tail _ hstep ih =>
        obtain ⟨now',g,hg⟩ := hstep
        rw [ih,hget now'] at hg
        exact (Prod.mk.inj (Except.ok.inj hg)).1.symm
    rw [hsame]
    exact ⟨_,hget later,fun _ _ => rfl⟩

/-- What was read is normal already, so saving it normalises nothing. -/
theorem Normal.stripped_normalize (h : Normal py intOfStr d) (stamp : Option String) :
    ∃ blob, normalizeRuntimeFields py intOfStr
        (stripped (PyDict.set d "updated_at" (stampValue stamp))) = .ok blob ∧
      ∀ k, PyDict.get blob k =
        if k ∈ ["project_id","updated_at"] then none else PyDict.get d k := by
  have hget : ∀ k, PyDict.get (stripped (PyDict.set d "updated_at" (stampValue stamp))) k =
      if k ∈ ["project_id","updated_at"] then none else PyDict.get d k := by
    intro k
    rw [stripped,get_filter_keys]
    split
    · rfl
    · rename_i hk
      exact PyDict.get_set_of_ne d _ fun heq => hk (by simp [heq])
  have hnormal : Normal py intOfStr (stripped (PyDict.set d "updated_at" (stampValue stamp))) := by
    refine ⟨fun rule hrule => ?_,fun k hk => ?_⟩
    · obtain ⟨v,hv,hrest⟩ := h.field rule hrule
      exact ⟨v,by rw [hget,if_neg (keys_apart.2.1 _ (rule_key hrule)).2,hv],hrest⟩
    · rw [hget,if_neg (keys_apart.2.2 k hk),h.stale k hk]
  obtain ⟨blob,hblob,hsame⟩ := hnormal.normalize
  exact ⟨blob,hblob,fun k => (hsame k).trans (hget k)⟩

/-- A value that was read, saved and read again. -/
theorem read_again {b : Dict} (hb : Saved b)
    (hd : normalizeRuntimeFields py intOfStr (deepMerge defaultConfig b) = .ok d)
    (hblob : ∀ k, PyDict.get blob k =
      if k ∈ ["project_id","updated_at"] then none else PyDict.get d k) (hk : k ≠ "updated_at") :
    (if k ∈ staleKeys then none
      else combineAt (PyDict.get defaultConfig k) (PyDict.get blob k)) = PyDict.get d k := by
  have hnormal := normal_of_normalize hd
  by_cases hstale : k ∈ staleKeys
  · rw [if_pos hstale,hnormal.stale k hstale]
  rw [if_neg hstale,hblob]
  by_cases hfield : k ∈ firstKeys ++ lastKeys
  · obtain ⟨rule,hrule,rfl⟩ := exists_rule hfield
    obtain ⟨v,hv,-⟩ := hnormal.field rule hrule
    have hflat := defaults_flat _ (List.mem_append_left _ hfield)
    rw [if_neg (keys_apart.2.1 _ hfield).2,hv,combineAt_flat hflat]
  · have hmerged : PyDict.get d k =
        combineAt (PyDict.get defaultConfig k) (PyDict.get b k) := by
      rw [normalize_other hd hfield,if_neg hstale,
        get_deepMerge (uniqueKeys_dict.mp hb.unique).1]
    by_cases hreserved : k ∈ ["project_id","updated_at"]
    · rw [if_pos hreserved,hmerged,defaults_reserved k hreserved,hb.reserved k hreserved]
    · rw [if_neg hreserved,hmerged,combineAt_idem defaults_unique hb.unique]

theorem uniqueKeys_stamp (stamp : Option String) : uniqueKeys (stampValue stamp) = true := by
  cases stamp <;> rfl

theorem read_is_saved (ht : t.WellFormed) : ReadIsSaved py intOfStr t := by
  intro now u g h
  obtain ⟨hsaved,hwf⟩ : Saved (savedConfig (ensureGlobalConfigRow now t).1) ∧
      (ensureGlobalConfigRow now t).2.WellFormed := saved_ensured ht
  obtain ⟨rfl,d,hd,rfl⟩ := getConfig_ok_iff.mp h
  refine ⟨hwf,keepsDefaults_normalize hsaved.unique hd _,fun now' saved => ?_⟩
  generalize savedConfig (ensureGlobalConfigRow now t).1 = b at hsaved hd
  generalize (ensureGlobalConfigRow now t).1.bind ConfigRow.updatedAt = stamp
  generalize (ensureGlobalConfigRow now t).2 = u at hwf
  obtain ⟨blob,hblob,hsame⟩ := (normal_of_normalize hd).stripped_normalize stamp
  have hunique : uniqueKeys (.dict blob) = true := by
    have hmerge := uniqueKeys_deepMerge defaults_unique hsaved.unique
    exact uniqueKeys_normalize (uniqueKeys_filter _
      (uniqueKeys_set (uniqueKeys_normalize hmerge hd) (uniqueKeys_stamp stamp))) hblob
  obtain ⟨r,hr,hget⟩ := (normal_of_normalize hblob).read (uniqueKeys_dict.mp hunique).1
  have hsameConfig : ∀ a b, SameConfig (PyDict.set r "updated_at" a)
      (PyDict.set d "updated_at" b) := by
    intro a b' k hk
    rw [PyDict.get_set_of_ne r a hk,PyDict.get_set_of_ne d b' hk,hget]
    exact read_again hsaved hd hsame hk
  exact ⟨_,_,saveConfig_ok_iff.mpr ⟨blob,r,hblob,hr,rfl,rfl⟩,hsameConfig _ _,
    fun later => ⟨_,get_saved hr rfl,hsameConfig _ _⟩⟩

/-- Saved and read configurations agree, for every table that the service writes. -/
theorem config_agrees (ht : t.WellFormed) :
    SaveAgrees py intOfStr t ∧ ReadIsSaved py intOfStr t :=
  ⟨save_agrees ht,read_is_saved ht⟩

end Agree

/-- A field that is not there gets a value. -/
theorem value_none (py : PyRuntime) (intOfStr : String → Option ℤ) (kind : FieldKind) :
    ∃ v, kind.value py intOfStr none = .ok v := by
  cases kind <;> exact ⟨_,rfl⟩

/-- A table without rows, in which a configuration without an object for the workers is saved. -/
theorem empty_table_agrees :
    (∃ t r, saveConfig plainRuntime (fun _ => none) none none ⟨none,none⟩ [("workers",.null)] =
      .ok (t,r)) ∧
    SaveAgrees plainRuntime (fun _ => none) ⟨none,none⟩ ∧
    ReadIsSaved plainRuntime (fun _ => none) ⟨none,none⟩ := by
  refine ⟨?_,config_agrees ⟨?_,?_⟩⟩
  · have hfields : ∀ k ∈ firstKeys ++ lastKeys,
        PyDict.get (stripped [("workers",.null)]) k = none := by decide +kernel
    obtain ⟨blob,hblob⟩ := normalize_isOk fun rule hrule => by
      rw [hfields _ (rule_key hrule)]
      exact value_none plainRuntime (fun _ => none) rule.kind
    have hunique := uniqueKeys_normalize (uniqueKeys_filter _ rfl) hblob
    obtain ⟨r,hr,-⟩ := (normal_of_normalize hblob).read (uniqueKeys_dict.mp hunique).1
    exact ⟨_,_,saveConfig_ok_iff.mpr ⟨blob,r,hblob,hr,rfl,rfl⟩⟩
  · intro row h
    cases h
  · intro row h
    cases h

end Config
end EntryAnalyse
