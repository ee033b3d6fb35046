import EntryAnalyse.PyJson

/-! The merge of a saved configuration over the defaults, at every depth of the two. -/
namespace EntryAnalyse
namespace Config

open PyJson

abbrev Dict := List (String × PyJson)

/-! ## JSON objects -/

mutual

/-- No key comes twice, at any depth. -/
def uniqueKeys : PyJson → Bool
  | .list xs => uniqueKeysList xs
  | .dict kvs => decide (kvs.map Prod.fst).Nodup && uniqueKeysItems kvs
  | _ => true

def uniqueKeysList : List PyJson → Bool
  | [] => true
  | x :: xs => uniqueKeys x && uniqueKeysList xs

def uniqueKeysItems : Dict → Bool
  | [] => true
  | (_,v) :: kvs => uniqueKeys v && uniqueKeysItems kvs

end

def isDict : PyJson → Bool
  | .dict _ => true
  | _ => false

mutual

/-- `_deep_merge`. -/
def deepMerge (base : Dict) : Dict → Dict
  | [] => base
  | (key,val) :: rest => deepMerge (mergeItem base key val) rest

/-- What one round of its loop makes of `result`. -/
def mergeItem (result : Dict) (key : String) : PyJson → Dict
  | .dict override =>
    match PyDict.get result key with
    | some (.dict baseVal) => PyDict.set result key (.dict (deepMerge baseVal override))
    | _ => PyDict.set result key (.dict override)
  | val => if ((PyDict.get result key).any isDict) then result else PyDict.set result key val

end

/-! ## What a merge holds -/

/-- A value of the override in the place of one of the base. -/
def combine : PyJson → PyJson → PyJson
  | .dict base,.dict override => .dict (deepMerge base override)
  | .dict base,_ => .dict base
  | _,val => val

def combineAt : Option PyJson → Option PyJson → Option PyJson
  | none,val => val
  | some base,none => some base
  | some base,some val => some (combine base val)

def keys (d : Dict) : List String := d.map Prod.fst

section Merge

variable {base override result : Dict} {key k : String} {val v : PyJson}

theorem keys_set : keys (PyDict.set result key val) =
    if key ∈ keys result then keys result else keys result ++ [key] := by
  unfold PyDict.set
  by_cases hk : key ∈ keys result
  · rw [if_pos ((PyDict.isSome_get result key).mpr hk),if_pos hk,keys,List.map_map]
    apply List.map_congr_left
    intro p _
    rw [Function.comp_apply]
    split
    · rename_i hp
      exact hp.symm
    · rfl
  · rw [if_neg fun h => hk ((PyDict.isSome_get result key).mp h),if_neg hk,keys,List.map_append]
    rfl

/-- A round leaves the result as it is, or sets the key. -/
theorem mergeItem_cases :
    (mergeItem result key val = result ∧ key ∈ keys result ∧
      combineAt (PyDict.get result key) (some val) = PyDict.get result key) ∨
    ∃ new, mergeItem result key val = PyDict.set result key new ∧
      combineAt (PyDict.get result key) (some val) = some new := by
  cases hget : PyDict.get result key with
  | none => exact Or.inr ⟨val,by cases val <;> simp [mergeItem,hget],rfl⟩
  | some b =>
    have hkey : key ∈ keys result := by
      rw [keys,← PyDict.isSome_get,hget]
      rfl
    cases b with
    | dict kvs =>
      cases val with
      | dict kvs' => exact Or.inr ⟨.dict (deepMerge kvs kvs'),by rw [mergeItem,hget],rfl⟩
      | _ => exact Or.inl ⟨by simp [mergeItem,hget,isDict],hkey,rfl⟩
    | _ => exact Or.inr ⟨val,by cases val <;> simp [mergeItem,hget,isDict],rfl⟩

theorem get_mergeItem_self : PyDict.get (mergeItem result key val) key =
    combineAt (PyDict.get result key) (some val) := by
  rcases mergeItem_cases with ⟨hmerge,-,hc⟩ | ⟨new,hmerge,hc⟩
  · rw [hmerge,hc]
  · rw [hmerge,hc,PyDict.get_set_self]

theorem get_mergeItem_of_ne (h : k ≠ key) :
    PyDict.get (mergeItem result key val) k = PyDict.get result k := by
  rcases mergeItem_cases with ⟨hmerge,-,-⟩ | ⟨new,hmerge,-⟩
  · rw [hmerge]
  · rw [hmerge,PyDict.get_set_of_ne result new h]

theorem keys_mergeItem : keys (mergeItem result key val) =
    if key ∈ keys result then keys result else keys result ++ [key] := by
  rcases mergeItem_cases with ⟨hmerge,hkey,-⟩ | ⟨new,hmerge,-⟩
  · rw [hmerge,if_pos hkey]
  · rw [hmerge,keys_set]

theorem get_of_not_mem (h : k ∉ keys base) : PyDict.get base k = none := by
  rw [← Option.not_isSome_iff_eq_none,PyDict.isSome_get]
  exact h

/-- Key by key the merge is the one of the two values. -/
theorem get_deepMerge (hnd : (keys override).Nodup) : PyDict.get (deepMerge base override) k =
    combineAt (PyDict.get base k) (PyDict.get override k) := by
  induction override generalizing base with
  | nil =>
    rw [deepMerge]
    cases PyDict.get base k <;> rfl
  | cons p rest ih =>
    obtain ⟨key,val⟩ := p
    obtain ⟨hkey,hrest⟩ := List.nodup_cons.mp hnd
    rw [deepMerge,ih hrest,PyDict.get_cons]
    by_cases hk : k = key
    · rw [if_pos hk,hk,get_mergeItem_self,get_of_not_mem hkey]
      cases PyDict.get base key <;> rfl
    · rw [if_neg hk,get_mergeItem_of_ne hk]

/-- The keys of the base come first, then those that only the override has. -/
theorem keys_deepMerge (hnd : (keys override).Nodup) : keys (deepMerge base override) =
    keys base ++ (keys override).filter fun k => k ∉ keys base := by
  induction override generalizing base with
  | nil => simp [deepMerge,keys]
  | cons p rest ih =>
    obtain ⟨key,val⟩ := p
    obtain ⟨hkey,hrest⟩ := List.nodup_cons.mp hnd
    have hcons : keys ((key,val) :: rest) = key :: keys rest := rfl
    rw [deepMerge,ih hrest,keys_mergeItem,hcons,List.filter_cons]
    by_cases hk : key ∈ keys base
    · rw [if_pos hk,if_neg (by simp [hk])]
    · rw [if_neg hk,if_pos (by simp [hk]),List.append_assoc,List.singleton_append]
      congr 2
      apply List.filter_congr
      intro k' hk'
      have hne : k' ≠ key := fun h => hkey (h ▸ hk')
      simp [hne]

theorem nodup_deepMerge (hbase : (keys base).Nodup) (hnd : (keys override).Nodup) :
    (keys (deepMerge base override)).Nodup := by
  rw [keys_deepMerge hnd]
  refine hbase.append (hnd.filter _) ?_
  intro k hk hfilter
  simpa [hk] using (List.mem_filter.mp hfilter).2

/-- Objects with the same keys in the same order, and the same values, are the same. -/
theorem ext_of_keys {d e : Dict} (hkeys : keys d = keys e) (hnd : (keys d).Nodup)
    (hget : ∀ k, PyDict.get d k = PyDict.get e k) : d = e := by
  induction d generalizing e with
  | nil => exact (List.map_eq_nil_iff.mp hkeys.symm).symm
  | cons p d ih =>
    cases e with
    | nil => cases hkeys
    | cons q e =>
      obtain ⟨hpq,htail⟩ := List.cons.inj hkeys
      obtain ⟨hp,hd⟩ := List.nodup_cons.mp hnd
      have hvalue := hget p.1
      rw [PyDict.get_cons,PyDict.get_cons,if_pos rfl,if_pos hpq] at hvalue
      have hhead : p = q := Prod.ext hpq (Option.some.inj hvalue)
      rw [hhead,ih htail hd fun k => ?_]
      have hk := hget k
      rw [PyDict.get_cons,PyDict.get_cons,← hhead] at hk
      by_cases hkp : k = p.1
      · have hd : p.1 ∉ keys d := hp
        have he : p.1 ∉ keys e := by
          rw [keys,← htail]
          exact hp
        rw [hkp,get_of_not_mem hd,get_of_not_mem he]
      · rw [if_neg hkp,if_neg hkp] at hk
        exact hk

end Merge

/-! ## Objects in objects -/

section Depth

variable {d base override : Dict} {k : String} {v : PyJson}

theorem uniqueKeysItems_iff : uniqueKeysItems d = true ↔ ∀ p ∈ d, uniqueKeys p.2 = true := by
  induction d with
  | nil => simp [uniqueKeysItems]
  | cons p d ih =>
    obtain ⟨k,v⟩ := p
    simp [uniqueKeysItems,ih]

theorem uniqueKeys_dict : uniqueKeys (.dict d) = true ↔
    (keys d).Nodup ∧ ∀ p ∈ d, uniqueKeys p.2 = true := by
  rw [uniqueKeys,Bool.and_eq_true,decide_eq_true_eq,uniqueKeysItems_iff]
  rfl

theorem mem_of_get (h : PyDict.get d k = some v) : (k,v) ∈ d := by
  obtain ⟨l₁,l₂,hd,-⟩ := List.lookup_eq_some_iff.mp h
  rw [hd]
  exact List.mem_append_right _ List.mem_cons_self

theorem uniqueKeys_of_get (hd : uniqueKeys (.dict d) = true) (h : PyDict.get d k = some v) :
    uniqueKeys v = true :=
  (uniqueKeys_dict.mp hd).2 _ (mem_of_get h)

theorem sizeOf_of_get (h : PyDict.get d k = some v) : sizeOf v < sizeOf d := by
  have hmem := List.sizeOf_lt_of_mem (mem_of_get h)
  rw [Prod.mk.sizeOf_spec] at hmem
  omega

/-- Merging twice is merging once. -/
theorem deepMerge_idem (hbase : uniqueKeys (.dict base) = true)
    (hover : uniqueKeys (.dict override) = true) :
    deepMerge base (deepMerge base override) = deepMerge base override := by
  induction hn : sizeOf base using Nat.strong_induction_on generalizing base override with
  | _ n ih =>
    have hb := (uniqueKeys_dict.mp hbase).1
    have ho := (uniqueKeys_dict.mp hover).1
    have hm := nodup_deepMerge hb ho
    refine ext_of_keys ?_ (nodup_deepMerge hb hm) fun k => ?_
    · rw [keys_deepMerge hm,keys_deepMerge ho,List.filter_append,List.filter_filter]
      simp
    · rw [get_deepMerge hm,get_deepMerge ho]
      cases hbk : PyDict.get base k with
      | none => rfl
      | some b =>
        have hub := uniqueKeys_of_get hbase hbk
        have hlt := sizeOf_of_get hbk
        have hidem : ∀ kvs o, b = .dict kvs → uniqueKeys (.dict o) = true →
            deepMerge kvs (deepMerge kvs o) = deepMerge kvs o := by
          rintro kvs o rfl ho
          refine ih (sizeOf kvs) ?_ hub ho rfl
          rw [PyJson.dict.sizeOf_spec] at hlt
          omega
        cases b with
        | dict kvs =>
          cases hok : PyDict.get override k with
          | none =>
            -- the default is merged into itself, as if nothing were saved below it
            have hself := hidem kvs [] rfl rfl
            exact congrArg (fun m => some (PyJson.dict m)) hself
          | some o =>
            cases o with
            | dict kvs' =>
              have huo := uniqueKeys_of_get hover hok
              exact congrArg (fun m => some (PyJson.dict m)) (hidem kvs kvs' rfl huo)
            | _ =>
              have hself := hidem kvs [] rfl rfl
              exact congrArg (fun m => some (PyJson.dict m)) hself
        | _ => cases PyDict.get override k <;> rfl

theorem get_of_mem (hnd : (keys d).Nodup) {p : String × PyJson} (hp : p ∈ d) :
    PyDict.get d p.1 = some p.2 := by
  refine PyDict.Holds.get ⟨List.mem_map_of_mem hp,fun q hq hkey => ?_⟩
  rw [List.inj_on_of_nodup_map hnd hq hp hkey]

theorem uniqueKeys_deepMerge (hbase : uniqueKeys (.dict base) = true)
    (hover : uniqueKeys (.dict override) = true) :
    uniqueKeys (.dict (deepMerge base override)) = true := by
  induction hn : sizeOf base using Nat.strong_induction_on generalizing base override with
  | _ n ih =>
    have ho := (uniqueKeys_dict.mp hover).1
    have hm := nodup_deepMerge (uniqueKeys_dict.mp hbase).1 ho
    refine uniqueKeys_dict.mpr ⟨hm,fun p hp => ?_⟩
    have hget := get_of_mem hm hp
    rw [get_deepMerge ho] at hget
    cases hbk : PyDict.get base p.1 with
    | none =>
      rw [hbk] at hget
      exact uniqueKeys_of_get hover hget
    | some b =>
      have hub := uniqueKeys_of_get hbase hbk
      have hlt := sizeOf_of_get hbk
      cases hok : PyDict.get override p.1 with
      | none =>
        rw [hbk,hok] at hget
        rw [← Option.some.inj hget]
        exact hub
      | some o =>
        have huo := uniqueKeys_of_get hover hok
        rw [hbk,hok] at hget
        rw [← Option.some.inj hget]
        cases b with
        | dict kvs =>
          cases o with
          | dict kvs' =>
            rw [PyJson.dict.sizeOf_spec] at hlt
            exact ih (sizeOf kvs) (by omega) hub huo rfl
          | _ => exact hub
        | _ => exact huo

/-- What stands under a path of keys. -/
def valueAt : PyJson → List String → Option PyJson
  | v,[] => some v
  | .dict kvs,k :: path => (PyDict.get kvs k).bind fun v => valueAt v path
  | _,_ :: _ => none

/-- An object of the base is an object of the merge, with all its keys. -/
theorem deepMerge_keeps {path : List String} {x : Dict} (hover : uniqueKeys (.dict override) = true)
    (h : valueAt (.dict base) path = some (.dict x)) :
    ∃ y, valueAt (.dict (deepMerge base override)) path = some (.dict y) ∧ keys x ⊆ keys y := by
  induction path generalizing base override with
  | nil =>
    cases h
    refine ⟨_,rfl,?_⟩
    rw [keys_deepMerge (uniqueKeys_dict.mp hover).1]
    exact List.subset_append_left _ _
  | cons k path ih =>
    obtain ⟨b,hb,hpath⟩ := Option.bind_eq_some_iff.mp h
    rw [valueAt,get_deepMerge (uniqueKeys_dict.mp hover).1,hb]
    cases b with
    | dict kvs =>
      cases hok : PyDict.get override k with
      | none => exact ⟨x,hpath,List.Subset.refl _⟩
      | some o =>
        cases o with
        | dict kvs' => exact ih (uniqueKeys_of_get hover hok) hpath
        | _ => exact ⟨x,hpath,List.Subset.refl _⟩
    | _ =>
      cases path <;> cases hpath

end Depth

end Config
end EntryAnalyse
