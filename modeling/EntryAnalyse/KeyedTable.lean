import Mathlib.Tactic

/-! Tables with a primary key, as an embedded database keeps them. The rows stand in the
order in which they were inserted; no operation can give two rows one key. -/
namespace EntryAnalyse

/-- The rows of a table whose primary key is `key`. -/
structure KeyedTable {κ ρ : Type} (key : ρ → κ) where
  rows : List ρ
  nodup : (rows.map key).Nodup

namespace KeyedTable

variable {κ ρ : Type} {key : ρ → κ}

def empty : KeyedTable key := ⟨[],by simp⟩

def keys (t : KeyedTable key) : List κ := t.rows.map key

/-- `DELETE … WHERE p`. -/
def deleteWhere (t : KeyedTable key) (p : ρ → Bool) : KeyedTable key :=
  ⟨t.rows.filter (fun r => !p r),t.nodup.sublist (List.filter_sublist.map key)⟩

/-- `UPDATE … SET f WHERE p`, where `f` assigns to columns other than the key. -/
def updateWhere (t : KeyedTable key) (p : ρ → Bool) (f : ρ → ρ) (hf : ∀ r, key (f r) = key r) :
    KeyedTable key where
  rows := t.rows.map (fun r => if p r then f r else r)
  nodup := by
    have hkey : ∀ r, key (if p r then f r else r) = key r := by
      intro r
      split
      · exact hf r
      · rfl
    simpa [List.map_map,Function.comp_def,hkey] using t.nodup

section DecidableKey

variable [DecidableEq κ]

/-- The row that has the primary key `k`. -/
def lookup (t : KeyedTable key) (k : κ) : Option ρ := t.rows.find? (fun r => key r = k)

/-- `INSERT OR IGNORE`. -/
def insertOrIgnore (t : KeyedTable key) (r : ρ) : KeyedTable key :=
  if h : key r ∈ t.rows.map key then t
  else ⟨t.rows ++ [r],by
    rw [List.map_append,List.map_singleton]
    exact List.Nodup.append t.nodup (List.nodup_singleton _) (by simpa using h)⟩

/-- `INSERT OR REPLACE`: a row that holds the key is deleted, and the new row appended. -/
def insertOrReplace (t : KeyedTable key) (r : ρ) : KeyedTable key :=
  (t.deleteWhere (fun x => key x = key r)).insertOrIgnore r

end DecidableKey

@[simp] theorem keys_empty : (empty : KeyedTable key).keys = [] := rfl

@[simp] theorem keys_updateWhere (t : KeyedTable key) (p : ρ → Bool) (f : ρ → ρ)
    (hf : ∀ r, key (f r) = key r) : (t.updateWhere p f hf).keys = t.keys := by
  unfold keys updateWhere
  rw [List.map_map]
  apply List.map_congr_left
  intro r _
  simp only [Function.comp_apply]
  split
  · exact hf r
  · rfl

theorem keys_insertOrIgnore [DecidableEq κ] (t : KeyedTable key) (r : ρ) :
    (t.insertOrIgnore r).keys = if key r ∈ t.keys then t.keys else t.keys ++ [key r] := by
  unfold insertOrIgnore keys
  split
  · rfl
  · simp

theorem mem_keys_insertOrIgnore [DecidableEq κ] {t : KeyedTable key} {r : ρ} {k : κ} :
    k ∈ (t.insertOrIgnore r).keys ↔ k = key r ∨ k ∈ t.keys := by
  rw [keys_insertOrIgnore]
  split
  · rename_i h
    constructor
    · exact .inr
    · rintro (rfl | hk)
      · exact h
      · exact hk
  · simp [or_comm]

theorem mem_rows_insertOrIgnore [DecidableEq κ] {t : KeyedTable key} {r x : ρ}
    (h : x ∈ (t.insertOrIgnore r).rows) : x ∈ t.rows ∨ x = r := by
  unfold insertOrIgnore at h
  split at h
  · exact .inl h
  · simpa using h

/-- Rows that are inserted one after the other are all that is new. -/
theorem mem_rows_foldl_insertOrIgnore [DecidableEq κ] {t : KeyedTable key} {l : List ρ} {x : ρ}
    (h : x ∈ (l.foldl insertOrIgnore t).rows) : x ∈ t.rows ∨ x ∈ l := by
  induction l generalizing t with
  | nil => exact .inl h
  | cons r l ih =>
    rcases ih h with hx | hx
    · rcases mem_rows_insertOrIgnore hx with hx | rfl
      · exact .inl hx
      · exact .inr List.mem_cons_self
    · exact .inr (List.mem_cons_of_mem r hx)

/-- Insertions only append. -/
theorem prefix_foldl_insertOrIgnore [DecidableEq κ] (t : KeyedTable key) (l : List ρ) :
    t.rows <+: (l.foldl insertOrIgnore t).rows := by
  induction l generalizing t with
  | nil => exact List.prefix_refl _
  | cons r l ih =>
    refine List.IsPrefix.trans ?_ (ih (t.insertOrIgnore r))
    unfold insertOrIgnore
    split
    · exact List.prefix_refl _
    · exact List.prefix_append _ _

theorem rows_insertOrIgnore_of_not_mem [DecidableEq κ] {t : KeyedTable key} {r : ρ}
    (h : key r ∉ t.keys) : (t.insertOrIgnore r).rows = t.rows ++ [r] := by
  have hfree : key r ∉ t.rows.map key := h
  unfold insertOrIgnore
  rw [dif_neg hfree]

theorem mem_rows_insertOrIgnore_self [DecidableEq κ] {t : KeyedTable key} {r : ρ}
    (h : key r ∉ t.keys) : r ∈ (t.insertOrIgnore r).rows := by
  rw [rows_insertOrIgnore_of_not_mem h]
  exact List.mem_append_right _ (List.mem_singleton_self r)

/-- Where no two of the inserted rows clash, each one whose key is free becomes a row. -/
theorem mem_rows_foldl_insertOrIgnore_iff [DecidableEq κ] {t : KeyedTable key} {l : List ρ}
    (h : ∀ x ∈ l, ∀ y ∈ l, key x = key y → x = y) {x : ρ} :
    x ∈ (l.foldl insertOrIgnore t).rows ↔ x ∈ t.rows ∨ (x ∈ l ∧ key x ∉ t.keys) := by
  have hkey : ∀ y z, y ∈ t.rows → z ∈ (l.foldl insertOrIgnore t).rows → key y = key z → y = z := by
    intro y z hy hz hyz
    have hy' := (prefix_foldl_insertOrIgnore t l).subset hy
    exact List.inj_on_of_nodup_map (l.foldl insertOrIgnore t).nodup hy' hz hyz
  constructor
  · intro hx
    rcases mem_rows_foldl_insertOrIgnore hx with ht | hl
    · exact .inl ht
    · by_cases hk : key x ∈ t.keys
      · obtain ⟨y,hy,hyx⟩ := List.mem_map.mp hk
        rw [← hkey y x hy hx hyx]
        exact .inl hy
      · exact .inr ⟨hl,hk⟩
  · rintro (ht | ⟨hl,hk⟩)
    · exact (prefix_foldl_insertOrIgnore t l).subset ht
    · clear hkey
      induction l generalizing t with
      | nil => cases hl
      | cons r l ih =>
        rw [List.foldl_cons]
        by_cases hr : key r = key x
        · have hsame := h r List.mem_cons_self x hl hr
          rw [← hsame] at hk ⊢
          exact (prefix_foldl_insertOrIgnore _ l).subset (mem_rows_insertOrIgnore_self hk)
        · have hxl : x ∈ l := by
            rcases List.mem_cons.mp hl with rfl | hxl
            · exact absurd rfl hr
            · exact hxl
          refine ih (fun y hy z hz => h y (List.mem_cons_of_mem r hy) z
            (List.mem_cons_of_mem r hz)) hxl ?_
          rw [mem_keys_insertOrIgnore]
          rintro (heq | hmem)
          · exact hr heq.symm
          · exact hk hmem

/-- A row of an updated table is an old row, or the image of one that was selected. -/
theorem mem_rows_updateWhere {t : KeyedTable key} {p : ρ → Bool} {f : ρ → ρ}
    (hf : ∀ r, key (f r) = key r) {x : ρ} (h : x ∈ (t.updateWhere p f hf).rows) :
    x ∈ t.rows ∨ ∃ r ∈ t.rows, p r = true ∧ x = f r := by
  obtain ⟨r,hr,rfl⟩ := List.mem_map.mp h
  by_cases hp : p r = true
  · exact .inr ⟨r,hr,hp,if_pos hp⟩
  · rw [if_neg hp]
    exact .inl hr

/-- A row that is inserted is found under its key, unless another row holds it already. -/
theorem lookup_insertOrIgnore [DecidableEq κ] (t : KeyedTable key) (r : ρ) (k : κ) :
    (t.insertOrIgnore r).lookup k = (t.lookup k).or (if key r = k then some r else none) := by
  unfold insertOrIgnore lookup
  split
  · rename_i h
    by_cases hk : key r = k
    · have hsome : (t.rows.find? (fun r => key r = k)).isSome := by
        rw [List.find?_isSome]
        obtain ⟨x,hx,hxr⟩ := List.mem_map.mp h
        exact ⟨x,hx,by simp [hxr,hk]⟩
      rw [Option.or_of_isSome hsome]
    · rw [if_neg hk,Option.or_none]
  · rw [List.find?_append]
    by_cases hk : key r = k <;> simp [hk]

theorem lookup_eq_some_iff [DecidableEq κ] {t : KeyedTable key} {k : κ} {r : ρ} :
    t.lookup k = some r ↔ r ∈ t.rows ∧ key r = k := by
  constructor
  · intro h
    exact ⟨List.mem_of_find?_eq_some h,by simpa using List.find?_some h⟩
  · rintro ⟨hr,hk⟩
    cases h : t.lookup k with
    | none =>
      have hnone := List.find?_eq_none.mp h r hr
      simp [hk] at hnone
    | some r' =>
      have hk' : key r' = k := by simpa using List.find?_some h
      rw [List.inj_on_of_nodup_map t.nodup (List.mem_of_find?_eq_some h) hr (hk'.trans hk.symm)]

theorem lookup_updateWhere [DecidableEq κ] (t : KeyedTable key) (p : ρ → Bool) (f : ρ → ρ)
    (hf : ∀ r, key (f r) = key r) (k : κ) :
    (t.updateWhere p f hf).lookup k = (t.lookup k).map (fun r => if p r then f r else r) := by
  have hkey : ∀ r, key (if p r then f r else r) = key r := by
    intro r
    split
    · exact hf r
    · rfl
  unfold lookup updateWhere
  rw [List.find?_map]
  simp only [Function.comp_def,hkey]

theorem lookup_deleteWhere_of_ne [DecidableEq κ] (t : KeyedTable key) {k h : κ} (hk : k ≠ h) :
    (t.deleteWhere (fun r => key r = h)).lookup k = t.lookup k := by
  unfold lookup deleteWhere
  rw [List.find?_filter]
  congr 1
  funext r
  by_cases hr : key r = k
  · have hne : key r ≠ h := fun heq => hk (hr.symm.trans heq)
    simp [hr,hk]
  · simp [hr]

theorem mem_rows_insertOrReplace [DecidableEq κ] {t : KeyedTable key} {r x : ρ} :
    x ∈ (t.insertOrReplace r).rows ↔ x = r ∨ (x ∈ t.rows ∧ key x ≠ key r) := by
  have hfree : key r ∉ (t.deleteWhere fun x => key x = key r).keys := by
    intro hmem
    obtain ⟨y,hy,hkey⟩ := List.mem_map.mp hmem
    have := (List.mem_filter.mp hy).2
    simp [hkey] at this
  rw [insertOrReplace,rows_insertOrIgnore_of_not_mem hfree,List.mem_append,List.mem_singleton,
    deleteWhere,List.mem_filter,or_comm]
  simp

/-- Where equal keys mean equal rows, replacing only adds. -/
theorem mem_rows_foldl_insertOrReplace [DecidableEq κ] {t : KeyedTable key} {l : List ρ} {x : ρ}
    (h : ∀ y ∈ t.rows ++ l, ∀ z ∈ t.rows ++ l, key y = key z → y = z) :
    x ∈ (l.foldl insertOrReplace t).rows ↔ x ∈ t.rows ∨ x ∈ l := by
  induction l generalizing t with
  | nil => simp
  | cons r l ih =>
    have hone : ∀ y, y ∈ (t.insertOrReplace r).rows ↔ y = r ∨ y ∈ t.rows := by
      intro y
      rw [mem_rows_insertOrReplace]
      constructor
      · rintro (rfl | ⟨hy,-⟩)
        · exact .inl rfl
        · exact .inr hy
      · rintro (rfl | hy)
        · exact .inl rfl
        · by_cases hkey : key y = key r
          · exact .inl (h y (List.mem_append_left _ hy) r (by simp) hkey)
          · exact .inr ⟨hy,hkey⟩
    have hsub : ∀ y ∈ (t.insertOrReplace r).rows ++ l, y ∈ t.rows ++ r :: l := by
      intro y hy
      rcases List.mem_append.mp hy with hy | hy
      · rcases (hone y).mp hy with rfl | hy
        · simp
        · exact List.mem_append_left _ hy
      · exact List.mem_append_right _ (List.mem_cons_of_mem r hy)
    rw [List.foldl_cons,ih fun y hy z hz => h y (hsub y hy) z (hsub z hz),hone,List.mem_cons]
    tauto

/-- A key occurs once among the selected rows if its row is selected, and otherwise not. -/
theorem count_keys_filter [DecidableEq κ] (t : KeyedTable key) (p : ρ → Bool) (k : κ) :
    ((t.rows.filter p).map key).count k = if ∃ r ∈ t.rows, p r ∧ key r = k then 1 else 0 := by
  have hnodup : ((t.rows.filter p).map key).Nodup :=
    t.nodup.sublist (List.filter_sublist.map key)
  have hmem : k ∈ (t.rows.filter p).map key ↔ ∃ r ∈ t.rows, p r ∧ key r = k := by
    simp [and_assoc]
  split
  · rename_i h
    exact List.count_eq_one_of_mem hnodup (hmem.mpr h)
  · rename_i h
    exact List.count_eq_zero.mpr (fun hk => h (hmem.mp hk))

end KeyedTable
end EntryAnalyse
