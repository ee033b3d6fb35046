import EntryAnalyse.FuncDb

/-! `sync_from_json` makes the rows of a file those of a `functions.json` document: what it sets,
what it leaves, and when the columns that it does not name get lost. -/
namespace EntryAnalyse

namespace KeyedTable
variable {κ ρ α : Type} {key : ρ → κ} [DecidableEq κ]

/-- After replacements in a row a row is the last one that came with its key, or an old one
whose key did not come. -/
theorem mem_rows_replaced {t : KeyedTable key} {f : α → ρ} {l : List α} {x : ρ} :
    x ∈ (l.foldl (fun t a => t.insertOrReplace (f a)) t).rows ↔
      (∃ pre a post, l = pre ++ a :: post ∧ x = f a ∧ ∀ b ∈ post, key (f b) ≠ key x) ∨
        (x ∈ t.rows ∧ ∀ a ∈ l, key (f a) ≠ key x) := by
  induction l generalizing t with
  | nil => simp
  | cons a l ih =>
    rw [List.foldl_cons,ih]
    simp only [mem_rows_insertOrReplace]
    constructor
    · rintro (⟨pre,b,post,rfl,rfl,hpost⟩ | ⟨rfl | ⟨hx,hne⟩,hl⟩)
      · exact .inl ⟨a :: pre,b,post,rfl,rfl,hpost⟩
      · exact .inl ⟨[],a,l,rfl,rfl,hl⟩
      · exact .inr ⟨hx,List.forall_mem_cons.mpr ⟨hne.symm,hl⟩⟩
    · rintro (⟨pre,b,post,hsplit,rfl,hpost⟩ | ⟨hx,hl⟩)
      · cases pre with
        | nil =>
          obtain ⟨rfl,rfl⟩ := List.cons.inj hsplit
          exact .inr ⟨.inl rfl,hpost⟩
        | cons c pre =>
          obtain ⟨rfl,rfl⟩ := List.cons.inj hsplit
          exact .inl ⟨pre,b,post,rfl,rfl,hpost⟩
      · obtain ⟨hne,hl⟩ := List.forall_mem_cons.mp hl
        exact .inr ⟨.inr ⟨hx,hne.symm⟩,hl⟩

/-- Each key that comes has a row. -/
theorem exists_replaced {t : KeyedTable key} {f : α → ρ} {l : List α} {a : α} (h : a ∈ l) :
    ∃ x ∈ (l.foldl (fun t a => t.insertOrReplace (f a)) t).rows, key x = key (f a) := by
  induction l using List.reverseRecOn with
  | nil => cases h
  | append_singleton l b ih =>
    rw [List.foldl_append,List.foldl_cons,List.foldl_nil]
    by_cases hkey : key (f a) = key (f b)
    · exact ⟨f b,mem_rows_insertOrReplace.mpr (.inl rfl),hkey.symm⟩
    · have hl : a ∈ l := by
        rcases List.mem_append.mp h with h | h
        · exact h
        · rw [List.mem_singleton.mp h] at hkey
          exact absurd rfl hkey
      obtain ⟨x,hx,hxa⟩ := ih hl
      exact ⟨x,mem_rows_insertOrReplace.mpr (.inr ⟨hx,by rw [hxa]; exact hkey⟩),hxa⟩

end KeyedTable

namespace JsonSync

open PyJson FuncDb

/-- The row has the fields of the item. -/
structure Carries (fileHash : String) (item : JsonFunction) (r : FunctionRow) : Prop where
  funcHash : r.funcHash = item.funcHash
  fileHash : r.fileHash = fileHash
  name : r.name = item.name
  signature : r.signature = item.signature
  startLine : r.startLine = item.startLine
  endLine : r.endLine = item.endLine
  body : r.body = item.body
  bodyLines : r.bodyLines = countBodyLines item.body
  analysis : r.analysis = if item.analysis.truthy then some item.analysis else none
  hasExternalInput : ∀ d, item.analysis = .dict d → d ≠ [] →
    r.hasExternalInput = some (if (field d "has_external_input").truthy then 1 else 0)

/-- The decisions of the later stages. -/
def decisions (r : FunctionRow) : Option String × Option String × Option String :=
  (r.r3Decision,r.r4Decision,r.entryCategory)

/-- The document's items with a hash. -/
def named (items : List JsonFunction) : List JsonFunction :=
  items.filter fun item => item.funcHash != ""

/-- The rows of the file are those of the document, the others are untouched, and no decision is
lost. -/
structure Synced (db db' : FuncDb) (fileHash : String) (items : List JsonFunction) : Prop where
  hashes : ∀ h, (∃ r ∈ db'.functions.rows, r.fileHash = fileHash ∧ r.funcHash = h) ↔
    ∃ item ∈ items, item.funcHash = h ∧ h ≠ ""
  fields : ∀ r ∈ db'.functions.rows, r.fileHash = fileHash →
    ∃ pre item post, named items = pre ++ item :: post ∧ Carries fileHash item r ∧
      ∀ later ∈ post, later.funcHash ≠ item.funcHash
  others : ∀ r, r.fileHash ≠ fileHash → (r ∈ db'.functions.rows ↔ r ∈ db.functions.rows)
  kept : ∀ r ∈ db.functions.rows, ∀ r' ∈ db'.functions.rows, r.funcHash = r'.funcHash →
    decisions r' = decisions r

/-- What the document must not touch: rows without an item in a file without items, rows of
other files, and decisions. -/
structure Harmless (db : FuncDb) (fileHash : String) (items : List JsonFunction) : Prop where
  empty : (∀ item ∈ items, item.funcHash = "") → ∀ r ∈ db.functions.rows, r.fileHash ≠ fileHash
  fresh : ∀ r ∈ db.functions.rows, ∀ item ∈ items, item.funcHash ≠ "" →
    r.funcHash = item.funcHash → r.fileHash = fileHash ∧ decisions r = (none,none,some "")

section Sync
variable {db : FuncDb} {fileHash path rel : String} {items : List JsonFunction}
  {r : FunctionRow} {item : JsonFunction}

theorem mem_named : item ∈ named items ↔ item ∈ items ∧ item.funcHash ≠ "" := by
  simp [named]

theorem carries_jsonRow (item : JsonFunction) : Carries fileHash item (jsonRow fileHash item) where
  funcHash := rfl
  fileHash := rfl
  name := rfl
  signature := rfl
  startLine := rfl
  endLine := rfl
  body := rfl
  bodyLines := rfl
  analysis := rfl
  hasExternalInput := by
    intro d hd hne
    cases d with
    | nil => exact absurd rfl hne
    | cons p d => simp [jsonRow,hd]

/-- The rows that `sync_from_json` leaves: the last item of each hash, and the old rows without
an item, unless they are of the file and there are items. -/
theorem mem_syncFromJson (hfile : fileHash ≠ "") :
    r ∈ (db.syncFromJson fileHash path rel items).functions.rows ↔
      (∃ pre item post, named items = pre ++ item :: post ∧ r = jsonRow fileHash item ∧
          ∀ later ∈ post, later.funcHash ≠ item.funcHash) ∨
        (r ∈ db.functions.rows ∧ (∀ item ∈ named items, item.funcHash ≠ r.funcHash) ∧
          (named items = [] ∨ r.fileHash ≠ fileHash)) := by
  have hreplaced := KeyedTable.mem_rows_replaced (t := db.functions) (f := jsonRow fileHash)
    (l := named items) (x := r)
  by_cases hnone : named items = []
  · have hrows : (db.syncFromJson fileHash path rel items).functions = db.functions := by
      unfold syncFromJson
      simp only [show items.filter (fun item => item.funcHash != "") = [] from hnone]
      simp
    rw [hrows,hnone]
    simp
  · have hhashes : ((named items).map JsonFunction.funcHash).isEmpty = false := by
      cases hl : named items with
      | nil => exact absurd hl hnone
      | cons a l => rfl
    have hrows : (db.syncFromJson fileHash path rel items).functions =
        ((named items).foldl (fun t item => t.insertOrReplace (jsonRow fileHash item))
          db.functions).deleteWhere (fun r => r.fileHash = fileHash &&
            !((named items).map JsonFunction.funcHash).contains r.funcHash) := by
      unfold syncFromJson
      refine if_neg ?_
      rw [Bool.or_eq_true,not_or]
      exact ⟨by simpa using hfile,by rw [show ((items.filter fun item => item.funcHash != "").map
        JsonFunction.funcHash).isEmpty = false from hhashes]; exact Bool.false_ne_true⟩
    rw [hrows]
    unfold KeyedTable.deleteWhere
    rw [List.mem_filter,hreplaced]
    constructor
    · rintro ⟨⟨pre,item,post,hsplit,rfl,hpost⟩ | ⟨hr,hold⟩,hdel⟩
      · exact .inl ⟨pre,item,post,hsplit,rfl,hpost⟩
      · refine .inr ⟨hr,hold,.inr fun hf => ?_⟩
        have hnot : ((named items).map JsonFunction.funcHash).contains r.funcHash = false := by
          rw [Bool.eq_false_iff]
          intro hmem
          obtain ⟨item,hitem,heq⟩ := List.mem_map.mp (List.contains_iff_mem.mp hmem)
          exact hold item hitem heq
        dsimp only at hdel
        rw [hf,hnot] at hdel
        simp at hdel
    · rintro (⟨pre,item,post,hsplit,rfl,hpost⟩ | ⟨hr,hold,hf⟩)
      · refine ⟨.inl ⟨pre,item,post,hsplit,rfl,hpost⟩,?_⟩
        have hmem : ((named items).map JsonFunction.funcHash).contains
            (jsonRow fileHash item).funcHash = true := by
          rw [List.contains_iff_mem,hsplit]
          exact List.mem_map_of_mem (List.mem_append_right _ List.mem_cons_self)
        dsimp only
        rw [hmem]
        simp
      · have hother := hf.resolve_left hnone
        exact ⟨.inr ⟨hr,hold⟩,by simp [hother]⟩

theorem fields_right (hfile : fileHash ≠ "")
    (hr : r ∈ (db.syncFromJson fileHash path rel items).functions.rows)
    (hf : r.fileHash = fileHash)
    (hempty : (∀ item ∈ items, item.funcHash = "") → ∀ r ∈ db.functions.rows,
      r.fileHash ≠ fileHash) :
    ∃ pre item post, named items = pre ++ item :: post ∧ Carries fileHash item r ∧
      ∀ later ∈ post, later.funcHash ≠ item.funcHash := by
  rcases (mem_syncFromJson hfile).mp hr with ⟨pre,item,post,hsplit,rfl,hpost⟩ | ⟨hold,-,hnone⟩
  · exact ⟨pre,item,post,hsplit,carries_jsonRow item,hpost⟩
  · rcases hnone with hnone | hother
    · refine absurd hf (hempty (fun item hitem => ?_) r hold)
      by_contra hne
      have hmem := mem_named.mpr ⟨hitem,hne⟩
      rw [hnone] at hmem
      cases hmem
    · exact absurd hf hother

theorem exists_synced (db : FuncDb) (path rel : String) (hfile : fileHash ≠ "") (h : item ∈ items) (hne : item.funcHash ≠ "") :
    ∃ r ∈ (db.syncFromJson fileHash path rel items).functions.rows,
      r.fileHash = fileHash ∧ r.funcHash = item.funcHash := by
  obtain ⟨r,hr,hkey⟩ := KeyedTable.exists_replaced (t := (KeyedTable.empty : KeyedTable
    FunctionRow.funcHash)) (f := jsonRow fileHash) (mem_named.mpr ⟨h,hne⟩)
  rcases KeyedTable.mem_rows_replaced.mp hr with ⟨pre,item',post,hsplit,rfl,hpost⟩ | ⟨hnil,-⟩
  · exact ⟨jsonRow fileHash item',(mem_syncFromJson hfile).mpr
      (.inl ⟨pre,item',post,hsplit,rfl,hpost⟩),rfl,hkey⟩
  · cases hnil

/-- The synchronisation is right exactly if the document is harmless: a document without
functions deletes nothing, a hash of another file is taken from it, and the decisions of a
function that stays are reset. -/
theorem json_synced_iff (db : FuncDb) (fileHash path rel : String) (items : List JsonFunction)
    (hfile : fileHash ≠ "") :
    Synced db (db.syncFromJson fileHash path rel items) fileHash items ↔
      Harmless db fileHash items := by
  constructor
  · intro h
    constructor
    · intro hnone r hr hf
      have hnamed : named items = [] := List.eq_nil_iff_forall_not_mem.mpr fun item hitem =>
        (mem_named.mp hitem).2 (hnone item (mem_named.mp hitem).1)
      have hstays : r ∈ (db.syncFromJson fileHash path rel items).functions.rows :=
        (mem_syncFromJson hfile).mpr (.inr ⟨hr,by simp [hnamed],.inl hnamed⟩)
      obtain ⟨item,hitem,hhash,hne⟩ := (h.hashes r.funcHash).mp ⟨r,hstays,hf,rfl⟩
      exact hne (hhash.symm.trans (hnone item hitem))
    · intro r hr item hitem hne heq
      obtain ⟨r',hr',hf',hhash⟩ := exists_synced db path rel hfile hitem hne
      constructor
      · by_contra hother
        have hstays := (h.others r hother).mpr hr
        have hsame := List.inj_on_of_nodup_map
          (db.syncFromJson fileHash path rel items).functions.nodup hstays hr'
          (heq.trans hhash.symm)
        exact hother (hsame ▸ hf')
      · have hkept := h.kept r hr r' hr' (heq.trans hhash.symm)
        rw [← hkept]
        rcases (mem_syncFromJson hfile).mp hr' with ⟨-,item',-,-,rfl,-⟩ | ⟨-,hold,-⟩
        · rfl
        · exact absurd hhash.symm (hold item (mem_named.mpr ⟨hitem,hne⟩))
  · intro h
    constructor
    · intro k
      constructor
      · rintro ⟨r,hr,hf,rfl⟩
        obtain ⟨pre,item,post,hsplit,hcarries,-⟩ := fields_right hfile hr hf h.empty
        have hitem : item ∈ named items := by
          rw [hsplit]
          exact List.mem_append_right _ List.mem_cons_self
        rw [hcarries.funcHash]
        exact ⟨item,(mem_named.mp hitem).1,rfl,(mem_named.mp hitem).2⟩
      · rintro ⟨item,hitem,rfl,hne⟩
        exact exists_synced db path rel hfile hitem hne
    · exact fun r hr hf => fields_right hfile hr hf h.empty
    · intro r hother
      rw [mem_syncFromJson hfile]
      constructor
      · rintro (⟨pre,item,post,-,rfl,-⟩ | ⟨hr,-⟩)
        · exact absurd rfl hother
        · exact hr
      · intro hr
        refine .inr ⟨hr,fun item hitem heq => ?_,.inr hother⟩
        obtain ⟨hitem,hne⟩ := mem_named.mp hitem
        exact hother (h.fresh r hr item hitem hne heq.symm).1
    · intro r hr r' hr' hkey
      rcases (mem_syncFromJson hfile).mp hr' with ⟨pre,item,post,hsplit,rfl,-⟩ | ⟨hold,-,-⟩
      · have hitem : item ∈ named items := by
          rw [hsplit]
          exact List.mem_append_right _ List.mem_cons_self
        obtain ⟨hitem,hne⟩ := mem_named.mp hitem
        rw [(h.fresh r hr item hitem hne hkey).2]
        rfl
      · rw [List.inj_on_of_nodup_map db.functions.nodup hr hold hkey]

end Sync

/-- A function that R3 has kept. -/
def keptRow : FunctionRow := { newRow "h1" "f1" "recv" "int recv()" 1 3 "" with
  r3Decision := some "keep" }

/-- A document that repeats the function as it is. -/
def sameItem : JsonFunction := ⟨"h1","recv","int recv()",1,3,"",.null⟩

/-- A synchronisation without any change forgets the decision. -/
theorem decision_forgotten :
    ¬Synced ⟨.empty,⟨[keptRow],by simp⟩⟩
      ((⟨.empty,⟨[keptRow],by simp⟩⟩ : FuncDb).syncFromJson "f1" "" "" [sameItem]) "f1" [sameItem] := by
  intro h
  have hrow : jsonRow "f1" sameItem ∈ ((⟨.empty,⟨[keptRow],by simp⟩⟩ : FuncDb).syncFromJson
      "f1" "" "" [sameItem]).functions.rows :=
    (mem_syncFromJson (by decide)).mpr (.inl ⟨[],sameItem,[],rfl,rfl,by simp⟩)
  have hkept := h.kept keptRow (List.mem_singleton_self _) _ hrow rfl
  cases hkept

/-- A new function in a file that had none. -/
theorem first_sync_right :
    Synced .empty (FuncDb.empty.syncFromJson "f1" "" "" [sameItem]) "f1" [sameItem] :=
  (json_synced_iff .empty "f1" "" "" [sameItem] (by decide)).mpr
    { empty := fun _ r hr => absurd hr List.not_mem_nil
      fresh := fun r hr => absurd hr List.not_mem_nil }

end JsonSync
end EntryAnalyse
