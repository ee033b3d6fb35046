import EntryAnalyse.FinalReports
import EntryAnalyse.PublishedLists

/-! What the final reports render and count: the first one everything, wherever it is written, the
second one everything where every entry has one of the roles it lists. -/
namespace EntryAnalyse
namespace FinalReports

open PyJson FunctionsList

/-! ## Groups -/

section Groups

variable {α β : Type} [DecidableEq β] {f : α → β} {l : List α} {keys : List β}

/-- The groups of different keys together are what has one of the keys. -/
theorem flatMap_filter_perm (f : α → β) (l : List α) (h : keys.Nodup) :
    (keys.flatMap fun k => l.filter fun a => f a = k).Perm (l.filter fun a => f a ∈ keys) := by
  induction keys with
  | nil =>
    rw [List.flatMap_nil,List.filter_eq_nil_iff.mpr]
    simp
  | cons k keys ih =>
    obtain ⟨hk,hkeys⟩ := List.nodup_cons.mp h
    have hfirst : (l.filter fun a => f a ∈ k :: keys).filter (fun a => f a = k) =
        l.filter fun a => f a = k := by
      rw [List.filter_filter]
      refine List.filter_congr fun a _ => ?_
      by_cases ha : f a = k <;> simp [ha]
    have hrest : (l.filter fun a => f a ∈ k :: keys).filter (fun a => !decide (f a = k)) =
        l.filter fun a => f a ∈ keys := by
      rw [List.filter_filter]
      refine List.filter_congr fun a _ => ?_
      by_cases ha : f a = k
      · simp [ha,hk]
      · simp [ha]
    have hsplit := List.filter_append_perm (fun a => decide (f a = k))
      (l.filter fun a => f a ∈ k :: keys)
    rw [hfirst,hrest] at hsplit
    rw [List.flatMap_cons]
    exact ((ih hkeys).append_left _).trans hsplit

/-- They are everything iff every key is one of them. -/
theorem flatMap_filter_perm_iff (h : keys.Nodup) :
    (keys.flatMap fun k => l.filter fun a => f a = k).Perm l ↔ ∀ a ∈ l, f a ∈ keys := by
  rw [(flatMap_filter_perm f l h).congr_left]
  constructor
  · intro hperm
    have hall := List.length_filter_eq_length_iff.mp hperm.length_eq
    exact fun a ha => of_decide_eq_true (hall a ha)
  · intro hall
    rw [List.filter_eq_self.mpr fun a ha => decide_eq_true (hall a ha)]

end Groups

theorem nodup_eraseDups {α : Type} [DecidableEq α] (l : List α) : l.eraseDups.Nodup := by
  induction hn : l.length using Nat.strong_induction_on generalizing l with
  | _ n ih =>
    cases l with
    | nil => exact List.nodup_nil
    | cons a l =>
      rw [List.eraseDups_cons]
      refine List.nodup_cons.mpr ⟨?_,?_⟩
      · intro ha
        have hne := (List.mem_filter.mp (List.mem_eraseDups.mp ha)).2
        simp at hne
      · refine ih _ ?_ _ rfl
        rw [← hn,List.length_cons]
        exact Nat.lt_succ_of_le (List.length_filter_le _ _)

section GroupEntries

variable {entries : List Entry} {g : String × List Entry}

theorem groupEntries_perm : ((groupEntries entries).flatMap Prod.snd).Perm entries := by
  refine ((List.perm_insertionSort _ _).flatMap_right Prod.snd).trans ?_
  rw [List.flatMap_map]
  refine (List.Perm.flatMap_left _ fun r _ => List.perm_insertionSort notBehind _).trans ?_
  refine (flatMap_filter_perm_iff (nodup_eraseDups _)).mpr fun e he => ?_
  exact List.mem_eraseDups.mpr (List.mem_map_of_mem he)

theorem length_of_mem_groupEntries (h : g ∈ groupEntries entries) :
    g.2.length = entries.countP fun e => e.role == g.1 := by
  rw [groupEntries,List.mem_insertionSort] at h
  obtain ⟨r,-,rfl⟩ := List.mem_map.mp h
  rw [List.length_insertionSort,List.countP_eq_length_filter]
  rfl

theorem sum_groupEntries :
    ((groupEntries entries).map fun g => g.2.length).sum = entries.length := by
  rw [← groupEntries_perm.length_eq,List.length_flatMap]

end GroupEntries

/-! ## Blocks -/

section Blocks

variable (a b : Report) (l : List String)

@[simp] theorem sections_append : sections (a ++ b) = sections a ++ sections b :=
  List.flatMap_append

@[simp] theorem counts_append : counts (a ++ b) = counts a ++ counts b := List.flatMap_append

@[simp] theorem tables_append : tables (a ++ b) = tables a ++ tables b := List.flatMap_append

@[simp] theorem sections_plain : sections (plain l) = [] := by
  induction l with
  | nil => rfl
  | cons s l ih => exact ih

@[simp] theorem counts_plain : counts (plain l) = [] := by
  induction l with
  | nil => rfl
  | cons s l ih => exact ih

@[simp] theorem tables_plain : tables (plain l) = [] := by
  induction l with
  | nil => rfl
  | cons s l ih => exact ih

end Blocks

/-- A report without tables whose sections and counts are these. -/
structure Holds (report : Report) (entries : List Entry) (cs : List (Group × ℕ)) : Prop where
  sections : sections report = entries
  counts : counts report = cs
  tables : tables report = []

namespace Holds

variable {a b : Report} {es es' : List Entry} {cs cs' : List (Group × ℕ)}

theorem append (ha : Holds a es cs) (hb : Holds b es' cs') :
    Holds (a ++ b) (es ++ es') (cs ++ cs') := by
  refine ⟨?_,?_,?_⟩
  · rw [sections_append,ha.sections,hb.sections]
  · rw [counts_append,ha.counts,hb.counts]
  · rw [tables_append,ha.tables,hb.tables]
    rfl

theorem plain (l : List String) : Holds (plain l) [] [] :=
  ⟨sections_plain l,counts_plain l,tables_plain l⟩

/-- The sections of a group alone. -/
theorem entries {text : Entry → String} (es : List Entry) :
    Holds (es.map fun e => .entry e (text e)) es [] := by
  induction es with
  | nil => exact ⟨rfl,rfl,rfl⟩
  | cons e es ih =>
    refine ⟨?_,ih.counts,ih.tables⟩
    rw [List.map_cons]
    exact congrArg (List.cons e) ih.sections

end Holds

/-! ## The first report is complete -/

section First

variable {py : PyRuntime} {fmt : Formats}

/-- Every taint can be looked up. -/
def Entry.TaintsHash (e : Entry) : Prop := ∀ t ∈ e.taints, hashable t = true

variable {n index : ℕ} {e : Entry} {group entries : List Entry} {report : Report}
  {groups : List (String × List Entry)} {cat : Bool}

theorem taintRow_isOk_iff {details : List TaintDetail} {t : PyJson} :
    (∃ row, taintRow py details t = .ok row) ↔ hashable t = true := by
  cases t <;> simp [taintRow,taintDescription,hashable,bind,Except.bind,pure,Except.pure]

variable (py fmt index) in
theorem renderEntrySection_isOk_iff :
    (∃ text, renderEntrySection py fmt e index = .ok text) ↔ e.TaintsHash := by
  have hrows : (∃ rows, e.taints.mapM (taintRow py e.taintDetails) = .ok rows) ↔ e.TaintsHash := by
    rw [mapM_isOk_iff]
    exact forall₂_congr fun t _ => taintRow_isOk_iff
  rw [← hrows]
  constructor
  · rintro ⟨text,h⟩
    obtain ⟨rows,hr,-⟩ := bind_eq_ok.mp h
    exact ⟨rows,hr⟩
  · rintro ⟨rows,hr⟩
    exact ⟨_,bind_eq_ok.mpr ⟨rows,hr,rfl⟩⟩

variable (py fmt n) in
theorem entryBlocks_isOk_iff :
    (∃ r, entryBlocks py fmt n group = .ok r) ↔ ∀ e ∈ group, e.TaintsHash := by
  rw [entryBlocks,mapM_isOk_iff]
  have hmap : (∀ e ∈ (group.zipIdx (n + 1)).map Prod.fst, e.TaintsHash) ↔
      ∀ p ∈ group.zipIdx (n + 1), p.1.TaintsHash := List.forall_mem_map
  rw [List.zipIdx_map_fst] at hmap
  rw [hmap]
  refine forall₂_congr fun p _ => ?_
  rw [← renderEntrySection_isOk_iff py fmt p.2]
  constructor
  · rintro ⟨block,h⟩
    obtain ⟨text,htext,-⟩ := bind_eq_ok.mp h
    exact ⟨text,htext⟩
  · rintro ⟨text,htext⟩
    exact ⟨_,bind_eq_ok.mpr ⟨text,htext,rfl⟩⟩

theorem entryBlocks_holds (h : entryBlocks py fmt n group = .ok report) : Holds report group [] := by
  induction group generalizing n report with
  | nil =>
    cases h
    exact ⟨rfl,rfl,rfl⟩
  | cons e group ih =>
    rw [entryBlocks,List.zipIdx_cons,List.mapM_cons] at h
    obtain ⟨block,hblock,h⟩ := bind_eq_ok.mp h
    obtain ⟨rest,hrest,h⟩ := bind_eq_ok.mp h
    cases h
    obtain ⟨text,-,htext⟩ := bind_eq_ok.mp hblock
    cases htext
    have hr := ih hrest
    exact ⟨congrArg (List.cons e) hr.sections,hr.counts,hr.tables⟩

theorem groupHead_holds (cat : Bool) (role : String) (n : ℕ) :
    Holds (groupHead cat role n) [] [(.part cat role,n)] := by
  rw [groupHead]
  cases roleDesc.lookup role with
  | none => exact ⟨rfl,rfl,rfl⟩
  | some desc => exact ⟨rfl,rfl,rfl⟩

variable (py fmt n groups cat) in
theorem groupBlocks_isOk_iff :
    (∃ r, groupBlocks py fmt cat n groups = .ok r) ↔
      ∀ e ∈ groups.flatMap Prod.snd, e.TaintsHash := by
  induction groups generalizing n with
  | nil => exact ⟨fun _ e he => absurd he List.not_mem_nil,fun _ => ⟨[],rfl⟩⟩
  | cons g groups ih =>
    rw [List.flatMap_cons,List.forall_mem_append,← entryBlocks_isOk_iff py fmt n,
      ← ih (n + g.2.length)]
    constructor
    · rintro ⟨r,h⟩
      obtain ⟨blocks,hblocks,h⟩ := bind_eq_ok.mp h
      obtain ⟨rest,hrest,-⟩ := bind_eq_ok.mp h
      exact ⟨⟨blocks,hblocks⟩,⟨rest,hrest⟩⟩
    · rintro ⟨⟨blocks,hblocks⟩,⟨rest,hrest⟩⟩
      exact ⟨_,bind_eq_ok.mpr ⟨blocks,hblocks,bind_eq_ok.mpr ⟨rest,hrest,rfl⟩⟩⟩

theorem groupBlocks_holds (h : groupBlocks py fmt cat n groups = .ok report) :
    Holds report (groups.flatMap Prod.snd) (groups.map fun g => (.part cat g.1,g.2.length)) := by
  induction groups generalizing n report with
  | nil =>
    cases h
    exact ⟨rfl,rfl,rfl⟩
  | cons g groups ih =>
    obtain ⟨blocks,hblocks,h⟩ := bind_eq_ok.mp h
    obtain ⟨rest,hrest,h⟩ := bind_eq_ok.mp h
    cases h
    exact ((groupHead_holds cat g.1 g.2.length).append (entryBlocks_holds hblocks)).append (ih hrest)

/-- The counts of the part for one category. -/
def categoryCounts (cat : Bool) (entries : List Entry) : List (Group × ℕ) :=
  if entries.isEmpty then []
  else (.category cat,entries.length) ::
    (groupEntries entries).map fun g => (.part cat g.1,g.2.length)

variable {title : String} {notes : List String}

theorem categoryBlocks_isOk_iff :
    (∃ r, categoryBlocks py fmt cat title notes n entries = .ok r) ↔
      ∀ e ∈ entries, e.TaintsHash := by
  rw [categoryBlocks]
  split
  · rename_i hempty
    rw [List.isEmpty_iff.mp hempty]
    exact ⟨fun _ e he => absurd he List.not_mem_nil,fun _ => ⟨[],rfl⟩⟩
  · have hgroups := groupBlocks_isOk_iff py fmt n (groupEntries entries) cat
    have hperm : (∀ e ∈ (groupEntries entries).flatMap Prod.snd, e.TaintsHash) ↔
        ∀ e ∈ entries, e.TaintsHash :=
      forall_congr' fun e => imp_congr_left groupEntries_perm.mem_iff
    rw [← hperm,← hgroups]
    constructor
    · rintro ⟨r,h⟩
      obtain ⟨blocks,hblocks,-⟩ := bind_eq_ok.mp h
      exact ⟨blocks,hblocks⟩
    · rintro ⟨blocks,hblocks⟩
      exact ⟨_,bind_eq_ok.mpr ⟨blocks,hblocks,rfl⟩⟩

theorem categoryBlocks_holds (h : categoryBlocks py fmt cat title notes n entries = .ok report) :
    ∃ es, es.Perm entries ∧ Holds report es (categoryCounts cat entries) := by
  rw [categoryBlocks] at h
  rw [categoryCounts]
  split at h
  · rename_i hempty
    cases h
    rw [List.isEmpty_iff.mp hempty]
    exact ⟨[],List.Perm.refl _,rfl,rfl,rfl⟩
  · rename_i hempty
    rw [if_neg hempty]
    obtain ⟨blocks,hblocks,h⟩ := bind_eq_ok.mp h
    cases h
    refine ⟨_,groupEntries_perm,?_⟩
    have hhead : Holds [.line [.text (title ++ "（"),.count (.category cat) entries.length,
        .text " 个）"]] [] [(.category cat,entries.length)] := ⟨rfl,rfl,rfl⟩
    exact ((hhead.append (Holds.plain ([""] ++ notes ++ [""]))).append (groupBlocks_holds hblocks))

/-- What is counted in front of the sections. -/
def headCounts (entries : List Entry) : List (Group × ℕ) :=
  [(.all,entries.length),(.category false,(external entries).length),
    (.category true,(processing entries).length)]

/-- The counts of the table of roles. -/
def roleCounts (entries : List Entry) : List (Group × ℕ) :=
  (groupEntries entries).map fun g => (.role g.1,g.2.length)

variable {moduleName now : String} {stats : Stats}

variable (fmt entries moduleName now stats) in
theorem reportHead_spec : sections (reportHead fmt entries moduleName stats now) = [] ∧
    counts (reportHead fmt entries moduleName stats now) = headCounts entries ∧
    tables (reportHead fmt entries moduleName stats now) = [headCounts entries] := by
  rw [reportHead]
  refine ⟨?_,?_,?_⟩
  · rw [sections_append,sections_append,sections_plain,sections_plain]
    rfl
  · rw [counts_append,counts_append,counts_plain,counts_plain]
    rfl
  · rw [tables_append,tables_append,tables_plain,tables_plain]
    rfl

theorem rowCounts_cons (row : List Piece) (rows : List (List Piece)) :
    rowCounts (row :: rows) = row.flatMap Piece.counts ++ rowCounts rows := by
  rw [rowCounts,List.flatten_cons,List.flatMap_append,rowCounts]

theorem rowCounts_roleRows (total : ℕ) (groups : List (String × List Entry)) :
    rowCounts (groups.map (roleRow fmt total)) = groups.map fun g => (.role g.1,g.2.length) := by
  induction groups with
  | nil => rfl
  | cons g groups ih =>
    rw [List.map_cons,rowCounts_cons,ih]
    rfl

theorem external_append_processing (entries : List Entry) :
    (external entries ++ processing entries).Perm entries := by
  have hperm := List.filter_append_perm Entry.isProcessing entries
  exact List.perm_append_comm.trans hperm

variable (py fmt entries moduleName now stats) in
theorem generateReport_isOk_iff :
    (∃ report, generateReport py fmt entries moduleName stats now = .ok report) ↔
      ∀ e ∈ entries, e.TaintsHash := by
  rw [generateReport]
  split
  · rename_i hempty
    rw [List.isEmpty_iff.mp hempty]
    exact ⟨fun _ e he => absurd he List.not_mem_nil,fun _ => ⟨_,rfl⟩⟩
  · have hall : (∀ e ∈ entries, e.TaintsHash) ↔
        (∀ e ∈ external entries, e.TaintsHash) ∧ ∀ e ∈ processing entries, e.TaintsHash := by
      rw [← List.forall_mem_append]
      exact forall_congr' fun e => imp_congr_left (external_append_processing entries).mem_iff.symm
    rw [hall]
    constructor
    · rintro ⟨report,h⟩
      obtain ⟨ext,hext,h⟩ := bind_eq_ok.mp h
      obtain ⟨proc,hproc,-⟩ := bind_eq_ok.mp h
      exact ⟨categoryBlocks_isOk_iff.mp ⟨ext,hext⟩,categoryBlocks_isOk_iff.mp ⟨proc,hproc⟩⟩
    · rintro ⟨hext,hproc⟩
      obtain ⟨ext,hext⟩ := categoryBlocks_isOk_iff.mpr hext
      obtain ⟨proc,hproc⟩ := categoryBlocks_isOk_iff.mpr hproc
      exact ⟨_,bind_eq_ok.mpr ⟨ext,hext,bind_eq_ok.mpr ⟨proc,hproc,rfl⟩⟩⟩

/-- What the first report renders and counts. -/
theorem generateReport_spec (h : generateReport py fmt entries moduleName stats now = .ok report) :
    (sections report).Perm entries ∧
    counts report = headCounts entries ++ roleCounts entries ++
      categoryCounts false (external entries) ++ categoryCounts true (processing entries) ∧
    ∀ table ∈ tables report, table = headCounts entries ∨ table = roleCounts entries := by
  obtain ⟨hsections,hcounts,htables⟩ :=
    reportHead_spec fmt entries moduleName now stats
  rw [generateReport] at h
  split at h
  · rename_i hempty
    cases h
    rw [sections_append,sections_plain,hsections,counts_append,counts_plain,hcounts,tables_append,
      tables_plain,htables,List.isEmpty_iff.mp hempty]
    exact ⟨List.Perm.refl _,rfl,fun table hmem => Or.inl (by simpa using hmem)⟩
  · obtain ⟨ext,hext,h⟩ := bind_eq_ok.mp h
    obtain ⟨proc,hproc,h⟩ := bind_eq_ok.mp h
    cases h
    obtain ⟨es,hes,hext⟩ := categoryBlocks_holds hext
    obtain ⟨ps,hps,hproc⟩ := categoryBlocks_holds hproc
    have hrole : (roleTable fmt entries).counts = roleCounts entries :=
      rowCounts_roleRows entries.length (groupEntries entries)
    have hroleCounts : counts [roleTable fmt entries] = roleCounts entries := by
      rw [counts,List.flatMap_singleton,hrole]
    have hroleTables : tables [roleTable fmt entries] = [roleCounts entries] := by
      rw [tables,List.flatMap_singleton,← hrole]
      rfl
    refine ⟨?_,?_,?_⟩
    · simp only [sections_append,sections_plain,hsections,hext.sections,hproc.sections,
        List.append_nil,List.nil_append]
      exact (hes.append hps).trans (external_append_processing entries)
    · simp only [counts_append,counts_plain,hcounts,hext.counts,hproc.counts,hroleCounts,
        List.append_nil]
    · simp only [tables_append,tables_plain,htables,hext.tables,hproc.tables,hroleTables,
        List.append_nil]
      intro table hmem
      simpa using hmem

theorem external_eq : external entries = entries.filter fun e => e.isProcessing == false :=
  List.filter_congr fun e _ => by cases e.isProcessing <;> rfl

theorem processing_eq : processing entries = entries.filter fun e => e.isProcessing == true :=
  List.filter_congr fun e _ => by cases e.isProcessing <;> rfl

/-- The counts of a category are those of all entries. -/
theorem categoryCounts_counted (cat : Bool) :
    ∀ p ∈ categoryCounts cat (entries.filter fun e => e.isProcessing == cat),
      p.2 = entries.countP (p.1.holds Entry.role) := by
  intro p hp
  rw [categoryCounts] at hp
  split at hp
  · cases hp
  · rcases List.mem_cons.mp hp with rfl | hp
    · exact List.countP_eq_length_filter.symm
    · obtain ⟨g,hg,rfl⟩ := List.mem_map.mp hp
      dsimp only
      rw [length_of_mem_groupEntries hg,List.countP_filter]
      exact List.countP_congr fun e _ => by simp [Group.holds,Bool.and_comm]

theorem headCounts_counted (roleOf : Entry → String) :
    ∀ p ∈ headCounts entries, p.2 = entries.countP (p.1.holds roleOf) := by
  intro p hp
  simp only [headCounts,List.mem_cons,List.not_mem_nil,or_false] at hp
  rcases hp with rfl | rfl | rfl
  · exact (List.countP_eq_length.mpr fun e _ => rfl).symm
  · dsimp only
    rw [external_eq]
    exact List.countP_eq_length_filter.symm
  · dsimp only
    rw [processing_eq]
    exact List.countP_eq_length_filter.symm

/-- Every count of the first report is that of all entries. -/
theorem generateReport_counted (h : generateReport py fmt entries moduleName stats now = .ok report) :
    ∀ p ∈ counts report, p.2 = entries.countP (p.1.holds Entry.role) := by
  rw [(generateReport_spec h).2.1]
  intro p hp
  rcases List.mem_append.mp hp with hp | hp
  · rcases List.mem_append.mp hp with hp | hp
    · rcases List.mem_append.mp hp with hp | hp
      · exact headCounts_counted Entry.role p hp
      · obtain ⟨g,hg,rfl⟩ := List.mem_map.mp hp
        exact length_of_mem_groupEntries hg
    · rw [external_eq] at hp
      exact categoryCounts_counted false p hp
  · rw [processing_eq] at hp
    exact categoryCounts_counted true p hp

theorem sum_headCounts (kind : Kind) : ofKind kind (headCounts entries) = [] ∨
    (ofKind kind (headCounts entries)).sum = entries.length := by
  cases kind with
  | role => exact Or.inl rfl
  | tag => exact Or.inl rfl
  | category =>
    right
    have hperm := (external_append_processing entries).length_eq
    rw [List.length_append] at hperm
    rw [← hperm]
    exact congrArg (_ + ·) (Nat.add_zero _)

theorem sum_roleCounts (kind : Kind) : ofKind kind (roleCounts entries) = [] ∨
    (ofKind kind (roleCounts entries)).sum = entries.length := by
  cases kind with
  | role =>
    right
    have hall : ofKind .role (roleCounts entries) =
        (groupEntries entries).map fun g => g.2.length := by
      rw [ofKind,roleCounts,List.filter_eq_self.mpr]
      · rw [List.map_map]
        rfl
      · intro p hp
        obtain ⟨g,-,rfl⟩ := List.mem_map.mp hp
        rfl
    rw [hall,sum_groupEntries]
  | category | tag =>
    left
    rw [ofKind,List.filter_eq_nil_iff.mpr,List.map_nil]
    intro p hp
    obtain ⟨g,-,rfl⟩ := List.mem_map.mp hp
    exact Bool.false_ne_true

/-- The first report is complete wherever it is written. -/
theorem generateReport_complete (h : generateReport py fmt entries moduleName stats now = .ok report) :
    Complete Entry.role report entries := by
  obtain ⟨hperm,-,htables⟩ := generateReport_spec h
  refine ⟨hperm,?_,?_⟩
  · intro p hp
    rw [hperm.countP_eq]
    exact generateReport_counted h p hp
  · intro table hmem kind
    rw [hperm.length_eq]
    rcases htables table hmem with rfl | rfl
    · exact sum_headCounts kind
    · exact sum_roleCounts kind

end First

/-! ## The second report -/

section Second

variable {py : PyRuntime} {parts : Parts} {entries : List Entry} {moduleName now : String}

/-- The counts of the roles of the second report. -/
def partsRoleCounts (entries : List Entry) : List (Group × ℕ) :=
  roleOrder.map fun role => (.role role,(ofRole entries role).length)

def tagCounts (entries : List Entry) : List (Group × ℕ) :=
  [(.tag true,(entries.filter Entry.isActive).length),
    (.tag false,entries.length - (entries.filter Entry.isActive).length)]

variable (py parts entries) in
theorem roleSection_holds (role : String) :
    ∃ cs, Holds (roleSection py parts entries role) (ofRole entries role) cs ∧
      ∀ p ∈ cs, p = (.role role,(ofRole entries role).length) := by
  rw [roleSection]
  split
  · rename_i hempty
    rw [List.isEmpty_iff.mp hempty]
    exact ⟨[],⟨rfl,rfl,rfl⟩,fun p hp => absurd hp List.not_mem_nil⟩
  · refine ⟨[(.role role,(ofRole entries role).length)],?_,fun p hp => List.mem_singleton.mp hp⟩
    have hhead : Holds [.line [.text ("## " ++ (roleLabels.lookup role).getD role ++ "（"),
        .count (.role role) (ofRole entries role).length,.text " 个）"],.line [.text ""]] []
        [(.role role,(ofRole entries role).length)] := ⟨rfl,rfl,rfl⟩
    exact ((Holds.plain ["---",""]).append hhead).append (Holds.entries (ofRole entries role))

variable (py parts entries) in
theorem roleSections_holds (roles : List String) :
    ∃ cs, Holds (roles.flatMap (roleSection py parts entries)) (roles.flatMap (ofRole entries)) cs ∧
      ∀ p ∈ cs, ∃ role ∈ roles, p = (.role role,(ofRole entries role).length) := by
  induction roles with
  | nil => exact ⟨[],⟨rfl,rfl,rfl⟩,fun p hp => absurd hp List.not_mem_nil⟩
  | cons role roles ih =>
    obtain ⟨cs,hfirst,hcs⟩ := roleSection_holds py parts entries role
    obtain ⟨cs',hrest,hcs'⟩ := ih
    refine ⟨cs ++ cs',hfirst.append hrest,fun p hp => ?_⟩
    rcases List.mem_append.mp hp with hp | hp
    · exact ⟨role,List.mem_cons_self,hcs p hp⟩
    · obtain ⟨r,hr,heq⟩ := hcs' p hp
      exact ⟨r,List.mem_cons_of_mem _ hr,heq⟩

variable (py parts moduleName now entries) in
/-- What the second report renders and counts. -/
theorem finalReport_spec :
    sections (finalReport py parts moduleName now entries) = roleOrder.flatMap (ofRole entries) ∧
    (∀ p ∈ counts (finalReport py parts moduleName now entries),
      p = (.all,entries.length) ∨ p ∈ partsRoleCounts entries ∨ p ∈ tagCounts entries) ∧
    tables (finalReport py parts moduleName now entries) =
      [partsRoleCounts entries ++ tagCounts entries,
        (.all,entries.length) :: partsRoleCounts entries] := by
  obtain ⟨cs,hroles,hcs⟩ := roleSections_holds py parts entries roleOrder
  rw [finalReport]
  refine ⟨?_,?_,?_⟩
  · simp only [sections_append,sections_plain,hroles.sections,List.append_nil,List.nil_append]
    exact List.append_nil _
  · intro p hp
    simp only [counts_append,counts_plain,hroles.counts,List.append_nil,List.nil_append,
      List.mem_append] at hp
    have hall : (Group.all,entries.length) :: partsRoleCounts entries =
        counts [coverageTable entries] := rfl
    rcases hp with ((hp | hp) | hp) | hp
    · exact Or.inl (List.mem_singleton.mp hp)
    · exact Or.inr (List.mem_append.mp hp)
    · obtain ⟨role,hrole,rfl⟩ := hcs p hp
      exact Or.inr (Or.inl (List.mem_map_of_mem hrole))
    · rw [← hall] at hp
      exact (List.mem_cons.mp hp).imp_right Or.inl
  · simp only [tables_append,tables_plain,hroles.tables,List.append_nil,List.nil_append]
    rfl

/-- Every count of the second report is that of all entries. -/
theorem finalReport_counted : ∀ p ∈ counts (finalReport py parts moduleName now entries),
    p.2 = entries.countP (p.1.holds Entry.partsRole) := by
  intro p hp
  rcases (finalReport_spec _ _ _ _ _).2.1 p hp with rfl | hp | hp
  · exact (List.countP_eq_length.mpr fun e _ => rfl).symm
  · obtain ⟨role,-,rfl⟩ := List.mem_map.mp hp
    exact List.countP_eq_length_filter.symm
  · have hactive : entries.countP ((Group.tag true).holds Entry.partsRole) =
        (entries.filter Entry.isActive).length := by
      rw [List.countP_eq_length_filter]
      exact congrArg List.length (List.filter_congr fun e _ => by simp [Group.holds])
    have hall : entries.length = entries.countP Entry.isActive +
        entries.countP fun e => decide ¬e.isActive = true := List.length_eq_countP_add_countP _
    have hpassive : entries.countP ((Group.tag false).holds Entry.partsRole) =
        entries.countP fun e => decide ¬e.isActive = true :=
      List.countP_congr fun e _ => by simp [Group.holds]
    rw [List.countP_eq_length_filter] at hall
    simp only [tagCounts,List.mem_cons,List.not_mem_nil,or_false] at hp
    rcases hp with rfl | rfl
    · exact hactive.symm
    · dsimp only
      omega

variable (py parts moduleName now) in
/-- The sections are the entries with one of the four roles. -/
theorem sections_perm : (sections (finalReport py parts moduleName now entries)).Perm entries ↔
    ∀ e ∈ entries, e.partsRole ∈ roleOrder := by
  rw [(finalReport_spec _ _ _ _ _).1]
  exact flatMap_filter_perm_iff (by decide)

theorem sum_partsRoleCounts :
    ((partsRoleCounts entries).map Prod.snd).sum = (roleOrder.flatMap (ofRole entries)).length := by
  rw [partsRoleCounts,List.map_map,List.length_flatMap]
  rfl

theorem sum_tagCounts : ((tagCounts entries).map Prod.snd).sum = entries.length := by
  have hle := List.length_filter_le Entry.isActive entries
  simp only [tagCounts,List.map_cons,List.map_nil,List.sum_cons,List.sum_nil]
  omega

/-- The second report is complete iff every entry has one of its four roles. -/
theorem finalReport_complete_iff :
    Complete Entry.partsRole (finalReport py parts moduleName now entries) entries ↔
      ∀ e ∈ entries, e.partsRole ∈ roleOrder := by
  rw [← sections_perm py parts moduleName now]
  refine ⟨Complete.once,fun hperm => ⟨hperm,?_,?_⟩⟩
  · intro p hp
    rw [hperm.countP_eq]
    exact finalReport_counted p hp
  · have hroles : ((partsRoleCounts entries).map Prod.snd).sum = entries.length := by
      rw [sum_partsRoleCounts,← (finalReport_spec py parts entries moduleName now).1,
        hperm.length_eq]
    intro table hmem kind
    rw [(finalReport_spec _ _ _ _ _).2.2,List.mem_pair] at hmem
    rw [hperm.length_eq]
    rcases hmem with rfl | rfl
    · cases kind with
      | role => exact Or.inr hroles
      | category => exact Or.inl rfl
      | tag => exact Or.inr sum_tagCounts
    · cases kind with
      | role => exact Or.inr hroles
      | category => exact Or.inl rfl
      | tag => exact Or.inl rfl

variable (parts entries) in
theorem withCallers_roles : (withCallers parts entries).map Entry.partsRole =
    entries.map Entry.partsRole := by
  rw [withCallers,List.map_map]
  refine List.map_congr_left fun e _ => ?_
  dsimp only [Function.comp]
  split
  · split <;> rfl
  · rfl

end Second

/-- The first report is complete iff no taint is a list or an object, which it cannot look up. The
second one is complete iff every entry has one of its four roles. -/
theorem complete_iff (py : PyRuntime) (fmt : Formats) (parts : Parts) (stats : Stats)
    (moduleName now : String) (entries : List Entry) :
    ((∃ report, generateReport py fmt entries moduleName stats now = .ok report ∧
        Complete Entry.role report entries) ↔ ∀ e ∈ entries, e.TaintsHash) ∧
    (Complete Entry.partsRole (generateFinalReportFromParts py parts moduleName now entries)
        (withCallers parts entries) ↔ ∀ e ∈ entries, e.partsRole ∈ roleOrder) := by
  constructor
  · rw [← generateReport_isOk_iff py fmt entries moduleName now stats]
    exact exists_congr fun report => and_iff_left_of_imp generateReport_complete
  · rw [generateFinalReportFromParts,finalReport_complete_iff]
    have hroles := withCallers_roles parts entries
    rw [← List.forall_mem_map (f := Entry.partsRole) (P := (· ∈ roleOrder)),hroles,
      List.forall_mem_map]

/-- An entry of another role. -/
def workerThread : Entry where
  function := some "worker"
  tag := some "P"
  entryRole := some "worker_thread"

/-- The second report counts one entry and one of its tag, and shows none. -/
theorem other_role_not_shown :
    let parts : Parts := ⟨fun _ => none,fun _ => []⟩
    let report := generateFinalReportFromParts plainRuntime parts "net" "2026-01-01 00:00" [workerThread]
    (Group.all,1) ∈ counts report ∧ sections report = [] ∧
      ¬Complete Entry.partsRole report (withCallers parts [workerThread]) := by
  intro parts report
  have hnone : sections report = [] := by decide
  refine ⟨by decide,hnone,fun h => ?_⟩
  have hperm := h.once
  rw [hnone] at hperm
  exact absurd hperm.length_eq (by decide)

end FinalReports
end EntryAnalyse
