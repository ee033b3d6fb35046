import EntryAnalyse.ListRepair

/-! The list that is published. It is the repaired one only if the log of the repair is not
empty. -/
namespace EntryAnalyse
namespace FunctionsList

open PyJson PyDict

section Validate

variable {py : PyRuntime}

theorem confidenceErrors_ok (pre : String) {conf : PyJson}
    (h : py.float conf ≠ .error .overflowError) :
    ∃ errors, confidenceErrors py pre conf = .ok errors := by
  unfold confidenceErrors
  split
  · exact ⟨_,rfl⟩
  · split
    · exact ⟨_,rfl⟩
    · exact absurd ‹_› h
    · exact ⟨_,rfl⟩

theorem or_list {taints : List PyJson} : (PyJson.list taints).or (.list []) = .list taints := by
  cases taints with
  | nil => rfl
  | cons t taints => rfl

theorem detailErrors_ok (py : PyRuntime) (pre : String) {d : List (String × PyJson)} {taints : List PyJson}
    (h : field d "taints" = .list taints) : ∃ errors, detailErrors py pre d = .ok errors := by
  unfold detailErrors
  rw [h,or_list]
  split
  · dsimp only [len,iter,bind,Except.bind]
    split
    · exact ⟨_,rfl⟩
    · exact ⟨_,rfl⟩
  · exact ⟨_,rfl⟩

/-- The check raises nothing on an entry whose taints are a list and whose confidence can be
converted. -/
theorem validateElement_ok {i : ℕ} {d : List (String × PyJson)} {taints : List PyJson}
    (h : field d "taints" = .list taints) (ho : ¬Overflows py d) :
    ∃ errors, validateElement py i (.dict d) = .ok errors := by
  unfold validateElement
  dsimp only
  split
  · exact ⟨_,rfl⟩
  · obtain ⟨confidence,hconfidence⟩ := confidenceErrors_ok ("[" ++ toString i ++ "]") ho
    obtain ⟨details,hdetails⟩ := detailErrors_ok py ("[" ++ toString i ++ "]") h
    unfold validateItem
    rw [hconfidence,hdetails]
    exact ⟨_,rfl⟩

theorem validateList_ok (py : PyRuntime) {l : List PyJson}
    (h : ∀ x ∈ l, ∃ d taints, x = .dict d ∧ field d "taints" = .list taints ∧
      ¬Overflows py d) : ∃ errors, validateFunctionsList py l = .ok errors := by
  cases l with
  | nil => exact ⟨_,rfl⟩
  | cons y items =>
    have hall : ∀ p ∈ (y :: items).zipIdx,
        ∃ errors, validateElement py p.2 p.1 = .ok errors := by
      intro p hp
      obtain ⟨d,taints,hd,htaints,hover⟩ := h p.1 (List.fst_mem_of_mem_zipIdx hp)
      rw [hd]
      exact validateElement_ok htaints hover
    obtain ⟨errors,herrors⟩ := mapM_isOk hall
    unfold validateFunctionsList
    dsimp only
    rw [herrors]
    exact ⟨_,rfl⟩

end Validate

section Published

variable {py : PyRuntime}

/-- What comes out of the repair can be checked. -/
theorem repaired_checkable {i : ℕ} {x : PyJson} {r : Option PyJson × List String}
    (h : fixElement py i x = .ok r) {y : PyJson} (hy : r.1 = some y) :
    ∃ d taints, y = .dict d ∧ field d "taints" = .list taints ∧ ¬Overflows py d := by
  have hfate := fixElement_fate py i x
  rw [h] at hfate
  cases hfate with
  | dropped => cases hy
  | kept d taints raw d' log hx herror htaints hkept hnot hraw hlog hrepaired =>
    refine ⟨d',_,(Option.some.inj hy).symm,field_of_holds hrepaired.kept,?_⟩
    unfold Overflows
    rcases hrepaired.confidence with hnull | ⟨v,-,-,hholds⟩
    · rw [hnull]
      simp [PyRuntime.float]
    · rw [field_of_holds hholds]
      simp [PyRuntime.float]

/-- So can an entry about which nothing is logged. -/
theorem silent_checkable {x : PyJson} (h : Silent py x) (hnot : ¬Raises py x) :
    ∃ d taints, x = .dict d ∧ field d "taints" = .list taints ∧ ¬Overflows py d := by
  obtain ⟨d,taints,rfl,herror,htaints,hquiet⟩ := h
  refine ⟨d,taints,rfl,htaints,fun hover => hnot ⟨d,rfl,herror,.inr ⟨taints,htaints,?_,.inl hover⟩⟩⟩
  exact hquiet.tainted.imp_right .inl

/-- The published list is the repaired one exactly when something is logged, or every entry has
the form that the repair gives it. -/
theorem published_is_fixed_iff (py : PyRuntime) (ext : List PyJson) :
    fixedEntries py ext = (autoFixFunctionsList py ext).map Prod.fst ↔
      (∃ x ∈ ext, Raises py x) ∨ (∃ x ∈ ext, ¬Silent py x) ∨
        ∀ x ∈ ext, SettledElement py x := by
  by_cases hnil : ext = []
  · rw [hnil]
    exact ⟨fun _ => .inr (.inr (by simp)),fun _ => rfl⟩
  have hempty : ext.isEmpty = false := by simpa using hnil
  unfold fixedEntries
  rw [hempty,if_neg (by simp)]
  cases hfix : autoFixFunctionsList py ext with
  | error e => exact ⟨fun _ => .inl (autoFix_error hfix),fun _ => rfl⟩
  | ok p =>
    obtain ⟨fixed,log⟩ := p
    obtain ⟨rs,hrs,rfl,rfl⟩ := autoFix_ok hfix
    have hraise : ∀ x ∈ ext, ¬Raises py x := by
      intro x hx
      obtain ⟨r,-,i,hr⟩ := forall₂_mem_left hrs hx
      exact not_raises_of_ok hr
    have hlogs := logs_eq_nil_iff hrs
    have hleft : (∃ x ∈ ext, Raises py x) ↔ False :=
      iff_false_intro fun h => hraise _ h.choose_spec.1 h.choose_spec.2
    rw [hleft,false_or]
    by_cases hlog : rs.flatMap Prod.snd = []
    · have hsilent := hlogs.mp hlog
      have hnone : ¬∃ x ∈ ext, ¬Silent py x := fun h =>
        h.choose_spec.2 (hsilent _ h.choose_spec.1)
      obtain ⟨errors,herrors⟩ := validateList_ok py (l := ext) fun x hx =>
        silent_checkable (hsilent x hx) (hraise x hx)
      rw [or_iff_right hnone,← unchanged_iff hrs hsilent,hlog]
      dsimp only [bind,Except.bind,Except.map]
      rw [List.isEmpty_nil,if_pos rfl,herrors]
      exact ⟨fun h => (Except.ok.inj h).symm,fun h => congrArg Except.ok h.symm⟩
    · have hsome : ∃ x ∈ ext, ¬Silent py x := by
        by_contra hnone
        push Not at hnone
        exact hlog (hlogs.mpr hnone)
      obtain ⟨errors,herrors⟩ := validateList_ok py (l := rs.filterMap Prod.fst) (by
        intro y hy
        obtain ⟨r,hr,hry⟩ := List.mem_filterMap.mp hy
        obtain ⟨x,-,i,hfix⟩ := forall₂_mem_right hrs hr
        exact repaired_checkable hfix hry)
      have hlogEmpty : (rs.flatMap Prod.snd).isEmpty = false := by simpa using hlog
      dsimp only [bind,Except.bind,Except.map]
      rw [hlogEmpty,if_neg (by simp),herrors]
      exact ⟨fun _ => .inl hsome,fun _ => rfl⟩

end Published

/-- An entry as it is flattened when the agent gave no texts. -/
def bareEntry : PyJson := .dict
  [("tag",.str "P"),("file",.str "/src/recv.c"),("line",.int 10),
    ("function",.str "on_msg"),("taints",.list [.str "msg"]),("function_description",.str ""),
    ("entry_reason",.str ""),("taint_details",.list []),("func_hash",.str "b9a4a82cac75"),
    ("signature",.str "void on_msg(char *msg)"),("start_line",.int 10),("end_line",.int 12),
    ("body_lines",.int 3),("entry_category",.str "外部入口")]

/-- Some entry of the list has a description. -/
def describedEntry (l : List PyJson) : Bool :=
  l.any fun
    | .dict d => (match field d "function_description" with | .str s => s != "" | _ => false)
    | _ => false

/-- The repair fills in the texts and logs nothing, so the list is written without them. -/
theorem unlogged_repair_not_published :
    ∃ fixed, autoFixFunctionsList plainRuntime [bareEntry] = .ok (fixed,[]) ∧
      describedEntry fixed = true ∧
      fixedEntries plainRuntime [bareEntry] = .ok [bareEntry] ∧ fixed ≠ [bareEntry] := by
  have hrun : (match autoFixFunctionsList plainRuntime [bareEntry],
      validateFunctionsList plainRuntime [bareEntry] with
    | .ok (fixed,log),.ok _ => log.isEmpty && describedEntry fixed
    | _,_ => false) = true := by decide +kernel
  have hbare : describedEntry [bareEntry] = false := by decide +kernel
  cases hfix : autoFixFunctionsList plainRuntime [bareEntry] with
  | error e =>
    rw [hfix] at hrun
    cases hrun
  | ok p =>
    obtain ⟨fixed,log⟩ := p
    cases hvalid : validateFunctionsList plainRuntime [bareEntry] with
    | error e =>
      rw [hfix,hvalid] at hrun
      cases hrun
    | ok errors =>
      rw [hfix,hvalid] at hrun
      simp only [Bool.and_eq_true,List.isEmpty_iff] at hrun
      obtain ⟨rfl,hdescribed⟩ := hrun
      refine ⟨fixed,rfl,hdescribed,?_,?_⟩
      · unfold fixedEntries
        rw [hfix]
        dsimp only [bind,Except.bind,List.isEmpty_nil,List.isEmpty_cons]
        rw [if_neg (by simp),if_pos rfl,hvalid]
        rfl
      · rintro rfl
        rw [hbare] at hdescribed
        cases hdescribed

end FunctionsList
end EntryAnalyse
