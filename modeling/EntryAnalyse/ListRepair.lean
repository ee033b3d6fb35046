import EntryAnalyse.PublishedLists

/-! What `auto_fix_functions_list` does to an entry, field by field: which entries it raises on,
which it drops, which repairs it logs, and which entries it leaves as they are. The log does not
name every repair, so a list whose log is empty is written as it was and may still differ from
the repaired one. -/
namespace EntryAnalyse
namespace FunctionsList

open PyJson PyDict

/-! ## Edits -/

/-- Outside the keys `ks` the two dictionaries agree. -/
def Edits (ks : List String) (d d' : List (String × PyJson)) : Prop :=
  ∀ k, k ∉ ks → get d' k = get d k ∧ ∀ w, Holds d' k w ↔ Holds d k w

section Edits

variable {ks ks' : List String} {d d' d'' : List (String × PyJson)}

theorem edits_refl (ks : List String) (d : List (String × PyJson)) : Edits ks d d :=
  fun _ _ => ⟨rfl,fun _ => Iff.rfl⟩

theorem Edits.trans (h : Edits ks d d') (h' : Edits ks' d' d'') : Edits (ks ++ ks') d d'' := by
  intro k hk
  rw [List.mem_append,not_or] at hk
  obtain ⟨hget,hholds⟩ := h k hk.1
  obtain ⟨hget',hholds'⟩ := h' k hk.2
  exact ⟨hget'.trans hget,fun w => (hholds' w).trans (hholds w)⟩

theorem Edits.mono (h : Edits ks d d') (hks : ks ⊆ ks') : Edits ks' d d' :=
  fun k hk => h k fun hmem => hk (hks hmem)

theorem Edits.field (h : Edits ks d d') {k : String} (hk : k ∉ ks) : field d' k = field d k := by
  rw [PyJson.field,PyJson.field,getD,getD,(h k hk).1]

theorem Edits.holds (h : Edits ks d d') {k : String} (hk : k ∉ ks) {w : PyJson}
    (hw : Holds d k w) : Holds d' k w := ((h k hk).2 w).mpr hw

theorem edits_set (d : List (String × PyJson)) (k : String) (v : PyJson) :
    Edits [k] d (set d k v) := by
  intro k' hk
  have hne : k' ≠ k := by simpa using hk
  exact ⟨get_set_of_ne d v hne,fun w => holds_set_of_ne d v w hne⟩

theorem edits_pop (d : List (String × PyJson)) (k : String) : Edits [k] d (pop d k) := by
  intro k' hk
  have hne : k' ≠ k := by simpa using hk
  exact ⟨get_pop_of_ne d hne,fun w => holds_pop_of_ne d w hne⟩

end Edits

section Steps

variable {py : PyRuntime} {pre : String} {d : List (String × PyJson)}

/-! ## `tag`, `line` and `taints` -/

def hasAt : PyJson → Bool
  | .str s => s.toList.contains '@'
  | _ => false

/-- The tag of an entry with these taints after the repair. -/
def repairedTag (d : List (String × PyJson)) (taints : List PyJson) : PyJson :=
  if isTag (field d "tag") then field d "tag" else .str (if taints.any hasAt then "A" else "P")

def isActive (d : List (String × PyJson)) (taints : List PyJson) : Bool :=
  match repairedTag d taints with
  | .str s => s == "A"
  | _ => false

theorem isTag_cases {v : PyJson} (h : isTag v = true) : v = .str "P" ∨ v = .str "A" := by
  unfold isTag at h
  split at h
  · simpa using h
  · cases h

theorem repairedTag_cases (d : List (String × PyJson)) (taints : List PyJson) :
    repairedTag d taints = .str "P" ∨ repairedTag d taints = .str "A" := by
  unfold repairedTag
  split
  · exact isTag_cases ‹_›
  · split
    · exact .inr rfl
    · exact .inl rfl

/-- The `tag` can be inferred: what the taints are read from can be iterated. -/
def TagReadable (d : List (String × PyJson)) : Prop :=
  isTag (field d "tag") = true ∨ ∃ l, ((field d "taints").or (.list [])).iter = .ok l

theorem iter_taints {taints : List PyJson} (h : field d "taints" = .list taints) :
    ((field d "taints").or (.list [])).iter = .ok taints := by
  rw [h,PyJson.or]
  cases taints with
  | nil => rfl
  | cons t taints => rfl

theorem inferTag_of_list {taints : List PyJson} (h : field d "taints" = .list taints) :
    inferTag d = .ok (if taints.any hasAt then "A" else "P") := by
  unfold inferTag
  rw [iter_taints h]
  rfl

/-- The step for the tag. -/
theorem fixTag_spec (py : PyRuntime) (pre : String) {taints : List PyJson} (h : field d "taints" = .list taints) :
    ∃ d' log, fixTag py pre d = .ok (d',log) ∧ Edits ["tag"] d d' ∧
      field d' "tag" = repairedTag d taints ∧ (log = [] ↔ isTag (field d "tag") = true) := by
  unfold fixTag repairedTag
  by_cases htag : isTag (field d "tag") = true
  · simp only [if_pos htag]
    exact ⟨d,[],rfl,edits_refl _ d,rfl,by simp [htag]⟩
  · simp only [if_neg htag,inferTag_of_list h]
    exact ⟨_,_,rfl,edits_set d "tag" _,field_set_self d "tag" _,by simp [htag]⟩

theorem fixLine_spec (py : PyRuntime) (pre : String) (d : List (String × PyJson)) :
    Edits ["line"] d (fixLine py pre d).1 ∧ (field (fixLine py pre d).1 "line").isInt = true ∧
      ((fixLine py pre d).2 = [] ↔ (field d "line").isInt = true) := by
  unfold fixLine
  by_cases hline : (field d "line").isInt = true
  · simp only [if_pos hline]
    exact ⟨edits_refl _ d,hline,by simp [hline]⟩
  · simp only [if_neg hline]
    exact ⟨edits_set d "line" _,by rw [field_set_self]; rfl,by simp [hline]⟩

/-- The taints that are kept. -/
def goodTaints (taints : List PyJson) : List String := taints.filterMap goodTaint

theorem goodTaint_eq_some {t : PyJson} {s : String} :
    goodTaint t = some s ↔ t = .str s ∧ strip s ≠ "" ∧ taintRe (strip s) = true := by
  unfold goodTaint
  cases t <;> simp
  case str u =>
    constructor
    · rintro ⟨⟨hne,hre⟩,rfl⟩
      exact ⟨rfl,hne,hre⟩
    · rintro ⟨rfl,hne,hre⟩
      exact ⟨⟨hne,hre⟩,rfl⟩

theorem mem_goodTaints {taints : List PyJson} {s : String} :
    s ∈ goodTaints taints ↔ .str s ∈ taints ∧ strip s ≠ "" ∧ taintRe (strip s) = true := by
  unfold goodTaints
  rw [List.mem_filterMap]
  constructor
  · rintro ⟨t,ht,hg⟩
    obtain ⟨rfl,hs⟩ := goodTaint_eq_some.mp hg
    exact ⟨ht,hs⟩
  · rintro ⟨ht,hs⟩
    exact ⟨_,ht,goodTaint_eq_some.mpr ⟨rfl,hs⟩⟩

/-- The kept taints are kept again. -/
theorem goodTaints_good (taints : List PyJson) :
    goodTaints ((goodTaints taints).map .str) = goodTaints taints := by
  have hall : ∀ l : List String, (∀ s ∈ l, strip s ≠ "" ∧ taintRe (strip s) = true) →
      goodTaints (l.map .str) = l := by
    intro l hl
    induction l with
    | nil => rfl
    | cons s l ih =>
      have hs := goodTaint_eq_some.mpr ⟨rfl,hl s List.mem_cons_self⟩
      rw [goodTaints,List.map_cons,List.filterMap_cons_some hs]
      congr 1
      exact ih fun t ht => hl t (List.mem_cons_of_mem s ht)
  exact hall _ fun s hs => (mem_goodTaints.mp hs).2

/-- Nothing is logged about the taints iff all of them are kept. -/
theorem badTaintsLog_eq_nil (py : PyRuntime) (pre : String) (taints : List PyJson) :
    badTaintsLog py pre (taints.filter (isBadTaint (goodTaints taints))) = [] ↔
      ∀ t ∈ taints, (goodTaint t).isSome = true := by
  have hbad : ∀ t ∈ taints, isBadTaint (goodTaints taints) t = false ↔ (goodTaint t).isSome = true := by
    intro t ht
    rw [Option.isSome_iff_exists]
    cases t with
    | str s =>
      simp only [isBadTaint,Bool.not_eq_false',List.contains_iff_mem,mem_goodTaints]
      constructor
      · exact fun h => ⟨s,goodTaint_eq_some.mpr ⟨rfl,h.2⟩⟩
      · rintro ⟨u,hu⟩
        obtain ⟨heq,hs⟩ := goodTaint_eq_some.mp hu
        cases heq
        exact ⟨ht,hs⟩
    | _ => simp [isBadTaint,goodTaint]
  unfold badTaintsLog
  rw [← forall₂_congr hbad]
  by_cases hnil : taints.filter (isBadTaint (goodTaints taints)) = []
  · rw [hnil]
    simpa [List.filter_eq_nil_iff] using hnil
  · have hne : (taints.filter (isBadTaint (goodTaints taints))).isEmpty = false := by
      simpa using hnil
    rw [hne]
    simpa [List.filter_eq_nil_iff] using hnil

/-- An entry whose taints are all dropped is kept if it is active or a name can be read from the
start of some taint. -/
def Kept (d : List (String × PyJson)) (taints : List PyJson) : Prop :=
  goodTaints taints ≠ [] ∨ isActive d taints = true ∨ rescuedTaints taints ≠ []

/-- The entry keeps a taint, or needs none. -/
def Tainted (d : List (String × PyJson)) (taints : List PyJson) : Prop :=
  goodTaints taints ≠ [] ∨ isActive d taints = true

/-- The two results of the branch for an entry without good taints. -/
theorem withoutTaints_spec (py : PyRuntime) (pre : String) {taints : List PyJson} (htag : field d "tag" = .str "P" ∨
    field d "tag" = .str "A") :
    ((withoutTaints py pre d taints).1 = true ↔ field d "tag" = .str "A" ∨
      rescuedTaints taints ≠ []) ∧
    ((withoutTaints py pre d taints).2 = [] ↔ field d "tag" = .str "A") := by
  unfold withoutTaints
  rcases htag with htag | htag
  · rw [htag,py.text_str,if_neg (by decide)]
    cases rescuedTaints taints <;> simp
  · rw [htag,py.text_str,if_pos (by decide)]
    simp

/-! ## `entry_role` and `entry_confidence` -/

def repairedRole (py : PyRuntime) (d : List (String × PyJson)) : String :=
  let role := py.text (field d "entry_role")
  if validEntryRoles.contains role then role else "boundary"

/-- The role is missing or one of the four. -/
def RoleFine (py : PyRuntime) (d : List (String × PyJson)) : Prop :=
  py.text (field d "entry_role") = "" ∨ py.text (field d "entry_role") ∈ validEntryRoles

theorem repairedRole_mem (py : PyRuntime) (d : List (String × PyJson)) :
    repairedRole py d ∈ validEntryRoles := by
  unfold repairedRole
  by_cases h : validEntryRoles.contains (py.text (field d "entry_role")) = true
  · simp only [if_pos h]
    exact List.contains_iff_mem.mp h
  · simp only [if_neg h]
    decide

theorem fixRole_spec (py : PyRuntime) (pre : String) (d : List (String × PyJson)) :
    Edits ["entry_role"] d (fixRole py pre d).1 ∧
      (py.text (field d "entry_role") = "" → (fixRole py pre d).1 = d) ∧
      (py.text (field d "entry_role") ≠ "" →
        Holds (fixRole py pre d).1 "entry_role" (.str (repairedRole py d))) ∧
      ((fixRole py pre d).2 = [] ↔ RoleFine py d) := by
  unfold fixRole repairedRole RoleFine
  by_cases hempty : py.text (field d "entry_role") = ""
  · rw [if_pos hempty]
    exact ⟨edits_refl _ d,fun _ => rfl,fun h => absurd hempty h,by simp [hempty]⟩
  · by_cases hvalid : validEntryRoles.contains (py.text (field d "entry_role")) = true
    · simp only [if_neg hempty,if_pos hvalid]
      exact ⟨edits_set d _ _,fun h => absurd h hempty,fun _ => holds_set_self d _ _,
        by simp [List.contains_iff_mem.mp hvalid]⟩
    · simp only [if_neg hempty,if_neg hvalid]
      refine ⟨edits_set d _ _,fun h => absurd h hempty,fun _ => holds_set_self d _ _,?_⟩
      rw [List.contains_iff_mem] at hvalid
      simp [hempty,hvalid]

/-- The number given as confidence cannot be converted, and the exception is not caught. -/
def Overflows (py : PyRuntime) (d : List (String × PyJson)) : Prop :=
  py.float (field d "entry_confidence") = .error .overflowError

/-- There is no confidence, or it is a number. -/
def ConfidenceFine (py : PyRuntime) (d : List (String × PyJson)) : Prop :=
  field d "entry_confidence" = .null ∨ ∃ x, py.float (field d "entry_confidence") = .ok x

theorem fixConfidence_overflows (h : Overflows py d) :
    fixConfidence py pre d = .error .overflowError := by
  unfold Overflows at h
  unfold fixConfidence
  split
  · rename_i hnull
    rw [hnull] at h
    cases h
  · rw [h]

theorem fixConfidence_of_ne (h : field d "entry_confidence" ≠ .null) :
    fixConfidence py pre d = match py.float (field d "entry_confidence") with
      | .ok v => .ok (PyDict.set d "entry_confidence" (.float (py.round v.clamp)),[])
      | .error .overflowError => .error .overflowError
      | .error _ => .ok (PyDict.pop d "entry_confidence",[pre ++ " entry_confidence=" ++
          py.repr (field d "entry_confidence") ++ " 非法，设置为 None"]) := by
  unfold fixConfidence
  split
  · exact absurd ‹_› h
  · rfl

theorem fixConfidence_spec (pre : String) (h : ¬Overflows py d) :
    ∃ d' log, fixConfidence py pre d = .ok (d',log) ∧ Edits ["entry_confidence"] d d' ∧
      (field d "entry_confidence" = .null → d' = d) ∧
      (field d' "entry_confidence" = .null ∨
        ∃ x, field d "entry_confidence" ≠ .null ∧ py.float (field d "entry_confidence") = .ok x ∧
          Holds d' "entry_confidence" (.float (py.round x.clamp))) ∧
      (log = [] ↔ ConfidenceFine py d) := by
  unfold ConfidenceFine
  by_cases hnull : field d "entry_confidence" = .null
  · refine ⟨d,[],?_,edits_refl _ d,fun _ => rfl,.inl hnull,by simp [hnull]⟩
    rw [fixConfidence,hnull]
  · rw [fixConfidence_of_ne hnull]
    cases hfloat : py.float (field d "entry_confidence") with
    | ok x =>
      exact ⟨_,[],rfl,edits_set d _ _,fun h => absurd h hnull,
        .inr ⟨x,hnull,rfl,holds_set_self d _ _⟩,by simp⟩
    | error e =>
      have hfail : ∃ d' log, (match (Except.error e : Except PyError PyFloat) with
          | .ok v => .ok (PyDict.set d "entry_confidence" (.float (py.round v.clamp)),[])
          | .error .overflowError => .error .overflowError
          | .error _ => .ok (PyDict.pop d "entry_confidence",[pre ++ " entry_confidence=" ++
              py.repr (field d "entry_confidence") ++ " 非法，设置为 None"])) =
            (.ok (d',log) : Except PyError _) ∧ d' = PyDict.pop d "entry_confidence" ∧ log ≠ [] := by
        cases e with
        | overflowError => exact absurd hfloat h
        | _ => exact ⟨_,_,rfl,rfl,by simp⟩
      obtain ⟨d',log,heq,rfl,hlog⟩ := hfail
      exact ⟨_,log,heq,edits_pop d _,fun h => absurd h hnull,.inl (field_pop_self d _),
        by simp [hlog,hnull]⟩

/-! ## Definition and texts -/

def definitionKinds : List String := ["definition","declaration","unknown"]

def repairedKind (py : PyRuntime) (d : List (String × PyJson)) : String :=
  let given := lower (py.text (field d "definition_kind"))
  if definitionKinds.contains given then given
  else if (getD d "is_definition_found" (.bool true)).truthy then "definition" else "unknown"

def repairedFound (py : PyRuntime) (d : List (String × PyJson)) : Bool :=
  (getD d "is_definition_found" (.bool (repairedKind py d == "definition"))).truthy

theorem repairedKind_mem (py : PyRuntime) (d : List (String × PyJson)) :
    repairedKind py d ∈ definitionKinds := by
  unfold repairedKind
  by_cases h : definitionKinds.contains (lower (py.text (field d "definition_kind"))) = true
  · simp only [if_pos h]
    exact List.contains_iff_mem.mp h
  · simp only [if_neg h]
    split <;> decide

theorem repairedKind_of_holds {k : String} (hk : k ∈ definitionKinds)
    (h : Holds d "definition_kind" (.str k)) : repairedKind py d = k := by
  have hgiven : lower (py.text (field d "definition_kind")) = k := by
    rw [field_of_holds h,py.text_str]
    fin_cases hk <;> decide
  unfold repairedKind
  simp only [hgiven,if_pos (List.contains_iff_mem.mpr hk)]

theorem repairedFound_of_holds {b : Bool} (h : Holds d "is_definition_found" (.bool b)) :
    repairedFound py d = b := by
  unfold repairedFound
  rw [getD,h.get]
  rfl

theorem fixDefinition_eq (py : PyRuntime) (d : List (String × PyJson)) :
    fixDefinition py d = PyDict.set (PyDict.set d "definition_kind" (.str (repairedKind py d)))
      "is_definition_found" (.bool (repairedFound py d)) := rfl

theorem fixDefinition_spec (py : PyRuntime) (d : List (String × PyJson)) :
    Edits ["definition_kind","is_definition_found"] d (fixDefinition py d) ∧
      Holds (fixDefinition py d) "definition_kind" (.str (repairedKind py d)) ∧
      Holds (fixDefinition py d) "is_definition_found" (.bool (repairedFound py d)) := by
  rw [fixDefinition_eq]
  refine ⟨(edits_set d _ _).trans (edits_set _ _ _),?_,holds_set_self _ _ _⟩
  rw [holds_set_of_ne _ _ _ (by decide)]
  exact holds_set_self _ _ _

/-- The text of a field, or the default. -/
def repairedText (py : PyRuntime) (d : List (String × PyJson)) (key default : String) : String :=
  if py.text (field d key) = "" then default else py.text (field d key)

def textSource (py : PyRuntime) (d : List (String × PyJson)) (key : String) : String :=
  if py.text (field d key) = "" then "default" else "agent"

theorem fixText_spec (py : PyRuntime) (d : List (String × PyJson)) {key : String}
    (default : String) (hkey : key ++ "_source" ≠ key) :
    Edits [key,key ++ "_source"] d (fixText py d key default) ∧
      Holds (fixText py d key default) key (.str (repairedText py d key default)) ∧
      Holds (fixText py d key default) (key ++ "_source") (.str (textSource py d key)) := by
  have heq : fixText py d key default = PyDict.set (PyDict.set d key
      (.str (repairedText py d key default))) (key ++ "_source") (.str (textSource py d key)) := rfl
  rw [heq]
  refine ⟨(edits_set d _ _).trans (edits_set _ _ _),?_,holds_set_self _ _ _⟩
  rw [holds_set_of_ne _ _ _ hkey.symm]
  exact holds_set_self _ _ _

def descriptionDefault (py : PyRuntime) (d : List (String × PyJson)) : String :=
  defaultFunctionDescription (py.str ((field d "function").or (.str "")))

def reasonDefault (py : PyRuntime) (d : List (String × PyJson)) : String :=
  defaultEntryReason (py.str ((field d "tag").or (.str "")))
    (py.str ((field d "function").or (.str "")))

/-- A character of a text that is given by its characters. -/
theorem mem_toList_ofList {c : Char} {cs : List Char} (h : c ∈ cs) :
    c ∈ (String.ofList cs).toList := by
  rwa [String.toList_ofList]

/-- The default texts are not blank. -/
theorem strip_descriptionDefault (py : PyRuntime) (d : List (String × PyJson)) :
    strip (descriptionDefault py d) ≠ "" := by
  refine strip_ne_empty (c := '是') ?_ (by decide)
  rw [descriptionDefault,defaultFunctionDescription,String.toList_append]
  exact List.mem_append_right _ (mem_toList_ofList (by decide))

theorem strip_reasonDefault (py : PyRuntime) (d : List (String × PyJson)) :
    strip (reasonDefault py d) ≠ "" := by
  refine strip_ne_empty (c := '被') ?_ (by decide)
  unfold reasonDefault defaultEntryReason
  split <;> rw [String.toList_append] <;>
    exact List.mem_append_right _ (mem_toList_ofList (by decide))

theorem fixTexts_spec (py : PyRuntime) (d : List (String × PyJson)) :
    Edits ["function_description","function_description_source","entry_reason",
        "entry_reason_source"] d (fixTexts py d) ∧
      Holds (fixTexts py d) "function_description"
        (.str (repairedText py d "function_description" (descriptionDefault py d))) ∧
      Holds (fixTexts py d) "function_description_source"
        (.str (textSource py d "function_description")) ∧
      Holds (fixTexts py d) "entry_reason"
        (.str (repairedText py d "entry_reason" (reasonDefault py d))) ∧
      Holds (fixTexts py d) "entry_reason_source" (.str (textSource py d "entry_reason")) := by
  obtain ⟨hedit,htext,hsource⟩ := fixText_spec py d (descriptionDefault py d)
    (by decide : "function_description" ++ "_source" ≠ "function_description")
  obtain ⟨hedit',htext',hsource'⟩ := fixText_spec py
    (fixText py d "function_description" (descriptionDefault py d)) (reasonDefault py d)
    (by decide : "entry_reason" ++ "_source" ≠ "entry_reason")
  have heq : fixTexts py d = fixText py
      (fixText py d "function_description" (descriptionDefault py d)) "entry_reason"
      (reasonDefault py d) := by
    rw [reasonDefault,← hedit.field (by decide : "tag" ∉ _)]
    rfl
  have hreason : field (fixText py d "function_description" (descriptionDefault py d))
      "entry_reason" = field d "entry_reason" := hedit.field (by decide)
  rw [heq]
  refine ⟨hedit.trans hedit',hedit'.holds (by decide) htext,hedit'.holds (by decide) hsource,?_,?_⟩
  · rw [repairedText,hreason] at htext'
    exact htext'
  · rw [textSource,hreason] at hsource'
    exact hsource'

/-! ## `taint_details` -/

def detailsOf (d : List (String × PyJson)) : PyJson :=
  (field d "taint_details").or ((field d "taint_descriptions").or (.list []))

def asDict : PyJson → Option (List (String × PyJson))
  | .dict d => some d
  | _ => none

/-- The element of a list of details that counts for a name: the last one that gives it. -/
def lastDetail (py : PyRuntime) (raw : List PyJson) (name : String) :
    Option (List (String × PyJson)) :=
  (raw.filterMap asDict).reverse.find? (fun d => detailName py d = name)

/-- Among the details there is a description of the taint. -/
def describes (py : PyRuntime) (raw : List PyJson) (taint : String) : Bool :=
  (lastDetail py raw (strip taint)).any (fun d => detailText py d != "")

theorem lookup_filterMap_find {α β : Type} (n : α → String) (t : α → β) (l : List α)
    {name : String} (h : name ≠ "") :
    (l.filterMap (fun a => if n a = "" then none else some (n a,t a))).lookup name =
      (l.find? (fun a => n a = name)).map t := by
  induction l with
  | nil => rfl
  | cons a l ih =>
    by_cases hempty : n a = ""
    · have hne : ¬n a = name := fun heq => h (heq.symm.trans hempty)
      rw [List.filterMap_cons_none (by rw [if_pos hempty]),ih,List.find?_cons_of_neg (by simpa)]
    · rw [List.filterMap_cons_some (by rw [if_neg hempty]),List.lookup_cons]
      by_cases hname : n a = name
      · rw [List.find?_cons_of_pos (by simpa),hname]
        simp
      · rw [List.find?_cons_of_neg (by simpa),beq_false_of_ne (Ne.symm hname)]
        exact ih

theorem lookup_rawDetailMap (py : PyRuntime) (raw : List PyJson) {name : String} (h : name ≠ "") :
    (rawDetailMap py raw).lookup name = (lastDetail py raw name).map (detailText py) := by
  have heq : rawDetailMap py raw = (raw.filterMap asDict).reverse.filterMap
      (fun d => if detailName py d = "" then none else some (detailName py d,detailText py d)) := by
    rw [rawDetailMap,← List.filterMap_reverse,← List.filterMap_reverse,List.filterMap_filterMap]
    congr 1
    funext v
    cases v <;> simp only [asDict,Option.bind_some,Option.bind_none]
  rw [heq,lookup_filterMap_find _ _ _ h]
  rfl

def listedSource (py : PyRuntime) (d : List (String × PyJson)) : String :=
  descriptionSource (py.text (field d "description_source")) (detailText py d)

theorem lookup_detailMap (py : PyRuntime) (raw : List PyJson) {name : String} (h : name ≠ "") :
    (detailMap py (.list raw)).lookup name = (lastDetail py raw name).map fun d =>
      taintDetail (detailName py d) (detailText py d) (listedSource py d)
        (py.text (field d "source_kind")) := by
  have heq : detailMap py (.list raw) = (raw.filterMap asDict).reverse.filterMap
      (fun d => if detailName py d = "" then none else some (detailName py d,
        taintDetail (detailName py d) (detailText py d) (listedSource py d)
          (py.text (field d "source_kind")))) := by
    rw [detailMap,← List.filterMap_reverse,← List.filterMap_reverse,List.filterMap_filterMap]
    congr 1
    funext v
    cases v <;> simp only [listedDetail,asDict,listedSource,Option.bind_some,Option.bind_none]
  rw [heq,lookup_filterMap_find _ _ _ h]
  rfl

/-- The element of the repaired list for a taint. -/
def repairedDetail (py : PyRuntime) (details : PyJson) (raw : List PyJson) (taint : String) :
    List (String × PyJson) :=
  PyDict.set (normalizeTaintDetail py details taint) "description_source"
    (.str (if describes py raw taint then "agent" else "default"))

theorem normalizeTaintDetail_name (py : PyRuntime) (details : PyJson) (taint : String) :
    field (normalizeTaintDetail py details taint) "name" = .str taint := by
  unfold normalizeTaintDetail
  have hset : ∀ d : List (String × PyJson), field (PyDict.set d "name" (.str taint)) "name" =
    .str taint := fun d => field_set_self d "name" _
  dsimp only
  split <;> split <;> split <;>
    simp only [field_pop_of_ne _ (by decide : "name" ≠ "source_kind"),
      field_set_of_ne _ _ (by decide : "name" ≠ "source_kind"),
      field_set_of_ne _ _ (by decide : "name" ≠ "description_source"),
      field_set_of_ne _ _ (by decide : "name" ≠ "description"),hset]

theorem fixDetails_eq (py : PyRuntime) {raw : List PyJson} {good : List String}
    (hgood : ∀ s ∈ good, strip s ≠ "") (h : (detailsOf d).iter = .ok raw) :
    fixDetails py good d = .ok (PyDict.set d "taint_details"
      (.list (good.map fun s => .dict (repairedDetail py (detailsOf d) raw s)))) := by
  have hany : ∀ o : Option (List (String × PyJson)),
      ((o.map (detailText py)).getD "" != "") = o.any (fun d => detailText py d != "") := by
    intro o
    cases o <;> simp
  have hmap : (normalizeTaintDetails py good (detailsOf d)).map (fun d' =>
      PyJson.dict (PyDict.set d' "description_source" (.str (if ((rawDetailMap py raw).lookup
        (py.text (field d' "name"))).getD "" != "" then "agent" else "default")))) =
      good.map fun s => .dict (repairedDetail py (detailsOf d) raw s) := by
    rw [normalizeTaintDetails,List.map_map]
    apply List.map_congr_left
    intro s hs
    have hname : (((rawDetailMap py raw).lookup (py.text (field
        (normalizeTaintDetail py (detailsOf d) s) "name"))).getD "" != "") =
        describes py raw s := by
      rw [normalizeTaintDetail_name,py.text_str,lookup_rawDetailMap py raw (hgood s hs),hany]
      rfl
    rw [Function.comp_apply,repairedDetail,hname]
  unfold fixDetails
  simp only [← hmap]
  unfold detailsOf at h ⊢
  rw [h]
  rfl

/-! ## One entry -/

/-- The fields that are repaired. -/
def repairedKeys : List String :=
  ["tag","line","taints","entry_role","entry_confidence","definition_kind","is_definition_found",
    "function_description","function_description_source","entry_reason","entry_reason_source",
    "taint_details"]

/-- `d'` is what the repair makes of the entry `d`, except for the details. -/
structure Repaired (py : PyRuntime) (d : List (String × PyJson)) (taints : List PyJson)
    (d' : List (String × PyJson)) : Prop where
  edits : Edits repairedKeys d d'
  tag : field d' "tag" = repairedTag d taints
  line : (field d' "line").isInt = true
  kept : Holds d' "taints" (.list ((goodTaints taints).map .str))
  roleEmpty : py.text (field d "entry_role") = "" → field d' "entry_role" = field d "entry_role"
  role : py.text (field d "entry_role") ≠ "" →
    Holds d' "entry_role" (.str (repairedRole py d))
  confidence : field d' "entry_confidence" = .null ∨
    ∃ x, field d "entry_confidence" ≠ .null ∧ py.float (field d "entry_confidence") = .ok x ∧
      Holds d' "entry_confidence" (.float (py.round x.clamp))
  kind : Holds d' "definition_kind" (.str (repairedKind py d))
  found : Holds d' "is_definition_found" (.bool (repairedFound py d))
  description : Holds d' "function_description"
    (.str (repairedText py d "function_description" (descriptionDefault py d)))
  descriptionSource : Holds d' "function_description_source"
    (.str (textSource py d "function_description"))
  reason : ∃ default, strip default ≠ "" ∧
    Holds d' "entry_reason" (.str (repairedText py d "entry_reason" default))
  reasonSource : Holds d' "entry_reason_source" (.str (textSource py d "entry_reason"))

/-- Nothing is logged about the entry. -/
structure Quiet (py : PyRuntime) (d : List (String × PyJson)) (taints : List PyJson) : Prop where
  tag : isTag (field d "tag") = true
  line : (field d "line").isInt = true
  good : ∀ t ∈ taints, (goodTaint t).isSome = true
  tainted : Tainted d taints
  role : RoleFine py d
  confidence : ConfidenceFine py d

/-- The entry after the repair of its tag and its line, and what is done with it then. -/
theorem fixItem_head (py : PyRuntime) (pre : String) {taints : List PyJson} (h : field d "taints" = .list taints) :
    ∃ x log, Edits ["tag","line"] d x ∧ field x "tag" = repairedTag d taints ∧
      (field x "line").isInt = true ∧
      (log = [] ↔ isTag (field d "tag") = true ∧ (field d "line").isInt = true) ∧
      fixItem py pre d =
        let good := goodTaints taints
        let badLog := badTaintsLog py pre (taints.filter (isBadTaint good))
        let branch := if good.isEmpty then withoutTaints py pre x taints else (true,[])
        if branch.1 then do
          let role := fixRole py pre (PyDict.set x "taints" (.list (good.map .str)))
          let c ← fixConfidence py pre role.1
          let y ← fixDetails py good (fixTexts py (fixDefinition py c.1))
          pure (some (.dict y),log ++ badLog ++ branch.2 ++ role.2 ++ c.2)
        else pure (none,log ++ badLog ++ branch.2) := by
  obtain ⟨d',log,htag,hedit,hval,hlog⟩ := fixTag_spec py pre h
  obtain ⟨hline,hint,hlog'⟩ := fixLine_spec py pre d'
  have htaints : field (fixLine py pre d').1 "taints" = .list taints := by
    rw [hline.field (by decide),hedit.field (by decide),h]
  refine ⟨(fixLine py pre d').1,log ++ (fixLine py pre d').2,hedit.trans hline,?_,hint,?_,?_⟩
  · rw [hline.field (by decide),hval]
  · rw [List.append_eq_nil_iff,hlog,hlog',hedit.field (by decide)]
  · unfold fixItem
    rw [htag]
    dsimp only [bind,Except.bind]
    rw [htaints]
    dsimp only
    have hgood : taints.filterMap goodTaint = goodTaints taints := rfl
    rw [hgood]

/-- Where the branch for missing taints leads. -/
theorem branch_spec (py : PyRuntime) (pre : String) {taints : List PyJson} {x : List (String × PyJson)}
    (htag : field x "tag" = repairedTag d taints) :
    ((if (goodTaints taints).isEmpty then withoutTaints py pre x taints else (true,[])).1 = true ↔
      Kept d taints) ∧
    (Kept d taints →
      ((if (goodTaints taints).isEmpty then withoutTaints py pre x taints else (true,[])).2 = [] ↔
        Tainted d taints)) ∧
    (¬Kept d taints →
      (if (goodTaints taints).isEmpty then withoutTaints py pre x taints else (true,[])).2 ≠ []) := by
  unfold Kept Tainted
  have hactive : field x "tag" = .str "A" ↔ isActive d taints = true := by
    rw [htag,isActive]
    rcases repairedTag_cases d taints with h | h <;> rw [h] <;> simp
  by_cases hgood : goodTaints taints = []
  · have hcases : field x "tag" = .str "P" ∨ field x "tag" = .str "A" := by
      rw [htag]
      exact repairedTag_cases d taints
    obtain ⟨hkept,hlog⟩ := withoutTaints_spec py pre hcases
    rw [hactive] at hkept hlog
    rw [hgood,List.isEmpty_nil,if_pos rfl]
    refine ⟨by rw [hkept]; simp,fun _ => by rw [hlog]; simp,fun hnot => ?_⟩
    rw [Ne,hlog]
    intro hact
    exact hnot (.inr (.inl hact))
  · have hempty : (goodTaints taints).isEmpty = false := by simpa using hgood
    rw [hempty]
    simp [hgood]

theorem fixItem_dropped (py : PyRuntime) (pre : String) {taints : List PyJson} (h : field d "taints" = .list taints)
    (hk : ¬Kept d taints) : ∃ log, log ≠ [] ∧ fixItem py pre d = .ok (none,log) := by
  obtain ⟨x,log,-,htag,-,-,heq⟩ := fixItem_head py pre h
  obtain ⟨hkept,-,hlog⟩ := branch_spec py pre htag
  rw [heq]
  dsimp only
  rw [if_neg (fun hb => hk (hkept.mp hb))]
  refine ⟨_,?_,rfl⟩
  intro hnil
  exact hlog hk (List.append_eq_nil_iff.mp hnil).2

theorem fixItem_overflows {taints : List PyJson} (h : field d "taints" = .list taints)
    (hk : Kept d taints) (ho : Overflows py d) :
    fixItem py pre d = .error .overflowError := by
  obtain ⟨x,log,hedit,htag,-,-,heq⟩ := fixItem_head py pre h
  obtain ⟨hkept,-,-⟩ := branch_spec py pre htag
  obtain ⟨hrole,-⟩ := fixRole_spec py pre
    (PyDict.set x "taints" (.list ((goodTaints taints).map .str)))
  rw [heq]
  dsimp only
  rw [if_pos (hkept.mpr hk),fixConfidence_overflows]
  · rfl
  · rw [Overflows,((hedit.trans (edits_set x _ _)).trans hrole).field (by decide)]
    exact ho

theorem detailsOf_edits {ks : List String} {d' : List (String × PyJson)} (h : Edits ks d d')
    (hk : "taint_details" ∉ ks ∧ "taint_descriptions" ∉ ks) : detailsOf d' = detailsOf d := by
  rw [detailsOf,detailsOf,h.field hk.1,h.field hk.2]

theorem fixDetails_error {good : List String} {e : PyError} (h : (detailsOf d).iter = .error e) :
    fixDetails py good d = .error e := by
  unfold fixDetails
  unfold detailsOf at h
  simp only [h]
  rfl

/-- An entry that is kept reaches its details. -/
theorem fixItem_reaches (pre : String) {taints : List PyJson} (h : field d "taints" = .list taints)
    (hk : Kept d taints) (ho : ¬Overflows py d) :
    ∃ x log, Repaired py d taints x ∧ detailsOf x = detailsOf d ∧ (log = [] ↔ Quiet py d taints) ∧
      fixItem py pre d = (fixDetails py (goodTaints taints) x).bind
        fun y => .ok (some (.dict y),log) := by
  obtain ⟨x,log,hedit,htag,hline,hlog,heq⟩ := fixItem_head py pre h
  obtain ⟨hkept,hbranch,-⟩ := branch_spec py pre htag
  have hbad := badTaintsLog_eq_nil py pre taints
  have hset := edits_set x "taints" (.list ((goodTaints taints).map .str))
  have hgood := holds_set_self x "taints" (.list ((goodTaints taints).map .str))
  generalize hx₃ : PyDict.set x "taints" (.list ((goodTaints taints).map .str)) = x₃ at hset hgood
  have h₃ := hedit.trans hset
  obtain ⟨hroleEdit,hrole₀,hrole₁,hroleLog⟩ := fixRole_spec py pre x₃
  have h₄ := h₃.trans hroleEdit
  have hroleText : field x₃ "entry_role" = field d "entry_role" := h₃.field (by decide)
  have hconfText : field (fixRole py pre x₃).1 "entry_confidence" =
    field d "entry_confidence" := h₄.field (by decide)
  have hoverflow : ¬Overflows py (fixRole py pre x₃).1 := by
    rw [Overflows,hconfText]
    exact ho
  obtain ⟨x₅,confLog,hconf,hconfEdit,-,hconfVal,hconfLog⟩ :=
    fixConfidence_spec pre hoverflow
  have h₅ := h₄.trans hconfEdit
  obtain ⟨hdef,hkind,hfound⟩ := fixDefinition_spec py x₅
  have h₆ := h₅.trans hdef
  obtain ⟨htexts,hdesc,hdescSource,hreason,hreasonSource⟩ :=
    fixTexts_spec py (fixDefinition py x₅)
  have h₇ := h₆.trans htexts
  have hfunction : descriptionDefault py (fixDefinition py x₅) = descriptionDefault py d := by
    rw [descriptionDefault,h₆.field (by decide)]
    rfl
  have hrepaired : Repaired py d taints (fixTexts py (fixDefinition py x₅)) :=
    { edits := h₇.mono (by decide)
      tag := by
        rw [htexts.field (by decide),hdef.field (by decide),hconfEdit.field (by decide),
          hroleEdit.field (by decide),hset.field (by decide),htag]
      line := by
        rw [htexts.field (by decide),hdef.field (by decide),hconfEdit.field (by decide),
          hroleEdit.field (by decide),hset.field (by decide)]
        exact hline
      kept := htexts.holds (by decide) (hdef.holds (by decide) (hconfEdit.holds (by decide)
        (hroleEdit.holds (by decide) hgood)))
      roleEmpty := by
        intro hempty
        rw [← hroleText] at hempty
        rw [htexts.field (by decide),hdef.field (by decide),hconfEdit.field (by decide),
          hrole₀ hempty,hroleText]
      role := by
        intro hne
        rw [← hroleText] at hne
        have hrole := hrole₁ hne
        rw [repairedRole,hroleText] at hrole
        exact htexts.holds (by decide) (hdef.holds (by decide) (hconfEdit.holds (by decide) hrole))
      confidence := by
        rw [hconfText] at hconfVal
        rcases hconfVal with hnull | ⟨v,hne,hv,hholds⟩
        · refine .inl ?_
          rw [htexts.field (by decide),hdef.field (by decide),hnull]
        · exact .inr ⟨v,hne,hv,htexts.holds (by decide) (hdef.holds (by decide) hholds)⟩
      kind := by
        rw [repairedKind,h₅.field (by decide),getD,(h₅ "is_definition_found" (by decide)).1] at hkind
        exact htexts.holds (by decide) hkind
      found := by
        rw [repairedFound,repairedKind,h₅.field (by decide),getD,getD,
          (h₅ "is_definition_found" (by decide)).1] at hfound
        exact htexts.holds (by decide) hfound
      description := by
        rw [repairedText,h₆.field (by decide),hfunction] at hdesc
        exact hdesc
      descriptionSource := by
        rw [textSource,h₆.field (by decide)] at hdescSource
        exact hdescSource
      reason := by
        rw [repairedText,h₆.field (by decide)] at hreason
        exact ⟨_,strip_reasonDefault py _,hreason⟩
      reasonSource := by
        rw [textSource,h₆.field (by decide)] at hreasonSource
        exact hreasonSource }
  let branch := if (goodTaints taints).isEmpty then withoutTaints py pre x taints else (true,[])
  refine ⟨fixTexts py (fixDefinition py x₅),
    log ++ badTaintsLog py pre (taints.filter (isBadTaint (goodTaints taints))) ++ branch.2 ++
      (fixRole py pre x₃).2 ++ confLog,hrepaired,?_,?_,?_⟩
  · rw [detailsOf,detailsOf,h₇.field (by decide),h₇.field (by decide)]
  · rw [List.append_eq_nil_iff,List.append_eq_nil_iff,List.append_eq_nil_iff,
      List.append_eq_nil_iff,hlog,hbad,hbranch hk,hroleLog,hconfLog]
    rw [RoleFine,hroleText,ConfidenceFine,hconfText]
    constructor
    · rintro ⟨⟨⟨⟨⟨htag,hline⟩,hgood⟩,htainted⟩,hrole⟩,hconf⟩
      exact ⟨htag,hline,hgood,htainted,hrole,hconf⟩
    · rintro ⟨htag,hline,hgood,htainted,hrole,hconf⟩
      exact ⟨⟨⟨⟨⟨htag,hline⟩,hgood⟩,htainted⟩,hrole⟩,hconf⟩
  · rw [heq]
    dsimp only
    rw [if_pos (hkept.mpr hk),hx₃,hconf]
    rfl

theorem Repaired.set_details {taints : List PyJson} {x : List (String × PyJson)}
    (h : Repaired py d taints x) (v : PyJson) :
    Repaired py d taints (PyDict.set x "taint_details" v) := by
  have hset := edits_set x "taint_details" v
  exact
    { edits := (h.edits.trans hset).mono (by decide)
      tag := (hset.field (by decide)).trans h.tag
      line := by
        rw [hset.field (by decide)]
        exact h.line
      kept := hset.holds (by decide) h.kept
      roleEmpty := fun hempty => (hset.field (by decide)).trans (h.roleEmpty hempty)
      role := fun hne => hset.holds (by decide) (h.role hne)
      confidence := by
        rcases h.confidence with hnull | ⟨v,hne,hv,hholds⟩
        · exact .inl ((hset.field (by decide)).trans hnull)
        · exact .inr ⟨v,hne,hv,hset.holds (by decide) hholds⟩
      kind := hset.holds (by decide) h.kind
      found := hset.holds (by decide) h.found
      description := hset.holds (by decide) h.description
      descriptionSource := hset.holds (by decide) h.descriptionSource
      reason := by
        obtain ⟨default,hdefault,hholds⟩ := h.reason
        exact ⟨default,hdefault,hset.holds (by decide) hholds⟩
      reasonSource := hset.holds (by decide) h.reasonSource }

theorem strip_goodTaints (taints : List PyJson) : ∀ s ∈ goodTaints taints, strip s ≠ "" :=
  fun _ hs => (mem_goodTaints.mp hs).2.1

/-- The list of details that the repair writes. -/
def repairedDetails (py : PyRuntime) (d : List (String × PyJson)) (taints raw : List PyJson) :
    PyJson :=
  .list ((goodTaints taints).map fun s => .dict (repairedDetail py (detailsOf d) raw s))

theorem fixItem_kept (pre : String) {taints raw : List PyJson} (h : field d "taints" = .list taints)
    (hk : Kept d taints) (ho : ¬Overflows py d) (hraw : (detailsOf d).iter = .ok raw) :
    ∃ d' log, fixItem py pre d = .ok (some (.dict d'),log) ∧ (log = [] ↔ Quiet py d taints) ∧
      Repaired py d taints d' ∧ Holds d' "taint_details" (repairedDetails py d taints raw) := by
  obtain ⟨x,log,hrepaired,hdetails,hlog,heq⟩ := fixItem_reaches pre h hk ho
  have hraw' : (detailsOf x).iter = .ok raw := by
    rw [hdetails]
    exact hraw
  have hset := fixDetails_eq py (strip_goodTaints taints) hraw'
  rw [hdetails] at hset
  refine ⟨_,log,?_,hlog,hrepaired.set_details (repairedDetails py d taints raw),
    holds_set_self x "taint_details" _⟩
  rw [heq,hset]
  rfl

theorem fixItem_error (pre : String) {taints : List PyJson} {e : PyError} (h : field d "taints" = .list taints)
    (hk : Kept d taints) (ho : ¬Overflows py d) (hraw : (detailsOf d).iter = .error e) :
    fixItem py pre d = .error e := by
  obtain ⟨x,log,-,hdetails,-,heq⟩ := fixItem_reaches pre h hk ho
  rw [← hdetails] at hraw
  rw [heq,fixDetails_error hraw]
  rfl

end Steps

/-! ## One element -/

/-- The repair of the element ends in an exception: its taints, or its details, are read but
cannot be iterated, or its confidence is too large for a double. -/
def Raises (py : PyRuntime) (x : PyJson) : Prop :=
  ∃ d, x = .dict d ∧ get d "_error" = none ∧ (¬TagReadable d ∨
    ∃ taints, field d "taints" = .list taints ∧ Kept d taints ∧
      (Overflows py d ∨ ∃ e, (detailsOf d).iter = .error e))

/-- The element is an entry about which nothing is logged. -/
def Silent (py : PyRuntime) (x : PyJson) : Prop :=
  ∃ d taints, x = .dict d ∧ get d "_error" = none ∧ field d "taints" = .list taints ∧
    Quiet py d taints

/-- The element is not among the repaired ones. -/
def Dropped (x : PyJson) : Prop :=
  ∀ d taints, x = .dict d → get d "_error" = none → field d "taints" = .list taints →
    ¬Kept d taints

theorem Dropped.not_silent {py : PyRuntime} {x : PyJson} (h : Dropped x) : ¬Silent py x := by
  rintro ⟨d,taints,rfl,herror,htaints,hquiet⟩
  refine h d taints rfl herror htaints ?_
  rcases hquiet.tainted with hgood | hactive
  · exact .inl hgood
  · exact .inr (.inl hactive)

/-- What becomes of an element. -/
inductive Fate (py : PyRuntime) (x : PyJson) :
    Except PyError (Option PyJson × List String) → Prop
  | raises (e : PyError) : Raises py x → Fate py x (.error e)
  | dropped (log : List String) : ¬Raises py x → Dropped x → log ≠ [] → Fate py x (.ok (none,log))
  | kept (d : List (String × PyJson)) (taints raw : List PyJson) (d' : List (String × PyJson))
      (log : List String) : x = .dict d → get d "_error" = none →
      field d "taints" = .list taints → Kept d taints → ¬Raises py x →
      (detailsOf d).iter = .ok raw → (log = [] ↔ Quiet py d taints) → Repaired py d taints d' →
      Holds d' "taint_details" (repairedDetails py d taints raw) →
      Fate py x (.ok (some (.dict d'),log))

theorem fixItem_unreadable (py : PyRuntime) (pre : String) {d : List (String × PyJson)}
    (h : ¬TagReadable d) : ∃ e, fixItem py pre d = .error e := by
  unfold TagReadable at h
  rw [not_or] at h
  cases hiter : ((field d "taints").or (.list [])).iter with
  | ok l => exact absurd ⟨l,hiter⟩ h.2
  | error e =>
    refine ⟨e,?_⟩
    unfold fixItem fixTag inferTag
    rw [if_neg h.1,hiter]
    rfl

/-- An entry whose taints are not a list is dropped. -/
theorem fixItem_unlisted (py : PyRuntime) (pre : String) {d : List (String × PyJson)}
    (hread : TagReadable d) (h : ∀ taints, field d "taints" ≠ .list taints) :
    ∃ log, log ≠ [] ∧ fixItem py pre d = .ok (none,log) := by
  have htag : ∃ d' log, fixTag py pre d = .ok (d',log) ∧ Edits ["tag"] d d' := by
    unfold fixTag
    by_cases htag : isTag (field d "tag") = true
    · exact ⟨d,[],if_pos htag,edits_refl _ d⟩
    · obtain ⟨l,hl⟩ := hread.resolve_left htag
      simp only [if_neg htag,inferTag,hl]
      exact ⟨_,_,rfl,edits_set d "tag" _⟩
  obtain ⟨d',log,htag,hedit⟩ := htag
  obtain ⟨hline,-⟩ := fixLine_spec py pre d'
  have hnot : ∀ taints, field (fixLine py pre d').1 "taints" ≠ .list taints := by
    intro taints heq
    rw [hline.field (by decide),hedit.field (by decide)] at heq
    exact h taints heq
  refine ⟨log ++ (fixLine py pre d').2 ++ [pre ++ " taints 不是数组，跳过条目"],by simp,?_⟩
  unfold fixItem
  rw [htag]
  dsimp only [bind,Except.bind]
  split
  · exact absurd ‹_› (hnot _)
  · rfl

theorem fixElement_fate (py : PyRuntime) (i : ℕ) (x : PyJson) :
    Fate py x (fixElement py i x) := by
  have hother : (∀ d, x ≠ .dict d) → ∀ log, log ≠ [] → Fate py x (.ok (none,log)) := by
    intro hx log hlog
    refine .dropped log ?_ ?_ hlog
    · rintro ⟨d,hd,-⟩
      exact hx d hd
    · exact fun d _ hd => absurd hd (hx d)
  cases x with
  | dict d =>
    cases herror : get d "_error" with
    | some v =>
      have heq : fixElement py i (.dict d) =
          .ok (none,["[" ++ toString i ++ "]" ++ " 跳过含 _error 字段的条目"]) := by
        simp [fixElement,herror]
      rw [heq]
      refine .dropped _ ?_ ?_ (by simp)
      · rintro ⟨d',hd,hnone,-⟩
        cases hd
        rw [hnone] at herror
        cases herror
      · intro d' taints hd hnone
        cases hd
        rw [hnone] at herror
        cases herror
    | none =>
      have heq : fixElement py i (.dict d) = fixItem py ("[" ++ toString i ++ "]") d := by
        simp [fixElement,herror]
      rw [heq]
      by_cases hread : TagReadable d
      · by_cases hlist : ∃ taints, field d "taints" = .list taints
        · obtain ⟨taints,htaints⟩ := hlist
          by_cases hkept : Kept d taints
          · by_cases hover : Overflows py d
            · rw [fixItem_overflows htaints hkept hover]
              exact .raises _ ⟨d,rfl,herror,.inr ⟨taints,htaints,hkept,.inl hover⟩⟩
            · cases hraw : (detailsOf d).iter with
              | error e =>
                rw [fixItem_error _ htaints hkept hover hraw]
                exact .raises e ⟨d,rfl,herror,.inr ⟨taints,htaints,hkept,.inr ⟨e,hraw⟩⟩⟩
              | ok raw =>
                obtain ⟨d',log,hfix,hlog,hrepaired,hdetails⟩ :=
                  fixItem_kept ("[" ++ toString i ++ "]") htaints hkept hover hraw
                rw [hfix]
                refine .kept d taints raw d' log rfl herror htaints hkept ?_ hraw hlog hrepaired
                  hdetails
                rintro ⟨d₁,hd,-,hnot | ⟨taints₁,-,-,hover₁ | ⟨e,he⟩⟩⟩
                · cases hd
                  exact hnot hread
                · cases hd
                  exact hover hover₁
                · cases hd
                  rw [hraw] at he
                  cases he
          · obtain ⟨log,hlog,hfix⟩ :=
              fixItem_dropped py ("[" ++ toString i ++ "]") htaints hkept
            rw [hfix]
            have hdrop : Dropped (.dict d) := by
              intro d₁ taints₁ hd _ htaints₁
              cases hd
              rw [htaints] at htaints₁
              cases htaints₁
              exact hkept
            refine .dropped log ?_ hdrop hlog
            rintro ⟨d₁,hd,hnone,hnot | ⟨taints₁,htaints₁,hkept₁,-⟩⟩
            · cases hd
              exact hnot hread
            · exact hdrop d₁ taints₁ hd hnone htaints₁ hkept₁
        · have hnot : ∀ taints, field d "taints" ≠ .list taints :=
            fun taints heq => hlist ⟨taints,heq⟩
          obtain ⟨log,hlog,hfix⟩ :=
            fixItem_unlisted py ("[" ++ toString i ++ "]") hread hnot
          rw [hfix]
          refine .dropped log ?_ ?_ hlog
          · rintro ⟨d₁,hd,-,hun | ⟨taints₁,htaints₁,-⟩⟩
            · cases hd
              exact hun hread
            · cases hd
              exact hnot taints₁ htaints₁
          · intro d₁ taints₁ hd _ htaints₁
            cases hd
            exact absurd htaints₁ (hnot taints₁)
      · obtain ⟨e,he⟩ := fixItem_unreadable py ("[" ++ toString i ++ "]") hread
        rw [he]
        exact .raises e ⟨d,rfl,herror,.inl hread⟩
  | _ => exact hother (by simp) _ (by simp)

/-! ## Details that describe their taints -/

section Details

variable {py : PyRuntime}

theorem text_or {v w : PyJson} (h : py.text v ≠ "") : v.or w = v := by
  unfold PyJson.or
  by_cases htrue : v.truthy = true
  · rw [if_pos htrue]
  · refine absurd ?_ h
    rw [PyRuntime.text,PyJson.or,if_neg htrue]
    rfl

def taintDefault (taint : String) : String :=
  "参数 `" ++ taint ++ "` 被识别为外部可控污点，需要在下游继续追踪其传播与使用。"

theorem strip_taintDefault (taint : String) : strip (taintDefault taint) = taintDefault taint := by
  have hlast : "` 被识别为外部可控污点，需要在下游继续追踪其传播与使用。".toList.getLast? = some '。' :=
    (congrArg List.getLast? String.toList_ofList).trans rfl
  have hfirst : "参数 `".toList.head? = some '参' :=
    (congrArg List.head? String.toList_ofList).trans rfl
  refine strip_of_ends (c := '参') (e := '。') (by decide) (by decide) ?_ ?_
  · rw [taintDefault,String.toList_append,String.toList_append,List.append_assoc,
      List.head?_append,hfirst]
    rfl
  · rw [taintDefault,String.toList_append,List.getLast?_append,hlast]
    rfl

theorem taintDefault_ne (taint : String) : taintDefault taint ≠ "" := by
  intro h
  have hmem : '参' ∈ (taintDefault taint).toList := by
    rw [taintDefault,String.toList_append,String.toList_append]
    exact List.mem_append_left _ (List.mem_append_left _ (mem_toList_ofList (by decide)))
  rw [h] at hmem
  cases hmem

/-- Every element of the normalized list has a description. -/
theorem normalizeTaintDetail_description (py : PyRuntime) (details : PyJson) (taint : String) :
    py.text (field (normalizeTaintDetail py details taint) "description") ≠ "" := by
  unfold normalizeTaintDetail
  dsimp only
  generalize PyDict.set (((detailMap py details).lookup taint).getD []) "name" (.str taint) = d
  have hrest : ∀ x : List (String × PyJson), py.text (field x "description") ≠ "" →
      py.text (field (if py.text (field
        (if py.text (field x "description_source") = "" then
          PyDict.set x "description_source" (.str "default") else x) "source_kind") = "" then
        PyDict.pop (if py.text (field x "description_source") = "" then
          PyDict.set x "description_source" (.str "default") else x) "source_kind"
      else PyDict.set (if py.text (field x "description_source") = "" then
          PyDict.set x "description_source" (.str "default") else x) "source_kind"
        (.str (py.text (field (if py.text (field x "description_source") = "" then
          PyDict.set x "description_source" (.str "default") else x) "source_kind"))))
        "description") ≠ "" := by
    intro x hx
    split <;> split <;>
      simpa only [field_pop_of_ne _ (by decide : "description" ≠ "source_kind"),
        field_set_of_ne _ _ (by decide : "description" ≠ "source_kind"),
        field_set_of_ne _ _ (by decide : "description" ≠ "description_source")] using hx
  apply hrest
  by_cases hd : py.text (field d "description") = ""
  · rw [if_pos hd,field_set_self,py.text_str]
    have hne := taintDefault_ne taint
    rw [← strip_taintDefault taint] at hne
    exact hne
  · rw [if_neg hd]
    exact hd

/-- A list in which each taint has an element with its name and a description describes them. -/
theorem describes_map {l : List String} {m : String → List (String × PyJson)}
    (hname : ∀ s ∈ l, field (m s) "name" = .str s)
    (hdesc : ∀ s ∈ l, py.text (field (m s) "description") ≠ "")
    (hl : ∀ s ∈ l, strip s ≠ "") {s : String} (hs : s ∈ l) :
    describes py (l.map fun s => .dict (m s)) s = true := by
  have hdetail : ∀ t ∈ l, detailName py (m t) = strip t ∧ detailText py (m t) ≠ "" := by
    intro t ht
    have htext : py.text (field (m t) "name") ≠ "" := by
      rw [hname t ht,py.text_str]
      exact hl t ht
    rw [detailName,text_or htext,hname t ht,py.text_str,detailText,text_or (hdesc t ht)]
    exact ⟨rfl,hdesc t ht⟩
  have hfilter : (l.map fun s => PyJson.dict (m s)).filterMap asDict = l.map m := by
    have hsome : asDict ∘ (fun s => PyJson.dict (m s)) = some ∘ m := rfl
    rw [List.filterMap_map,hsome,List.filterMap_eq_map]
  unfold describes lastDetail
  rw [hfilter]
  cases hfind : (l.map m).reverse.find? (fun d => detailName py d = strip s) with
  | none =>
    have hnone := List.find?_eq_none.mp hfind (m s)
      (List.mem_reverse.mpr (List.mem_map_of_mem hs))
    rw [(hdetail s hs).1] at hnone
    simp at hnone
  | some x =>
    have hx := List.mem_reverse.mp (List.mem_of_find?_eq_some hfind)
    obtain ⟨t,ht,rfl⟩ := List.mem_map.mp hx
    simpa using (hdetail t ht).2

end Details

/-! ## Entries that the repair leaves as they are -/

/-- The fields of the entry have the form in which the repair would write them. -/
structure Settled (py : PyRuntime) (d : List (String × PyJson)) (taints : List PyJson) :
    Prop where
  kept : Holds d "taints" (.list ((goodTaints taints).map .str))
  role : py.text (field d "entry_role") = "" ∨
    ∃ r ∈ validEntryRoles, Holds d "entry_role" (.str r)
  confidence : field d "entry_confidence" = .null ∨
    ∃ x, Holds d "entry_confidence" (.float x) ∧ py.round x.clamp = x
  kind : ∃ k ∈ definitionKinds, Holds d "definition_kind" (.str k)
  found : ∃ b, Holds d "is_definition_found" (.bool b)
  description : ∃ s, s ≠ "" ∧ strip s = s ∧ Holds d "function_description" (.str s)
  descriptionSource : Holds d "function_description_source" (.str "agent")
  reason : ∃ s, s ≠ "" ∧ strip s = s ∧ Holds d "entry_reason" (.str s)
  reasonSource : Holds d "entry_reason_source" (.str "agent")
  details : Holds d "taint_details" (.list ((goodTaints taints).map fun s => .dict (PyDict.set
    (normalizeTaintDetail py (field d "taint_details") s) "description_source" (.str "agent"))))

section Settled

variable {py : PyRuntime} {pre : String} {d : List (String × PyJson)} {taints raw : List PyJson}

/-- What `detailsOf` gives when the details are a list with an element for each kept taint. -/
theorem detailsOf_of_holds {l : List PyJson} (h : Holds d "taint_details" (.list l))
    (hl : l ≠ []) : detailsOf d = .list l := by
  have htrue : (PyJson.list l).truthy = true := by
    cases l with
    | nil => exact absurd rfl hl
    | cons v l => rfl
  rw [detailsOf,field_of_holds h,PyJson.or,if_pos htrue]

/-- The details of a settled entry describe its taints, and they are their own repair. -/
theorem Settled.holds_details (h : Settled py d taints) (hraw : (detailsOf d).iter = .ok raw) :
    Holds d "taint_details" (repairedDetails py d taints raw) := by
  have hsame : repairedDetails py d taints raw = .list ((goodTaints taints).map fun s =>
      .dict (PyDict.set (normalizeTaintDetail py (field d "taint_details") s)
        "description_source" (.str "agent"))) := by
    refine congrArg PyJson.list (List.map_congr_left ?_)
    intro s hs
    have hne : ((goodTaints taints).map fun s => PyJson.dict (PyDict.set
        (normalizeTaintDetail py (field d "taint_details") s) "description_source"
        (.str "agent"))) ≠ [] := by
      intro hnil
      rw [List.map_eq_nil_iff.mp hnil] at hs
      cases hs
    have hdetails := detailsOf_of_holds h.details hne
    have hfield : field d "taint_details" = detailsOf d :=
      (field_of_holds h.details).trans hdetails.symm
    have hrawEq : raw = (goodTaints taints).map fun s => PyJson.dict (PyDict.set
        (normalizeTaintDetail py (field d "taint_details") s) "description_source"
        (.str "agent")) := by
      rw [hdetails] at hraw
      cases hraw
      rfl
    have hdescribes : describes py raw s = true := by
      rw [hrawEq]
      refine describes_map ?_ ?_ (strip_goodTaints taints) hs
      · intro t _
        rw [field_set_of_ne _ _ (by decide),normalizeTaintDetail_name]
      · intro t _
        rw [field_set_of_ne _ _ (by decide)]
        exact normalizeTaintDetail_description py _ t
    rw [repairedDetail,hdescribes,if_pos rfl,hfield]
  rw [hsame]
  exact h.details

theorem Settled.fixRole (h : Settled py d taints) : (fixRole py pre d).1 = d := by
  obtain ⟨-,hempty,hset,-⟩ := fixRole_spec py pre d
  by_cases hne : py.text (field d "entry_role") = ""
  · exact hempty hne
  · obtain ⟨r,hr,hholds⟩ := h.role.resolve_left hne
    have htext : py.text (field d "entry_role") = r := by
      rw [field_of_holds hholds,py.text_str]
      fin_cases hr <;> decide
    have hrole := hset hne
    have hval : repairedRole py d = r := by
      simp only [repairedRole,htext,if_pos (List.contains_iff_mem.mpr hr)]
    rw [htext] at hne
    simp only [FunctionsList.fixRole,htext,if_neg hne,if_pos (List.contains_iff_mem.mpr hr)]
    exact set_of_holds hholds

theorem Settled.fixConfidence (pre : String) (h : Settled py d taints) :
    ∃ log, fixConfidence py pre d = .ok (d,log) := by
  rcases h.confidence with hnull | ⟨x,hholds,hround⟩
  · refine ⟨[],?_⟩
    rw [FunctionsList.fixConfidence,hnull]
  · have hfield := field_of_holds hholds
    have hne : field d "entry_confidence" ≠ .null := by
      rw [hfield]
      simp
    refine ⟨[],?_⟩
    rw [fixConfidence_of_ne hne,hfield,PyRuntime.float]
    dsimp only
    rw [hround,set_of_holds hholds]

theorem Settled.fixDefinition (h : Settled py d taints) : fixDefinition py d = d := by
  obtain ⟨k,hk,hkind⟩ := h.kind
  obtain ⟨b,hfound⟩ := h.found
  rw [fixDefinition_eq,repairedKind_of_holds hk hkind,repairedFound_of_holds hfound,
    set_of_holds hkind,set_of_holds hfound]

theorem fixText_of_holds {key s : String} (default : String) (hne : s ≠ "") (hstrip : strip s = s)
    (hholds : Holds d key (.str s)) (hsource : Holds d (key ++ "_source") (.str "agent")) :
    fixText py d key default = d := by
  have hraw : py.text (field d key) = s := by rw [field_of_holds hholds,py.text_str,hstrip]
  simp only [fixText,hraw,if_neg hne]
  rw [set_of_holds hholds,set_of_holds hsource]

theorem Settled.fixTexts (h : Settled py d taints) : fixTexts py d = d := by
  obtain ⟨s,hne,hstrip,hholds⟩ := h.description
  obtain ⟨t,hne',hstrip',hholds'⟩ := h.reason
  have hdesc : fixText py d _ _ = d := fixText_of_holds (descriptionDefault py d) hne hstrip hholds h.descriptionSource
  have hreason : fixText py d _ _ = d := fixText_of_holds (reasonDefault py d) hne' hstrip' hholds' h.reasonSource
  unfold descriptionDefault at hdesc
  unfold reasonDefault at hreason
  unfold FunctionsList.fixTexts
  dsimp only
  rw [hdesc,hreason]

/-- An entry about which nothing is logged, and which is settled, is left as it is. -/
theorem fixItem_settled (pre : String) (h : field d "taints" = .list taints) (hq : Quiet py d taints)
    (hs : Settled py d taints) (hraw : (detailsOf d).iter = .ok raw) :
    ∃ log, fixItem py pre d = .ok (some (.dict d),log) := by
  have htag : fixTag py pre d = .ok (d,[]) := if_pos hq.tag
  have hline : fixLine py pre d = (d,[]) := if_pos hq.line
  have hgood : taints.filterMap goodTaint = goodTaints taints := rfl
  have hkept : Kept d taints := hq.tainted.imp_right .inl
  have htagVal : field d "tag" = repairedTag d taints := by rw [repairedTag,if_pos hq.tag]
  have hbranch := (branch_spec py pre htagVal).1.mpr hkept
  obtain ⟨log,hconf⟩ := hs.fixConfidence pre
  have hdetails : fixDetails py (goodTaints taints) d = .ok d := by
    rw [fixDetails_eq py (strip_goodTaints taints) hraw]
    exact congrArg _ (set_of_holds (hs.holds_details hraw))
  refine ⟨?log,?_⟩
  rotate_left
  · unfold fixItem
    rw [htag]
    dsimp only [bind,Except.bind]
    rw [hline,h]
    dsimp only
    rw [hgood,if_pos hbranch,set_of_holds hs.kept,hs.fixRole,hconf]
    dsimp only
    rw [hs.fixDefinition,hs.fixTexts,hdetails]
    rfl

end Settled

/-- A field that is its own repair has a text. -/
theorem text_ne_of_repaired {py : PyRuntime} {d : List (String × PyJson)} {key default : String}
    (hdefault : strip default ≠ "") (h : Holds d key (.str (repairedText py d key default))) :
    py.text (field d key) ≠ "" := by
  intro hempty
  have hself := field_of_holds h
  rw [repairedText,if_pos hempty] at hself
  rw [hself,py.text_str] at hempty
  exact hdefault hempty

theorem exists_text_of_repaired {py : PyRuntime} {d : List (String × PyJson)}
    {key default : String} (hdefault : strip default ≠ "")
    (h : Holds d key (.str (repairedText py d key default))) :
    ∃ s, s ≠ "" ∧ strip s = s ∧ Holds d key (.str s) := by
  have hne := text_ne_of_repaired hdefault h
  rw [repairedText,if_neg hne] at h
  exact ⟨_,hne,py.strip_text _,h⟩

/-- An entry that is its own repair is settled. -/
theorem settled_of_repaired {py : PyRuntime} {d : List (String × PyJson)}
    {taints raw : List PyJson} (h : Repaired py d taints d)
    (hdetails : Holds d "taint_details" (repairedDetails py d taints raw))
    (hraw : (detailsOf d).iter = .ok raw) : Settled py d taints := by
  have hdescription := text_ne_of_repaired (strip_descriptionDefault py d) h.description
  obtain ⟨default,hdefault,hreasonHolds⟩ := h.reason
  have hreason := text_ne_of_repaired hdefault hreasonHolds
  exact
    { kept := h.kept
      role := by
        by_cases hne : py.text (field d "entry_role") = ""
        · exact .inl hne
        · exact .inr ⟨_,repairedRole_mem py d,h.role hne⟩
      confidence := by
        rcases h.confidence with hnull | ⟨v,-,hv,hholds⟩
        · exact .inl hnull
        · rw [field_of_holds hholds,PyRuntime.float] at hv
          have heq := Except.ok.inj hv
          rw [heq] at hholds
          exact .inr ⟨v,hholds,heq⟩
      kind := ⟨_,repairedKind_mem py d,h.kind⟩
      found := ⟨_,h.found⟩
      description := exists_text_of_repaired (strip_descriptionDefault py d) h.description
      descriptionSource := by
        have hsource := h.descriptionSource
        rw [textSource,if_neg hdescription] at hsource
        exact hsource
      reason := exists_text_of_repaired hdefault hreasonHolds
      reasonSource := by
        have hsource := h.reasonSource
        rw [textSource,if_neg hreason] at hsource
        exact hsource
      details := by
        have hsame : repairedDetails py d taints raw = .list ((goodTaints taints).map fun s =>
            .dict (PyDict.set (normalizeTaintDetail py (field d "taint_details") s)
              "description_source" (.str "agent"))) := by
          refine congrArg PyJson.list (List.map_congr_left ?_)
          intro s hs
          have hne : ((goodTaints taints).map fun s =>
              PyJson.dict (repairedDetail py (detailsOf d) raw s)) ≠ [] := by
            intro hnil
            rw [List.map_eq_nil_iff.mp hnil] at hs
            cases hs
          have hof := detailsOf_of_holds hdetails hne
          have hfield : field d "taint_details" = detailsOf d :=
            (field_of_holds hdetails).trans hof.symm
          have hrawEq : raw = (goodTaints taints).map fun s =>
              PyJson.dict (repairedDetail py (detailsOf d) raw s) := by
            have hiter := congrArg PyJson.iter hof
            rw [hraw] at hiter
            exact Except.ok.inj hiter
          have hdescribes : describes py raw s = true := by
            rw [hrawEq]
            refine describes_map ?_ ?_ (strip_goodTaints taints) hs
            · intro t _
              rw [repairedDetail,field_set_of_ne _ _ (by decide),normalizeTaintDetail_name]
            · intro t _
              rw [repairedDetail,field_set_of_ne _ _ (by decide)]
              exact normalizeTaintDetail_description py _ t
          rw [repairedDetail,hdescribes,if_pos rfl,hfield]
        rw [← hsame]
        exact hdetails }

/-! ## The list that is written -/

/-- The whole list: every element has its result, and none raises. -/
theorem autoFix_ok {py : PyRuntime} {items fixed : List PyJson} {log : List String}
    (h : autoFixFunctionsList py items = .ok (fixed,log)) :
    ∃ rs, List.Forall₂ (fun x r => ∃ i, fixElement py i x = .ok r) items rs ∧
      fixed = rs.filterMap Prod.fst ∧ log = rs.flatMap Prod.snd := by
  unfold autoFixFunctionsList at h
  cases hm : items.zipIdx.mapM (fun p => fixElement py p.2 p.1) with
  | error e =>
    rw [hm] at h
    cases h
  | ok rs =>
    rw [hm] at h
    cases h
    refine ⟨rs,?_,rfl,rfl⟩
    have hfst : items = items.zipIdx.map Prod.fst := (List.zipIdx_map_fst 0 items).symm
    rw [hfst,List.forall₂_map_left_iff]
    exact (mapM_ok_iff.mp hm).imp fun p r hr => ⟨p.2,hr⟩

theorem autoFix_error {py : PyRuntime} {items : List PyJson} {e : PyError}
    (h : autoFixFunctionsList py items = .error e) : ∃ x ∈ items, Raises py x := by
  unfold autoFixFunctionsList at h
  cases hm : items.zipIdx.mapM (fun p => fixElement py p.2 p.1) with
  | ok rs =>
    rw [hm] at h
    cases h
  | error e' =>
    obtain ⟨p,hp,hfix⟩ := mapM_error hm
    have hfate := fixElement_fate py p.2 p.1
    rw [hfix] at hfate
    cases hfate with
    | raises _ hraise => exact ⟨p.1,List.fst_mem_of_mem_zipIdx hp,hraise⟩

/-- The element is an entry in the form in which the repair would write it. -/
def SettledElement (py : PyRuntime) (x : PyJson) : Prop :=
  ∀ d taints, x = .dict d → field d "taints" = .list taints → Settled py d taints

section Written

variable {py : PyRuntime} {i : ℕ} {x : PyJson} {r : Option PyJson × List String}

theorem not_raises_of_ok (h : fixElement py i x = .ok r) : ¬Raises py x := by
  have hfate := fixElement_fate py i x
  rw [h] at hfate
  cases hfate with
  | dropped log hnot => exact hnot
  | kept d taints raw d' log hx herror htaints hkept hnot => exact hnot

theorem log_eq_nil_iff (h : fixElement py i x = .ok r) : r.2 = [] ↔ Silent py x := by
  have hfate := fixElement_fate py i x
  rw [h] at hfate
  cases hfate with
  | dropped log hnot hdrop hlog => exact ⟨fun hnil => absurd hnil hlog,
      fun hs => absurd hs hdrop.not_silent⟩
  | kept d taints raw d' log hx herror htaints hkept hnot hraw hlog =>
    constructor
    · exact fun hnil => ⟨d,taints,hx,herror,htaints,hlog.mp hnil⟩
    · rintro ⟨d₁,taints₁,hx₁,-,htaints₁,hquiet⟩
      rw [hx] at hx₁
      cases hx₁
      rw [htaints] at htaints₁
      cases htaints₁
      exact hlog.mpr hquiet

/-- An entry about which nothing is logged is kept, and it is unchanged iff it is settled. -/
theorem kept_unchanged_iff (h : fixElement py i x = .ok r) (hs : Silent py x) :
    ∃ y, r.1 = some y ∧ (y = x ↔ SettledElement py x) := by
  have hfate := fixElement_fate py i x
  have hfix := h
  rw [h] at hfate
  cases hfate with
  | dropped log hnot hdrop => exact absurd hs hdrop.not_silent
  | kept d taints raw d' log hx herror htaints hkept hnot hraw hlog hrepaired hdetails =>
    refine ⟨_,rfl,?_⟩
    subst hx
    have hlist : ∀ taints₁, field d "taints" = .list taints₁ → taints₁ = taints := by
      intro taints₁ htaints₁
      rw [htaints] at htaints₁
      exact (PyJson.list.inj htaints₁).symm
    constructor
    · intro heq d₁ taints₁ hd htaints₁
      cases hd
      cases heq
      rw [hlist taints₁ htaints₁]
      exact settled_of_repaired hrepaired hdetails hraw
    · intro hsettled
      obtain ⟨d₁,taints₁,hd,-,htaints₁,hquiet⟩ := hs
      cases hd
      rw [hlist taints₁ htaints₁] at hquiet
      obtain ⟨log',hitem⟩ := fixItem_settled ("[" ++ toString i ++ "]") htaints hquiet
        (hsettled d taints rfl htaints) hraw
      have helement : fixElement py i (.dict d) = fixItem py ("[" ++ toString i ++ "]") d := by
        simp [fixElement,herror]
      rw [helement,hitem] at hfix
      cases hfix
      rfl

theorem logs_eq_nil_iff {items : List PyJson} {rs : List (Option PyJson × List String)}
    (h : List.Forall₂ (fun x r => ∃ i, fixElement py i x = .ok r) items rs) :
    rs.flatMap Prod.snd = [] ↔ ∀ x ∈ items, Silent py x := by
  induction h with
  | nil => simp
  | cons hr _ ih =>
    obtain ⟨i,hr⟩ := hr
    rw [List.flatMap_cons,List.append_eq_nil_iff,log_eq_nil_iff hr,ih,List.forall_mem_cons]

theorem unchanged_iff {items : List PyJson} {rs : List (Option PyJson × List String)}
    (h : List.Forall₂ (fun x r => ∃ i, fixElement py i x = .ok r) items rs)
    (hs : ∀ x ∈ items, Silent py x) :
    rs.filterMap Prod.fst = items ↔ ∀ x ∈ items, SettledElement py x := by
  induction h with
  | nil => simp
  | cons hr _ ih =>
    obtain ⟨i,hr⟩ := hr
    rw [List.forall_mem_cons] at hs
    obtain ⟨y,hy,hiff⟩ := kept_unchanged_iff hr hs.1
    rw [List.filterMap_cons_some hy,List.cons.injEq,hiff,ih hs.2,List.forall_mem_cons]

end Written

end FunctionsList
end EntryAnalyse
