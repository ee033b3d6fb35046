import EntryAnalyse.FixedList
import Mathlib.Data.List.Find

/-! The repaired list as input of the check and of a second repair. -/
namespace EntryAnalyse
namespace FunctionsList

open PyJson PyDict

/-! ## Numbers -/

/-- `round(x, 2)` stays in the unit interval, and rounding twice is rounding once. -/
def RoundsUnit (py : PyRuntime) : Prop :=
  ∀ q : ℚ, 0 ≤ q → q ≤ 1 → 0 ≤ py.round2 q ∧ py.round2 q ≤ 1 ∧
    py.round2 (py.round2 q) = py.round2 q

theorem exists_clamp (x : PyFloat) : ∃ q : ℚ, x.clamp = .finite q ∧ 0 ≤ q ∧ q ≤ 1 := by
  cases x with
  | finite q => exact ⟨max 0 (min 1 q),rfl,le_max_left _ _,max_le zero_le_one (min_le_left _ _)⟩
  | posInf => exact ⟨1,rfl,zero_le_one,le_refl _⟩
  | negInf => exact ⟨0,rfl,le_refl _,zero_le_one⟩
  | nan => exact ⟨1,rfl,zero_le_one,le_refl _⟩

theorem clamp_unit {q : ℚ} (h0 : 0 ≤ q) (h1 : q ≤ 1) : (PyFloat.finite q).clamp = .finite q := by
  rw [PyFloat.clamp,min_eq_right h1,max_eq_right h0]

/-- A confidence that was repaired is in range, and it is its own repair. -/
theorem round_clamp {py : PyRuntime} (hround : RoundsUnit py) (x : PyFloat) :
    (py.round x.clamp).inUnit = true ∧
      py.round (py.round x.clamp).clamp = py.round x.clamp := by
  obtain ⟨q,hq,h0,h1⟩ := exists_clamp x
  obtain ⟨hr0,hr1,hrr⟩ := hround q h0 h1
  rw [hq,PyRuntime.round,clamp_unit hr0 hr1,PyRuntime.round,hrr]
  exact ⟨by simp [PyFloat.inUnit,hr0,hr1],rfl⟩

/-! ## Details in their final form -/

/-- The element of a repaired list for a taint that is described. -/
def agentDetail (taint desc kind : String) : List (String × PyJson) :=
  taintDetail taint desc "agent" kind

section Details

variable {py : PyRuntime} {raw : List PyJson} {s : String}

/-! The element of a detail list as a dictionary. -/

section Element

variable {name desc source kind : String}

theorem set_name (t : String) : PyDict.set (taintDetail name desc source kind) "name" (.str t) =
    taintDetail t desc source kind := by
  unfold taintDetail
  split_ifs <;> rfl

theorem field_description : field (taintDetail name desc source kind) "description" = .str desc :=
  rfl

theorem field_descriptionSource (hs : source ≠ "") :
    field (taintDetail name desc source kind) "description_source" = .str source := by
  unfold taintDetail
  rw [if_neg hs]
  rfl

theorem set_descriptionSource (hs : source ≠ "") {t : String} (ht : t ≠ "") :
    PyDict.set (taintDetail name desc source kind) "description_source" (.str t) =
      taintDetail name desc t kind := by
  unfold taintDetail
  rw [if_neg hs,if_neg ht]
  split_ifs <;> rfl

theorem text_sourceKind (py : PyRuntime) (name desc source kind : String) :
    py.text (field (taintDetail name desc source kind) "source_kind") = strip kind := by
  have hfield : field (taintDetail name desc source kind) "source_kind" =
      if kind = "" then .null else .str kind := by
    unfold taintDetail
    split_ifs <;> rfl
  rw [hfield]
  split
  · rename_i hk
    rw [py.text_null,hk]
    decide
  · rw [py.text_str]

theorem set_sourceKind (hk : kind ≠ "") :
    PyDict.set (taintDetail name desc source kind) "source_kind" (.str kind) =
      taintDetail name desc source kind := by
  unfold taintDetail
  rw [if_neg hk]
  split_ifs <;> rfl

theorem pop_sourceKind : PyDict.pop (taintDetail name desc source "") "source_kind" =
    taintDetail name desc source "" := by
  unfold taintDetail
  rw [if_pos rfl]
  split_ifs <;> rfl

end Element

theorem agentDetail_inj {taint desc kind desc' kind' : String} :
    agentDetail taint desc kind = agentDetail taint desc' kind' ↔ desc = desc' ∧ kind = kind' := by
  constructor
  · intro h
    unfold agentDetail taintDetail at h
    by_cases hk : kind = "" <;> by_cases hk' : kind' = "" <;> simp [hk,hk'] at h ⊢
    all_goals exact h
  · rintro ⟨rfl,rfl⟩
    rfl

theorem strip_detailName (d : List (String × PyJson)) :
    strip (detailName py d) = detailName py d := py.strip_text _

theorem lastDetail_some {x : List (String × PyJson)} (h : lastDetail py raw s = some x) :
    detailName py x = s := by
  simpa using List.find?_some h

/-- A taint with white space at an end has no element under its own name. -/
theorem lastDetail_padded (py : PyRuntime) (raw : List PyJson) (hs : strip s ≠ s) :
    lastDetail py raw s = none := by
  cases h : lastDetail py raw s with
  | none => rfl
  | some x =>
    have hname := lastDetail_some h
    refine absurd ?_ hs
    rw [← hname]
    exact strip_detailName x

/-- The normalized element before its source is overwritten. -/
theorem normalize_of_last {x : List (String × PyJson)} (hs : s ≠ "")
    (h : lastDetail py raw s = some x) (hx : detailText py x ≠ "") :
    PyDict.set (normalizeTaintDetail py (.list raw) s) "description_source" (.str "agent") =
        agentDetail s (detailText py x) (py.text (field x "source_kind")) ∧
      field (normalizeTaintDetail py (.list raw) s) "description" = .str (detailText py x) ∧
      py.text (field (normalizeTaintDetail py (.list raw) s) "source_kind") =
        py.text (field x "source_kind") := by
  have hlookup := lookup_detailMap py raw hs
  rw [h,Option.map_some,lastDetail_some h] at hlookup
  have hdesc : strip (detailText py x) = detailText py x := py.strip_text _
  have hkind : strip (py.text (field x "source_kind")) = py.text (field x "source_kind") :=
    py.strip_text _
  have hsource : listedSource py x ≠ "" ∧ strip (listedSource py x) = listedSource py x := by
    unfold listedSource descriptionSource
    by_cases hgiven : py.text (field x "description_source") = ""
    · rw [if_pos hgiven,if_neg hx]
      decide
    · rw [if_neg hgiven]
      exact ⟨hgiven,py.strip_text _⟩
  generalize detailText py x = desc at *
  generalize py.text (field x "source_kind") = kind at *
  generalize listedSource py x = source at *
  obtain ⟨hsource,hsourceStrip⟩ := hsource
  have htextDesc : py.text (field (taintDetail s desc source kind) "description") ≠ "" := by
    rw [field_description,py.text_str,hdesc]
    exact hx
  have htextSource : py.text (field (taintDetail s desc source kind) "description_source") ≠ "" := by
    rw [field_descriptionSource hsource,py.text_str,hsourceStrip]
    exact hsource
  have htextKind := (text_sourceKind py s desc source kind).trans hkind
  -- what the list says is kept whole
  have hkept : normalizeTaintDetail py (.list raw) s = taintDetail s desc source kind := by
    unfold normalizeTaintDetail
    dsimp only
    rw [hlookup,Option.getD_some,set_name,if_neg htextDesc,if_neg htextSource,htextKind]
    split
    · rename_i hk
      rw [hk,pop_sourceKind]
    · rename_i hk
      rw [set_sourceKind hk]
  rw [hkept]
  exact ⟨set_descriptionSource hsource (by decide),field_description,htextKind⟩

/-- A taint without an element gets the default text. -/
theorem normalize_of_none (hs : s ≠ "") (h : lastDetail py raw s = none) :
    PyDict.set (normalizeTaintDetail py (.list raw) s) "description_source" (.str "agent") =
        agentDetail s (taintDefault s) "" ∧
      field (normalizeTaintDetail py (.list raw) s) "description" = .str (taintDefault s) ∧
      py.text (field (normalizeTaintDetail py (.list raw) s) "source_kind") = "" := by
  have hlookup := lookup_detailMap py raw hs
  rw [h,Option.map_none] at hlookup
  have hname : PyDict.set [] "name" (.str s) = [("name",.str s)] := rfl
  have hdesc : PyDict.set [("name",.str s)] "description" (.str (taintDefault s)) =
      taintDetail s (taintDefault s) "" "" := rfl
  have hsource : PyDict.set (taintDetail s (taintDefault s) "" "") "description_source"
      (.str "default") = taintDetail s (taintDefault s) "default" "" := rfl
  have hnoDesc : py.text (field [("name",.str s)] "description") = "" := py.text_null
  have hnoSource : py.text (field (taintDetail s (taintDefault s) "" "") "description_source") = "" :=
    py.text_null
  have hkind : py.text (field (taintDetail s (taintDefault s) "default" "") "source_kind") = "" :=
    text_sourceKind py s (taintDefault s) "default" ""
  have hdefault : normalizeTaintDetail py (.list raw) s =
      taintDetail s (taintDefault s) "default" "" := by
    unfold normalizeTaintDetail
    dsimp only
    rw [hlookup,Option.getD_none,hname,if_pos hnoDesc,← taintDefault,hdesc,
      if_pos hnoSource,hsource,hkind,if_pos rfl,pop_sourceKind]
  rw [hdefault]
  exact ⟨set_descriptionSource (by decide) (by decide),field_description,hkind⟩

/-- The description and the kind that a taint gets. -/
def finalText (py : PyRuntime) (details : PyJson) (taint : String) : String :=
  py.text (field (normalizeTaintDetail py details taint) "description")

def finalKind (py : PyRuntime) (details : PyJson) (taint : String) : String :=
  py.text (field (normalizeTaintDetail py details taint) "source_kind")

theorem describes_iff : describes py raw s = true ↔
    ∃ x, lastDetail py raw (strip s) = some x ∧ detailText py x ≠ "" := by
  unfold describes
  rw [Option.any_eq_true]
  simp

theorem ne_of_strip_ne (hs : strip s ≠ "") : s ≠ "" := by
  rintro rfl
  exact hs (by decide)

/-- The final form of the element of a taint that is described. -/
theorem agentDetail_of_describes (hs : strip s ≠ "") (hd : describes py raw s = true) :
    PyDict.set (normalizeTaintDetail py (.list raw) s) "description_source" (.str "agent") =
      agentDetail s (finalText py (.list raw) s) (finalKind py (.list raw) s) := by
  unfold finalText finalKind
  by_cases hstrip : strip s = s
  · obtain ⟨x,hx,htext⟩ := describes_iff.mp hd
    rw [hstrip] at hx
    obtain ⟨hset,hdesc,hkind⟩ := normalize_of_last (ne_of_strip_ne hs) hx htext
    rw [hset,hdesc,hkind,py.text_str,detailText,py.strip_text]
  · obtain ⟨hset,hdesc,hkind⟩ := normalize_of_none (ne_of_strip_ne hs)
      (lastDetail_padded py raw hstrip)
    rw [hset,hdesc,hkind,py.text_str,strip_taintDefault]

theorem detailName_agentDetail (desc kind : String) (hs : strip s ≠ "") :
    detailName py (agentDetail s desc kind) = strip s := by
  have hname : field (agentDetail s desc kind) "name" = .str s := rfl
  have htext : py.text (field (agentDetail s desc kind) "name") ≠ "" := by
    rw [hname,py.text_str]
    exact hs
  rw [detailName,text_or htext,hname,py.text_str]

theorem detailText_agentDetail {desc : String} (kind : String) (hdesc : strip desc ≠ "") :
    detailText py (agentDetail s desc kind) = strip desc := by
  have hfield : field (agentDetail s desc kind) "description" = .str desc := rfl
  have htext : py.text (field (agentDetail s desc kind) "description") ≠ "" := by
    rw [hfield,py.text_str]
    exact hdesc
  rw [detailText,text_or htext,hfield,py.text_str]

theorem kind_agentDetail (desc kind : String) :
    py.text (field (agentDetail s desc kind) "source_kind") = strip kind :=
  text_sourceKind py s desc "agent" kind

/-- The last taint of the list that is the given one up to white space. -/
def lastTwin (l : List String) (s : String) : Option String :=
  l.reverse.find? (fun t => strip t = s)

section Again

variable {l : List String} {T K : String → String}

theorem lastDetail_map (py : PyRuntime) (s : String) (T K : String → String)
    (hl : ∀ t ∈ l, strip t ≠ "") :
    lastDetail py (l.map fun t => .dict (agentDetail t (T t) (K t))) s =
      (lastTwin l s).map fun t => agentDetail t (T t) (K t) := by
  have hsome : asDict ∘ (fun t => PyJson.dict (agentDetail t (T t) (K t))) =
    some ∘ fun t => agentDetail t (T t) (K t) := rfl
  unfold lastDetail lastTwin
  rw [List.filterMap_map,hsome,List.filterMap_eq_map,← List.map_reverse,List.find?_map]
  refine congrArg _ (List.find?_congr ?_)
  intro t ht
  rw [Function.comp_apply,detailName_agentDetail _ _ (hl t (List.mem_reverse.mp ht))]

/-- A second normalization leaves an element as it is iff the taint's last twin has the same
description and kind. -/
theorem normalize_again (hl : ∀ t ∈ l, strip t ≠ "")
    (hT : ∀ t ∈ l, T t ≠ "" ∧ strip (T t) = T t) (hK : ∀ t ∈ l, strip (K t) = K t)
    (hpad : ∀ t ∈ l, strip t ≠ t → T t = taintDefault t ∧ K t = "") (hs : s ∈ l) :
    PyDict.set (normalizeTaintDetail py (.list (l.map fun t =>
        .dict (agentDetail t (T t) (K t)))) s) "description_source" (.str "agent") =
        agentDetail s (T s) (K s) ↔
      ∀ t, lastTwin l s = some t → T t = T s ∧ K t = K s := by
  have hne := ne_of_strip_ne (hl s hs)
  have hlast := lastDetail_map py s T K hl
  by_cases hstrip : strip s = s
  · cases htwin : lastTwin l s with
    | none =>
      have hnone := List.find?_eq_none.mp htwin s (List.mem_reverse.mpr hs)
      simp [hstrip] at hnone
    | some t =>
      have ht := List.mem_reverse.mp (List.mem_of_find?_eq_some htwin)
      rw [htwin,Option.map_some] at hlast
      have htext := hT t ht
      have hstripT : strip (T t) ≠ "" := by
        rw [htext.2]
        exact htext.1
      have hdetail : detailText py (agentDetail t (T t) (K t)) = T t := by
        rw [detailText_agentDetail _ hstripT,htext.2]
      rw [(normalize_of_last hne hlast (by rw [hdetail]; exact htext.1)).1,hdetail,
        kind_agentDetail,hK t ht,agentDetail_inj]
      constructor
      · intro h t' ht'
        rw [← Option.some.inj ht']
        exact h
      · exact fun h => h t rfl
  · have hnone : lastTwin l s = none := by
      cases htwin : lastTwin l s with
      | none => rfl
      | some t =>
        have hts : strip t = s := by simpa using List.find?_some htwin
        refine absurd ?_ hstrip
        rw [← hts]
        exact strip_strip t
    obtain ⟨hdef,hkind⟩ := hpad s hs hstrip
    rw [hnone,Option.map_none] at hlast
    rw [(normalize_of_none hne hlast).1,hdef,hkind,hnone]
    simp

end Again

end Details

/-! ## The check of a repaired entry -/

/-- The field is a text with more than white space. -/
def Named (d : List (String × PyJson)) (key : String) : Prop :=
  ∃ s, field d key = .str s ∧ strip s ≠ ""

section Validate

variable {py : PyRuntime} {pre : String} {d d' : List (String × PyJson)}
  {taints raw : List PyJson}

theorem textErrors_eq_nil {key : String} {v : PyJson} :
    textErrors py pre key v = [] ↔ ∃ s, v = .str s ∧ strip s ≠ "" := by
  unfold textErrors
  cases v <;> simp

theorem textErrors_getD_eq_nil {key : String} :
    textErrors py pre key (getD d key (.str "")) = [] ↔ Named d key := by
  rw [textErrors_eq_nil]
  unfold Named field getD
  cases h : PyDict.get d key with
  | some v => simp
  | none =>
    constructor
    · rintro ⟨s,hs,hne⟩
      simp only [Option.getD_none,PyJson.str.injEq] at hs
      rw [← hs] at hne
      exact absurd (by decide) hne
    · rintro ⟨s,hs,-⟩
      cases hs

/-- A text that was repaired passes. -/
theorem textErrors_repaired {key default : String} (hdefault : strip default ≠ "")
    (h : Holds d' key (.str (repairedText py d key default))) :
    textErrors py pre key (field d' key) = [] := by
  rw [textErrors_eq_nil,field_of_holds h]
  refine ⟨_,rfl,?_⟩
  unfold repairedText
  by_cases hempty : py.text (field d key) = ""
  · rw [if_pos hempty]
    exact hdefault
  · rw [if_neg hempty,py.strip_text]
    exact hempty

/-- Taints that are texts pass iff each matches as it is. -/
theorem taintErrors_of_texts {s : String} {l : List String}
    (h : field d "taints" = .list ((s :: l).map .str)) (hne : ∀ u ∈ s :: l, strip u ≠ "") :
    taintErrors py pre d = [] ↔ ∀ u ∈ s :: l, taintRe u = true := by
  unfold taintErrors
  rw [h]
  simp only [List.map_cons]
  split
  · rename_i hany
    obtain ⟨t,ht,hblank⟩ := List.any_eq_true.mp hany
    rw [← List.map_cons] at ht
    obtain ⟨u,hu,rfl⟩ := List.mem_map.mp ht
    exact absurd (of_decide_eq_true hblank) (hne u hu)
  · split
    · rename_i hbad
      rw [List.isEmpty_iff,List.filter_eq_nil_iff] at hbad
      refine iff_of_true rfl fun u hu => ?_
      have hgood := hbad (.str u) (by rw [← List.map_cons]; exact List.mem_map_of_mem hu)
      simpa using hgood
    · rename_i hbad
      refine iff_of_false (by simp) fun hall => hbad ?_
      rw [List.isEmpty_iff,List.filter_eq_nil_iff]
      intro t ht
      rw [← List.map_cons] at ht
      obtain ⟨u,hu,rfl⟩ := List.mem_map.mp ht
      simpa using hall u hu

/-- The taints of a repaired entry pass iff there are some, or none are needed, and none has
white space around it. -/
theorem taintErrors_repaired (h : Repaired py d taints d') :
    taintErrors py pre d' = [] ↔
      Tainted d taints ∧ ∀ s ∈ goodTaints taints, taintRe s = true := by
  have hactive : (py.text (field d' "tag") = "A") ↔ isActive d taints = true := by
    rw [h.tag,isActive]
    rcases repairedTag_cases d taints with htag | htag <;> rw [htag,py.text_str] <;> decide
  have hkept := field_of_holds h.kept
  have hgood := strip_goodTaints taints
  unfold Tainted
  cases hl : goodTaints taints with
  | nil =>
    rw [hl] at hkept
    unfold taintErrors
    rw [hkept]
    simp [hactive]
  | cons s l =>
    rw [hl] at hkept hgood
    rw [taintErrors_of_texts hkept hgood]
    simp

/-- A role that was repaired passes; a blank one is left as it is. -/
theorem roleErrors_repaired (h : Repaired py d taints d') :
    roleErrors py pre (field d' "entry_role") = [] ↔
      (py.text (field d "entry_role") = "" → roleErrors py pre (field d "entry_role") = []) := by
  by_cases hempty : py.text (field d "entry_role") = ""
  · rw [h.roleEmpty hempty]
    simp [hempty]
  · have hmem := repairedRole_mem py d
    rw [field_of_holds (h.role hempty)]
    simp [roleErrors,PyRuntime.str,hmem,hempty]

theorem confidenceErrors_repaired (hround : RoundsUnit py) (h : Repaired py d taints d') :
    confidenceErrors py pre (field d' "entry_confidence") = .ok [] := by
  rcases h.confidence with hnull | ⟨v,-,-,hholds⟩
  · rw [hnull]
    rfl
  · rw [field_of_holds hholds]
    simp only [confidenceErrors,PyRuntime.float,(round_clamp hround v).1,if_true]

theorem repairedDetail_name (py : PyRuntime) (details : PyJson) (raw : List PyJson) (s : String) :
    py.text (field (repairedDetail py details raw s) "name") = strip s := by
  rw [repairedDetail,field_set_of_ne _ _ (by decide),normalizeTaintDetail_name,py.text_str]

theorem repairedDetail_description (py : PyRuntime) (details : PyJson) (raw : List PyJson)
    (s : String) : py.text (field (repairedDetail py details raw s) "description") ≠ "" := by
  rw [repairedDetail,field_set_of_ne _ _ (by decide)]
  exact normalizeTaintDetail_description py details s

/-- The details of a repaired entry pass. -/
theorem detailErrors_repaired (h : Repaired py d taints d')
    (hdetails : Holds d' "taint_details" (repairedDetails py d taints raw)) :
    detailErrors py pre d' = .ok [] := by
  have hnames : ∀ l : List String, l.filterMap (fun s => some (strip s)) = l.map strip := by
    intro l
    exact congrFun (List.filterMap_eq_map (f := strip)) l
  have hnone : ∀ (l : List (String × ℕ)) (f : String → ℕ → List String),
      l.flatMap (fun p => if py.text (field (repairedDetail py (detailsOf d) raw p.1)
        "description") = "" then f p.1 p.2 else []) = [] := by
    intro l f
    refine List.flatMap_eq_nil_iff.mpr fun p _ => ?_
    exact if_neg (repairedDetail_description py (detailsOf d) raw p.1)
  unfold detailErrors
  rw [field_of_holds h.kept,field_of_holds hdetails,or_list,repairedDetails]
  dsimp only [len,iter,bind,Except.bind]
  have hlen : ¬((goodTaints taints).map fun s => PyJson.dict
      (repairedDetail py (detailsOf d) raw s)).length ≠
        ((goodTaints taints).map PyJson.str).length := by
    rw [List.length_map,List.length_map]
    exact fun h => h rfl
  rw [if_neg hlen]
  simp only [List.filterMap_map,List.map_map,Function.comp_def,repairedDetail_name,
    PyRuntime.str,hnames,if_true,List.nil_append,List.zipIdx_map,List.flatMap_map,Prod.map]
  exact congrArg Except.ok (hnone _ fun _ j =>
    [pre ++ " taint_details[" ++ toString j ++ "].description 为空"])

theorem ite_nil {p : Prop} [Decidable p] {e : String} : (if p then [] else [e]) = [] ↔ p := by
  by_cases h : p <;> simp [h]

/-- An entry passes iff each part of the check does. -/
theorem validateItem_eq_nil (hc : confidenceErrors py pre (field d "entry_confidence") = .ok [])
    (hd : detailErrors py pre d = .ok []) :
    validateItem py pre d = .ok [] ↔
      isTag (field d "tag") = true ∧
        textErrors py pre "file" (getD d "file" (.str "")) = [] ∧
        (field d "line").isInt = true ∧
        textErrors py pre "function" (getD d "function" (.str "")) = [] ∧
        taintErrors py pre d = [] ∧ roleErrors py pre (field d "entry_role") = [] ∧
        textErrors py pre "function_description" (field d "function_description") = [] ∧
        (py.text (field d "definition_kind") = "" ||
          ["definition","declaration","unknown"].contains
            (py.text (field d "definition_kind"))) = true ∧
        textErrors py pre "entry_reason" (field d "entry_reason") = [] := by
  unfold validateItem
  rw [hc,hd]
  dsimp only [bind,Except.bind,pure,Except.pure]
  simp only [Except.ok.injEq,List.append_nil,List.append_eq_nil_iff,ite_nil,and_assoc]

/-- What the check of a repaired entry comes down to. -/
theorem validateItem_repaired (hround : RoundsUnit py) (h : Repaired py d taints d')
    (hdetails : Holds d' "taint_details" (repairedDetails py d taints raw)) :
    validateItem py pre d' = .ok [] ↔
      Named d "file" ∧ Named d "function" ∧ Tainted d taints ∧
        (∀ s ∈ goodTaints taints, taintRe s = true) ∧
        (py.text (field d "entry_role") = "" →
          roleErrors py pre (field d "entry_role") = []) := by
  have htag : isTag (field d' "tag") = true := by
    rw [h.tag]
    rcases repairedTag_cases d taints with htag | htag <;> rw [htag] <;> decide
  have hfile : Named d' "file" ↔ Named d "file" := by
    rw [Named,h.edits.field (by decide)]
    rfl
  have hfunction : Named d' "function" ↔ Named d "function" := by
    rw [Named,h.edits.field (by decide)]
    rfl
  have hkind : ["definition","declaration","unknown"].contains
      (py.text (field d' "definition_kind")) = true := by
    have hmem := repairedKind_mem py d
    rw [field_of_holds h.kind,py.text_str]
    generalize repairedKind py d = k at hmem
    fin_cases hmem <;> decide
  obtain ⟨default,hdefault,hreason⟩ := h.reason
  rw [validateItem_eq_nil (confidenceErrors_repaired hround h) (detailErrors_repaired h hdetails),
    textErrors_getD_eq_nil,textErrors_getD_eq_nil,hfile,hfunction,taintErrors_repaired h,
    roleErrors_repaired h]
  constructor
  · rintro ⟨-,hfile,-,hfunction,⟨htainted,hmatch⟩,hrole,-⟩
    exact ⟨hfile,hfunction,htainted,hmatch,hrole⟩
  · rintro ⟨hfile,hfunction,htainted,hmatch,hrole⟩
    exact ⟨htag,hfile,h.line,hfunction,⟨htainted,hmatch⟩,hrole,
      textErrors_repaired (strip_descriptionDefault py d) h.description,
      (Bool.or_eq_true _ _).mpr (.inr hkind),textErrors_repaired hdefault hreason⟩

end Validate

/-! ## A second repair -/

section Second

variable {py : PyRuntime} {d d' : List (String × PyJson)} {taints raw : List PyJson}

/-- The kept taints as they stand in the repaired entry. -/
def keptTaints (taints : List PyJson) : List PyJson := (goodTaints taints).map .str

theorem repairedTag_repaired (h : Repaired py d taints d') (l : List PyJson) :
    repairedTag d' l = repairedTag d taints := by
  have htag : isTag (field d' "tag") = true := by
    rw [h.tag]
    rcases repairedTag_cases d taints with htag | htag <;> rw [htag] <;> decide
  rw [repairedTag,if_pos htag,h.tag]

theorem tainted_repaired (h : Repaired py d taints d') :
    Tainted d' (keptTaints taints) ↔ Tainted d taints := by
  rw [Tainted,Tainted,keptTaints,goodTaints_good,isActive,isActive,repairedTag_repaired h]

/-- About a repaired entry nothing is logged, unless it has lost all its taints. -/
theorem quiet_repaired (h : Repaired py d taints d') :
    Quiet py d' (keptTaints taints) ↔ Tainted d taints := by
  refine ⟨fun hq => (tainted_repaired h).mp hq.tainted,fun htainted => ?_⟩
  exact
    { tag := by
        rw [h.tag]
        rcases repairedTag_cases d taints with htag | htag <;> rw [htag] <;> decide
      line := h.line
      good := by
        intro t ht
        obtain ⟨s,hs,rfl⟩ := List.mem_map.mp ht
        exact Option.isSome_iff_exists.mpr
          ⟨s,goodTaint_eq_some.mpr ⟨rfl,(mem_goodTaints.mp hs).2⟩⟩
      tainted := (tainted_repaired h).mpr htainted
      role := by
        by_cases hempty : py.text (field d "entry_role") = ""
        · refine .inl ?_
          rw [h.roleEmpty hempty,hempty]
        · refine .inr ?_
          have hmem := repairedRole_mem py d
          rw [field_of_holds (h.role hempty),py.text_str]
          generalize repairedRole py d = r at hmem
          fin_cases hmem <;> decide
      confidence := by
        rcases h.confidence with hnull | ⟨v,-,-,hholds⟩
        · exact .inl hnull
        · refine .inr ⟨py.round v.clamp,?_⟩
          rw [field_of_holds hholds]
          rfl }

/-- The repair of a repaired entry raises only if it has no taints left and its
`taint_descriptions` cannot be iterated. -/
theorem raises_repaired (h : Repaired py d taints d') (herror : get d "_error" = none)
    (hdetails : Holds d' "taint_details" (repairedDetails py d taints raw))
    (htainted : Tainted d taints) :
    ¬Raises py (.dict d') ↔ (goodTaints taints = [] →
      ∃ l, ((field d "taint_descriptions").or (.list [])).iter = .ok l) := by
  have herror' : get d' "_error" = none := (h.edits "_error" (by decide)).1.trans herror
  have hkept := field_of_holds h.kept
  have hkept' : Kept d' (keptTaints taints) :=
    ((tainted_repaired h).mpr htainted).imp_right .inl
  have htag : isTag (field d' "tag") = true := ((quiet_repaired h).mpr htainted).tag
  have hover : ¬Overflows py d' := by
    rcases h.confidence with hnull | ⟨v,-,-,hholds⟩
    · rw [Overflows,hnull]
      simp [PyRuntime.float]
    · rw [Overflows,field_of_holds hholds]
      simp [PyRuntime.float]
  have hdesc : field d' "taint_descriptions" = field d "taint_descriptions" :=
    h.edits.field (by decide)
  have hiff : ¬Raises py (.dict d') ↔ ∃ l, (detailsOf d').iter = .ok l := by
    constructor
    · intro hnot
      cases hiter : (detailsOf d').iter with
      | ok l => exact ⟨l,rfl⟩
      | error e =>
        exact absurd ⟨d',rfl,herror',.inr ⟨_,hkept,hkept',.inr ⟨e,hiter⟩⟩⟩ hnot
    · rintro ⟨l,hl⟩ ⟨d₁,hd,-,hun | ⟨taints₁,-,-,hov | ⟨e,he⟩⟩⟩
      · cases hd
        exact hun (.inl htag)
      · cases hd
        exact hover hov
      · cases hd
        rw [hl] at he
        cases he
  rw [hiff]
  by_cases hgood : goodTaints taints = []
  · have hnil : field d' "taint_details" = .list [] := by
      rw [field_of_holds hdetails,repairedDetails,hgood]
      rfl
    have hof : detailsOf d' = (field d "taint_descriptions").or (.list []) := by
      rw [detailsOf,hnil,hdesc]
      rfl
    rw [hof]
    simp [hgood]
  · have hne : ((goodTaints taints).map fun s =>
        PyJson.dict (repairedDetail py (detailsOf d) raw s)) ≠ [] := by simpa using hgood
    rw [detailsOf_of_holds hdetails hne]
    simp [hgood,iter]

/-- The details describe each kept taint, and where the last taint that is `s` up to white space
is another one, `s` is described by the default text of that one. -/
def Described (py : PyRuntime) (taints raw : List PyJson) : Prop :=
  (∀ s ∈ goodTaints taints, describes py raw s = true) ∧
    ∀ s ∈ goodTaints taints, ∀ t, lastTwin (goodTaints taints) s = some t →
      t = s ∨ ∃ x, lastDetail py raw s = some x ∧ detailText py x = taintDefault t ∧
        py.text (field x "source_kind") = ""

/-- Only a list of details describes anything. -/
theorem detailsOf_of_describes {s : String} (hraw : (detailsOf d).iter = .ok raw)
    (h : describes py raw s = true) : detailsOf d = .list raw := by
  have hnot : ∀ l : List PyJson, (∀ v ∈ l, asDict v = none) → describes py l s ≠ true := by
    intro l hl hd
    have hnil : l.filterMap asDict = [] := List.filterMap_eq_nil_iff.mpr hl
    obtain ⟨x,hx,-⟩ := describes_iff.mp hd
    rw [lastDetail,hnil] at hx
    cases hx
  cases hdet : detailsOf d with
  | list l =>
    rw [hdet] at hraw
    rw [Except.ok.inj hraw]
  | dict kvs =>
    rw [hdet] at hraw
    refine absurd h (hnot raw ?_)
    rw [← Except.ok.inj hraw]
    intro v hv
    obtain ⟨p,-,rfl⟩ := List.mem_map.mp hv
    rfl
  | str u =>
    rw [hdet] at hraw
    refine absurd h (hnot raw ?_)
    rw [← Except.ok.inj hraw]
    intro v hv
    obtain ⟨c,-,rfl⟩ := List.mem_map.mp hv
    rfl
  | _ =>
    rw [hdet] at hraw
    cases hraw

/-- What a taint with white space around it gets. -/
theorem final_padded {t : String} (hne : strip t ≠ "") (hstrip : strip t ≠ t) :
    finalText py (.list raw) t = taintDefault t ∧ finalKind py (.list raw) t = "" := by
  obtain ⟨-,hdesc,hkind⟩ := normalize_of_none (ne_of_strip_ne hne)
    (lastDetail_padded py raw hstrip)
  rw [finalText,finalKind,hdesc,hkind,py.text_str,strip_taintDefault]
  exact ⟨rfl,rfl⟩

/-- When a taint and its last twin get the same description. -/
theorem final_twin_iff {s t : String} (hgood : ∀ u ∈ goodTaints taints, strip u ≠ "")
    (hd : describes py raw s = true) (htwin : lastTwin (goodTaints taints) s = some t) :
    (finalText py (.list raw) t = finalText py (.list raw) s ∧
        finalKind py (.list raw) t = finalKind py (.list raw) s) ↔
      t = s ∨ ∃ x, lastDetail py raw s = some x ∧ detailText py x = taintDefault t ∧
        py.text (field x "source_kind") = "" := by
  have hts : strip t = s := by simpa using List.find?_some htwin
  have ht : strip t ≠ "" := hgood t (List.mem_reverse.mp (List.mem_of_find?_eq_some htwin))
  have hs : strip s = s := by rw [← hts,strip_strip]
  by_cases hsame : t = s
  · rw [hsame]
    simp
  obtain ⟨x,hx,htext⟩ := describes_iff.mp hd
  rw [hs] at hx
  have hne : s ≠ "" := by
    rw [← hts]
    exact ht
  have hpad : strip t ≠ t := by
    rw [hts]
    exact fun h => hsame h.symm
  obtain ⟨-,hdesc,hkind⟩ := normalize_of_last hne hx htext
  obtain ⟨hdescT,hkindT⟩ : finalText py (.list raw) t = taintDefault t ∧
      finalKind py (.list raw) t = "" := final_padded ht hpad
  have hdescS : finalText py (.list raw) s = detailText py x := by
    rw [finalText,hdesc,py.text_str,detailText,py.strip_text]
  have hkindS : finalKind py (.list raw) s = py.text (field x "source_kind") := hkind
  rw [hdescT,hkindT,hdescS,hkindS,or_iff_right hsame]
  constructor
  · rintro ⟨hdesc,hkind⟩
    exact ⟨x,hx,hdesc.symm,hkind.symm⟩
  · rintro ⟨x',hx',hdesc,hkind⟩
    rw [hx] at hx'
    cases hx'
    exact ⟨hdesc.symm,hkind.symm⟩

/-- The repaired details are their own normal form iff they describe the taints. -/
theorem details_again (hraw : (detailsOf d).iter = .ok raw)
    (hholds : field d' "taint_details" = repairedDetails py d taints raw) :
    ((goodTaints taints).map fun s => PyJson.dict (PyDict.set
        (normalizeTaintDetail py (field d' "taint_details") s) "description_source"
        (.str "agent"))) =
      ((goodTaints taints).map fun s => PyJson.dict (repairedDetail py (detailsOf d) raw s)) ↔
    Described py taints raw := by
  have hgood := strip_goodTaints taints
  have hsource : ∀ s ∈ goodTaints taints, describes py raw s = true →
      repairedDetail py (detailsOf d) raw s =
        agentDetail s (finalText py (detailsOf d) s) (finalKind py (detailsOf d) s) := by
    intro s hs hd
    have hlist := detailsOf_of_describes hraw hd
    rw [repairedDetail,hd,if_pos rfl,hlist]
    exact agentDetail_of_describes (hgood s hs) hd
  have hall : (∀ s ∈ goodTaints taints, describes py raw s = true) →
      (((goodTaints taints).map fun s => PyJson.dict (PyDict.set
          (normalizeTaintDetail py (field d' "taint_details") s) "description_source"
          (.str "agent"))) =
        ((goodTaints taints).map fun s =>
          PyJson.dict (repairedDetail py (detailsOf d) raw s)) ↔
      ∀ s ∈ goodTaints taints, ∀ t, lastTwin (goodTaints taints) s = some t →
        t = s ∨ ∃ x, lastDetail py raw s = some x ∧ detailText py x = taintDefault t ∧
          py.text (field x "source_kind") = "") := by
    intro hdescribes
    have hlist : field d' "taint_details" = .list ((goodTaints taints).map fun s =>
        .dict (agentDetail s (finalText py (detailsOf d) s) (finalKind py (detailsOf d) s))) := by
      rw [hholds,repairedDetails]
      refine congrArg PyJson.list (List.map_congr_left fun s hs => ?_)
      rw [hsource s hs (hdescribes s hs)]
    have hpad : ∀ t ∈ goodTaints taints, strip t ≠ t →
        finalText py (detailsOf d) t = taintDefault t ∧ finalKind py (detailsOf d) t = "" := by
      intro t ht hstrip
      rw [detailsOf_of_describes hraw (hdescribes t ht)]
      exact final_padded (hgood t ht) hstrip
    have htwins : ∀ s ∈ goodTaints taints, ∀ t, lastTwin (goodTaints taints) s = some t →
        ((finalText py (detailsOf d) t = finalText py (detailsOf d) s ∧
          finalKind py (detailsOf d) t = finalKind py (detailsOf d) s) ↔
        t = s ∨ ∃ x, lastDetail py raw s = some x ∧ detailText py x = taintDefault t ∧
          py.text (field x "source_kind") = "") := by
      intro s hs t ht
      rw [detailsOf_of_describes hraw (hdescribes s hs)]
      exact final_twin_iff hgood (hdescribes s hs) ht
    rw [hlist,List.map_inj_left]
    refine forall₂_congr fun s hs => ?_
    rw [hsource s hs (hdescribes s hs),PyJson.dict.injEq,← forall₂_congr (htwins s hs)]
    refine normalize_again hgood ?_ ?_ hpad hs
    · intro t _
      exact ⟨normalizeTaintDetail_description py _ t,py.strip_text _⟩
    · exact fun t _ => py.strip_text _
  constructor
  · intro heq
    have hdescribes : ∀ s ∈ goodTaints taints, describes py raw s = true := by
      intro s hs
      by_contra hnot
      have hsame := PyJson.dict.inj (List.map_inj_left.mp heq s hs)
      have hfield := congrArg (fun x => field x "description_source") hsame
      simp only [repairedDetail,field_set_self,if_neg hnot,PyJson.str.injEq] at hfield
      exact absurd hfield (by decide)
    exact ⟨hdescribes,(hall hdescribes).mp heq⟩
  · exact fun h => (hall h.1).mpr h.2

/-- A repaired entry is its own repair iff its texts were given and its taints described. -/
theorem settled_repaired (hround : RoundsUnit py) (h : Repaired py d taints d')
    (hdetails : Holds d' "taint_details" (repairedDetails py d taints raw))
    (hraw : (detailsOf d).iter = .ok raw) :
    Settled py d' (keptTaints taints) ↔
      py.text (field d "function_description") ≠ "" ∧ py.text (field d "entry_reason") ≠ "" ∧
        Described py taints raw := by
  have hgood : goodTaints (keptTaints taints) = goodTaints taints := goodTaints_good taints
  have hagain := details_again hraw (field_of_holds hdetails)
  obtain ⟨default,hdefault,hreason⟩ := h.reason
  constructor
  · intro hs
    refine ⟨fun hempty => ?_,fun hempty => ?_,hagain.mp ?_⟩
    · have hsource := hs.descriptionSource.unique h.descriptionSource
      rw [textSource,if_pos hempty] at hsource
      exact absurd (PyJson.str.inj hsource) (by decide)
    · have hsource := hs.reasonSource.unique h.reasonSource
      rw [textSource,if_pos hempty] at hsource
      exact absurd (PyJson.str.inj hsource) (by decide)
    · have hsame := hs.details.unique hdetails
      rw [hgood] at hsame
      exact PyJson.list.inj hsame
  · rintro ⟨hdesc,hreasonText,hdescribed⟩
    have htext : ∀ {key default : String}, py.text (field d key) ≠ "" →
        Holds d' key (.str (repairedText py d key default)) →
        ∃ s, s ≠ "" ∧ strip s = s ∧ Holds d' key (.str s) := by
      intro key default hne hholds
      rw [repairedText,if_neg hne] at hholds
      exact ⟨_,hne,py.strip_text _,hholds⟩
    exact
      { kept := by
          rw [hgood]
          exact h.kept
        role := by
          by_cases hempty : py.text (field d "entry_role") = ""
          · refine .inl ?_
            rw [h.roleEmpty hempty,hempty]
          · exact .inr ⟨_,repairedRole_mem py d,h.role hempty⟩
        confidence := by
          rcases h.confidence with hnull | ⟨v,-,-,hholds⟩
          · exact .inl hnull
          · exact .inr ⟨_,hholds,(round_clamp hround v).2⟩
        kind := ⟨_,repairedKind_mem py d,h.kind⟩
        found := ⟨_,h.found⟩
        description := htext hdesc h.description
        descriptionSource := by
          have hsource := h.descriptionSource
          rw [textSource,if_neg hdesc] at hsource
          exact hsource
        reason := htext hreasonText hreason
        reasonSource := by
          have hsource := h.reasonSource
          rw [textSource,if_neg hreasonText] at hsource
          exact hsource
        details := by
          rw [hgood,hagain.mpr hdescribed]
          exact hdetails }

end Second

/-! ## The whole list -/

/-- What an entry that is kept has to bring with it. -/
structure SoundEntry (py : PyRuntime) (d : List (String × PyJson)) (taints : List PyJson) :
    Prop where
  file : Named d "file"
  function : Named d "function"
  tainted : Tainted d taints
  unpadded : ∀ s ∈ goodTaints taints, taintRe s = true
  role : py.text (field d "entry_role") = "" → field d "entry_role" = .null ∨
    py.str (field d "entry_role") ∈ validEntryRoles
  description : py.text (field d "function_description") ≠ ""
  reason : py.text (field d "entry_reason") ≠ ""
  described : ∀ raw, (detailsOf d).iter = .ok raw → Described py taints raw
  noTaints : goodTaints taints = [] →
    ∃ l, ((field d "taint_descriptions").or (.list [])).iter = .ok l

/-- The repair does not raise on the element, and if it keeps it, the entry is sound. -/
def Sound (py : PyRuntime) (x : PyJson) : Prop :=
  ¬Raises py x ∧ ∀ d taints, x = .dict d → get d "_error" = none →
    field d "taints" = .list taints → Kept d taints → SoundEntry py d taints

/-- The repaired list passes the check, and a second repair leaves it as it is. -/
def Established (py : PyRuntime) (items : List PyJson) : Prop :=
  ∃ fixed log, autoFixFunctionsList py items = .ok (fixed,log) ∧
    (fixed ≠ [] → validateFunctionsList py fixed = .ok []) ∧
    autoFixFunctionsList py fixed = .ok (fixed,[])

section Lists

variable {py : PyRuntime}

theorem roleErrors_eq_nil {pre : String} {v : PyJson} :
    roleErrors py pre v = [] ↔ v = .null ∨ py.str v ∈ validEntryRoles := by
  unfold roleErrors
  split
  · simp
  · rename_i hne
    rw [ite_nil,List.contains_iff_mem]
    exact ⟨.inr,fun h => h.resolve_left hne⟩

/-- Each element of a list that passes does so in its place. -/
theorem validateElement_of_list {l : List PyJson} {x : PyJson}
    (h : validateFunctionsList py l = .ok []) (hx : x ∈ l) :
    ∃ i, validateElement py i x = .ok [] := by
  cases l with
  | nil => cases hx
  | cons y l =>
    have heq : validateFunctionsList py (y :: l) =
        ((y :: l).zipIdx.mapM (fun p => validateElement py p.2 p.1)).bind
          fun errors => .ok errors.flatten := rfl
    rw [heq] at h
    cases hm : (y :: l).zipIdx.mapM (fun p => validateElement py p.2 p.1) with
    | error e =>
      rw [hm] at h
      cases h
    | ok errors =>
      rw [hm] at h
      have hflat := List.flatten_eq_nil_iff.mp (Except.ok.inj h)
      obtain ⟨i,hi,hxi⟩ := List.getElem_of_mem hx
      have hmem : (x,i) ∈ (y :: l).zipIdx := by
        rw [List.mem_zipIdx_iff_getElem?,List.getElem?_eq_some_iff]
        exact ⟨hi,hxi⟩
      obtain ⟨e,he,hxe⟩ := forall₂_mem_left (mapM_ok_iff.mp hm) hmem
      rw [hflat e he] at hxe
      exact ⟨i,hxe⟩

/-- A list passes iff each element does, wherever it stands. -/
theorem validateList_eq_nil {l : List PyJson}
    (h : ∀ x ∈ l, ∀ i j, validateElement py i x = .ok [] → validateElement py j x = .ok []) :
    (l ≠ [] → validateFunctionsList py l = .ok []) ↔
      ∀ x ∈ l, ∀ j, validateElement py j x = .ok [] := by
  cases l with
  | nil => simp
  | cons y l =>
    have heq : validateFunctionsList py (y :: l) =
        ((y :: l).zipIdx.mapM (fun p => validateElement py p.2 p.1)).bind
          fun errors => .ok errors.flatten := rfl
    constructor
    · intro hvalid x hx j
      obtain ⟨i,hi⟩ := validateElement_of_list (hvalid (List.cons_ne_nil y l)) hx
      exact h x hx i j hi
    · intro hall _
      rw [heq]
      obtain ⟨errors,hm⟩ := mapM_isOk (f := fun p : PyJson × ℕ => validateElement py p.2 p.1)
        (l := (y :: l).zipIdx) fun p hp =>
          ⟨[],hall p.1 (List.fst_mem_of_mem_zipIdx hp) p.2⟩
      rw [hm]
      refine congrArg Except.ok (List.flatten_eq_nil_iff.mpr fun e he => ?_)
      obtain ⟨p,hp,hpe⟩ := forall₂_mem_right (mapM_ok_iff.mp hm) he
      have hnil := hall p.1 (List.fst_mem_of_mem_zipIdx hp) p.2
      rw [hpe] at hnil
      exact Except.ok.inj hnil

/-- The repair leaves a list as it is, without a log, iff each element is left so. -/
theorem autoFix_same_iff {l : List PyJson} :
    autoFixFunctionsList py l = .ok (l,[]) ↔
      ∀ x ∈ l, ¬Raises py x ∧ Silent py x ∧ SettledElement py x := by
  constructor
  · intro h x hx
    obtain ⟨rs,hrs,hfixed,hlog⟩ := autoFix_ok h
    have hsilent := (logs_eq_nil_iff hrs).mp hlog.symm
    obtain ⟨r,-,i,hr⟩ := forall₂_mem_left hrs hx
    exact ⟨not_raises_of_ok hr,hsilent x hx,(unchanged_iff hrs hsilent).mp hfixed.symm x hx⟩
  · intro h
    cases hfix : autoFixFunctionsList py l with
    | error e =>
      obtain ⟨x,hx,hraise⟩ := autoFix_error hfix
      exact absurd hraise (h x hx).1
    | ok p =>
      obtain ⟨fixed,log⟩ := p
      obtain ⟨rs,hrs,rfl,rfl⟩ := autoFix_ok hfix
      have hsilent : ∀ x ∈ l, Silent py x := fun x hx => (h x hx).2.1
      rw [(logs_eq_nil_iff hrs).mpr hsilent,
        (unchanged_iff hrs hsilent).mpr fun x hx => (h x hx).2.2]

/-- Whether a repaired entry passes does not depend on where it stands. -/
theorem validateElement_index (hround : RoundsUnit py) {k : ℕ} {x y : PyJson}
    {r : Option PyJson × List String} (h : fixElement py k x = .ok r) (hy : r.1 = some y)
    (i j : ℕ) (hi : validateElement py i y = .ok []) : validateElement py j y = .ok [] := by
  have hfate := fixElement_fate py k x
  rw [h] at hfate
  cases hfate with
  | dropped => cases hy
  | kept d taints raw d' log hx herror htaints hkept hnot hraw hlog hrepaired hdetails =>
    cases hy
    have herror' : get d' "_error" = none :=
      (hrepaired.edits "_error" (by decide)).1.trans herror
    simp only [validateElement,herror'] at hi ⊢
    rw [validateItem_repaired hround hrepaired hdetails,roleErrors_eq_nil] at hi ⊢
    exact hi

/-- A repaired entry passes the check and is its own repair iff the entry was sound. -/
theorem soundEntry_iff (hround : RoundsUnit py) {d d' : List (String × PyJson)}
    {taints raw : List PyJson} (herror : get d "_error" = none) (h : Repaired py d taints d')
    (hdetails : Holds d' "taint_details" (repairedDetails py d taints raw))
    (hraw : (detailsOf d).iter = .ok raw) :
    SoundEntry py d taints ↔ (∀ j, validateElement py j (.dict d') = .ok []) ∧
      ¬Raises py (.dict d') ∧ Silent py (.dict d') ∧ SettledElement py (.dict d') := by
  have herror' : get d' "_error" = none := (h.edits "_error" (by decide)).1.trans herror
  have hkept : field d' "taints" = .list (keptTaints taints) := field_of_holds h.kept
  have hvalid : ∀ j, validateElement py j (.dict d') =
      validateItem py ("[" ++ toString j ++ "]") d' := by
    intro j
    simp [validateElement,herror']
  have hsilent : Silent py (.dict d') ↔ Tainted d taints := by
    rw [← quiet_repaired h]
    constructor
    · rintro ⟨d₁,taints₁,hd,-,htaints,hquiet⟩
      cases hd
      rw [hkept] at htaints
      cases htaints
      exact hquiet
    · exact fun hquiet => ⟨d',_,rfl,herror',hkept,hquiet⟩
  have hsettled : SettledElement py (.dict d') ↔ Settled py d' (keptTaints taints) := by
    constructor
    · exact fun hs => hs d' _ rfl hkept
    · intro hs d₁ taints₁ hd htaints
      cases hd
      rw [hkept] at htaints
      cases htaints
      exact hs
  rw [hsilent,hsettled,settled_repaired hround h hdetails hraw]
  constructor
  · intro hs
    refine ⟨fun j => ?_,?_,hs.tainted,hs.description,hs.reason,hs.described raw hraw⟩
    · rw [hvalid,validateItem_repaired hround h hdetails]
      exact ⟨hs.file,hs.function,hs.tainted,hs.unpadded,
        fun hempty => roleErrors_eq_nil.mpr (hs.role hempty)⟩
    · exact (raises_repaired h herror hdetails hs.tainted).mpr hs.noTaints
  · rintro ⟨hpass,hnot,htainted,hdescription,hreason,hdescribed⟩
    have hpass := hpass 0
    rw [hvalid,validateItem_repaired hround h hdetails] at hpass
    obtain ⟨hfile,hfunction,-,hunpadded,hrole⟩ := hpass
    exact
      { file := hfile
        function := hfunction
        tainted := htainted
        unpadded := hunpadded
        role := fun hempty => roleErrors_eq_nil.mp (hrole hempty)
        description := hdescription
        reason := hreason
        described := by
          intro raw' hraw'
          rw [hraw] at hraw'
          rw [← Except.ok.inj hraw']
          exact hdescribed
        noTaints := (raises_repaired h herror hdetails htainted).mp hnot }

/-- An element on which the repair does not raise is sound iff its result, if there is one,
passes the check and is its own repair. -/
theorem sound_iff (hround : RoundsUnit py) {i : ℕ} {x : PyJson}
    {r : Option PyJson × List String} (h : fixElement py i x = .ok r) :
    Sound py x ↔ ∀ y, r.1 = some y → (∀ j, validateElement py j y = .ok []) ∧
      ¬Raises py y ∧ Silent py y ∧ SettledElement py y := by
  have hfate := fixElement_fate py i x
  rw [h] at hfate
  cases hfate with
  | dropped log hnot hdrop =>
    constructor
    · intro _ y hy
      cases hy
    · refine fun _ => ⟨hnot,?_⟩
      intro d taints hx herror htaints hkept
      exact absurd hkept (hdrop d taints hx herror htaints)
  | kept d taints raw d' log hx herror htaints hkept hnot hraw hlog hrepaired hdetails =>
    have hiff := soundEntry_iff hround herror hrepaired hdetails hraw
    constructor
    · intro hs y hy
      cases hy
      exact hiff.mp (hs.2 d taints hx herror htaints hkept)
    · intro hall
      refine ⟨hnot,?_⟩
      intro d₁ taints₁ hd _ htaints₁ _
      rw [hx] at hd
      cases hd
      rw [htaints] at htaints₁
      cases htaints₁
      exact hiff.mpr (hall _ rfl)

/-- The repair of a list does not raise, its result passes the check, and repairing it again
changes and logs nothing, exactly when every element of the list is sound. -/
theorem repair_establishes_iff (hround : RoundsUnit py) (items : List PyJson) :
    Established py items ↔ ∀ x ∈ items, Sound py x := by
  cases hfix : autoFixFunctionsList py items with
  | error e =>
    obtain ⟨x,hx,hraise⟩ := autoFix_error hfix
    constructor
    · rintro ⟨fixed,log,hok,-⟩
      rw [hfix] at hok
      cases hok
    · exact fun hall => absurd hraise (hall x hx).1
  | ok p =>
    obtain ⟨fixed,log⟩ := p
    obtain ⟨rs,hrs,rfl,rfl⟩ := autoFix_ok hfix
    have hestablished : Established py items ↔
        (rs.filterMap Prod.fst ≠ [] → validateFunctionsList py (rs.filterMap Prod.fst) = .ok []) ∧
          autoFixFunctionsList py (rs.filterMap Prod.fst) = .ok (rs.filterMap Prod.fst,[]) := by
      constructor
      · rintro ⟨fixed,log,hok,hvalid,hagain⟩
        rw [hfix] at hok
        cases hok
        exact ⟨hvalid,hagain⟩
      · exact fun h => ⟨_,_,hfix,h⟩
    have hindex : ∀ y ∈ rs.filterMap Prod.fst, ∀ i j,
        validateElement py i y = .ok [] → validateElement py j y = .ok [] := by
      intro y hy i j hi
      obtain ⟨r,hr,hry⟩ := List.mem_filterMap.mp hy
      obtain ⟨x,-,k,hk⟩ := forall₂_mem_right hrs hr
      exact validateElement_index hround hk hry i j hi
    rw [hestablished,validateList_eq_nil hindex,autoFix_same_iff]
    constructor
    · rintro ⟨hvalid,hagain⟩ x hx
      obtain ⟨r,hr,i,hi⟩ := forall₂_mem_left hrs hx
      refine (sound_iff hround hi).mpr fun y hy => ?_
      have hmem := List.mem_filterMap.mpr ⟨r,hr,hy⟩
      exact ⟨hvalid y hmem,hagain y hmem⟩
    · intro hall
      have hboth : ∀ y ∈ rs.filterMap Prod.fst, (∀ j, validateElement py j y = .ok []) ∧
          ¬Raises py y ∧ Silent py y ∧ SettledElement py y := by
        intro y hy
        obtain ⟨r,hr,hry⟩ := List.mem_filterMap.mp hy
        obtain ⟨x,hx,i,hi⟩ := forall₂_mem_right hrs hr
        exact (sound_iff hround hi).mp (hall x hx) y hry
      exact ⟨fun y hy => (hboth y hy).1,fun y hy => (hboth y hy).2⟩

end Lists

theorem plainRuntime_roundsUnit : RoundsUnit plainRuntime := by
  intro q h0 h1
  have hround : ∀ x, plainRuntime.round2 x = ⌊x * 100 + 1 / 2⌋ / 100 := fun _ => rfl
  have hlow : 0 ≤ ⌊q * 100 + 1 / 2⌋ := Int.floor_nonneg.mpr (by linarith)
  have hhigh : ⌊q * 100 + 1 / 2⌋ ≤ 100 := by
    have hlt : ⌊q * 100 + 1 / 2⌋ < 101 := by
      rw [Int.floor_lt]
      push_cast
      linarith
    omega
  rw [hround,hround]
  generalize ⌊q * 100 + 1 / 2⌋ = n at *
  have hn0 : (0 : ℚ) ≤ n := by exact_mod_cast hlow
  have hn1 : (n : ℚ) ≤ 100 := by exact_mod_cast hhigh
  have hback : (n : ℚ) / 100 * 100 + 1 / 2 = n + 1 / 2 := by ring
  have hfloor : ⌊(n : ℚ) + 1 / 2⌋ = n := by
    rw [Int.floor_eq_iff]
    constructor <;> linarith
  rw [hback,hfloor]
  exact ⟨by positivity,by linarith,rfl⟩

/-- A flattened entry with all its texts. -/
def describedItem : List (String × PyJson) :=
  [("tag",.str "P"),("file",.str "/src/recv.c"),("line",.int 10),
    ("function",.str "on_msg"),("taints",.list [.str "msg"]),
    ("function_description",.str "reads a message"),("entry_reason",.str "msg is external"),
    ("entry_role",.str "boundary"),("entry_confidence",.float (.finite (9 / 10))),
    ("taint_details",.list [.dict [("name",.str "msg"),("description",.str "raw bytes")]])]

theorem describedItem_sound : Sound plainRuntime (.dict describedItem) := by
  have hgood : goodTaints [.str "msg"] = ["msg"] := by decide
  have hdetails : detailsOf describedItem =
      .list [.dict [("name",.str "msg"),("description",.str "raw bytes")]] := rfl
  have htaints : field describedItem "taints" = .list [.str "msg"] := rfl
  constructor
  · rintro ⟨d,hd,-,hread | ⟨taints,-,-,hover | ⟨e,he⟩⟩⟩
    · cases hd
      exact hread (.inl (by decide))
    · cases hd
      cases hover
    · cases hd
      rw [hdetails] at he
      cases he
  · intro d taints hd _ htaints' _
    cases hd
    rw [htaints] at htaints'
    cases htaints'
    exact
      { file := ⟨"/src/recv.c",rfl,by decide⟩
        function := ⟨"on_msg",rfl,by decide⟩
        tainted := .inl (by decide)
        unpadded := by decide
        role := fun h => absurd h (by decide)
        description := by decide
        reason := by decide
        described := by
          intro raw hraw
          rw [hdetails] at hraw
          cases hraw
          unfold Described
          rw [hgood]
          refine ⟨by decide,?_⟩
          intro s hs t ht
          rw [List.mem_singleton.mp hs] at ht ⊢
          exact .inl (Option.some.inj (ht.symm.trans (by decide)))
        noTaints := fun h => absurd h (by decide) }

theorem described_list_established : Established plainRuntime [.dict describedItem] := by
  refine (repair_establishes_iff plainRuntime_roundsUnit _).mpr ?_
  intro x hx
  rw [List.mem_singleton.mp hx]
  exact describedItem_sound

/-- A passive entry whose only taint has an index. -/
def indexedEntry : PyJson := .dict
  [("tag",.str "P"),("file",.str "/src/recv.c"),("line",.int 10),
    ("function",.str "on_msg"),("taints",.list [.str "data[0]"])]

/-- The name read from the start of the taint is logged and then overwritten by the empty list of
good taints, so the entry that is kept fails the check. -/
theorem rescued_taints_not_valid :
    ∃ fixed log, autoFixFunctionsList plainRuntime [indexedEntry] = .ok (fixed,log) ∧
      fixed ≠ [] ∧ validateFunctionsList plainRuntime fixed ≠ .ok [] ∧
      ¬Established plainRuntime [indexedEntry] := by
  have hrun : (match autoFixFunctionsList plainRuntime [indexedEntry] with
    | .ok (fixed,_) =>
      (match validateFunctionsList plainRuntime fixed with
        | .ok errors => !fixed.isEmpty && !errors.isEmpty
        | _ => false)
    | _ => false) = true := by decide +kernel
  cases hfix : autoFixFunctionsList plainRuntime [indexedEntry] with
  | error e =>
    rw [hfix] at hrun
    cases hrun
  | ok p =>
    obtain ⟨fixed,log⟩ := p
    rw [hfix] at hrun
    dsimp only at hrun
    cases hvalid : validateFunctionsList plainRuntime fixed with
    | error e =>
      rw [hvalid] at hrun
      cases hrun
    | ok errors =>
      rw [hvalid] at hrun
      simp only [Bool.and_eq_true,Bool.not_eq_true',List.isEmpty_eq_false_iff] at hrun
      obtain ⟨hne,herrors⟩ := hrun
      refine ⟨fixed,log,rfl,hne,?_,?_⟩
      · rw [hvalid]
        exact fun h => herrors (Except.ok.inj h)
      · rintro ⟨fixed',log',hok,hvalid',-⟩
        rw [hfix] at hok
        cases hok
        have hnil := hvalid' hne
        rw [hvalid] at hnil
        exact herrors (Except.ok.inj hnil)

end FunctionsList
end EntryAnalyse
