import EntryAnalyse.ListValidity

/-! The scripts of the agents' skills that check a list of functions and a list of entries. They
repeat the check of the service by hand, each with its own expression for a taint. -/
namespace EntryAnalyse
namespace FunctionsList

open PyJson

/-! ## The taints of `validate_entry_list.py` -/

/-- The expression of the script has no `(?:\(\))?` at its end. -/
def entryTaintStep (s : TaintState) (c : Char) : Option TaintState :=
  if c = '(' then none else taintStep s c

def entryTaintRun : TaintState → List Char → Bool
  | s,[] => taintDone s
  | s,c :: cs =>
    (taintDone s && c == '\n' && cs.isEmpty) ||
      match entryTaintStep s c with
      | some s' => entryTaintRun s' cs
      | none => false

/-- `_TAINT.match(t)` for
`^[a-zA-Z_@][a-zA-Z0-9_]*(?:(?:->|::|[.@])[a-zA-Z_][a-zA-Z0-9_]*)*$`. -/
def entryTaintRe (t : String) : Bool := entryTaintRun .start t.toList

/-- The two expressions differ on texts with a parenthesis only. -/
theorem entryTaintRun_iff (s : TaintState) (cs : List Char) :
    entryTaintRun s cs = true ↔ taintRun s cs = true ∧ '(' ∉ cs := by
  induction cs generalizing s with
  | nil => simp [entryTaintRun,taintRun]
  | cons c cs ih =>
    by_cases hc : c = '('
    · subst hc
      simp [entryTaintRun,entryTaintStep]
    · have hne : '(' ≠ c := fun h => hc h.symm
      simp only [entryTaintRun,taintRun,entryTaintStep,if_neg hc,Bool.or_eq_true,List.mem_cons,
        not_or]
      by_cases hend : (taintDone s && c == '\n' && cs.isEmpty) = true
      · have hnil : cs = [] := by
          simp only [Bool.and_eq_true,List.isEmpty_iff] at hend
          exact hend.2
        simp only [hend,true_or,true_and]
        exact iff_of_true trivial ⟨hne,by simp [hnil]⟩
      · cases hstep : taintStep s c with
        | none => simp [hend]
        | some s' => simp [hend,hne,ih s']

theorem entryTaintRe_iff (t : String) :
    entryTaintRe t = true ↔ taintRe t = true ∧ '(' ∉ t.toList :=
  entryTaintRun_iff .start t.toList

/-- Behind the first parenthesis of a taint nothing but `)` and a line break can come. -/
theorem taintRun_paren {cs : List Char} (h : taintRun .paren cs = true) :
    cs = [')'] ∨ cs = [')','\n'] := by
  cases cs with
  | nil => cases h
  | cons c cs =>
    by_cases hc : c = ')'
    · subst hc
      cases cs with
      | nil => exact Or.inl rfl
      | cons c' cs =>
        right
        simp [taintRun,taintStep,taintDone] at h
        rw [h.1,h.2]
    · simp [taintRun,taintStep,taintDone,hc] at h

/-- Only a parenthesis leads to the end of a taint. -/
theorem taintStep_open {s s' : TaintState} {c : Char} (hs : s ≠ .paren) (hc : c ≠ '(')
    (h : taintStep s c = some s') : s' ≠ .paren ∧ s' ≠ .closed := by
  cases s with
  | paren => exact absurd rfl hs
  | closed => cases h
  | ident =>
    simp only [taintStep,beq_iff_eq,hc,if_false] at h
    split_ifs at h <;> (cases h; decide)
  | start | dash | colon | separator =>
    simp only [taintStep] at h
    split_ifs at h
    cases h
    decide

/-- What stands in front of the first parenthesis of a taint is a taint of its own. -/
theorem taintRun_split {s : TaintState} (hs : s ≠ .paren) {cs : List Char}
    (h : taintRun s cs = true) (hmem : '(' ∈ cs) :
    ∃ u, entryTaintRun s u = true ∧ (cs = u ++ ['(',')'] ∨ cs = u ++ ['(',')','\n']) := by
  induction cs generalizing s with
  | nil => cases hmem
  | cons c cs ih =>
    rw [taintRun,Bool.or_eq_true] at h
    rcases h with hend | hrun
    · simp only [Bool.and_eq_true,beq_iff_eq,List.isEmpty_iff] at hend
      rw [hend.1.2,hend.2] at hmem
      simp at hmem
    · cases hstep : taintStep s c with
      | none =>
        rw [hstep] at hrun
        cases hrun
      | some s' =>
        rw [hstep] at hrun
        by_cases hc : c = '('
        · have hident : s = .ident ∧ s' = .paren := by
            subst hc
            cases s <;> simp_all [taintStep,isIdentStart,isIdentPart]
          rw [hident.2] at hrun
          refine ⟨[],by rw [hident.1]; rfl,?_⟩
          rw [hc]
          rcases taintRun_paren hrun with hcs | hcs
          · exact Or.inl (by rw [hcs]; rfl)
          · exact Or.inr (by rw [hcs]; rfl)
        · have hmem' : '(' ∈ cs := (List.mem_cons.mp hmem).resolve_left fun h => hc h.symm
          obtain ⟨u,hu,hcs⟩ := ih (taintStep_open hs hc hstep).1 hrun hmem'
          refine ⟨c :: u,?_,?_⟩
          · have hentry : entryTaintStep s c = some s' := by rw [entryTaintStep,if_neg hc,hstep]
            rw [entryTaintRun,hentry]
            simp [hu]
          · rcases hcs with hcs | hcs
            · exact Or.inl (by rw [hcs]; rfl)
            · exact Or.inr (by rw [hcs]; rfl)

/-- A taint of the service that the other script refuses is one of its taints with `()` at the
end. -/
theorem taintRe_split {t : String} (h : taintRe t = true) (hentry : ¬entryTaintRe t = true) :
    ∃ u, entryTaintRe u = true ∧ (t = u ++ "()" ∨ t = u ++ "()\n") := by
  have hmem : '(' ∈ t.toList := by
    by_contra hmem
    exact hentry ((entryTaintRe_iff t).mpr ⟨h,hmem⟩)
  obtain ⟨u,hu,ht⟩ := taintRun_split (fun h => by cases h) h hmem
  refine ⟨String.ofList u,by rw [entryTaintRe,String.toList_ofList]; exact hu,?_⟩
  rcases ht with ht | ht
  · exact Or.inl (String.toList_injective (by rw [ht,String.toList_append,String.toList_ofList]; rfl))
  · exact Or.inr (String.toList_injective (by rw [ht,String.toList_append,String.toList_ofList]; rfl))

/-! ## The scripts -/

/-- What the two scripts differ in: how a value is shown, the expression, and the text for taints
that do not match it. -/
structure SkillScript where
  shown : PyJson → String
  taint : String → Bool
  badTaints : String

def validateFunctionsListScript (py : PyRuntime) : SkillScript where
  shown := py.dumps
  taint := taintRe
  badTaints := " taints 含非法元素（只允许参数名/成员访问如 param->field 或 @return，" ++
    "不能含括号（除末尾()）/空格/中文）: "

def validateEntryListScript (py : PyRuntime) : SkillScript where
  shown := py.repr
  taint := entryTaintRe
  badTaints := " taints 含非法元素（只允许参数名/成员访问如 param->field 或 @return，" ++
    "不能含括号/空格/中文）: "

/-- A list of elements that are all texts, none of them blank. -/
theorem texts_of_not_any {taints : List PyJson}
    (h : ¬taints.any (fun | .str s => strip s = "" | _ => true) = true) :
    ∃ l : List String, taints = l.map .str ∧ ∀ t ∈ l, strip t ≠ "" := by
  induction taints with
  | nil => exact ⟨[],rfl,fun t ht => by cases ht⟩
  | cons x xs ih =>
    rw [List.any_cons,Bool.or_eq_true,not_or] at h
    obtain ⟨l,hl,hblank⟩ := ih h.2
    cases x with
    | str s =>
      have hs : strip s ≠ "" := fun heq => h.1 (decide_eq_true heq)
      exact ⟨s :: l,by rw [hl]; rfl,List.forall_mem_cons.mpr ⟨hs,hblank⟩⟩
    | _ => exact absurd rfl h.1

theorem not_any_of_texts {l : List String} (h : ∀ t ∈ l, strip t ≠ "") :
    (l.map PyJson.str).any (fun | .str s => strip s = "" | _ => true) = false := by
  induction l with
  | nil => rfl
  | cons s l ih =>
    rw [List.map_cons,List.any_cons,ih fun t ht => h t (List.mem_cons_of_mem _ ht),Bool.or_false]
    exact decide_eq_false (h s List.mem_cons_self)

theorem filter_texts_eq_nil {l : List String} {p : String → Bool} :
    (l.map PyJson.str).filter (fun | .str s => !p s | _ => true) = [] ↔ ∀ t ∈ l, p t = true := by
  rw [List.filter_eq_nil_iff,List.forall_mem_map]
  simp

namespace SkillScript

variable (script : SkillScript)

def textErrors (pre key : String) (v : PyJson) : List String :=
  match v with
  | .str s =>
    if strip s = "" then [pre ++ " " ++ key ++ " 为空或非字符串: " ++ script.shown v] else []
  | _ => [pre ++ " " ++ key ++ " 为空或非字符串: " ++ script.shown v]

/-- No list is empty here, whatever the tag is. -/
def taintErrors (pre : String) (item : List (String × PyJson)) : List String :=
  match field item "taints" with
  | .list [] => [pre ++ " taints=" ++ script.shown (.list []) ++ " 为空或非数组"]
  | .list taints =>
    if taints.any (fun | .str s => strip s = "" | _ => true) then
      [pre ++ " taints 含空字符串元素: " ++ script.shown (.list taints)]
    else
      let bad := taints.filter (fun | .str s => !script.taint s | _ => true)
      if bad.isEmpty then [] else [pre ++ script.badTaints ++ script.shown (.list bad)]
  | v => [pre ++ " taints=" ++ script.shown v ++ " 为空或非数组"]

def itemErrors (pre : String) (item : List (String × PyJson)) : List String :=
  let tag := field item "tag"
  let line := field item "line"
  (if isTag tag then [] else [pre ++ " tag=" ++ script.shown tag ++ " 不合法，必须是 'P' 或 'A'"])
    ++ script.textErrors pre "file" (PyDict.getD item "file" (.str ""))
    ++ (if line.isInt then [] else [pre ++ " line=" ++ script.shown line ++ " 类型错误，必须是整数"])
    ++ script.textErrors pre "function" (PyDict.getD item "function" (.str ""))
    ++ script.taintErrors pre item

def elementErrors (py : PyRuntime) (i : ℕ) (item : PyJson) : List String :=
  let pre := "[" ++ toString i ++ "]"
  match item with
  | .dict d =>
    match PyDict.get d "_error" with
    | some e => [pre ++ " 含 _error 字段: " ++ py.str e]
    | none => script.itemErrors pre d
  | v => [pre ++ " 元素类型错误: " ++ typeName v]

/-- `validate` on the array that the file holds. -/
def validate (py : PyRuntime) (items : List PyJson) : List String :=
  match items with
  | [] => ["数组为空 — 应包含至少 1 个入口"]
  | items => items.zipIdx.flatMap fun p => script.elementErrors py p.2 p.1

theorem textErrors_getD_eq_nil {pre key : String} {d : List (String × PyJson)} :
    script.textErrors pre key (PyDict.getD d key (.str "")) = [] ↔ Named d key := by
  unfold Named field PyDict.getD textErrors
  cases h : PyDict.get d key with
  | some v => cases v <;> simp
  | none =>
    have hempty : strip "" = "" := by decide
    simp [hempty]

/-- The taints pass iff they are a list of texts, at least one, that all match. -/
theorem taintErrors_eq_nil {pre : String} {d : List (String × PyJson)} :
    script.taintErrors pre d = [] ↔ ∃ l : List String, l ≠ [] ∧
      field d "taints" = .list (l.map .str) ∧ ∀ t ∈ l, strip t ≠ "" ∧ script.taint t = true := by
  constructor
  · intro h
    unfold taintErrors at h
    split at h
    · cases h
    · rename_i taints hne hfield
      split at h
      · cases h
      · rename_i hany
        dsimp only at h
        split at h
        · rename_i hbad
          obtain ⟨l,hl,hblank⟩ := texts_of_not_any hany
          rw [List.isEmpty_iff,hl,filter_texts_eq_nil] at hbad
          refine ⟨l,?_,by rw [hfield,hl],fun t ht => ⟨hblank t ht,hbad t ht⟩⟩
          rintro rfl
          exact hne hl
        · cases h
    · cases h
  · rintro ⟨l,hne,hfield,hall⟩
    cases l with
    | nil => exact absurd rfl hne
    | cons s l =>
      have hany := not_any_of_texts fun t ht => (hall t ht).1
      have hbad := filter_texts_eq_nil.mpr fun t ht => (hall t ht).2
      rw [List.map_cons] at hany hbad
      unfold taintErrors
      rw [hfield,List.map_cons]
      dsimp only
      rw [if_neg (by rw [hany]; exact Bool.false_ne_true),hbad]
      rfl

/-- What an element has to be; its place in the array does not matter. -/
structure Accepts (x : PyJson) (d : List (String × PyJson)) : Prop where
  isDict : x = .dict d
  noError : PyDict.get d "_error" = none
  tag : isTag (field d "tag") = true
  file : Named d "file"
  line : (field d "line").isInt = true
  function : Named d "function"
  taints : ∀ pre, script.taintErrors pre d = []

theorem elementErrors_eq_nil {py : PyRuntime} {i : ℕ} {x : PyJson} :
    script.elementErrors py i x = [] ↔ ∃ d, script.Accepts x d := by
  constructor
  · intro h
    unfold elementErrors at h
    dsimp only at h
    split at h
    · rename_i d
      split at h
      · cases h
      · rename_i herror
        simp only [itemErrors,List.append_eq_nil_iff,ite_nil,textErrors_getD_eq_nil,
          taintErrors_eq_nil,and_assoc] at h
        obtain ⟨htag,hfile,hline,hfunction,htaints⟩ := h
        exact ⟨d,rfl,herror,htag,hfile,hline,hfunction,
          fun pre => script.taintErrors_eq_nil.mpr htaints⟩
    · cases h
  · rintro ⟨d,rfl,herror,htag,hfile,hline,hfunction,htaints⟩
    unfold elementErrors
    dsimp only
    rw [herror]
    simp only [itemErrors,List.append_eq_nil_iff,ite_nil,textErrors_getD_eq_nil,and_assoc]
    exact ⟨htag,hfile,hline,hfunction,htaints _⟩

theorem validate_eq_nil {py : PyRuntime} {items : List PyJson} :
    script.validate py items = [] ↔ items ≠ [] ∧ ∀ x ∈ items, ∃ d, script.Accepts x d := by
  cases items with
  | nil => simp [validate]
  | cons y l =>
    have heq : script.validate py (y :: l) =
        (y :: l).zipIdx.flatMap fun p => script.elementErrors py p.2 p.1 := rfl
    rw [heq,List.flatMap_eq_nil_iff]
    constructor
    · intro h
      refine ⟨List.cons_ne_nil y l,fun x hx => ?_⟩
      obtain ⟨i,hi,hxi⟩ := List.getElem_of_mem hx
      have hmem : (x,i) ∈ (y :: l).zipIdx := by
        rw [List.mem_zipIdx_iff_getElem?,List.getElem?_eq_some_iff]
        exact ⟨hi,hxi⟩
      exact script.elementErrors_eq_nil.mp (h (x,i) hmem)
    · intro h p hp
      exact script.elementErrors_eq_nil.mpr (h.2 p.1 (List.fst_mem_of_mem_zipIdx hp))

end SkillScript

/-! ## The three checks -/

section Agreement

variable (py : PyRuntime)

/-- The check of the service and that of `validate_functions_list.py` differ on the empty list
under the tag A only. -/
theorem taintErrors_iff_script (pre : String) (d : List (String × PyJson)) :
    taintErrors py pre d = [] ↔
      (validateFunctionsListScript py).taintErrors pre d = [] ∨
        (field d "taints" = .list [] ∧ py.text (field d "tag") = "A") := by
  rw [SkillScript.taintErrors_eq_nil]
  constructor
  · intro h
    unfold taintErrors at h
    dsimp only at h
    split at h
    · rename_i hfield
      split at h
      · rename_i hactive
        exact Or.inr ⟨hfield,hactive⟩
      · cases h
    · rename_i taints hne hfield
      split at h
      · cases h
      · rename_i hany
        split at h
        · rename_i hbad
          obtain ⟨l,hl,hblank⟩ := texts_of_not_any hany
          rw [List.isEmpty_iff,hl] at hbad
          have hall := filter_texts_eq_nil.mp hbad
          refine Or.inl ⟨l,?_,by rw [hfield,hl],fun t ht => ⟨hblank t ht,hall t ht⟩⟩
          rintro rfl
          exact hne hl
        · cases h
    · cases h
  · rintro (⟨l,hne,hfield,hall⟩ | ⟨hfield,hactive⟩)
    · cases l with
      | nil => exact absurd rfl hne
      | cons s l =>
        exact (taintErrors_of_texts hfield fun t ht => (hall t ht).1).mpr
          fun t ht => (hall t ht).2
    · unfold taintErrors
      dsimp only
      rw [hfield,if_pos hactive]

/-- What an element of a list that passes the check of the service has. -/
theorem script_of_validateItem {pre : String} {d : List (String × PyJson)}
    (h : validateItem py pre d = .ok []) :
    isTag (field d "tag") = true ∧ Named d "file" ∧ (field d "line").isInt = true ∧
      Named d "function" ∧ taintErrors py pre d = [] := by
  unfold validateItem at h
  cases hc : confidenceErrors py pre (field d "entry_confidence") with
  | error e =>
    rw [hc] at h
    cases h
  | ok confidence =>
    cases hd : detailErrors py pre d with
    | error e =>
      rw [hc,hd] at h
      cases h
    | ok details =>
      rw [hc,hd] at h
      have h := Except.ok.inj h
      simp only [List.append_eq_nil_iff,ite_nil,textErrors_getD_eq_nil] at h
      tauto

/-- Among the lists that the service accepts the script refuses those with an entry that has no
taints. -/
theorem script_of_validateFunctionsList {items : List PyJson}
    (h : validateFunctionsList py items = .ok []) :
    (validateFunctionsListScript py).validate py items = [] ↔
      ∀ d, .dict d ∈ items → field d "taints" ≠ .list [] := by
  have hitems : items ≠ [] := by
    rintro rfl
    cases h
  rw [SkillScript.validate_eq_nil]
  constructor
  · rintro ⟨-,hall⟩ d hd hnone
    obtain ⟨d',hd',-,-,-,-,-,htaints⟩ := hall _ hd
    cases hd'
    obtain ⟨l,hne,hfield,-⟩ := (SkillScript.taintErrors_eq_nil _).mp (htaints "")
    rw [hnone] at hfield
    cases l with
    | nil => exact hne rfl
    | cons s l => cases hfield
  · intro hall
    refine ⟨hitems,fun x hx => ?_⟩
    obtain ⟨i,hi⟩ := validateElement_of_list h hx
    unfold validateElement at hi
    dsimp only at hi
    split at hi
    · rename_i d
      split at hi
      · cases hi
      · rename_i herror
        obtain ⟨htag,hfile,hline,hfunction,htaints⟩ := script_of_validateItem py hi
        refine ⟨d,rfl,herror,htag,hfile,hline,hfunction,fun pre => ?_⟩
        rcases (taintErrors_iff_script py _ d).mp htaints with hscript | ⟨hnone,-⟩
        · exact (SkillScript.taintErrors_eq_nil _).mpr
            ((SkillScript.taintErrors_eq_nil _).mp hscript)
        · exact absurd hnone (hall d hx)
    · cases hi

/-- The script for the list of entries refuses what the other one refuses, and parentheses. -/
theorem entryList_iff {items : List PyJson} :
    (validateEntryListScript py).validate py items = [] ↔
      (validateFunctionsListScript py).validate py items = [] ∧
        ∀ d (l : List String), .dict d ∈ items → field d "taints" = .list (l.map .str) →
          ∀ t ∈ l, '(' ∉ t.toList := by
  rw [SkillScript.validate_eq_nil,SkillScript.validate_eq_nil,and_assoc]
  refine and_congr_right fun _ => ?_
  have htaint : ∀ d, (∀ pre, (validateEntryListScript py).taintErrors pre d = []) ↔
      (∀ pre, (validateFunctionsListScript py).taintErrors pre d = []) ∧
        ∀ l : List String, field d "taints" = .list (l.map .str) → ∀ t ∈ l, '(' ∉ t.toList := by
    intro d
    simp only [SkillScript.taintErrors_eq_nil]
    constructor
    · intro h
      obtain ⟨l,hne,hfield,hall⟩ := h ""
      refine ⟨fun _ => ⟨l,hne,hfield,fun t ht =>
        ⟨(hall t ht).1,((entryTaintRe_iff t).mp (hall t ht).2).1⟩⟩,fun l' hfield' t ht => ?_⟩
      rw [hfield'] at hfield
      have heq : l' = l := List.map_injective_iff.mpr (fun a b hab => PyJson.str.inj hab)
        (PyJson.list.inj hfield)
      rw [heq] at ht
      exact ((entryTaintRe_iff t).mp (hall t ht).2).2
    · rintro ⟨h,hparen⟩ -
      obtain ⟨l,hne,hfield,hall⟩ := h ""
      exact ⟨l,hne,hfield,fun t ht =>
        ⟨(hall t ht).1,(entryTaintRe_iff t).mpr ⟨(hall t ht).2,hparen l hfield t ht⟩⟩⟩
  constructor
  · intro h
    refine ⟨fun x hx => ?_,fun d l hd hfield => ?_⟩
    · obtain ⟨d,hdict,herror,htag,hfile,hline,hfunction,htaints⟩ := h x hx
      exact ⟨d,hdict,herror,htag,hfile,hline,hfunction,((htaint d).mp htaints).1⟩
    · obtain ⟨d',hdict,-,-,-,-,-,htaints⟩ := h _ hd
      cases hdict
      exact ((htaint d).mp htaints).2 l hfield
  · rintro ⟨h,hparen⟩ x hx
    obtain ⟨d,hdict,herror,htag,hfile,hline,hfunction,htaints⟩ := h x hx
    refine ⟨d,hdict,herror,htag,hfile,hline,hfunction,
      (htaint d).mpr ⟨htaints,fun l hfield => hparen d l ?_ hfield⟩⟩
    rw [← hdict]
    exact hx

/-- How the three checks of the taints differ. -/
theorem validators_agree :
    (∀ pre d, taintErrors py pre d = [] ↔
      (validateFunctionsListScript py).taintErrors pre d = [] ∨
        (field d "taints" = .list [] ∧ py.text (field d "tag") = "A")) ∧
    (∀ items, validateFunctionsList py items = .ok [] →
      ((validateFunctionsListScript py).validate py items = [] ↔
        ∀ d, .dict d ∈ items → field d "taints" ≠ .list [])) ∧
    (∀ items, (validateEntryListScript py).validate py items = [] ↔
      (validateFunctionsListScript py).validate py items = [] ∧
        ∀ d (l : List String), .dict d ∈ items → field d "taints" = .list (l.map .str) →
          ∀ t ∈ l, '(' ∉ t.toList) ∧
    (∀ t, entryTaintRe t = true ↔ taintRe t = true ∧ '(' ∉ t.toList) ∧
    (∀ t, taintRe t = true → ¬entryTaintRe t = true →
      ∃ u, entryTaintRe u = true ∧ (t = u ++ "()" ∨ t = u ++ "()\n")) :=
  ⟨taintErrors_iff_script py,fun _ h => script_of_validateFunctionsList py h,
    fun _ => entryList_iff py,entryTaintRe_iff,fun _ h hentry => taintRe_split h hentry⟩

end Agreement

/-- An entry that reads its data by itself. -/
def activeEntry (taints : List PyJson) : List (String × PyJson) :=
  [("tag",.str "A"),("file",.str "main.c"),("line",.int 7),("function",.str "poll"),
    ("taints",.list taints)]

/-- The service takes an active entry without taints, the script does not; and the script for the
entries does not take a taint that the other two take. -/
theorem validators_differ :
    taintErrors plainRuntime "[0]" (activeEntry []) = [] ∧
    (validateFunctionsListScript plainRuntime).taintErrors "[0]" (activeEntry []) ≠ [] ∧
    (validateFunctionsListScript plainRuntime).validate plainRuntime
      [.dict (activeEntry [.str "frame->len()"])] = [] ∧
    (validateEntryListScript plainRuntime).validate plainRuntime
      [.dict (activeEntry [.str "frame->len()"])] ≠ [] ∧
    taintRe "frame->len()" = true ∧ entryTaintRe "frame->len()" = false := by
  decide +kernel

end FunctionsList
end EntryAnalyse
