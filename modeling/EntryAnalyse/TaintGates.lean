import EntryAnalyse.ParameterNames
import EntryAnalyse.PyText
import EntryAnalyse.SkillValidators

/-! The checks of taints in front of the R3 judge, and the format that the published list admits.
The checks look at the identifier in front of the first `->` or `.` only. -/
namespace EntryAnalyse
namespace TaintGates

open PyJson FunctionsList PyText ParameterNames

/-! ## The checks -/

/-- `re.split(r"->|\.", t)[0]`. -/
def taintRoot : Text → Text
  | [] => []
  | c :: cs => if c = '.' ∨ c = '-' ∧ cs.head? = some '>' then [] else c :: taintRoot cs

def identTail (part : Char → Bool) : Text → Bool
  | [] => true
  | c :: cs => (c == '\n' && cs.isEmpty) || (part c && identTail part cs)

/-- `re.match` for an identifier with `^` and `$` around it. -/
def identRe (part : Char → Bool) : Text → Bool
  | [] => false
  | c :: cs => isIdentStart c && identTail part cs

/-- What the checks read of an analysis. -/
structure Analysis where
  tag : String
  hasExternalInput : Option Bool
  decision : String
  taints : List Text

/-- What they read of a row of the function database. -/
structure Row where
  hasExternalInput : Bool
  signature : Text
  analysis : Analysis

variable (k : Letters) (shown : List Text → Text)

def formatPreCheck (a : Analysis) : Option Text :=
  let invalid := a.taints.filter fun t => !identRe isIdentPart (taintRoot t)
  if invalid.isEmpty then none
  else some ("[pre-fail] taints 格式非法（根标识符含非法字符）: ".toList ++ shown (invalid.take 3))

/-- `re.search(r"\((.+)\)", sig, re.DOTALL)`. -/
def paramGroup (sig : Text) : Option Text :=
  let rest := (sig.dropWhile (· != '(')).drop 1
  let group := (rest.rdropWhile (· != ')')).dropLast
  if group.isEmpty then none else some group

/-- `re.match(r"^\s*(void\s*)?$", ps)`. -/
def voidRe (ps : Text) : Bool :=
  let rest := ps.dropWhile pyIsSpace
  rest.isEmpty || "void".toList.isPrefixOf rest && (rest.drop 4).all pyIsSpace

/-- The taints whose roots are not among the names that are read in the parameters. -/
def paramFailure (ps : Text) (taints : List Text) : Option Text :=
  let names := paramNames k ps
  let bad := taints.filter fun t => !names.contains (taintRoot t)
  if voidRe ps || bad.isEmpty || names.isEmpty then none
  else some ("[pre-fail] P型taints根标识符不在函数签名参数中: ".toList ++
    shown ((bad.take 2).map taintRoot) ++ " (taints=".toList ++ shown (bad.take 2) ++ ")".toList)

def paramPreCheck (row : Row) (stateSignature : Text) : Option Text :=
  let a := row.analysis
  let hasInput := row.hasExternalInput || a.hasExternalInput.getD false
  let sig := trim (if row.signature.isEmpty then stateSignature else row.signature)
  if a.tag == "P" && hasInput && !a.taints.isEmpty && !sig.isEmpty then
    (paramGroup sig).bind fun group => paramFailure k shown (trim group) a.taints
  else none

/-- The checks of `_run_r3_analysis_j` before the judge is asked: the summary of the failure. -/
def preChecks (row : Row) (stateSignature : Text) : Option Text :=
  (formatPreCheck shown row.analysis).or (paramPreCheck k shown row stateSignature)

/-- `\s*(void\s*)?\)` at the start of a text. -/
def closesEmpty (cs : Text) : Bool :=
  let rest := cs.dropWhile pyIsSpace
  rest.head? == some ')' ||
    "void".toList.isPrefixOf rest && ((rest.drop 4).dropWhile pyIsSpace).head? == some ')'

/-- `re.search(r"\(\s*(void\s*)?\)", sig)`. -/
def hasEmptyParens : Text → Bool
  | [] => false
  | c :: cs => c == '(' && closesEmpty cs || hasEmptyParens cs

/-- `_r3_taint_gate_check`. -/
def r3TaintGateCheck (a : Analysis) (signature : Text) : Bool × Text :=
  if !a.hasExternalInput.getD true then (true,[])
  else if strip (lower a.decision) = "filter" then (true,[])
  else if hasEmptyParens (trim signature) then (true,[])
  else if a.taints.isEmpty then
    (false,("keep 入口 has_external_input=true 但 taints 为空；有参函数必须列出至少" ++
      "一个承载外部数据的污点（P型=参数名，A型=recv@buf 形式）。").toList)
  else
    let invalid := a.taints.filter fun t =>
      !identRe k.isWord ((taintRoot t).rtakeWhile (· != '@'))
    if invalid.isEmpty then (true,[])
    else (false,"taints 格式非法（根标识符含非法字符）: ".toList ++ shown (invalid.take 3) ++
      "；请用合法 C 标识符。".toList)

/-! ## The format of a taint -/

inductive Separator | arrow | scope | dot | at

def Separator.text : Separator → Text
  | .arrow => ['-','>']
  | .scope => [':',':']
  | .dot => ['.']
  | .at => ['@']

def isIdent : Text → Bool
  | [] => false
  | c :: cs => isIdentStart c && cs.all isIdentPart

structure Member where
  sep : Separator
  name : Text
  legal : isIdent name = true

def Member.text (m : Member) : Text := m.sep.text ++ m.name

/-- A taint as `_TAINT_RE` admits it: a root with members, perhaps `()` and a line break. -/
structure TaintForm where
  first : Char
  others : Text
  members : List Member
  called : Bool
  newline : Bool
  begins : isIdentStart first = true ∨ first = '@'
  goesOn : ∀ c ∈ others, isIdentPart c = true

def formEnd (called newline : Bool) : Text :=
  (if called then ['(',')'] else []) ++ (if newline then ['\n'] else [])

namespace TaintForm

variable (f : TaintForm)

def root : Text := f.first :: f.others

def access : Text := f.members.flatMap Member.text ++ formEnd f.called f.newline

def text : Text := f.root ++ f.access

end TaintForm

section Format

variable {cs r : Text}

variable {s s' : TaintState} {c : Char}

theorem taintRun_step (h : taintStep s c = some s') (hc : c ≠ '\n') :
    taintRun s (c :: cs) = taintRun s' cs := by
  rw [taintRun,h,beq_eq_false_iff_ne.mpr hc,Bool.and_false,Bool.false_and,Bool.false_or]

theorem ne_newline (h : isIdentPart c = true) : c ≠ '\n' := by
  rintro rfl
  cases h

theorem taintRun_parts (h : ∀ c ∈ cs, isIdentPart c = true) :
    taintRun .ident (cs ++ r) = taintRun .ident r := by
  induction cs with
  | nil => rfl
  | cons c cs ih =>
    have hc := h c List.mem_cons_self
    have hstep : taintStep .ident c = some .ident := by rw [taintStep,if_pos hc]
    rw [List.cons_append,taintRun_step hstep (ne_newline hc)]
    exact ih fun d hd => h d (List.mem_cons_of_mem _ hd)

theorem taintRun_ident {x : Text} (hx : isIdent x = true) :
    taintRun .separator (x ++ r) = taintRun .ident r := by
  cases x with
  | nil => cases hx
  | cons c x =>
    rw [isIdent,Bool.and_eq_true,List.all_eq_true] at hx
    have hstep : taintStep .separator c = some .ident := by rw [taintStep,if_pos hx.1]
    rw [List.cons_append,taintRun_step hstep (ne_newline (isIdentPart_of_isIdentStart hx.1))]
    exact taintRun_parts hx.2

theorem taintRun_member (m : Member) : taintRun .ident (m.text ++ r) = taintRun .ident r := by
  rw [Member.text,List.append_assoc,← taintRun_ident (r := r) m.legal]
  cases m.sep <;> rfl

theorem taintRun_members (ms : List Member) :
    taintRun .ident (ms.flatMap Member.text ++ r) = taintRun .ident r := by
  induction ms with
  | nil => rfl
  | cons m ms ih => rw [List.flatMap_cons,List.append_assoc,taintRun_member,ih]

theorem taintRun_text (f : TaintForm) : taintRun .start f.text = true := by
  have hstep : taintStep .start f.first = some .ident ∧ f.first ≠ '\n' := by
    rcases f.begins with h | h
    · refine ⟨?_,ne_newline (isIdentPart_of_isIdentStart h)⟩
      rw [taintStep,h]
      rfl
    · rw [h]
      exact ⟨rfl,by decide⟩
  rw [TaintForm.text,TaintForm.root,List.cons_append,taintRun_step hstep.1 hstep.2,
    taintRun_parts f.goesOn,TaintForm.access,taintRun_members]
  cases f.called <;> cases f.newline <;> rfl

/-- Inside `->`, `::` and `()` only one character can follow. -/
theorem taintRun_second {d : Char} (hd : ∀ c, c ≠ d → taintStep s c = none)
    (hs : taintDone s = false) (hstep : taintStep s d = some s') (h : taintRun s cs = true) :
    ∃ ds, cs = d :: ds ∧ (taintRun s' ds = true) := by
  cases cs with
  | nil => rw [taintRun,hs] at h; cases h
  | cons c cs =>
    rw [taintRun,hs,Bool.false_and,Bool.false_and,Bool.false_or] at h
    by_cases hc : c = d
    · rw [hc,hstep] at h
      exact ⟨cs,by rw [hc],h⟩
    · rw [hd c hc] at h
      cases h

theorem taintRun_dash (h : taintRun .dash cs = true) :
    ∃ ds, cs = '>' :: ds ∧ (taintRun .separator ds = true) := by
  have hd : ∀ c, c ≠ '>' → taintStep .dash c = none := fun c hc => by
    rw [taintStep,if_neg (by simpa using hc)]
  exact taintRun_second hd rfl rfl h

theorem taintRun_colon (h : taintRun .colon cs = true) :
    ∃ ds, cs = ':' :: ds ∧ (taintRun .separator ds = true) := by
  have hd : ∀ c, c ≠ ':' → taintStep .colon c = none := fun c hc => by
    rw [taintStep,if_neg (by simpa using hc)]
  exact taintRun_second hd rfl rfl h

/-- Letters, members and an end. -/
def IdentRest (cs : Text) : Prop :=
  ∃ others ms called newline, (∀ c ∈ others, isIdentPart c = true) ∧
    cs = others ++ (List.flatMap Member.text ms ++ formEnd called newline)

theorem identRest_parts (hc : isIdentPart c = true) (h : IdentRest cs) : IdentRest (c :: cs) := by
  obtain ⟨others,ms,called,newline,hothers,rfl⟩ := h
  refine ⟨c :: others,ms,called,newline,fun d hd => ?_,rfl⟩
  rcases List.mem_cons.mp hd with rfl | hd
  · exact hc
  · exact hothers d hd

theorem identRest_member (sep : Separator) (hc : isIdentStart c = true) (h : IdentRest cs) :
    IdentRest (sep.text ++ c :: cs) := by
  obtain ⟨others,ms,called,newline,hothers,rfl⟩ := h
  have hlegal : isIdent (c :: others) = true := by
    rw [isIdent,hc,Bool.true_and,List.all_eq_true]
    exact hothers
  refine ⟨[],⟨sep,c :: others,hlegal⟩ :: ms,called,newline,by simp,?_⟩
  simp [Member.text]

/-- Behind an identifier the expression reads letters, members and an end. -/
theorem identRest_of_taintRun {n : ℕ} (hlen : cs.length ≤ n) (h : taintRun .ident cs = true) :
    IdentRest cs := by
  induction n generalizing cs with
  | zero =>
    rw [List.eq_nil_of_length_eq_zero (Nat.le_zero.mp hlen)]
    exact ⟨[],[],false,false,by simp,rfl⟩
  | succ n ih =>
    -- a separator is followed by the first letter of a name
    have hmember : ∀ sep : Separator, ∀ ds : Text, ds.length ≤ n + 1 →
        taintRun .separator ds = true → IdentRest (sep.text ++ ds) := by
      intro sep ds hds hrun
      cases ds with
      | nil => cases hrun
      | cons d ds =>
        by_cases hd : isIdentStart d = true
        · have hstep : taintStep .separator d = some .ident := by rw [taintStep,if_pos hd]
          rw [taintRun_step hstep (ne_newline (isIdentPart_of_isIdentStart hd))] at hrun
          exact identRest_member sep hd (ih (Nat.le_of_succ_le_succ hds) hrun)
        · simp [taintRun,taintStep,taintDone,hd] at hrun
    cases cs with
    | nil => exact ⟨[],[],false,false,by simp,rfl⟩
    | cons c cs =>
      have hcs : cs.length ≤ n := Nat.le_of_succ_le_succ hlen
      by_cases hpart : isIdentPart c = true
      · have hstep : taintStep .ident c = some .ident := by rw [taintStep,if_pos hpart]
        rw [taintRun_step hstep (ne_newline hpart)] at h
        exact identRest_parts hpart (ih hcs h)
      · rw [taintRun,Bool.or_eq_true] at h
        rcases h with hend | hrun
        · simp only [Bool.and_eq_true,beq_iff_eq,List.isEmpty_iff] at hend
          rw [hend.1.2,hend.2]
          exact ⟨[],[],false,true,by simp,rfl⟩
        · simp only [taintStep,hpart,Bool.false_eq_true,if_false,beq_iff_eq,Bool.or_eq_true]
            at hrun
          by_cases hdash : c = '-'
          · rw [hdash] at hrun ⊢
            obtain ⟨ds,rfl,hds⟩ := taintRun_dash hrun
            exact hmember .arrow ds (Nat.le_of_succ_le (Nat.le_of_succ_le hlen)) hds
          · by_cases hcolon : c = ':'
            · rw [hcolon] at hrun ⊢
              obtain ⟨ds,rfl,hds⟩ := taintRun_colon hrun
              exact hmember .scope ds (Nat.le_of_succ_le (Nat.le_of_succ_le hlen)) hds
            · by_cases hdot : c = '.'
              · rw [hdot] at hrun ⊢
                exact hmember .dot cs (Nat.le_of_succ_le hlen) hrun
              · by_cases hat : c = '@'
                · rw [hat] at hrun ⊢
                  exact hmember .at cs (Nat.le_of_succ_le hlen) hrun
                · by_cases hparen : c = '('
                  · rw [hparen] at hrun ⊢
                    rcases taintRun_paren hrun with rfl | rfl
                    · exact ⟨[],[],true,false,by simp,rfl⟩
                    · exact ⟨[],[],true,true,by simp,rfl⟩
                  · simp [hdash,hcolon,hdot,hat,hparen] at hrun

/-- The expression admits exactly the texts of the format. -/
theorem taintRun_start_iff : taintRun .start cs = true ↔ ∃ f : TaintForm, f.text = cs := by
  constructor
  · intro h
    cases cs with
    | nil => cases h
    | cons c cs =>
      by_cases hc : isIdentStart c = true ∨ c = '@'
      · have hstep : taintStep .start c = some .ident := by
          rw [taintStep,if_pos (by simpa using hc)]
        have hne : c ≠ '\n' := by
          rintro rfl
          revert hc
          decide
        rw [taintRun_step hstep hne] at h
        obtain ⟨others,ms,called,newline,hothers,hcs⟩ := identRest_of_taintRun le_rfl h
        exact ⟨⟨c,others,ms,called,newline,hc,hothers⟩,by rw [hcs]; rfl⟩
      · simp [taintRun,taintStep,taintDone,hc] at h
  · rintro ⟨f,rfl⟩
    exact taintRun_text f

end Format

/-! ## The roots of taints -/

namespace TaintForm

variable (f : TaintForm)

/-- The first member is reached through `->` or `.`, or the taint is the root alone. -/
def Plain : Prop :=
  match f.members with
  | [] => f.called = false
  | m :: _ => m.sep = .arrow ∨ m.sep = .dot

end TaintForm

section Roots

variable {cs r : Text} {c : Char} (f : TaintForm)

theorem taintRoot_parts (h : ∀ c ∈ cs, isIdentPart c = true) :
    taintRoot (cs ++ r) = cs ++ taintRoot r := by
  induction cs with
  | nil => rfl
  | cons c cs ih =>
    have hc := h c List.mem_cons_self
    have hne : ¬(c = '.' ∨ c = '-' ∧ (cs ++ r).head? = some '>') := by
      rintro (rfl | ⟨rfl,_⟩)
      · cases hc
      · cases hc
    rw [List.cons_append,taintRoot,if_neg hne,ih fun d hd => h d (List.mem_cons_of_mem _ hd)]
    rfl

theorem taintRoot_text : taintRoot f.text = f.root ++ taintRoot f.access := by
  have hne : ¬(f.first = '.' ∨ f.first = '-' ∧ (f.others ++ f.access).head? = some '>') := by
    rcases f.begins with h | h
    · rintro (heq | ⟨heq,_⟩)
      · rw [heq] at h
        cases h
      · rw [heq] at h
        cases h
    · rw [h]
      rintro (heq | ⟨heq,_⟩)
      · cases heq
      · cases heq
  rw [TaintForm.text,TaintForm.root,List.cons_append,taintRoot,if_neg hne,taintRoot_parts f.goesOn]
  rfl

theorem identTail_parts (h : ∀ c ∈ cs, isIdentPart c = true) :
    identTail isIdentPart (cs ++ r) = identTail isIdentPart r := by
  induction cs with
  | nil => rfl
  | cons c cs ih =>
    have hc := h c List.mem_cons_self
    rw [List.cons_append,identTail,beq_eq_false_iff_ne.mpr (ne_newline hc),hc,Bool.false_and,
      Bool.false_or,Bool.true_and]
    exact ih fun d hd => h d (List.mem_cons_of_mem _ hd)

theorem identTail_not_part (h : isIdentPart c = false) (hc : c ≠ '\n') :
    identTail isIdentPart (c :: cs) = false := by
  rw [identTail,h,beq_eq_false_iff_ne.mpr hc,Bool.false_and,Bool.false_and,Bool.false_or]

theorem identTail_member (m : Member) :
    identTail isIdentPart (taintRoot (m.text ++ r)) = true ↔ m.sep = .arrow ∨ m.sep = .dot := by
  rw [Member.text,List.append_assoc]
  cases m.sep with
  | arrow => exact iff_of_true rfl (Or.inl rfl)
  | dot => exact iff_of_true rfl (Or.inr rfl)
  | scope =>
    have hroot : taintRoot ([':',':'] ++ (m.name ++ r)) = ':' :: ':' :: taintRoot (m.name ++ r) := rfl
    rw [Separator.text,hroot,identTail_not_part (by decide) (by decide)]
    simp
  | «at» =>
    have hroot : taintRoot (['@'] ++ (m.name ++ r)) = '@' :: taintRoot (m.name ++ r) := rfl
    rw [Separator.text,hroot,identTail_not_part (by decide) (by decide)]
    simp

theorem identTail_access :
    identTail isIdentPart (taintRoot f.access) = true ↔ f.Plain := by
  rw [TaintForm.access,TaintForm.Plain]
  cases f.members with
  | nil =>
    cases f.called with
    | false => cases f.newline <;> exact iff_of_true rfl rfl
    | true => cases f.newline <;> exact iff_of_false (by decide) (by decide)
  | cons m ms =>
    rw [List.flatMap_cons,List.append_assoc]
    exact identTail_member m

/-- The root of a taint in the format passes the first check exactly if it is plain and does not
begin with `@`. -/
theorem identRe_taintRoot :
    identRe isIdentPart (taintRoot f.text) = true ↔ isIdentStart f.first = true ∧ f.Plain := by
  rw [taintRoot_text,TaintForm.root,List.cons_append,identRe,identTail_parts f.goesOn,
    Bool.and_eq_true,identTail_access]

/-- The root of a plain taint keeps the line break of a taint without members. -/
theorem taintRoot_plain (h : f.Plain) :
    taintRoot f.text = f.root ↔ ¬(f.members = [] ∧ f.newline = true) := by
  have hnil : taintRoot f.text = f.root ↔ taintRoot f.access = [] := by
    rw [taintRoot_text]
    exact List.append_right_eq_self
  rw [hnil,TaintForm.access]
  rw [TaintForm.Plain] at h
  cases hms : f.members with
  | nil =>
    rw [hms] at h
    rw [h]
    cases f.newline with
    | false => exact iff_of_true rfl (by simp)
    | true => exact iff_of_false (by decide) (by simp)
  | cons m ms =>
    rw [hms] at h
    refine iff_of_true ?_ (by simp)
    rw [List.flatMap_cons,List.append_assoc,Member.text,List.append_assoc]
    rcases h with h | h
    · rw [h]
      rfl
    · rw [h]
      rfl

theorem rootName_text (h : isIdentStart f.first = true) :
    f.text.takeWhile isIdentPart = f.root := by
  have hroot : ∀ c ∈ f.root, isIdentPart c = true := by
    intro c hc
    rcases List.mem_cons.mp hc with rfl | hc
    · exact isIdentPart_of_isIdentStart h
    · exact f.goesOn c hc
  have haccess : f.access.takeWhile isIdentPart = [] := by
    rw [TaintForm.access]
    cases f.members with
    | nil => cases f.called <;> cases f.newline <;> rfl
    | cons m ms =>
      rw [List.flatMap_cons,Member.text]
      cases m.sep <;> rfl
  rw [TaintForm.text,List.takeWhile_append_of_pos hroot,haccess,List.append_nil]

end Roots

/-! ## Signatures -/

/-- A parameter: what stands in front of its name and behind it. -/
structure Parameter where
  front : Text
  name : Text
  back : Text
  legal : isIdent name = true
  apart : ∀ c ∈ front.getLast?, isIdentPart c = false
  ended : ∀ c ∈ back.head?, isIdentPart c = false

structure Signature where
  head : Text
  params : List Parameter
  tail : Text

namespace Signature

variable (sig : Signature)

def text : Text :=
  sig.head ++ '(' :: ([','].intercalate (sig.params.map fun p => p.front ++ (p.name ++ p.back)) ++
    ')' :: sig.tail)

def names : List Text := sig.params.map Parameter.name

/-- The text between the first and the last parenthesis. -/
def paramText : Text := ((paramGroup (trim sig.text)).map trim).getD []

end Signature

/-! ## What the checks accept -/

section Accepted

variable (stateSignature : Text) (a : Analysis) (rowInput : Bool) (sig : Signature)

/-- The row of a function with that signature and those taints. -/
def rowOf (taints : List Text) : Row where
  hasExternalInput := rowInput
  signature := sig.text
  analysis := {a with taints := taints}

def Accepts (t : Text) : Prop :=
  preChecks k shown (rowOf a rowInput sig [t]) stateSignature = none

/-- The roots of the taints are looked up among the parameters: some name is read. -/
def LooksUp : Prop :=
  a.tag = "P" ∧ (rowInput || a.hasExternalInput.getD false) = true ∧
    voidRe sig.paramText = false ∧ ∃ x, Stands k none sig.paramText x

theorem formatPreCheck_eq_none_iff :
    formatPreCheck shown a = none ↔
      ∀ t ∈ a.taints, identRe isIdentPart (taintRoot t) = true := by
  rw [formatPreCheck]
  simp only [List.isEmpty_iff,List.filter_eq_nil_iff]
  split
  case isTrue h => exact iff_of_true rfl (by simpa using h)
  case isFalse h => exact iff_of_false (by simp) (by simpa using h)

theorem isEmpty_text : sig.text.isEmpty = false := by
  rw [Signature.text]
  cases sig.head <;> rfl

theorem paramFailure_eq_none_iff {ps : Text} {taints : List Text} :
    paramFailure k shown ps taints = none ↔
      (voidRe ps = false → (∃ x, Stands k none ps x) →
        ∀ t ∈ taints, Stands k none ps (taintRoot t)) := by
  have hbad : (taints.filter fun t => !(paramNames k ps).contains (taintRoot t)) = [] ↔
      ∀ t ∈ taints, Stands k none ps (taintRoot t) := by
    rw [List.filter_eq_nil_iff]
    simp only [Bool.not_eq_true',Bool.not_eq_false,List.contains_iff_mem,mem_paramNames]
  have hnames : paramNames k ps = [] ↔ ¬∃ x, Stands k none ps x := by
    rw [List.eq_nil_iff_forall_not_mem,not_exists]
    simp only [mem_paramNames]
  rw [paramFailure,← hbad]
  simp only [ite_eq_left_iff,reduceCtorEq,imp_false,not_not,Bool.or_eq_true,List.isEmpty_iff,
    hnames]
  cases voidRe ps with
  | true => simp
  | false =>
    simp only [Bool.false_eq_true,false_or,true_implies]
    exact or_iff_not_imp_right.trans (by rw [not_not])

theorem paramPreCheck_eq_none_iff {taints : List Text} :
    paramPreCheck k shown (rowOf a rowInput sig taints) stateSignature = none ↔
      (LooksUp k a rowInput sig → ∀ t ∈ taints, Stands k none sig.paramText (taintRoot t)) := by
  have hsig : paramPreCheck k shown (rowOf a rowInput sig taints) stateSignature =
      if a.tag == "P" && (rowInput || a.hasExternalInput.getD false) && !taints.isEmpty &&
        !(trim sig.text).isEmpty then
        (paramGroup (trim sig.text)).bind fun group => paramFailure k shown (trim group) taints
      else none := by
    rw [paramPreCheck]
    simp only [rowOf,isEmpty_text,Bool.false_eq_true,if_false]
  rw [hsig]
  cases taints with
  | nil => exact iff_of_true (by simp) (by simp)
  | cons t taints =>
    cases hgroup : paramGroup (trim sig.text) with
    | none =>
      refine iff_of_true (by simp) fun hlooks => ?_
      have hvoid := hlooks.2.2.1
      rw [Signature.paramText,hgroup] at hvoid
      cases hvoid
    | some group =>
      have hne : (trim sig.text).isEmpty = false := by
        cases hnil : trim sig.text with
        | nil =>
          rw [hnil] at hgroup
          cases hgroup
        | cons c cs => rfl
      have hps : sig.paramText = trim group := by rw [Signature.paramText,hgroup]; rfl
      rw [LooksUp,hps,hne,List.isEmpty_cons,Bool.not_false,Bool.and_true,Bool.and_true,
        Option.bind_some]
      by_cases htag : a.tag = "P" ∧ (rowInput || a.hasExternalInput.getD false) = true
      · rw [if_pos (by rw [htag.2,beq_iff_eq.mpr htag.1]; rfl),paramFailure_eq_none_iff]
        exact ⟨fun h hlooks => h hlooks.2.2.1 hlooks.2.2.2,
          fun h hvoid hread => h ⟨htag.1,htag.2,hvoid,hread⟩⟩
      · rw [if_neg (by simpa using htag)]
        exact iff_of_true rfl fun hlooks => absurd ⟨hlooks.1,hlooks.2.1⟩ htag

theorem preChecks_iff {taints : List Text} :
    preChecks k shown (rowOf a rowInput sig taints) stateSignature = none ↔
      (∀ t ∈ taints, identRe isIdentPart (taintRoot t) = true) ∧
        (LooksUp k a rowInput sig → ∀ t ∈ taints, Stands k none sig.paramText (taintRoot t)) := by
  rw [preChecks,Option.or_eq_none_iff,formatPreCheck_eq_none_iff,paramPreCheck_eq_none_iff]
  rfl

theorem accepts_iff {t : Text} : Accepts k shown stateSignature a rowInput sig t ↔
    identRe isIdentPart (taintRoot t) = true ∧
      (LooksUp k a rowInput sig → Stands k none sig.paramText (taintRoot t)) := by
  rw [Accepts,preChecks_iff]
  simp only [List.forall_mem_singleton]

/-- The checks pass a function exactly if they pass each of its taints. -/
theorem preChecks_eq_none_iff {taints : List Text} :
    preChecks k shown (rowOf a rowInput sig taints) stateSignature = none ↔
      ∀ t ∈ taints, Accepts k shown stateSignature a rowInput sig t := by
  simp only [preChecks_iff,accepts_iff]
  exact ⟨fun h t ht => ⟨h.1 t ht,fun hlooks => h.2 hlooks t ht⟩,
    fun h => ⟨fun t ht => (h t ht).1,fun hlooks t ht => (h t ht).2 hlooks⟩⟩

end Accepted

/-! ## The gate of the fast engine -/

theorem isIdentPart_mem_of_identTail {cs : Text} (h : identTail isIdentPart cs = true) :
    ∀ c ∈ cs, isIdentPart c = true ∨ c = '\n' := by
  induction cs with
  | nil => simp
  | cons c cs ih =>
    rw [identTail,Bool.or_eq_true,Bool.and_eq_true,Bool.and_eq_true,beq_iff_eq,
      List.isEmpty_iff] at h
    intro d hd
    rcases h with ⟨rfl,rfl⟩ | ⟨hc,htail⟩
    · exact Or.inr (List.mem_singleton.mp hd)
    · rcases List.mem_cons.mp hd with rfl | hd
      · exact Or.inl hc
      · exact ih htail d hd

theorem identTail_isWord {cs : Text} (h : identTail isIdentPart cs = true) :
    identTail k.isWord cs = true := by
  induction cs with
  | nil => rfl
  | cons c cs ih =>
    rw [identTail,Bool.or_eq_true,Bool.and_eq_true] at h ⊢
    refine h.imp_right fun h => ?_
    rw [Bool.and_eq_true] at h ⊢
    exact ⟨isWord_of_isIdentPart h.1,ih h.2⟩

/-- What passes the first check passes the gate: a legal root has no `@`, and the gate admits more
letters. The gate looks behind the `@` of `recv@buf`, which the first check refuses. -/
theorem gate_of_formatPreCheck {a : Analysis} {signature : Text} (hne : a.taints ≠ [])
    (h : formatPreCheck shown a = none) : (r3TaintGateCheck k shown a signature).1 = true := by
  have hgood : (a.taints.filter fun t =>
      !identRe k.isWord ((taintRoot t).rtakeWhile (· != '@'))) = [] := by
    refine List.filter_eq_nil_iff.mpr fun t ht => ?_
    have hident := (formatPreCheck_eq_none_iff shown a).mp h t ht
    cases hroot : taintRoot t with
    | nil =>
      rw [hroot] at hident
      cases hident
    | cons c cs =>
      rw [hroot,identRe,Bool.and_eq_true] at hident
      have hat : ∀ d ∈ c :: cs, (d != '@') = true := by
        intro d hd
        rw [bne_iff_ne]
        rintro rfl
        rcases List.mem_cons.mp hd with rfl | hd
        · cases hident.1
        · rcases isIdentPart_mem_of_identTail hident.2 _ hd with hpart | hnl
          · cases hpart
          · cases hnl
      rw [List.rtakeWhile_eq_self_iff.mpr hat,identRe,hident.1,identTail_isWord k hident.2]
      decide
  rw [r3TaintGateCheck]
  simp only [hgood,List.isEmpty_iff,hne,if_true,if_false]
  split_ifs <;> rfl

/-! ## Agreement -/

section Agreement

variable (stateSignature : Text) (a : Analysis) (rowInput : Bool) (sig : Signature) (t : Text)

/-- The identifier that a taint begins with. -/
def rootName : Text := t.takeWhile isIdentPart

/-- The checks and the format agree on a taint: a taint that passes is in the format, and a taint
in the format whose root is a parameter passes. -/
structure Agrees : Prop where
  published : Accepts k shown stateSignature a rowInput sig t → taintRe (String.ofList t) = true
  passed : taintRe (String.ofList t) = true → rootName t ∈ sig.names →
    Accepts k shown stateSignature a rowInput sig t

/-- A taint outside the format has no identifier for a root, or one that is not read among the
parameters. A taint in the format with a parameter for its root is that parameter alone or goes on
with `->` or `.`, and where the parameters are looked up its root is read among them. -/
structure InAgreement : Prop where
  outside : (∀ f : TaintForm, f.text ≠ t) → identRe isIdentPart (taintRoot t) = true →
    LooksUp k a rowInput sig ∧ ¬Stands k none sig.paramText (taintRoot t)
  inside : ∀ f : TaintForm, f.text = t → f.root ∈ sig.names →
    f.Plain ∧ (LooksUp k a rowInput sig →
      Stands k none sig.paramText f.root ∧ ¬(f.members = [] ∧ f.newline = true))

variable {stateSignature a rowInput sig t}

theorem taintRe_iff : taintRe (String.ofList t) = true ↔ ∃ f : TaintForm, f.text = t := by
  rw [taintRe,String.toList_ofList,taintRun_start_iff]

/-- A parameter does not begin with `@`. -/
theorem isIdentStart_of_mem_names {f : TaintForm} (h : f.root ∈ sig.names) :
    isIdentStart f.first = true := by
  obtain ⟨p,_,hp⟩ := List.mem_map.mp h
  have hlegal := p.legal
  rw [hp,TaintForm.root,isIdent,Bool.and_eq_true] at hlegal
  exact hlegal.1

theorem mem_names_iff {f : TaintForm} : rootName f.text ∈ sig.names ↔ f.root ∈ sig.names := by
  by_cases hstart : isIdentStart f.first = true
  · rw [rootName,rootName_text f hstart]
  · have hat : f.first = '@' := f.begins.resolve_left hstart
    have hname : rootName f.text = [] := by
      rw [rootName,TaintForm.text,TaintForm.root,List.cons_append,hat]
      rfl
    refine iff_of_false (fun h => ?_) fun h => hstart (isIdentStart_of_mem_names h)
    obtain ⟨p,_,hp⟩ := List.mem_map.mp h
    have hlegal := p.legal
    rw [hp,hname] at hlegal
    cases hlegal

/-- A plain taint passes exactly if its root is read where the parameters are looked up. -/
theorem accepts_plain_iff {f : TaintForm} (hstart : isIdentStart f.first = true) :
    Accepts k shown stateSignature a rowInput sig f.text ↔
      f.Plain ∧ (LooksUp k a rowInput sig →
        Stands k none sig.paramText f.root ∧ ¬(f.members = [] ∧ f.newline = true)) := by
  rw [accepts_iff,identRe_taintRoot,and_iff_right hstart]
  refine and_congr_right fun hplain => imp_congr_right fun _ => ?_
  by_cases hbare : f.members = [] ∧ f.newline = true
  · refine iff_of_false ?_ fun h => h.2 hbare
    rintro ⟨pre,suf,hocc,_⟩
    have hmem : '\n' ∈ taintRoot f.text := by
      rw [taintRoot_text,TaintForm.access,hbare.1,hbare.2]
      rw [TaintForm.Plain,hbare.1] at hplain
      rw [hplain]
      exact List.mem_append_right _ (List.mem_singleton_self _)
    have hword := hocc.name.isWord hmem
    rw [k.newline] at hword
    cases hword
  · rw [(taintRoot_plain f hplain).mpr hbare]
    exact ⟨fun h => ⟨h,hbare⟩,fun h => h.1⟩

variable (t) in
theorem agrees_iff : Agrees k shown stateSignature a rowInput sig t ↔
    InAgreement k a rowInput sig t := by
  constructor
  · rintro ⟨hpub,hpass⟩
    refine ⟨fun hout hident => ?_,?_⟩
    · by_contra hread
      have hacc : Accepts k shown stateSignature a rowInput sig t := by
        refine (accepts_iff ..).mpr ⟨hident,fun hlooks => ?_⟩
        by_contra hstands
        exact hread ⟨hlooks,hstands⟩
      obtain ⟨f,hf⟩ := taintRe_iff.mp (hpub hacc)
      exact hout f hf
    · rintro f rfl hroot
      exact (accepts_plain_iff k shown (isIdentStart_of_mem_names hroot)).mp
        (hpass (taintRe_iff.mpr ⟨f,rfl⟩) (mem_names_iff.mpr hroot))
  · rintro ⟨hout,hin⟩
    constructor
    · intro hacc
      obtain ⟨hident,hread⟩ := (accepts_iff ..).mp hacc
      by_contra hform
      have hnone : ∀ f : TaintForm, f.text ≠ t := fun f hf => hform (taintRe_iff.mpr ⟨f,hf⟩)
      obtain ⟨hlooks,hstands⟩ := hout hnone hident
      exact hstands (hread hlooks)
    · intro hform hroot
      obtain ⟨f,rfl⟩ := taintRe_iff.mp hform
      have hroot' := mem_names_iff.mp hroot
      exact (accepts_plain_iff k shown (isIdentStart_of_mem_names hroot')).mpr (hin f rfl hroot')

theorem not_space {c : Char} (h : isIdentPart c = true) : pyIsSpace c = false := by
  cases hc : pyIsSpace c with
  | false => rfl
  | true =>
    have hword : isIdentPart c = false := asciiLetters.space c hc
    rw [h] at hword
    cases hword

theorem Member.not_space (m : Member) : ∀ c ∈ m.text, pyIsSpace c = false := by
  intro c hc
  rcases List.mem_append.mp hc with hc | hc
  · have hsep : ∀ c ∈ m.sep.text, pyIsSpace c = false := by cases m.sep <;> decide
    exact hsep c hc
  · have hlegal := m.legal
    cases hname : m.name with
    | nil =>
      rw [hname] at hc
      cases hc
    | cons d ds =>
      rw [hname,isIdent,Bool.and_eq_true,List.all_eq_true] at hlegal
      rw [hname] at hc
      rcases List.mem_cons.mp hc with rfl | hc
      · exact TaintGates.not_space (isIdentPart_of_isIdentStart hlegal.1)
      · exact TaintGates.not_space (hlegal.2 c hc)

theorem text_not_space (f : TaintForm) (h : f.newline = false) :
    ∀ c ∈ f.text, pyIsSpace c = false := by
  intro c hc
  rcases List.mem_append.mp hc with hc | hc
  · rcases List.mem_cons.mp hc with rfl | hc
    · rcases f.begins with hstart | hat
      · exact not_space (isIdentPart_of_isIdentStart hstart)
      · rw [hat]
        decide
    · exact not_space (f.goesOn c hc)
  · rw [TaintForm.access,h] at hc
    rcases List.mem_append.mp hc with hc | hc
    · obtain ⟨m,_,hm⟩ := List.mem_flatMap.mp hc
      exact m.not_space c hm
    · have hend : ∀ c ∈ formEnd f.called false, pyIsSpace c = false := by cases f.called <;> decide
      exact hend c hc

/-- No white space stands in a taint, but for the line break at its end. -/
theorem trim_text (f : TaintForm) : trim f.text = {f with newline := false}.text := by
  have hfree := text_not_space {f with newline := false} rfl
  have htrim : trim {f with newline := false}.text = {f with newline := false}.text :=
    trim_eq_self_iff.mpr ⟨fun c hc => hfree c (List.mem_of_head? hc),
      fun c hc => hfree c (List.mem_of_getLast? hc)⟩
  cases hnl : f.newline with
  | false =>
    have hf : {f with newline := false} = f := by rw [← hnl]
    rw [hf] at htrim ⊢
    exact htrim
  | true =>
    have hf : f.text = {f with newline := false}.text ++ ['\n'] := by
      simp [TaintForm.text,TaintForm.root,TaintForm.access,formEnd,hnl]
    rw [hf,trim_concat_space (by decide),htrim]

theorem goodTaint_of_taintRe (h : taintRe (String.ofList t) = true) :
    goodTaint (.str (String.ofList t)) = some (String.ofList t) := by
  obtain ⟨f,rfl⟩ := taintRe_iff.mp h
  have hstrip : strip (String.ofList f.text) = String.ofList {f with newline := false}.text := by
    rw [← String.toList_inj,toList_strip,String.toList_ofList,String.toList_ofList,trim_text]
  refine goodTaint_eq_some.mpr ⟨rfl,?_,?_⟩
  · rw [hstrip,Ne,← String.toList_inj,String.toList_ofList]
    exact List.cons_ne_nil _ _
  · rw [hstrip]
    exact taintRe_iff.mpr ⟨_,rfl⟩

variable (stateSignature a rowInput sig) in
/-- The checks and the format agree on a taint exactly if one of the conditions keeps them from
parting. Where they agree on the taints of a function, its published entry keeps all of them once
they pass, and they pass if they are in the format and begin with parameters. -/
theorem gates_agree_iff :
    (∀ t, Agrees k shown stateSignature a rowInput sig t ↔ InAgreement k a rowInput sig t) ∧
    ((∀ t ∈ a.taints, InAgreement k a rowInput sig t) →
      (preChecks k shown (rowOf a rowInput sig a.taints) stateSignature = none →
        goodTaints (a.taints.map fun t => .str (String.ofList t)) =
          a.taints.map String.ofList) ∧
      ((∀ t ∈ a.taints, taintRe (String.ofList t) = true ∧ rootName t ∈ sig.names) →
        preChecks k shown (rowOf a rowInput sig a.taints) stateSignature = none)) := by
  refine ⟨agrees_iff k shown,fun hall => ⟨fun hpass => ?_,fun hform => ?_⟩⟩
  · have hacc := (preChecks_eq_none_iff ..).mp hpass
    have hgood : ∀ t ∈ a.taints,
        goodTaint (.str (String.ofList t)) = some (String.ofList t) := fun t ht =>
      goodTaint_of_taintRe
        (((agrees_iff k shown t).mpr (hall t ht)).published (hacc t ht))
    rw [goodTaints,List.filterMap_map]
    exact List.filterMap_eq_map_iff_forall_eq_some.mpr hgood
  · refine (preChecks_eq_none_iff ..).mpr fun t ht => ?_
    exact ((agrees_iff k shown t).mpr (hall t ht)).passed (hform t ht).1 (hform t ht).2

end Agreement

/-- A P-type analysis with one taint. -/
def taintOf (t : String) : Analysis where
  tag := "P"
  hasExternalInput := some true
  decision := "keep"
  taints := [t.toList]

/-- `int read_packet(char *buf, int len)`. -/
def readPacket : Signature where
  head := "int read_packet".toList
  params := [⟨"char *".toList,"buf".toList,[],by decide,by rintro c ⟨⟩; rfl,by rintro c ⟨⟩⟩,
    ⟨" int ".toList,"len".toList,[],by decide,by rintro c ⟨⟩; rfl,by rintro c ⟨⟩⟩]
  tail := []

/-- `buf->data[0]` passes the checks and is not in the format, so the published entry loses it;
`buf@recv` is in the format, begins with a parameter and never passes. -/
theorem gates_disagree :
    (¬Agrees asciiLetters List.flatten [] (taintOf "buf->data[0]") true readPacket
        "buf->data[0]".toList ∧
      preChecks asciiLetters List.flatten (rowOf (taintOf "buf->data[0]") true readPacket
        ["buf->data[0]".toList]) [] = none ∧
      goodTaints [.str "buf->data[0]"] = []) ∧
    ¬Agrees asciiLetters List.flatten [] (taintOf "buf@recv") true readPacket
      "buf@recv".toList := by
  have hpass : Accepts asciiLetters List.flatten [] (taintOf "buf->data[0]") true readPacket
      "buf->data[0]".toList := by
    show preChecks _ _ _ _ = none
    decide
  have hfail : ¬Accepts asciiLetters List.flatten [] (taintOf "buf@recv") true readPacket
      "buf@recv".toList := by
    show ¬preChecks _ _ _ _ = none
    decide +kernel
  exact ⟨⟨fun h => absurd (h.published hpass) (by decide +kernel),hpass,by decide⟩,
    fun h => hfail (h.passed (by decide) (by decide))⟩

end TaintGates
end EntryAnalyse
