import EntryAnalyse.FunctionEnd
import EntryAnalyse.GapAnswers

/-! `_r2_j_script_check` decides without an agent whether the lines of a function are right. It
compares the numbers of braces of the lines and looks for the name in the first and for a brace in
the last one. -/
namespace EntryAnalyse
namespace R2ScriptCheck

open PyJson PyText Runner Braces DyckStep FunctionEnd

inductive Verdict
  | pass | passDelete | passSkip
  deriving DecidableEq

/-- What the check runs into; it hands the text of the exception on. -/
inductive Failure
  | unreadable
  | noAttribute (v : PyJson)
  | badNumber (v : PyJson)

/-- One line of the search for a closing brace: the depth behind it, `none` where the brace is
found. -/
def awkLine : ℤ → List Char → Option ℤ
  | depth,[] => some depth
  | depth,ch :: cs =>
    if ch == '{' then awkLine (depth + 1) cs
    else if ch == '}' then if depth - 1 = 0 then none else awkLine (depth - 1) cs
    else awkLine depth cs

/-- The line of the brace that is found, from line `idx` on. -/
def awk : ℤ → ℤ → List String → Option ℤ
  | _,_,[] => none
  | depth,idx,ln :: lns =>
    match awkLine depth ln.toList with
    | some depth' => awk depth' (idx + 1) lns
    | none => some idx

/-- `sum(ln.count(ch) for ln in region)`. -/
def countIn (ch : Char) (region : List String) : ℕ := (region.map fun ln => ln.toList.count ch).sum

def boolText (b : Bool) : String := if b then "True" else "False"

/-- The line with a number. -/
def lineAt (lines : List String) (n : ℤ) : String :=
  if n ≤ lines.length then lines.getD (n - 1).toNat "" else ""

def verifyRange (lines : List String) (funcName : String) (checkStart checkEnd : ℤ) :
    Option Verdict × String :=
  if checkStart < 1 ∨ checkEnd < checkStart ∨ (lines.length : ℤ) < checkEnd then
    (none,"check range [" ++ toString checkStart ++ "," ++ toString checkEnd ++ "] 超出文件范围")
  else
    let region := slice lines (checkStart - 1) checkEnd
    let opens := countIn '{' region
    let closes := countIn '}' region
    let funcInFirst := containsText (lineAt lines checkStart) funcName
    let lastIsClose := startsWith (strip (lineAt lines checkEnd)) "\x7d"
    if opens = closes ∧ 1 ≤ opens ∧ funcInFirst = true ∧ lastIsClose = true then
      (some .pass,"平行括号匹配 (" ++ toString opens ++ "=" ++ toString closes ++ ")，首末行正确")
    else
      (none,"平括号 " ++ toString opens ++ "/" ++ toString closes ++ "，first_ok=" ++
        boolText funcInFirst ++ "，last_ok=" ++ boolText lastIsClose)

variable (i : GapAnswers.Interpreter) (describe : Failure → String)

def number (v : PyJson) : Except Failure ℤ :=
  match GapAnswers.intOf i v with
  | .ok n => .ok n
  | .error _ => .error (.badNumber v)

/-- The range that is checked: the first correction of the worker, or the lines of the row. -/
def checkRange (payload : List (String × PyJson)) (startLine endLine : ℤ) :
    Except Failure (ℤ × ℤ) :=
  let corrections := field payload "corrections"
  let c := match corrections with
    | .list (c :: _) => c
    | c => c
  if corrections.truthy = true then
    match c with
    | .dict d => do
      let checkStart ← number i ((field d "start_line").or (.int startLine))
      let checkEnd ← number i ((field d "end_line").or (.int endLine))
      pure (checkStart,checkEnd)
    | c => .error (.noAttribute c)
  else .ok (startLine,endLine)

def inFile (lines : List String) (funcName : String) : Bool :=
  lines.any (fun ln => containsText ln (funcName ++ "(")) ||
    lines.any (fun ln => containsText ln funcName)

def isIncomplete (payload : List (String × PyJson)) : Bool :=
  (field payload "source_incomplete").truthy

/-- `_r2_j_script_check`; `source` is the text of the file, if it can be read. -/
def r2JScriptCheck (funcName : String) (startLine endLine : ℤ) (source : Option String)
    (payload : List (String × PyJson)) : Option Verdict × String :=
  match source with
  | none => (none,"脚本检查异常: " ++ describe .unreadable)
  | some text =>
    let lines := splitlines text
    if inFile lines funcName = false then
      (some .passDelete,"源文件中找不到 " ++ funcName ++ "()，应从 funcdb 删除")
    else if isIncomplete payload = true then
      match awk 0 startLine (slice lines (startLine - 1) lines.length) with
      | some idx =>
        (none,"awk 找到闭合括号 L" ++ toString idx ++ "，Worker SOURCE_INCOMPLETE 可能有误")
      | none => (some .passSkip,"SOURCE_INCOMPLETE 已确认：未找到闭合括号")
    else match checkRange i payload startLine endLine with
      | .error f => (none,"脚本检查异常: " ++ describe f)
      | .ok (checkStart,checkEnd) => verifyRange lines funcName checkStart checkEnd

/-! ## The plain search for a closing brace -/

def braceOf (ch : Char) : Option DyckStep :=
  if ch == '{' then some U else if ch == '}' then some D else none

/-- Every brace of the lines, also those in comments and literals. -/
def allBraces (lines : List String) : List DyckStep :=
  lines.flatMap fun ln => ln.toList.filterMap braceOf

/-- No closing step brings the count, which may fall below zero, to zero. -/
def NeverZero (depth : ℤ) (w : List DyckStep) : Prop :=
  ∀ pre post, w = pre ++ D :: post → depth + pre.count U - pre.count D ≠ 1

section Search

variable {depth : ℤ} {v w : List DyckStep}

theorem neverZero_nil : NeverZero depth [] := fun pre post h => by simp at h

theorem neverZero_up : NeverZero depth (U :: w) ↔ NeverZero (depth + 1) w := by
  constructor
  · rintro h pre post rfl
    have := h (U :: pre) post rfl
    simp only [List.count_cons_self,List.count_cons_of_ne (show U ≠ D by decide)] at this
    omega
  · intro h pre post hw
    cases pre with
    | nil => cases (List.cons.inj hw).1
    | cons x pre =>
      obtain ⟨rfl,htail⟩ := List.cons.inj hw
      have := h pre post htail
      simp only [List.count_cons_self,List.count_cons_of_ne (show U ≠ D by decide)]
      omega

theorem neverZero_down : NeverZero depth (D :: w) ↔ depth ≠ 1 ∧ NeverZero (depth - 1) w := by
  constructor
  · intro h
    refine ⟨fun hd => h [] w rfl (by simpa using hd),?_⟩
    rintro pre post rfl
    have := h (D :: pre) post rfl
    simp only [List.count_cons_self,List.count_cons_of_ne (show D ≠ U by decide)] at this
    omega
  · rintro ⟨hd,h⟩ pre post hw
    cases pre with
    | nil => simpa using hd
    | cons x pre =>
      obtain ⟨rfl,htail⟩ := List.cons.inj hw
      have := h pre post htail
      simp only [List.count_cons_self,List.count_cons_of_ne (show D ≠ U by decide)]
      omega

theorem awkLine_spec (depth : ℤ) (cs : List Char) (w : List DyckStep) :
    NeverZero depth (cs.filterMap braceOf ++ w) ↔
      ∃ depth', awkLine depth cs = some depth' ∧ NeverZero depth' w := by
  induction cs generalizing depth with
  | nil => simp [awkLine]
  | cons ch cs ih =>
    rw [awkLine]
    by_cases hopen : ch = '{'
    · subst hopen
      exact neverZero_up.trans (ih (depth + 1))
    by_cases hclose : ch = '}'
    · subst hclose
      refine neverZero_down.trans ?_
      by_cases hd : depth = 1
      · simp [hd]
      · simp [hd,ih,show ¬depth - 1 = 0 by omega]
    · have hb : braceOf ch = none := by simp [braceOf,hopen,hclose]
      rw [List.filterMap_cons_none hb,if_neg (by simpa using hopen),if_neg (by simpa using hclose)]
      exact ih depth

theorem awk_eq_none_iff (depth idx : ℤ) (lines : List String) :
    awk depth idx lines = none ↔ NeverZero depth (allBraces lines) := by
  induction lines generalizing depth idx with
  | nil => exact iff_of_true rfl neverZero_nil
  | cons ln lines ih =>
    rw [allBraces,List.flatMap_cons,awkLine_spec,awk]
    cases awkLine depth ln.toList with
    | none => simp
    | some depth' => simpa [allBraces] using ih depth' (idx + 1)

end Search

/-! ## Function ranges -/

/-- The name stands in the text, and no letter, digit or underscore next to it. -/
def HasIdentifier (text name : String) : Prop :=
  ∃ pre post, text.toList = pre ++ name.toList ++ post ∧
    (∀ c ∈ pre.getLast?, FunctionsList.isIdentPart c = false) ∧
    ∀ c ∈ post.head?, FunctionsList.isIdentPart c = false

/-- The lines are the function's block: its name is in the first one, and the first brace outside
comments and literals is closed in the last one. -/
structure FunctionRange (lines : List String) (funcName : String) (first last : ℤ) : Prop where
  first_pos : 1 ≤ first
  le : first ≤ last
  last_le : last ≤ lines.length
  named : HasIdentifier (lineAt lines first) funcName
  block : ClosedAt (braces {} first (slice lines (first - 1) last)) last

/-- The lines from a number on. -/
def linesFrom (lines : List String) (startLine : ℤ) : List String :=
  lines.drop (startLine - 1).toNat

/-- What a verdict says is so. -/
structure Reliable (funcName : String) (startLine endLine : ℤ) (source : Option String)
    (payload : List (String × PyJson)) : Prop where
  pass : (r2JScriptCheck i describe funcName startLine endLine source payload).1 = some .pass →
    ∃ first last, checkRange i payload startLine endLine = .ok (first,last) ∧
      FunctionRange (splitlines (source.getD "")) funcName first last
  skip : (r2JScriptCheck i describe funcName startLine endLine source payload).1 = some .passSkip →
    ∀ l, ¬ClosedAt
      (braces {} (max 1 startLine) (linesFrom (splitlines (source.getD "")) startLine)) l

/-- What the check compares of a range. -/
structure CountsMatch (lines : List String) (funcName : String) (first last : ℤ) : Prop where
  first_pos : 1 ≤ first
  le : first ≤ last
  last_le : last ≤ lines.length
  equal : countIn '{' (slice lines (first - 1) last) = countIn '}' (slice lines (first - 1) last)
  some_open : 1 ≤ countIn '{' (slice lines (first - 1) last)
  name_in_first : containsText (lineAt lines first) funcName = true
  brace_in_last : startsWith (strip (lineAt lines last)) "\x7d" = true

/-- The inputs on which the counts do not mislead: where they match, the name is an identifier of
the first line and the scan for the end of a function ends in the last one; where an incomplete
source is confirmed by counting every brace, the scan finds no end either. -/
structure NotMisled (funcName : String) (startLine endLine : ℤ) (lines : List String)
    (payload : List (String × PyJson)) : Prop where
  range : isIncomplete payload = false → ∀ first last,
    checkRange i payload startLine endLine = .ok (first,last) →
    CountsMatch lines funcName first last →
      HasIdentifier (lineAt lines first) funcName ∧
        scanLines {} first (slice lines (first - 1) last) = last
  incomplete : isIncomplete payload = true → inFile lines funcName = true →
    NeverZero 0 (allBraces (slice lines (startLine - 1) lines.length)) →
      scanLines {} (max 1 startLine) (linesFrom lines startLine) = 0

section Check

variable {i describe} {funcName : String} {startLine endLine : ℤ} {text : String}
  {payload : List (String × PyJson)} {lines : List String} {first last : ℤ}

theorem verifyRange_pass_iff :
    (verifyRange lines funcName first last).1 = some .pass ↔
      CountsMatch lines funcName first last := by
  rw [verifyRange]
  by_cases hrange : first < 1 ∨ last < first ∨ (lines.length : ℤ) < last
  · rw [if_pos hrange]
    refine iff_of_false (fun h => by cases h) fun h => ?_
    have h₁ := h.first_pos
    have h₂ := h.le
    have h₃ := h.last_le
    omega
  rw [if_neg hrange]
  constructor
  · intro h
    by_contra hno
    refine absurd h ?_
    show ¬(if _ then _ else _ : Option Verdict × String).1 = _
    rw [if_neg]
    · exact fun h => by cases h
    · rintro ⟨heq,hsome,hname,hbrace⟩
      exact hno ⟨by omega,by omega,by omega,heq,hsome,hname,hbrace⟩
  · intro h
    show (if _ then _ else _ : Option Verdict × String).1 = _
    rw [if_pos ⟨h.equal,h.some_open,h.name_in_first,h.brace_in_last⟩]

theorem verifyRange_ne_passSkip :
    (verifyRange lines funcName first last).1 ≠ some .passSkip := by
  rw [verifyRange]
  split
  · exact fun h => by cases h
  · show (if _ then _ else _ : Option Verdict × String).1 ≠ _
    split <;> exact fun h => by cases h

/-- A name that is in the first line of a range is in the file. -/
theorem CountsMatch.inFile (h : CountsMatch lines funcName first last) :
    inFile lines funcName = true := by
  obtain ⟨hfirst,hle,hlast,-,-,hname,-⟩ := h
  rw [R2ScriptCheck.inFile,Bool.or_eq_true]
  refine .inr (List.any_eq_true.mpr ⟨lineAt lines first,?_,hname⟩)
  have hlt : (first - 1).toNat < lines.length := by omega
  rw [lineAt,if_pos (by omega),List.getD_eq_getElem?_getD,List.getElem?_eq_getElem hlt,
    Option.getD_some]
  exact List.getElem_mem hlt

theorem check_pass_iff :
    (r2JScriptCheck i describe funcName startLine endLine (some text) payload).1 = some .pass ↔
      isIncomplete payload = false ∧ ∃ first last,
        checkRange i payload startLine endLine = .ok (first,last) ∧
          CountsMatch (splitlines text) funcName first last := by
  rw [r2JScriptCheck]
  by_cases hfile : R2ScriptCheck.inFile (splitlines text) funcName = false
  · rw [if_pos hfile]
    refine iff_of_false (fun h => by cases h) ?_
    rintro ⟨-,first,last,-,h⟩
    rw [h.inFile] at hfile
    cases hfile
  rw [if_neg hfile]
  by_cases hinc : isIncomplete payload = true
  · rw [if_pos hinc,hinc]
    refine iff_of_false ?_ (fun h => by cases h.1)
    cases awk 0 startLine _ <;> exact fun h => by cases h
  rw [if_neg hinc,Bool.eq_false_of_not_eq_true hinc]
  cases hr : checkRange i payload startLine endLine with
  | error f => exact iff_of_false (fun h => by cases h) (fun h => by obtain ⟨-,_,_,h,-⟩ := h; cases h)
  | ok range =>
    obtain ⟨first,last⟩ := range
    refine verifyRange_pass_iff.trans ⟨fun h => ⟨rfl,first,last,rfl,h⟩,?_⟩
    rintro ⟨-,first',last',hok,h⟩
    cases hok
    exact h

theorem check_passSkip_iff :
    (r2JScriptCheck i describe funcName startLine endLine (some text) payload).1 =
        some .passSkip ↔
      isIncomplete payload = true ∧ inFile (splitlines text) funcName = true ∧
        NeverZero 0
          (allBraces (slice (splitlines text) (startLine - 1) (splitlines text).length)) := by
  rw [r2JScriptCheck]
  by_cases hfile : R2ScriptCheck.inFile (splitlines text) funcName = false
  · rw [if_pos hfile,hfile]
    exact iff_of_false (fun h => by cases h) (fun h => by cases h.2.1)
  rw [if_neg hfile,Bool.eq_true_of_not_eq_false hfile]
  by_cases hinc : isIncomplete payload = true
  · rw [if_pos hinc,hinc]
    cases hawk : awk 0 startLine _ with
    | some idx =>
      refine iff_of_false (fun h => by cases h) fun h => ?_
      rw [(awk_eq_none_iff 0 startLine _).mpr h.2.2] at hawk
      cases hawk
    | none => exact iff_of_true rfl ⟨rfl,rfl,(awk_eq_none_iff 0 startLine _).mp hawk⟩
  rw [if_neg hinc]
  refine iff_of_false ?_ (fun h => hinc h.1)
  cases checkRange i payload startLine endLine with
  | error f => exact fun h => by cases h
  | ok range => exact verifyRange_ne_passSkip

/-- The scan finds the last line of a range iff the range is one block. -/
theorem functionRange_iff (h : CountsMatch lines funcName first last) :
    FunctionRange lines funcName first last ↔ HasIdentifier (lineAt lines first) funcName ∧
      scanLines {} first (slice lines (first - 1) last) = last := by
  have hlast : last ≠ 0 := by
    have h₁ := h.first_pos
    have h₂ := h.le
    omega
  rw [scanLines_eq_iff hlast]
  exact ⟨fun hr => ⟨hr.named,hr.block⟩,fun hr => ⟨h.first_pos,h.le,h.last_le,hr.1,hr.2⟩⟩

end Check

/-- A declaration with a remark above it. -/
def remarkAbove : String := "// \x7d\nint f(void)\n\x7b\n\x7d\n"

def incompletePayload : List (String × PyJson) := [("source_incomplete",.bool true)]

end R2ScriptCheck
end EntryAnalyse
