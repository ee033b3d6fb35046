import EntryAnalyse.CLexing
import EntryAnalyse.CallPatterns
import EntryAnalyse.FirstOccurrences

/-! `extract_callees` of `fast_mode_collector.py` lists for the classifier what a function calls. It
removes the string literals of the body, passes over lines of comments and of the preprocessor, and
takes the names that stand before a parenthesis in the other lines. -/
namespace EntryAnalyse
namespace FastModeCollector

open PyJson PyText CLexing FirstOccurrences
open CallchainExtractor (Text isIdentChar opensCall not_space_of_identChar opensCall_head)

/-! ## The collector -/

/-- `_EXCLUDE_NAMES`. -/
def excludeNames : List String :=
  ["if","else","for","while","do","switch","case","goto","break","continue","default",
    "sizeof","typeof","defined","offsetof","return",
    "void","int","char","short","long","float","double","signed","unsigned","const","volatile",
    "static","extern","inline","register","auto","restrict","struct","union","enum","typedef",
    "class","namespace","template","typename","virtual","override","final","explicit","mutable",
    "friend","public","private","protected","operator","static_cast","dynamic_cast","const_cast",
    "reinterpret_cast","new","delete","this","nullptr","catch","try","throw","static_assert",
    "noexcept","decltype","declval","alignof","alignas","constexpr","consteval","constinit",
    "__attribute__","__extension__","__builtin_va_start","__builtin_va_end","__builtin_va_arg",
    "__builtin_va_copy","__builtin_types_compatible_p","__builtin_choose_expr",
    "__builtin_constant_p","__builtin_expect","__builtin_prefetch","__builtin_return_address",
    "__builtin_frame_address","__sync_synchronize","__sync_fetch_and_add",
    "__sync_lock_test_and_set","__sync_bool_compare_and_swap"]

/-- The length of what `_STRING_RE` matches behind an opening quote. The dot of `\\.` matches no
line feed, and no other way of matching reaches a closing quote. -/
def stringLength : Text → Option ℕ
  | [] => none
  | c :: cs =>
    if c = '"' then some 1
    else if c = '\\' then
      match cs with
      | [] => none
      | d :: ds => if d = '\n' then none else (stringLength ds).map (· + 2)
    else (stringLength cs).map (· + 1)

/-- `_STRING_RE.sub('""', text)`; the number counts the characters left of the last match. -/
def removeStringsFrom : ℕ → Text → Text
  | _,[] => []
  | n + 1,_ :: cs => removeStringsFrom n cs
  | 0,c :: cs =>
    if c = '"' then
      match stringLength cs with
      | some n => '"' :: '"' :: removeStringsFrom n cs
      | none => c :: removeStringsFrom 0 cs
    else c :: removeStringsFrom 0 cs

def removeStrings (body : String) : Text := removeStringsFrom 0 body.toList

/-- `_COMMENT_RE`. -/
def commentLine (stripped : Text) : Bool :=
  ["//","/*","*","#"].any fun mark => mark.toList.isPrefixOf (stripped.dropWhile pyIsSpace)

/-- `[A-Za-z_]`. -/
def isNameStart (c : Char) : Bool := c.isAlpha || c == '_'

/-- The names that `_CALL_RE.finditer` finds; the flag says that an identifier's character stands
before. -/
def callNamesFrom : Bool → Text → List String
  | _,[] => []
  | inWord,c :: cs =>
    (if !inWord && isNameStart c && opensCall (cs.dropWhile isIdentChar) then
      [String.ofList (c :: cs.takeWhile isIdentChar)] else []) ++ callNamesFrom (isIdentChar c) cs

def callNames (line : Text) : List String := callNamesFrom false line

/-- One match of a line; `seen` holds what is in `callees`. -/
def addCallee (ownLower : String) (callees : List String) (name : String) : List String :=
  if excludeNames.contains name then callees
  else if ownLower ≠ "" ∧ lower name = ownLower then callees
  else if callees.contains name then callees
  else callees ++ [name]

def scanLine (ownLower : String) (callees : List String) (line : Text) : List String :=
  if commentLine (trim line) then callees
  else (callNames line).foldl (addCallee ownLower) callees

def ownLower (ownName : String) : String := if ownName = "" then "" else lower (strip ownName)

/-- `extract_callees`. -/
def extractCallees (body ownName : String) : List String :=
  if (trim body.toList).isEmpty then []
  else (splitFrom [] (removeStrings body)).foldl (scanLine (ownLower ownName)) []

/-- The lines in which it looks. -/
def scannedLines (body : String) : List Text :=
  (splitFrom [] (removeStrings body)).filter fun line => !commentLine (trim line)

def scannedNames (body : String) : List String := (scannedLines body).flatMap callNames

/-! ## The code of a body -/

def inLiteral : Place → Bool
  | .literal _ => true
  | _ => false

/-- A comment is white space, and a literal is neither that nor a name. -/
def shown (p : Place) (c : Char) (rest : Text) : Char :=
  if inLiteral p || inLiteral (p.next c rest) then '"'
  else if p.inside c rest then ' '
  else c

def shownFrom : Place → Text → Text
  | _,[] => []
  | p,c :: cs => shown p c cs :: shownFrom (p.next c cs) cs

def directive (line : Text) : Bool := (line.dropWhile pyIsSpace).head? == some '#'

/-- The text without its comments, its literals and the lines of the preprocessor. -/
def code (body : String) : Text :=
  ['\n'].intercalate (((shownFrom .gap body.toList).splitOn '\n').filter fun line => !directive line)

/-- A name that stands before an opening parenthesis, as an identifier of its own. -/
def CalledIn (text : Text) (name : String) : Prop :=
  ∃ before c cs spaces after, name.toList = c :: cs ∧
    text = before ++ (c :: cs ++ (spaces ++ '(' :: after)) ∧
    (∀ d ∈ before.getLast?, isIdentChar d = false) ∧ isNameStart c = true ∧
    (∀ d ∈ cs, isIdentChar d = true) ∧ ∀ d ∈ spaces, pyIsSpace d = true

/-- No keyword, and not the function itself. -/
def IsCallee (ownName name : String) : Prop := name ∉ excludeNames ∧ name ≠ strip ownName

/-- The order in which two names are first called. -/
def Before (names : List String) (m n : String) : Prop := names.idxOf m < names.idxOf n

/-- The list holds what the code calls, each name once and in the order of the first calls. -/
structure Collects (body ownName : String) (callees : List String) : Prop where
  once : callees.Nodup
  exactly : ∀ n, n ∈ callees ↔ CalledIn (code body) n ∧ IsCallee ownName n
  order : callees.Pairwise (Before (callNames (code body)))

/-! ## Calls of a text -/

section Calls
variable {text before after cs spaces : Text} {c : Char} {n : String} {w : Bool}

theorem mem_callNamesFrom : n ∈ callNamesFrom w text ↔ ∃ before c cs, text = before ++ c :: cs ∧
    (before.getLast?.map isIdentChar).getD w = false ∧ isNameStart c = true ∧
    opensCall (cs.dropWhile isIdentChar) = true ∧
    n = String.ofList (c :: cs.takeWhile isIdentChar) := by
  induction text generalizing w with
  | nil => simp [callNamesFrom]
  | cons d text ih =>
    rw [callNamesFrom,List.mem_append,ih]
    constructor
    · rintro (h | ⟨before,c,cs,rfl,hw,h⟩)
      · split at h
        · rename_i hd
          simp only [Bool.and_eq_true,Bool.not_eq_true'] at hd
          exact ⟨[],d,text,rfl,hd.1.1,hd.1.2,hd.2,List.mem_singleton.mp h⟩
        · cases h
      · refine ⟨d :: before,c,cs,rfl,?_,h⟩
        rw [List.getLast?_cons]
        simpa using hw
    · rintro ⟨before,c,cs,htext,hw,hstart,hopens,rfl⟩
      cases before with
      | nil =>
        cases htext
        left
        have hw : w = false := hw
        simp [hw,hstart,hopens]
      | cons e before =>
        cases htext
        right
        refine ⟨before,c,cs,rfl,?_,hstart,hopens,rfl⟩
        rw [List.getLast?_cons] at hw
        simpa using hw

/-- A name ends where the spaces before the parenthesis begin. -/
theorem span_name (after : Text) (hcs : ∀ d ∈ cs, isIdentChar d = true)
    (hsp : ∀ d ∈ spaces, pyIsSpace d = true) :
    (cs ++ (spaces ++ '(' :: after)).takeWhile isIdentChar = cs ∧
      (cs ++ (spaces ++ '(' :: after)).dropWhile isIdentChar = spaces ++ '(' :: after := by
  have hhead : ∀ d ∈ (spaces ++ '(' :: after).head?, isIdentChar d = false := by
    cases spaces with
    | nil =>
      intro d hd
      cases hd
      decide
    | cons e spaces =>
      intro d hd
      cases hd
      by_contra h
      have hno := not_space_of_identChar (Bool.eq_true_of_not_eq_false h)
      rw [hsp _ List.mem_cons_self] at hno
      cases hno
  constructor
  · rw [List.takeWhile_append_of_pos hcs]
    cases h : spaces ++ '(' :: after with
    | nil => rw [List.takeWhile_nil,List.append_nil]
    | cons d rest =>
      rw [h] at hhead
      rw [List.takeWhile_cons_of_neg (by simp [hhead d rfl]),List.append_nil]
  · rw [List.dropWhile_append_of_pos hcs]
    cases h : spaces ++ '(' :: after with
    | nil => rfl
    | cons d rest =>
      rw [h] at hhead
      rw [List.dropWhile_cons_of_neg (by simp [hhead d rfl])]

theorem opensCall_iff : opensCall text = true ↔
    ∃ spaces after, text = spaces ++ '(' :: after ∧ ∀ d ∈ spaces, pyIsSpace d = true := by
  unfold opensCall
  rw [decide_eq_true_eq]
  constructor
  · intro h
    obtain ⟨after,hafter⟩ := List.head?_eq_some_iff.mp h
    refine ⟨text.takeWhile pyIsSpace,after,?_,fun d hd => List.mem_takeWhile_imp hd⟩
    rw [← hafter,List.takeWhile_append_dropWhile]
  · rintro ⟨spaces,after,rfl,hsp⟩
    rw [List.dropWhile_append_of_pos hsp,List.dropWhile_cons_of_neg (by decide)]
    rfl

/-- The pattern finds the calls of a text. -/
theorem mem_callNames : n ∈ callNames text ↔ CalledIn text n := by
  rw [callNames,mem_callNamesFrom]
  constructor
  · rintro ⟨before,c,cs,rfl,hw,hstart,hopens,rfl⟩
    obtain ⟨spaces,after,hrest,hsp⟩ := opensCall_iff.mp hopens
    refine ⟨before,c,cs.takeWhile isIdentChar,spaces,after,String.toList_ofList,?_,?_,hstart,
      fun d hd => List.mem_takeWhile_imp hd,hsp⟩
    · rw [← hrest,List.cons_append,List.takeWhile_append_dropWhile]
    · intro d hd
      rw [Option.mem_def.mp hd] at hw
      exact hw
  · rintro ⟨before,c,cs,spaces,after,hn,rfl,hbefore,hstart,hcs,hsp⟩
    obtain ⟨htake,hdrop⟩ := span_name after hcs hsp
    refine ⟨before,c,cs ++ (spaces ++ '(' :: after),rfl,?_,hstart,?_,?_⟩
    · cases hlast : before.getLast? with
      | none => rfl
      | some d => exact hbefore d hlast
    · rw [hdrop]
      exact opensCall_iff.mpr ⟨spaces,after,rfl,hsp⟩
    · rw [htake,← hn,String.ofList_toList]

theorem CalledIn.paren_mem (h : CalledIn text n) : '(' ∈ text := by
  obtain ⟨before,c,cs,spaces,after,-,rfl,-⟩ := h
  simp

theorem CalledIn.ne_empty (h : CalledIn text n) : n ≠ "" := by
  obtain ⟨before,c,cs,spaces,after,hn,-⟩ := h
  rintro rfl
  cases hn

end Calls

/-! ## The loop -/

section Loop
variable {own n : String} {body : String} {names : List String} {cs : Text} {c : Char}

/-- The tests of a match. -/
def wanted (ownLower name : String) : Bool :=
  !excludeNames.contains name && !decide (ownLower ≠ "" ∧ lower name = ownLower)

theorem addCallee_eq (callees : List String) (name : String) :
    addCallee own callees name = if wanted own name then add callees name else callees := by
  unfold addCallee wanted add
  split_ifs <;> simp_all

theorem foldl_addCallee (callees : List String) :
    names.foldl (addCallee own) callees = (names.filter (wanted own)).foldl add callees := by
  induction names generalizing callees with
  | nil => rfl
  | cons name names ih =>
    rw [List.foldl_cons,ih,addCallee_eq]
    by_cases h : wanted own name = true
    · rw [List.filter_cons_of_pos h,if_pos h,List.foldl_cons]
    · rw [List.filter_cons_of_neg h,if_neg h]

theorem foldl_scanLine (lines : List Text) (callees : List String) :
    lines.foldl (scanLine own) callees =
      ((((lines.filter fun line => !commentLine (trim line)).flatMap callNames).filter
        (wanted own)).foldl add callees) := by
  induction lines generalizing callees with
  | nil => rfl
  | cons line lines ih =>
    rw [List.foldl_cons,ih,scanLine]
    by_cases h : commentLine (trim line) = true
    · rw [if_pos h,List.filter_cons_of_neg (by simp [h])]
    · rw [if_neg h,List.filter_cons_of_pos (by simp [h]),List.flatMap_cons,List.filter_append,
        List.foldl_append,foldl_addCallee]

theorem mem_removeStringsFrom {k : ℕ} (h : c ∈ removeStringsFrom k cs) : c ∈ cs := by
  fun_induction removeStringsFrom k cs with
  | case1 => cases h
  | case2 _ _ _ ih => exact List.mem_cons_of_mem _ (ih h)
  | case3 cs n _ ih =>
    rcases List.mem_cons.mp h with rfl | h
    · exact List.mem_cons_self
    · rcases List.mem_cons.mp h with rfl | h
      · exact List.mem_cons_self
      · exact List.mem_cons_of_mem _ (ih h)
  | case4 cs _ ih =>
    rcases List.mem_cons.mp h with rfl | h
    · exact List.mem_cons_self
    · exact List.mem_cons_of_mem _ (ih h)
  | case5 d cs _ ih =>
    rcases List.mem_cons.mp h with rfl | h
    · exact List.mem_cons_self
    · exact List.mem_cons_of_mem _ (ih h)

theorem mem_of_mem_splitFrom {line cur : Text} (hline : line ∈ splitFrom cur cs) (h : c ∈ line) :
    c ∈ cur ∨ c ∈ cs := by
  fun_induction splitFrom cur cs with
  | case1 => cases hline
  | case2 cur hcur =>
    rw [List.mem_singleton.mp hline] at h
    exact Or.inl (List.mem_reverse.mp h)
  | case3 cur d cs hbreak ih =>
    exact (ih hline).imp_right (List.mem_cons_of_mem _)
  | case4 cur d cs hbreak hd ih =>
    rcases List.mem_cons.mp hline with rfl | hline
    · exact Or.inl (List.mem_reverse.mp h)
    · rcases ih hline with h | h
      · cases h
      · exact Or.inr (List.mem_cons_of_mem _ h)
  | case5 cur d cs hbreak hd ih =>
    rcases ih hline with h | h
    · rcases List.mem_cons.mp h with rfl | h
      · exact Or.inr List.mem_cons_self
      · exact Or.inl h
    · exact Or.inr (List.mem_cons_of_mem _ h)

theorem mem_scannedNames : n ∈ scannedNames body ↔ ∃ line ∈ scannedLines body, CalledIn line n := by
  rw [scannedNames,List.mem_flatMap]
  exact exists_congr fun line => and_congr_right fun _ => mem_callNames

/-- In a body of white space nothing is called. -/
theorem scannedNames_blank (h : trim body.toList = []) : scannedNames body = [] := by
  refine List.eq_nil_iff_forall_not_mem.mpr fun n hn => ?_
  obtain ⟨line,hline,hcall⟩ := mem_scannedNames.mp hn
  have hmem : '(' ∈ body.toList := by
    rcases mem_of_mem_splitFrom (List.mem_filter.mp hline).1 hcall.paren_mem with h | h
    · cases h
    · exact mem_removeStringsFrom h
  have htrim := mem_trim hmem (by decide)
  rw [h] at htrim
  cases htrim

theorem extractCallees_eq : extractCallees body own =
    firsts ((scannedNames body).filter (wanted (ownLower own))) := by
  unfold extractCallees
  split
  · rename_i h
    rw [scannedNames_blank (List.isEmpty_iff.mp h)]
    rfl
  · exact foldl_scanLine _ _

theorem ownLower_eq : ownLower own = lower (strip own) := by
  unfold ownLower
  split
  · rename_i h
    subst h
    decide
  · rfl

end Loop

/-! ## When the list is right -/

/-- The collector reads the body as C does: it sees every callee somewhere and in the order of the
first calls, what else it sees the code calls too, and no callee has the function's own name in
another spelling. -/
structure ReadRight (body ownName : String) : Prop where
  seen : ∀ n, CalledIn (code body) n → IsCallee ownName n →
    ∃ line ∈ scannedLines body, CalledIn line n
  called : ∀ n, ∀ line ∈ scannedLines body, CalledIn line n → n ∉ excludeNames →
    lower n ≠ lower (strip ownName) → CalledIn (code body) n
  order : ∀ m n, CalledIn (code body) m → IsCallee ownName m → CalledIn (code body) n →
    IsCallee ownName n → Before (callNames (code body)) m n → Before (scannedNames body) m n
  spelling : ∀ n, CalledIn (code body) n → n ∉ excludeNames → lower n = lower (strip ownName) →
    n = strip ownName

section Right
variable {body own n : String}

theorem lower_ne_empty (h : n ≠ "") : lower n ≠ "" := by
  intro hlower
  obtain ⟨c,cs,hcs⟩ := List.exists_cons_of_ne_nil fun hnil => h (String.toList_eq_nil_iff.mp hnil)
  have hlist := congrArg String.toList hlower
  unfold lower at hlist
  rw [String.toList_ofList,hcs,List.flatMap_cons] at hlist
  obtain ⟨hhead,-⟩ := List.append_eq_nil_iff.mp hlist
  split_ifs at hhead

theorem wanted_iff (h : n ≠ "") : wanted (ownLower own) n = true ↔
    n ∉ excludeNames ∧ lower n ≠ lower (strip own) := by
  have hne := lower_ne_empty h
  rw [ownLower_eq,wanted]
  simp only [Bool.and_eq_true,Bool.not_eq_true',decide_eq_false_iff_not,List.contains_eq_mem]
  refine and_congr_right fun _ => ⟨fun hno heq => hno ⟨fun hempty => ?_,heq⟩,fun hno hyes => hno hyes.2⟩
  exact hne (heq.trans hempty)

theorem collects_iff_lists (callees : List String) : Collects body own callees ↔
    Lists (callNames (code body)) (IsCallee own) callees := by
  constructor
  · intro h
    exact ⟨h.once,fun n => (h.exactly n).trans (and_congr_left' mem_callNames.symm),h.order⟩
  · intro h
    exact ⟨h.once,fun n => (h.mem n).trans (and_congr_left' mem_callNames),h.order⟩

end Right

end FastModeCollector
end EntryAnalyse
