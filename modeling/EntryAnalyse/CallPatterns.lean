import EntryAnalyse.AgentResult
import EntryAnalyse.PyText

/-! The patterns that `callchain_extractor.py` tries on a line: a comment or preprocessor line,
a direct call, a function handed on by its name, an `extern` declaration. -/
namespace EntryAnalyse
namespace CallchainExtractor

open PyJson PyText

abbrev Text := List Char

/-- `[A-Za-z0-9_]`. -/
def isIdentChar (c : Char) : Bool := c.isAlphanum || c == '_'

/-- `_COMMENT_LINE_RE`. -/
def commentLine (line : Text) : Bool :=
  ["//","/*","*"].any fun mark => mark.toList.isPrefixOf (line.dropWhile pyIsSpace)

/-- `line.strip().startswith('#')`. -/
def preprocessorLine (line : Text) : Bool := ['#'].isPrefixOf (trim line)

/-- `_strip_line_comment`. -/
def stripLineComment : Text → Text
  | [] => []
  | c :: cs => if c = '/' ∧ cs.head? = some '/' then [] else c :: stripLineComment cs

/-- Every place where `name` stands in the text: what is before it, the nearest character
first, and what is behind. -/
def occurrencesFrom (name : Text) : Text → Text → List (Text × Text)
  | before,[] => if name.isPrefixOf [] then [(before,[])] else []
  | before,c :: cs =>
    (if name.isPrefixOf (c :: cs) then [(before,(c :: cs).drop name.length)] else []) ++
      occurrencesFrom name (c :: before) cs

def occurrences (name text : Text) : List (Text × Text) := occurrencesFrom name [] text

/-- `\s*\(`. -/
def opensCall (behind : Text) : Bool := (behind.dropWhile pyIsSpace).head? = some '('

/-- `_DIRECT_CALL_TMPL`. -/
def directCall (code name : Text) : Bool :=
  (occurrences name code).any fun o => !o.1.head?.any isIdentChar && opensCall o.2

/-- `_PTR_ASSIGN_TMPL`. -/
def ptrAssign (code name : Text) : Bool :=
  (occurrences name code).any fun o =>
    (o.1.dropWhile pyIsSpace).head?.any (['=',',','('].contains ·) && !opensCall o.2

inductive CallType where
  | direct
  | ptr
  | externTable
deriving DecidableEq

/-- `_classify_call_type`. -/
def classifyCallType (code name : Text) : Option CallType :=
  if directCall code name then some .direct
  else if ptrAssign code name then some .ptr
  else none

/-- What follows `^\s*extern\b`; `isWord` is `\w`. -/
def behindExtern (isWord : Char → Bool) (line : Text) : Option Text :=
  let rest := line.dropWhile pyIsSpace
  if "extern".toList.isPrefixOf rest && !(rest.drop 6).head?.any isWord then some (rest.drop 6)
  else none

def externLine (isWord : Char → Bool) (line : Text) : Bool := (behindExtern isWord line).isSome

/-- `_EXTERN_DECL_TMPL`. A line holds no line break, so that `.` is any character of it. -/
def externDeclares (isWord : Char → Bool) (line name : Text) : Bool :=
  (behindExtern isWord line).any fun rest =>
    (occurrencesFrom name "extern".toList.reverse rest).any fun o =>
      (o.1.head?.any isWord != (name ++ o.2).head?.any isWord) && opensCall o.2

/-- The name stands in the text as an identifier of its own. -/
def Whole (name text : Text) : Prop :=
  ∃ before behind, text = before ++ (name ++ behind) ∧
    (∀ c ∈ before.getLast?, isIdentChar c = false) ∧ ∀ c ∈ behind.head?, isIdentChar c = false

section Occurrences
variable {name text before behind : Text}

theorem mem_occurrencesFrom {front : Text} : (before,behind) ∈ occurrencesFrom name front text ↔
    ∃ mid, before = mid.reverse ++ front ∧ text = mid ++ (name ++ behind) := by
  induction text generalizing front with
  | nil =>
    constructor
    · intro h
      unfold occurrencesFrom at h
      split at h
      · rename_i hpre
        cases List.mem_singleton.mp h
        refine ⟨[],rfl,?_⟩
        simpa using hpre
      · cases h
    · rintro ⟨mid,rfl,h⟩
      have hnil : mid = [] ∧ name = [] ∧ behind = [] := by simpa using h.symm
      obtain ⟨rfl,rfl,rfl⟩ := hnil
      exact List.mem_singleton.mpr rfl
  | cons c cs ih =>
    constructor
    · intro h
      rcases List.mem_append.mp h with h | h
      · split at h
        · rename_i hpre
          obtain ⟨rest,hrest⟩ := List.isPrefixOf_iff_prefix.mp hpre
          cases List.mem_singleton.mp h
          refine ⟨[],rfl,?_⟩
          rw [← hrest,List.drop_left,List.nil_append]
        · cases h
      · obtain ⟨mid,rfl,rfl⟩ := ih.mp h
        exact ⟨c :: mid,by simp,rfl⟩
    · rintro ⟨mid,rfl,h⟩
      cases mid with
      | nil =>
        apply List.mem_append_left
        rw [List.nil_append] at h
        rw [h,if_pos (List.isPrefixOf_iff_prefix.mpr (List.prefix_append _ _)),List.drop_left]
        exact List.mem_singleton.mpr rfl
      | cons d mid =>
        cases h
        exact List.mem_append_right _ (ih.mpr ⟨mid,by simp,rfl⟩)

theorem mem_occurrences : (before,behind) ∈ occurrences name text ↔
    text = before.reverse ++ (name ++ behind) := by
  unfold occurrences
  rw [mem_occurrencesFrom]
  constructor
  · rintro ⟨mid,rfl,rfl⟩
    simp
  · intro h
    exact ⟨before.reverse,by simp,h⟩

theorem not_space_of_identChar {c : Char} (h : isIdentChar c = true) : pyIsSpace c = false := by
  unfold isIdentChar Char.isAlphanum Char.isAlpha Char.isUpper Char.isLower Char.isDigit at h
  simp only [Bool.or_eq_true,Bool.and_eq_true,decide_eq_true_eq,ge_iff_le,beq_iff_eq,
    UInt32.le_iff_toNat_le] at h
  rcases h with ((⟨hlow,hhigh⟩ | ⟨hlow,hhigh⟩) | ⟨hlow,hhigh⟩) | rfl
  · exact not_space_of_printable (le_trans (by decide) hlow) (le_trans hhigh (by decide))
  · exact not_space_of_printable (le_trans (by decide) hlow) (le_trans hhigh (by decide))
  · exact not_space_of_printable (le_trans (by decide) hlow) (le_trans hhigh (by decide))
  · decide

/-- What is behind a name that a call opens does not go on with the name. -/
theorem opensCall_head (h : opensCall behind = true) : ∀ c ∈ behind.head?, isIdentChar c = false := by
  unfold opensCall at h
  cases behind with
  | nil => simp
  | cons c cs =>
    intro d hd
    cases hd
    by_cases hs : pyIsSpace c = true
    · cases hi : isIdentChar c with
      | false => rfl
      | true =>
        rw [not_space_of_identChar hi] at hs
        cases hs
    · rw [List.dropWhile_cons_of_neg hs] at h
      have hc : c = '(' := by simpa using h
      rw [hc]
      decide

theorem whole_of_directCall (h : directCall text name = true) : Whole name text := by
  unfold directCall at h
  obtain ⟨⟨before,behind⟩,hmem,ho⟩ := List.any_eq_true.mp h
  rw [Bool.and_eq_true] at ho
  refine ⟨before.reverse,behind,mem_occurrences.mp hmem,?_,opensCall_head ho.2⟩
  intro c hc
  rw [List.getLast?_reverse] at hc
  have := ho.1
  rw [hc] at this
  simpa using this

end Occurrences

end CallchainExtractor
end EntryAnalyse
