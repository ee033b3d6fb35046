import EntryAnalyse.GapAnswers
import EntryAnalyse.Patterns

/-! `_parse_j_result` reads the verdict of a judge: patterns for every verdict are searched in the
whole text, one after another, and the first that is found decides. -/
namespace EntryAnalyse
namespace JudgeVerdict

open PyJson PyText Runner Patterns

/-! ## `_parse_j_result` -/

/-- `<think>` and what follows it up to `</think>`: the number of characters. -/
def thinkLength (cs : List Char) : Option ℕ :=
  if "<think>".toList.isPrefixOf cs then
    (GapAnswers.splitFirst "</think>".toList (cs.drop 7)).map fun p => 7 + p.1.length + 8
  else none

/-- `re.sub` of every think block by nothing; the number counts the characters to drop. -/
def removeThink : ℕ → List Char → List Char
  | _,[] => []
  | n + 1,_ :: cs => removeThink n cs
  | 0,c :: cs =>
    match thinkLength (c :: cs) with
    | some n => removeThink (n - 1) cs
    | none => c :: removeThink 0 cs

def isColon (c : Char) : Bool := c == '：' || c == ':'

/-- `a[：:]\s*b`. -/
def labelled (a b : String) : List Piece := word a ++ [.oneOf isColon,.spaces] ++ word b

def deletePatterns : List (List Piece) := [labelled "通过" "删除",labelled "verdict" "delete"]

def skipPatterns : List (List Piece) := [labelled "通过" "跳过",labelled "verdict" "skip"]

def discardPatterns : List (List Piece) := [labelled "通过" "丢弃",labelled "verdict" "discard"]

def passRuling : List Piece :=
  word "通过" ++ [.oneOf isColon,.spaces,.oneOf fun c => c == '是' || c == '✅']

def passVerified : List Piece :=
  word "验证通过" ++ [.oneOf fun c => isColon c || pyIsSpace c || c == '✅']

def passTrue : List Piece := .boundary :: labelled "passed" "true"

def passWord : List Piece := .boundary :: word "pass" ++ [.boundary]

def passPatterns : List (List Piece) := [passRuling,passVerified,passTrue,passWord]

def failPatterns : List (List Piece) :=
  [word "通过" ++ [.oneOf isColon,.spaces,.oneOf fun c => c == '否' || c == '✗'],
   .oneOf (fun c => c == '不' || c == '未') :: word "通过",
   .boundary :: labelled "passed" "false",
   .boundary :: word "fail" ++ [.boundary]]

/-- The label of the feedback, `stars` where Markdown may set it in bold. -/
def feedbackLabel (stars : Bool) (label : String) : List Piece :=
  if stars then .maybe "**".toList :: word label ++ [.maybe "**".toList,.oneOf isColon]
  else word label ++ [.oneOf isColon]

variable (k : WordChars)

/-- The text behind the label, up to an empty line. -/
def section? (stars : Bool) (text : List Char) : Option String :=
  ((search k (feedbackLabel stars "反馈") none text).orElse fun _ =>
    search k (feedbackLabel stars "feedback") none text).map fun rest =>
      strip (String.ofList (((GapAnswers.splitFirst "\n\n".toList rest).map Prod.fst).getD rest))

def feedbackOf (stars : Bool) (text : List Char) : String :=
  (section? k stars text).getD (String.ofList (text.take 500))

def jVerdictDelete : String := "__DELETE__"

def jVerdictSkip : String := "__SKIP__"

def jVerdictDiscard : String := "__DISCARD__"

/-- The text in which the patterns are searched. -/
def judgeText (output : String) : List Char :=
  let clean := (strip (String.ofList (removeThink 0 output.toList))).toList
  if clean.isEmpty then output.toList else clean

/-- `_parse_j_result`: whether the judge passes, and its feedback. -/
def parseJResult (output : String) : Bool × String :=
  let text := judgeText output
  if mentions k deletePatterns text then (false,jVerdictDelete ++ feedbackOf k false text)
  else if mentions k skipPatterns text then (false,jVerdictSkip ++ feedbackOf k false text)
  else if mentions k discardPatterns text then (false,jVerdictDiscard ++ feedbackOf k false text)
  else
    let passed :=
      if mentions k passPatterns text then true
      else if mentions k failPatterns text then false
      else false
    (passed,feedbackOf k true text)

/-! ## Verdicts -/

inductive Verdict
  | passed | failed | delete | skip | discard
  deriving DecidableEq

/-- How R2-J reads the result. -/
def verdictOf (result : Bool × String) : Verdict :=
  if startsWith result.2 jVerdictDelete then .delete
  else if startsWith result.2 jVerdictSkip then .skip
  else if startsWith result.2 jVerdictDiscard then .discard
  else if result.1 then .passed
  else .failed

/-- What a line with `通过:` says. -/
inductive Ruling
  | yes | no | delete | skip | discard
  deriving DecidableEq

def Ruling.text : Ruling → String
  | .yes => "是"
  | .no => "否"
  | .delete => "删除"
  | .skip => "跳过"
  | .discard => "丢弃"

/-- The supported forms of a verdict line; the flag stands for the wide colon, the number for the
blanks behind it. -/
inductive VerdictLine
  | ruling (r : Ruling) (wide : Bool) (blanks : ℕ)
  | verified
  | notPassed
  | passed (b : Bool) (wide : Bool) (blanks : ℕ)
  | pass
  | fail
  deriving DecidableEq

def behindColon (wide : Bool) (blanks : ℕ) (w : String) : List Char :=
  (if wide then '：' else ':') :: (List.replicate blanks ' ' ++ w.toList)

def VerdictLine.text : VerdictLine → List Char
  | .ruling r wide blanks => "通过".toList ++ behindColon wide blanks r.text
  | .verified => "验证通过".toList
  | .notPassed => "不通过".toList
  | .passed b wide blanks =>
    "passed".toList ++ behindColon wide blanks (if b then "true" else "false")
  | .pass => "PASS".toList
  | .fail => "FAIL".toList

def VerdictLine.verdict : VerdictLine → Verdict
  | .ruling .yes _ _ | .verified | .passed true _ _ | .pass => .passed
  | .ruling .no _ _ | .notPassed | .passed false _ _ | .fail => .failed
  | .ruling .delete _ _ => .delete
  | .ruling .skip _ _ => .skip
  | .ruling .discard _ _ => .discard

/-- An output of a judge: the verdict line and the feedback below it. -/
def judgeOutput (line : VerdictLine) (feedback : List Char) : String :=
  String.ofList (line.text ++ '\n' :: feedback)

/-- What is read of the feedback. -/
def remaining (feedback : List Char) : List Char :=
  (removeThink 0 feedback).rdropWhile pyIsSpace

theorem text_ruling (r : Ruling) (wide : Bool) (blanks : ℕ) (cs : List Char) :
    (VerdictLine.ruling r wide blanks).text ++ cs =
      "通过".toList ++ (behindColon wide blanks r.text ++ cs) := List.append_assoc _ _ _

theorem text_passed (b wide : Bool) (blanks : ℕ) (cs : List Char) :
    (VerdictLine.passed b wide blanks).text ++ cs =
      "passed".toList ++ (behindColon wide blanks (if b then "true" else "false") ++ cs) :=
  List.append_assoc _ _ _

theorem behindColon_append (wide : Bool) (blanks : ℕ) (w : String) (cs : List Char) :
    behindColon wide blanks w ++ cs =
      ((if wide then '：' else ':') :: List.replicate blanks ' ') ++ (w.toList ++ cs) := by
  rw [behindColon,List.cons_append,List.cons_append,List.append_assoc]

/-- What stands below the verdict line once the ends of the text are stripped. -/
def below (t : List Char) : List Char := if t.isEmpty then [] else '\n' :: t

section Lines

variable {k} {ps qs : List Piece} {line : VerdictLine} {t : List Char}

/-- A search passes over a line in which the pattern does not match. -/
theorem search_line {before : Option Char} {c : Char} (xs : List Char) (hs : solid ps = true)
    (hn : starts ps '\n' = false) (hhead : matchHere k ps before (c :: (xs ++ below t)) = none)
    (htail : ∀ x ∈ xs, starts ps x = false) :
    search k ps before (c :: xs ++ below t) = search k ps none t := by
  rw [List.cons_append,search_cons hhead,search_append hs htail,below]
  cases t with
  | nil => rw [List.isEmpty_nil,if_pos rfl,search_nil hs,search_nil hs]
  | cons d t => exact search_newline hs hn

theorem search_line_of_starts {xs : List Char} (hs : solid ps = true)
    (hn : starts ps '\n' = false) (h : ∀ x ∈ xs, starts ps x = false) :
    search k ps none (xs ++ below t) = search k ps none t := by
  rw [search_append hs h,below]
  cases t with
  | nil => rw [List.isEmpty_nil,if_pos rfl,search_nil hs,search_nil hs]
  | cons d t => exact search_newline hs hn

variable (qs) in
theorem matchHere_behindColon {w : String} {d : Char} {ds : List Char} (hw : w.toList = d :: ds)
    (hd : pyIsSpace d = false) (before : Option Char) (wide : Bool) (blanks : ℕ)
    (cs : List Char) :
    ∃ before', matchHere k (.oneOf isColon :: .spaces :: qs) before
      (behindColon wide blanks w ++ cs) = matchHere k qs before' (w.toList ++ cs) := by
  have hcolon : isColon (if wide then '：' else ':') = true := by cases wide <;> decide
  have hblank : ∀ x ∈ List.replicate blanks ' ', pyIsSpace x = true := by
    intro x hx
    rw [List.eq_of_mem_replicate hx]
    decide
  refine ⟨((List.replicate blanks ' ').getLast?).or (some (if wide then '：' else ':')),?_⟩
  rw [behindColon,List.cons_append,matchHere,if_pos hcolon,matchHere,List.append_assoc,
    List.takeWhile_append_of_pos hblank,List.dropWhile_append_of_pos hblank,hw,List.cons_append,
    List.takeWhile_cons_of_neg (by simp [hd]),List.dropWhile_cons_of_neg (by simp [hd]),
    List.append_nil]

theorem mem_behindColon {wide : Bool} {blanks : ℕ} {w : String} {x : Char}
    (h : x ∈ behindColon wide blanks w) : x ∈ '：' :: ':' :: ' ' :: w.toList := by
  rw [behindColon] at h
  rcases List.mem_cons.mp h with rfl | h
  · cases wide <;> simp
  · rcases List.mem_append.mp h with h | h
    · rw [List.eq_of_mem_replicate h]
      simp
    · simp [h]

/-- Behind the label, the colon and the blanks the word of the pattern is left. -/
theorem matchHere_labelled {a w : String} (W : String) {d : Char} {ds : List Char}
    (ha : ∀ c ∈ a.toList, foldCase c = c) (hw : w.toList = d :: ds) (hd : pyIsSpace d = false)
    (before : Option Char) (wide : Bool) (blanks : ℕ) (cs : List Char) :
    ∃ before', matchHere k (labelled a W) before (a.toList ++ (behindColon wide blanks w ++ cs)) =
      matchHere k (word W) before' (w.toList ++ cs) := by
  rw [labelled,List.append_assoc,matchHere_word_append a ha]
  exact matchHere_behindColon (word W) hw hd _ wide blanks cs

/-- Between the label and another word than the line's the pattern does not match. -/
theorem matchHere_ruling {W : String} {d : Char} {ds : List Char} {r : Ruling} {e : Char}
    {es : List Char} (hr : r.text.toList = e :: es) (he : pyIsSpace e = false)
    (hW : W.toList = d :: ds) (hne : foldCase e ≠ d) (wide : Bool) (blanks : ℕ) (cs : List Char) :
    matchHere k (labelled "通过" W) none ((VerdictLine.ruling r wide blanks).text ++ cs) = none := by
  obtain ⟨b,hb⟩ := matchHere_labelled (k := k) (a := "通过") W (by decide) hr he none wide blanks cs
  rw [text_ruling,hb,word,hW,hr,List.map_cons,List.cons_append,matchHere,
    if_neg (by simpa using hne)]

/-- The tail of a line with `通过:` holds none of the first letters of the patterns. -/
theorem starts_ruling {r : Ruling} {wide : Bool} {blanks : ℕ}
    (h : ∀ x ∈ "过：: 是否删除跳过丢弃".toList, starts ps x = false) :
    ∀ x ∈ '过' :: behindColon wide blanks r.text, starts ps x = false := by
  have hsub : ∀ x ∈ '：' :: ':' :: ' ' :: r.text.toList, x ∈ "过：: 是否删除跳过丢弃".toList := by
    cases r <;> decide
  intro x hx
  refine h x ?_
  rcases List.mem_cons.mp hx with rfl | hx
  · decide
  · exact hsub x (mem_behindColon hx)

theorem starts_passed {b wide : Bool} {blanks : ℕ}
    (h : ∀ x ∈ "assed：: truefalse".toList, starts ps x = false) :
    ∀ x ∈ "assed".toList ++ behindColon wide blanks (if b then "true" else "false"),
      starts ps x = false := by
  have hword : ∀ x ∈ "assed".toList, x ∈ "assed：: truefalse".toList := by decide
  have hsub : ∀ x ∈ '：' :: ':' :: ' ' :: (if b then "true" else "false").toList,
      x ∈ "assed：: truefalse".toList := by
    cases b <;> decide
  intro x hx
  rcases List.mem_append.mp hx with hx | hx
  · exact h x (hword x hx)
  · exact h x (hsub x (mem_behindColon hx))

/-- The characters that a line may hold. -/
def letters : VerdictLine → List Char
  | .ruling _ _ _ => "通过：: 是否删除跳过丢弃".toList
  | .verified => "验证通过".toList
  | .notPassed => "不通过".toList
  | .passed true _ _ => "passed：: true".toList
  | .passed false _ _ => "passed：: false".toList
  | .pass => "PASS".toList
  | .fail => "FAIL".toList

theorem mem_letters {x : Char} (h : x ∈ line.text) : x ∈ letters line := by
  cases line with
  | ruling r wide blanks =>
    have hsub : ∀ y ∈ '：' :: ':' :: ' ' :: r.text.toList, y ∈ "通过：: 是否删除跳过丢弃".toList := by
      cases r <;> decide
    have hlabel : ∀ y ∈ "通过".toList, y ∈ "通过：: 是否删除跳过丢弃".toList := by decide
    rcases List.mem_append.mp h with h | h
    · exact hlabel x h
    · exact hsub x (mem_behindColon h)
  | passed b wide blanks =>
    cases b with
    | true => exact List.mem_append.mpr ((List.mem_append.mp h).imp_right mem_behindColon)
    | false => exact List.mem_append.mpr ((List.mem_append.mp h).imp_right mem_behindColon)
  | _ => exact h

/-- A pattern that begins with none of the letters of a line does not match in it. -/
theorem search_of_letters (hs : solid ps = true) (hn : starts ps '\n' = false)
    (h : (letters line).all (fun x => !starts ps x) = true) :
    search k ps none (line.text ++ below t) = search k ps none t := by
  refine search_line_of_starts hs hn fun x hx => ?_
  have hx := List.all_eq_true.mp h x (mem_letters hx)
  rwa [Bool.not_eq_true'] at hx

theorem clear_verdict (W : String) (line : VerdictLine) :
    search k (labelled "verdict" W) none (line.text ++ below t) =
      search k (labelled "verdict" W) none t := by
  refine search_of_letters rfl rfl ?_
  cases line with
  | passed b wide blanks => cases b <;> rfl
  | _ => rfl

theorem matchHere_colon_below (before : Option Char) :
    matchHere k (.oneOf isColon :: qs) before (below t) = none := by
  cases t <;> rfl

/-- The word of the pattern begins with another letter than that of the line. -/
theorem clear_label {W : String} {d : Char} {ds : List Char} (hW : W.toList = d :: ds)
    {line : VerdictLine}
    (hline : ∀ r wide blanks, line = .ruling r wide blanks → ∀ e ∈ r.text.toList.head?,
      foldCase e ≠ d) :
    search k (labelled "通过" W) none (line.text ++ below t) =
      search k (labelled "通过" W) none t := by
  have hs : solid (labelled "通过" W) = true := rfl
  have hn : starts (labelled "通过" W) '\n' = false := rfl
  cases line with
  | ruling r wide blanks =>
    obtain ⟨e,es,hr,he⟩ : ∃ e es, r.text.toList = e :: es ∧ pyIsSpace e = false := by
      cases r <;> exact ⟨_,_,rfl,by decide⟩
    refine search_line _ hs hn ?_ (starts_ruling (fun y hy => ?_))
    · exact matchHere_ruling hr he hW (hline r wide blanks rfl e (by rw [hr]; rfl)) wide blanks _
    · show (foldCase y == '通') = false
      revert y
      decide
  | verified =>
    show search k _ none ("验证".toList ++ ('通' :: ['过'] ++ below t)) = _
    rw [search_append hs (show ∀ x ∈ _, (foldCase x == '通') = false by decide)]
    refine search_line _ hs hn ?_ (show ∀ x ∈ _, (foldCase x == '通') = false by decide)
    exact matchHere_colon_below _
  | notPassed =>
    show search k _ none ("不".toList ++ ('通' :: ['过'] ++ below t)) = _
    rw [search_append hs (show ∀ x ∈ _, (foldCase x == '通') = false by decide)]
    refine search_line _ hs hn ?_ (show ∀ x ∈ _, (foldCase x == '通') = false by decide)
    exact matchHere_colon_below _
  | passed b wide blanks => exact search_of_letters hs hn (by cases b <;> rfl)
  | pass => exact search_of_letters hs hn rfl
  | fail => exact search_of_letters hs hn rfl

/-! ### The patterns of the verdicts -/

theorem mentions_delete (h : line.verdict ≠ .delete) :
    mentions k deletePatterns (line.text ++ below t) = mentions k deletePatterns t := by
  have hline : ∀ r wide blanks, line = .ruling r wide blanks → ∀ e ∈ r.text.toList.head?,
      foldCase e ≠ '删' := by
    rintro r wide blanks rfl
    cases r with
    | delete => exact absurd rfl h
    | _ =>
      rintro e ⟨⟩
      decide
  simp only [mentions,deletePatterns,List.any_cons,List.any_nil,clear_verdict,
    clear_label (show "删除".toList = '删' :: ['除'] from rfl) hline]

theorem mentions_skip (h : line.verdict ≠ .skip) :
    mentions k skipPatterns (line.text ++ below t) = mentions k skipPatterns t := by
  have hline : ∀ r wide blanks, line = .ruling r wide blanks → ∀ e ∈ r.text.toList.head?,
      foldCase e ≠ '跳' := by
    rintro r wide blanks rfl
    cases r with
    | skip => exact absurd rfl h
    | _ =>
      rintro e ⟨⟩
      decide
  simp only [mentions,skipPatterns,List.any_cons,List.any_nil,clear_verdict,
    clear_label (show "跳过".toList = '跳' :: ['过'] from rfl) hline]

theorem mentions_discard (h : line.verdict ≠ .discard) :
    mentions k discardPatterns (line.text ++ below t) = mentions k discardPatterns t := by
  have hline : ∀ r wide blanks, line = .ruling r wide blanks → ∀ e ∈ r.text.toList.head?,
      foldCase e ≠ '丢' := by
    rintro r wide blanks rfl
    cases r with
    | discard => exact absurd rfl h
    | _ =>
      rintro e ⟨⟩
      decide
  simp only [mentions,discardPatterns,List.any_cons,List.any_nil,clear_verdict,
    clear_label (show "丢弃".toList = '丢' :: ['弃'] from rfl) hline]

/-- A line with `通过:` matches the pattern with its own word. -/
theorem search_ruling {r : Ruling} {e : Char} {es : List Char} (cs : List Char) (hr : r.text.toList = e :: es)
    (he : pyIsSpace e = false) (hfold : ∀ c ∈ r.text.toList, foldCase c = c) (wide : Bool)
    (blanks : ℕ) :
    search k (labelled "通过" r.text) none ((VerdictLine.ruling r wide blanks).text ++ cs) =
      some cs := by
  refine search_of_match ?_
  obtain ⟨b,hb⟩ := matchHere_labelled (k := k) (a := "通过") r.text (by decide) hr he none wide
    blanks cs
  have hword := matchHere_word_append (k := k) r.text hfold [] b cs
  rw [List.append_nil] at hword
  rw [text_ruling,hb,hword]
  rfl

theorem mentions_delete_of_line (h : line.verdict = .delete) :
    mentions k deletePatterns (line.text ++ below t) = true := by
  match line,h with
  | .ruling .delete wide blanks,_ =>
    have hsearch := search_ruling (k := k) (r := .delete) (below t) rfl (by decide)
      (by decide) wide blanks
    rw [mentions,deletePatterns,List.any_cons,show "删除" = Ruling.delete.text from rfl,hsearch]
    rfl

theorem mentions_skip_of_line (h : line.verdict = .skip) :
    mentions k skipPatterns (line.text ++ below t) = true := by
  match line,h with
  | .ruling .skip wide blanks,_ =>
    have hsearch := search_ruling (k := k) (r := .skip) (below t) rfl (by decide)
      (by decide) wide blanks
    rw [mentions,skipPatterns,List.any_cons,show "跳过" = Ruling.skip.text from rfl,hsearch]
    rfl

theorem mentions_discard_of_line (h : line.verdict = .discard) :
    mentions k discardPatterns (line.text ++ below t) = true := by
  match line,h with
  | .ruling .discard wide blanks,_ =>
    have hsearch := search_ruling (k := k) (r := .discard) (below t) rfl (by decide)
      (by decide) wide blanks
    rw [mentions,discardPatterns,List.any_cons,show "丢弃" = Ruling.discard.text from rfl,hsearch]
    rfl

theorem isWord_letter {c : Char} (h : c.isAlpha = true) : (some c).any k.isWord = true := by
  rw [Option.any_some,k.letter c h]

theorem any_head_below : (below t).head?.any k.isWord = false := by
  cases t with
  | nil => rfl
  | cons d t => exact k.newline

theorem mentions_pass_of_line (h : line.verdict = .passed) (hne : line = .verified → t ≠ []) :
    mentions k passPatterns (line.text ++ below t) = true := by
  rw [mentions,List.any_eq_true]
  match line,h with
  | .ruling .yes wide blanks,_ =>
    refine ⟨_,List.mem_cons_self,?_⟩
    obtain ⟨b,hb⟩ := matchHere_behindColon (k := k) (w := "是")
      [.oneOf fun c => c == '是' || c == '✅'] rfl (by decide)
      (("通过".toList.getLast?).or none) wide blanks (below t)
    have hsearch : search k passRuling none
        ((VerdictLine.ruling .yes wide blanks).text ++ below t) = some (below t) := by
      refine search_of_match ?_
      rw [passRuling,text_ruling,matchHere_word_append "通过" (by decide)]
      exact hb
    rw [hsearch]
    rfl
  | .verified,_ =>
    refine ⟨_,List.mem_cons_of_mem _ List.mem_cons_self,?_⟩
    cases t with
    | nil => exact absurd rfl (hne rfl)
    | cons d t => rfl
  | .passed true wide blanks,_ =>
    refine ⟨_,List.mem_cons_of_mem _ (List.mem_cons_of_mem _ List.mem_cons_self),?_⟩
    obtain ⟨b,hb⟩ := matchHere_labelled (k := k) (a := "passed") (w := "true") "true" (by decide)
      rfl (by decide) none wide blanks (below t)
    have hsearch : search k passTrue none
        ((VerdictLine.passed true wide blanks).text ++ below t) = some (below t) := by
      refine search_of_match ?_
      rw [passTrue,text_passed,matchHere,if_pos]
      · exact hb
      · show (false != (some 'p').any k.isWord) = true
        rw [isWord_letter (by decide)]
        rfl
    rw [hsearch]
    rfl
  | .pass,_ =>
    refine ⟨_,List.mem_cons_of_mem _ (List.mem_cons_of_mem _ (List.mem_cons_of_mem _
      List.mem_cons_self)),?_⟩
    have hsearch : search k passWord none (VerdictLine.pass.text ++ below t) =
        some (below t) := by
      refine search_of_match ?_
      show (if false != (some 'P').any k.isWord then
          if (some 'S').any k.isWord != (below t).head?.any k.isWord then some (below t) else none
        else none) = _
      rw [isWord_letter (by decide),isWord_letter (by decide),any_head_below]
      rfl
    rw [hsearch]
    rfl

/-- `验证通过` alone is no match: a character is missing behind it. -/
theorem mentions_pass_verified :
    mentions k passPatterns (VerdictLine.verified.text ++ below []) = false := by
  have htrue : search k passTrue none (VerdictLine.verified.text ++ below []) = none :=
    (search_of_letters rfl rfl rfl).trans (search_nil rfl)
  have hpass : search k passWord none (VerdictLine.verified.text ++ below []) = none :=
    (search_of_letters rfl rfl rfl).trans (search_nil rfl)
  simp only [mentions,passPatterns,List.any_cons,List.any_nil,htrue,hpass]
  rfl

theorem search_passRuling (h : line.verdict = .failed) :
    search k passRuling none (line.text ++ below t) = search k passRuling none t := by
  match line,h with
  | .ruling .no wide blanks,_ =>
    refine search_line _ rfl rfl ?_ (starts_ruling (by decide))
    obtain ⟨b,hb⟩ := matchHere_behindColon (k := k) (w := "否")
      [.oneOf fun c => c == '是' || c == '✅'] rfl (by decide)
      (("通过".toList.getLast?).or none) wide blanks (below t)
    refine (matchHere_word_append "通过" (by decide) _ none
      (behindColon wide blanks "否" ++ below t)).trans ?_
    exact hb.trans rfl
  | .notPassed,_ =>
    show search k _ none ("不".toList ++ ('通' :: ['过'] ++ below t)) = _
    rw [search_append rfl (by decide)]
    exact search_line _ rfl rfl (matchHere_colon_below _) (by decide)
  | .passed false wide blanks,_ => exact search_of_letters rfl rfl rfl
  | .fail,_ => exact search_of_letters rfl rfl rfl

theorem search_passVerified (h : line.verdict = .failed) :
    search k passVerified none (line.text ++ below t) = search k passVerified none t := by
  refine search_of_letters rfl rfl ?_
  cases line with
  | verified => cases h
  | passed b wide blanks => cases b <;> rfl
  | _ => rfl

theorem search_passTrue (h : line.verdict = .failed) :
    search k passTrue none (line.text ++ below t) = search k passTrue none t := by
  match line,h with
  | .passed false wide blanks,_ =>
    refine search_line ("assed".toList ++ behindColon wide blanks "false") rfl rfl ?_
      (starts_passed (b := false) (by decide))
    obtain ⟨b,hb⟩ := matchHere_labelled (k := k) (a := "passed") (w := "false") "true" (by decide)
      rfl (by decide) none wide blanks (below t)
    rw [passTrue,matchHere]
    split
    · rw [List.append_assoc]
      exact hb.trans rfl
    · rfl
  | .ruling .no wide blanks,_ => exact search_of_letters rfl rfl rfl
  | .notPassed,_ => exact search_of_letters rfl rfl rfl
  | .fail,_ => exact search_of_letters rfl rfl rfl

/-- `passed` is longer than the word. -/
theorem search_passWord (h : line.verdict = .failed) :
    search k passWord none (line.text ++ below t) = search k passWord none t := by
  match line,h with
  | .passed false wide blanks,_ =>
    refine search_line ("assed".toList ++ behindColon wide blanks "false") rfl rfl ?_
      (starts_passed (b := false) (by decide))
    rw [passWord,List.cons_append,matchHere]
    split
    · show (if (some 's').any k.isWord != (some 'e').any k.isWord then _ else none) = none
      rw [isWord_letter (by decide),isWord_letter (by decide)]
      rfl
    · rfl
  | .ruling .no wide blanks,_ => exact search_of_letters rfl rfl rfl
  | .notPassed,_ => exact search_of_letters rfl rfl rfl
  | .fail,_ => exact search_of_letters rfl rfl rfl

theorem mentions_pass (h : line.verdict = .failed) :
    mentions k passPatterns (line.text ++ below t) = mentions k passPatterns t := by
  simp only [mentions,passPatterns,List.any_cons,List.any_nil,search_passRuling h,
    search_passVerified h,search_passTrue h,search_passWord h]

/-! ### The feedback -/

theorem search_label : search k (feedbackLabel true "反馈") none (line.text ++ below t) =
    search k (feedbackLabel true "反馈") none t := by
  refine search_of_letters rfl rfl ?_
  cases line with
  | passed b wide blanks => cases b <;> rfl
  | _ => rfl

theorem search_feedback : search k (feedbackLabel true "feedback") none (line.text ++ below t) =
    search k (feedbackLabel true "feedback") none t := by
  cases line with
  | passed b wide blanks =>
    cases b with
    | true => exact search_of_letters rfl rfl rfl
    | false =>
      have hfront : ∀ x ∈ "passed".toList ++ (if wide then '：' else ':') ::
          List.replicate blanks ' ', starts (feedbackLabel true "feedback") x = false := by
        intro x hx
        have hall : ∀ y ∈ "passed：: ".toList, starts (feedbackLabel true "feedback") y = false := by
          decide
        have hmem : x ∈ "passed：: ".toList := by
          rcases List.mem_append.mp hx with hx | hx
          · exact List.mem_append_left "：: ".toList hx
          · exact List.mem_append_right "passed".toList
              (mem_behindColon (w := "") (by rwa [behindColon,String.toList_empty,List.append_nil]))
        exact hall x hmem
      have htext : (VerdictLine.passed false wide blanks).text ++ below t =
          ("passed".toList ++ (if wide then '：' else ':') :: List.replicate blanks ' ') ++
            ("false".toList ++ below t) := by
        rw [text_passed,behindColon_append,← List.append_assoc]
        rfl
      rw [htext,search_append rfl hfront]
      exact search_line "alse".toList rfl rfl rfl (by decide)
  | fail => exact search_line "AIL".toList rfl rfl rfl (by decide)
  | _ => exact search_of_letters rfl rfl rfl

/-- The feedback is found below the line. -/
theorem section?_line : section? k true (line.text ++ below t) = section? k true t := by
  rw [section?,section?,search_label,search_feedback]

/-! ### The text -/

theorem removeThink_append {xs : List Char} (cs : List Char) (h : ∀ x ∈ xs, x ≠ '<') :
    removeThink 0 (xs ++ cs) = xs ++ removeThink 0 cs := by
  induction xs with
  | nil => rfl
  | cons x xs ih =>
    obtain ⟨hx,hxs⟩ := List.forall_mem_cons.mp h
    have hthink : thinkLength (x :: (xs ++ cs)) = none := by
      have hfirst : ('<' == x) = false := beq_eq_false_iff_ne.mpr (Ne.symm hx)
      refine if_neg ?_
      show ¬(('<' == x) && _) = true
      simp only [hfirst,Bool.false_and,Bool.false_eq_true,not_false_eq_true]
    rw [List.cons_append,removeThink,hthink]
    exact congrArg (x :: ·) (ih hxs)

theorem exists_first (line : VerdictLine) :
    ∃ c xs, line.text = c :: xs ∧ pyIsSpace c = false ∧ c ≠ '_' := by
  cases line <;> exact ⟨_,_,rfl,by decide,by decide⟩

theorem exists_last (line : VerdictLine) :
    ∃ xs e, line.text = xs ++ [e] ∧ pyIsSpace e = false := by
  have hcolon : ∀ front wide blanks (w : String) (init : List Char) (e : Char),
      w.toList = init ++ [e] → ∃ xs : List Char,
        front ++ behindColon wide blanks w = xs ++ [e] := by
    intro front wide blanks w init e hw
    rw [behindColon,hw]
    exact ⟨front ++ (if wide then '：' else ':') :: (List.replicate blanks ' ' ++ init),by simp⟩
  cases line with
  | ruling r wide blanks =>
    obtain ⟨init,e,hr,he⟩ : ∃ init e, r.text.toList = init ++ [e] ∧ pyIsSpace e = false := by
      cases r with
      | yes => exact ⟨[],'是',rfl,by decide⟩
      | no => exact ⟨[],'否',rfl,by decide⟩
      | delete => exact ⟨['删'],'除',rfl,by decide⟩
      | skip => exact ⟨['跳'],'过',rfl,by decide⟩
      | discard => exact ⟨['丢'],'弃',rfl,by decide⟩
    obtain ⟨xs,hxs⟩ := hcolon "通过".toList wide blanks r.text init e hr
    exact ⟨xs,e,hxs,he⟩
  | verified => exact ⟨"验证通".toList,'过',rfl,by decide⟩
  | notPassed => exact ⟨"不通".toList,'过',rfl,by decide⟩
  | passed b wide blanks =>
    cases b with
    | true =>
      obtain ⟨xs,hxs⟩ := hcolon "passed".toList wide blanks "true" "tru".toList 'e' rfl
      exact ⟨xs,'e',hxs,by decide⟩
    | false =>
      obtain ⟨xs,hxs⟩ := hcolon "passed".toList wide blanks "false" "fals".toList 'e' rfl
      exact ⟨xs,'e',hxs,by decide⟩
  | pass => exact ⟨"PAS".toList,'S',rfl,by decide⟩
  | fail => exact ⟨"FAI".toList,'L',rfl,by decide⟩

theorem rdropWhile_line (line : VerdictLine) (u : List Char) :
    (line.text ++ '\n' :: u).rdropWhile pyIsSpace = line.text ++ below (u.rdropWhile pyIsSpace) := by
  induction u using List.reverseRecOn with
  | nil =>
    obtain ⟨xs,e,hline,he⟩ := exists_last line
    rw [List.rdropWhile_concat_pos _ _ _ (by decide),hline,
      List.rdropWhile_concat_neg _ _ _ (by simp [he])]
    simp [below]
  | append_singleton u d ih =>
    have hsplit : line.text ++ '\n' :: (u ++ [d]) = (line.text ++ '\n' :: u) ++ [d] := by simp
    rw [hsplit]
    cases hd : pyIsSpace d with
    | true => rw [List.rdropWhile_concat_pos _ _ _ hd,List.rdropWhile_concat_pos _ _ _ hd,ih]
    | false =>
      rw [List.rdropWhile_concat_neg _ _ _ (by simp [hd]),
        List.rdropWhile_concat_neg _ _ _ (by simp [hd]),below,if_neg (by simp),List.append_assoc]
      rfl

theorem judgeText_judgeOutput (line : VerdictLine) (feedback : List Char) :
    judgeText (judgeOutput line feedback) = line.text ++ below (remaining feedback) := by
  obtain ⟨c,xs,hline,hc,-⟩ := exists_first line
  have hthink : removeThink 0 (line.text ++ '\n' :: feedback) =
      line.text ++ '\n' :: removeThink 0 feedback := by
    have hangle : ∀ x ∈ line.text ++ ['\n'], x ≠ '<' := by
      intro x hx
      rcases List.mem_append.mp hx with hx | hx
      · have hall : (letters line).all (fun y => y != '<') = true := by
          cases line with
          | passed b wide blanks => cases b <;> rfl
          | _ => rfl
        exact bne_iff_ne.mp (List.all_eq_true.mp hall x (mem_letters hx))
      · rw [List.mem_singleton.mp hx]
        decide
    have happend := removeThink_append feedback hangle
    rwa [List.append_assoc,List.append_assoc] at happend
  have hclean : (strip (String.ofList (removeThink 0 (judgeOutput line feedback).toList))).toList =
      line.text ++ below (remaining feedback) := by
    rw [strip_toList,String.toList_ofList,judgeOutput,String.toList_ofList,hthink,remaining,
      ← rdropWhile_line]
    congr 1
    rw [hline,List.cons_append,List.dropWhile_cons_of_neg (by simp [hc])]
  rw [judgeText,hclean,if_neg]
  rw [hline]
  exact Bool.false_ne_true

/-! ### The verdict -/

theorem verdictOf_delete (feedback : String) :
    verdictOf (false,jVerdictDelete ++ feedback) = .delete := by
  rw [verdictOf,if_pos]
  rw [startsWith,String.toList_append]
  rfl

theorem verdictOf_skip (feedback : String) :
    verdictOf (false,jVerdictSkip ++ feedback) = .skip := by
  rw [verdictOf,startsWith,startsWith,String.toList_append]
  rfl

theorem verdictOf_discard (feedback : String) :
    verdictOf (false,jVerdictDiscard ++ feedback) = .discard := by
  rw [verdictOf,startsWith,startsWith,startsWith,String.toList_append]
  rfl

/-- A feedback begins with the mark of a special verdict. -/
def isMarked (feedback : String) : Bool :=
  startsWith feedback jVerdictDelete || startsWith feedback jVerdictSkip ||
    startsWith feedback jVerdictDiscard

theorem verdictOf_unmarked {b : Bool} {feedback : String} (h : isMarked feedback = false) :
    verdictOf (b,feedback) = if b then .passed else .failed := by
  rw [isMarked,Bool.or_eq_false_iff,Bool.or_eq_false_iff] at h
  obtain ⟨⟨h₁,h₂⟩,h₃⟩ := h
  rw [verdictOf,h₁,h₂,h₃]
  rfl

theorem verdictOf_marked {b : Bool} {feedback : String} (h : isMarked feedback = true) :
    verdictOf (b,feedback) ≠ .passed ∧ verdictOf (b,feedback) ≠ .failed := by
  rw [verdictOf]
  split
  · exact ⟨by decide,by decide⟩
  split
  · exact ⟨by decide,by decide⟩
  split
  · exact ⟨by decide,by decide⟩
  · simp_all [isMarked]

variable (line) in
/-- The mark comes from the feedback: the line begins with another character. -/
theorem isMarked_feedbackOf :
    isMarked (feedbackOf k true (line.text ++ below t)) = (section? k true t).any isMarked := by
  rw [feedbackOf,section?_line]
  cases section? k true t with
  | some feedback => rfl
  | none =>
    obtain ⟨c,xs,hline,-,hc⟩ := exists_first line
    have hmark : ∀ w ws, w = '_' :: ws → w.isPrefixOf (c :: (xs ++ below t).take 499) = false := by
      rintro w ws rfl
      show (('_' == c) && _) = false
      rw [beq_eq_false_iff_ne.mpr (Ne.symm hc)]
      rfl
    show isMarked (String.ofList (List.take 500 _)) = false
    rw [hline,List.cons_append,List.take_succ_cons,isMarked,startsWith,startsWith,startsWith,
      String.toList_ofList,hmark jVerdictDelete.toList _ rfl,hmark jVerdictSkip.toList _ rfl,
      hmark jVerdictDiscard.toList _ rfl]
    rfl

/-- No special verdict is named in the feedback. -/
def NoRuling (k : WordChars) (t : List Char) : Prop :=
  mentions k deletePatterns t = false ∧ mentions k skipPatterns t = false ∧
    mentions k discardPatterns t = false

/-- The feedback leaves the verdict of the line: it holds no pattern that is searched before the
line's, and it does not begin with a mark. -/
def Undisturbed (k : WordChars) (line : VerdictLine) (t : List Char) : Prop :=
  match line.verdict with
  | .delete => True
  | .skip => mentions k deletePatterns t = false
  | .discard => mentions k deletePatterns t = false ∧ mentions k skipPatterns t = false
  | .passed => NoRuling k t ∧ (line = .verified → t ≠ []) ∧
      (section? k true t).any isMarked = false
  | .failed => NoRuling k t ∧ mentions k passPatterns t = false ∧
      (section? k true t).any isMarked = false

end Lines

/-- The result for a line and what is read of the feedback below it. -/
def resultFor (line : VerdictLine) (feedback : List Char) : Verdict :=
  verdictOf (parseJResult k (judgeOutput line feedback))

section Result

variable {k} {line : VerdictLine} {feedback : List Char}

theorem resultFor_eq : resultFor k line feedback =
    if mentions k deletePatterns (line.text ++ below (remaining feedback)) then .delete
    else if mentions k skipPatterns (line.text ++ below (remaining feedback)) then .skip
    else if mentions k discardPatterns (line.text ++ below (remaining feedback)) then .discard
    else verdictOf (mentions k passPatterns (line.text ++ below (remaining feedback)),
      feedbackOf k true (line.text ++ below (remaining feedback))) := by
  rw [resultFor]
  simp only [parseJResult,judgeText_judgeOutput]
  by_cases hdelete : mentions k deletePatterns (line.text ++ below (remaining feedback)) = true
  · rw [if_pos hdelete,if_pos hdelete]
    exact verdictOf_delete _
  by_cases hskip : mentions k skipPatterns (line.text ++ below (remaining feedback)) = true
  · rw [if_neg hdelete,if_neg hdelete,if_pos hskip,if_pos hskip]
    exact verdictOf_skip _
  by_cases hdiscard : mentions k discardPatterns (line.text ++ below (remaining feedback)) = true
  · rw [if_neg hdelete,if_neg hdelete,if_neg hskip,if_neg hskip,if_pos hdiscard,if_pos hdiscard]
    exact verdictOf_discard _
  · rw [if_neg hdelete,if_neg hdelete,if_neg hskip,if_neg hskip,if_neg hdiscard,if_neg hdiscard]
    cases mentions k passPatterns (line.text ++ below (remaining feedback)) with
    | true => rfl
    | false => rw [if_neg Bool.false_ne_true,ite_self]

/-- Where no special verdict is named, the rest of the result is that of the line or of the mark. -/
theorem resultFor_of_noRuling (h₁ : line.verdict ≠ .delete) (h₂ : line.verdict ≠ .skip)
    (h₃ : line.verdict ≠ .discard) (h : NoRuling k (remaining feedback)) :
    resultFor k line feedback =
      verdictOf (mentions k passPatterns (line.text ++ below (remaining feedback)),
        feedbackOf k true (line.text ++ below (remaining feedback))) := by
  rw [resultFor_eq,mentions_delete h₁,mentions_skip h₂,mentions_discard h₃,h.1,h.2.1,h.2.2]
  rfl

theorem noRuling_of_resultFor (h₁ : line.verdict ≠ .delete) (h₂ : line.verdict ≠ .skip)
    (h₃ : line.verdict ≠ .discard) (h : resultFor k line feedback = line.verdict) :
    NoRuling k (remaining feedback) := by
  rw [resultFor_eq,mentions_delete h₁,mentions_skip h₂,mentions_discard h₃] at h
  refine ⟨?_,?_,?_⟩ <;> by_contra hne <;> rw [Bool.not_eq_false] at hne
  · rw [if_pos hne] at h
    exact h₁ h.symm
  · rw [if_pos hne] at h
    split at h
    · exact h₁ h.symm
    · exact h₂ h.symm
  · rw [if_pos hne] at h
    split at h
    · exact h₁ h.symm
    split at h
    · exact h₂ h.symm
    · exact h₃ h.symm

theorem resultFor_passed_iff (h : line.verdict = .passed) :
    resultFor k line feedback = .passed ↔ NoRuling k (remaining feedback) ∧
      (line = .verified → remaining feedback ≠ []) ∧
      (section? k true (remaining feedback)).any isMarked = false := by
  have h₁ : line.verdict ≠ .delete := by rw [h]; decide
  have h₂ : line.verdict ≠ .skip := by rw [h]; decide
  have h₃ : line.verdict ≠ .discard := by rw [h]; decide
  constructor
  · intro hres
    have hno := noRuling_of_resultFor h₁ h₂ h₃ (hres.trans h.symm)
    rw [resultFor_of_noRuling h₁ h₂ h₃ hno] at hres
    have hmark : isMarked (feedbackOf k true (line.text ++ below (remaining feedback))) = false := by
      by_contra hm
      rw [Bool.not_eq_false] at hm
      exact (verdictOf_marked hm).1 hres
    refine ⟨hno,?_,by rwa [isMarked_feedbackOf] at hmark⟩
    rintro rfl hnil
    rw [verdictOf_unmarked hmark,hnil,mentions_pass_verified] at hres
    cases hres
  · rintro ⟨hno,hne,hmark⟩
    rw [← isMarked_feedbackOf line] at hmark
    rw [resultFor_of_noRuling h₁ h₂ h₃ hno,verdictOf_unmarked hmark,mentions_pass_of_line h hne]
    rfl

theorem resultFor_failed_iff (h : line.verdict = .failed) :
    resultFor k line feedback = .failed ↔ NoRuling k (remaining feedback) ∧
      mentions k passPatterns (remaining feedback) = false ∧
      (section? k true (remaining feedback)).any isMarked = false := by
  have h₁ : line.verdict ≠ .delete := by rw [h]; decide
  have h₂ : line.verdict ≠ .skip := by rw [h]; decide
  have h₃ : line.verdict ≠ .discard := by rw [h]; decide
  constructor
  · intro hres
    have hno := noRuling_of_resultFor h₁ h₂ h₃ (hres.trans h.symm)
    rw [resultFor_of_noRuling h₁ h₂ h₃ hno] at hres
    have hmark : isMarked (feedbackOf k true (line.text ++ below (remaining feedback))) = false := by
      by_contra hm
      rw [Bool.not_eq_false] at hm
      exact (verdictOf_marked hm).2 hres
    refine ⟨hno,?_,by rwa [isMarked_feedbackOf] at hmark⟩
    by_contra hpass
    rw [Bool.not_eq_false] at hpass
    rw [verdictOf_unmarked hmark,mentions_pass h,hpass] at hres
    cases hres
  · rintro ⟨hno,hpass,hmark⟩
    rw [← isMarked_feedbackOf line] at hmark
    rw [resultFor_of_noRuling h₁ h₂ h₃ hno,verdictOf_unmarked hmark,mentions_pass h,hpass]
    rfl

theorem resultFor_delete (h : line.verdict = .delete) : resultFor k line feedback = .delete := by
  rw [resultFor_eq,mentions_delete_of_line h,if_pos rfl]

theorem resultFor_skip_iff (h : line.verdict = .skip) :
    resultFor k line feedback = .skip ↔
      mentions k deletePatterns (remaining feedback) = false := by
  rw [resultFor_eq,mentions_delete (by rw [h]; decide),mentions_skip_of_line h,if_pos rfl]
  cases mentions k deletePatterns (remaining feedback) with
  | true => exact iff_of_false (by decide) (by decide)
  | false => exact iff_of_true rfl rfl

theorem resultFor_discard_iff (h : line.verdict = .discard) :
    resultFor k line feedback = .discard ↔
      mentions k deletePatterns (remaining feedback) = false ∧
        mentions k skipPatterns (remaining feedback) = false := by
  rw [resultFor_eq,mentions_delete (by rw [h]; decide),mentions_skip (by rw [h]; decide),
    mentions_discard_of_line h,if_pos rfl]
  cases mentions k deletePatterns (remaining feedback) with
  | true =>
    refine iff_of_false (fun hres => ?_) (fun hres => by cases hres.1)
    rw [if_pos rfl] at hres
    cases hres
  | false =>
    cases mentions k skipPatterns (remaining feedback) with
    | true => exact iff_of_false (by decide) (by decide)
    | false => exact iff_of_true rfl ⟨rfl,rfl⟩

end Result

/-- The verdict of the line is returned exactly where the feedback leaves it. -/
theorem verdict_iff_undisturbed (line : VerdictLine) (feedback : List Char) :
    verdictOf (parseJResult k (judgeOutput line feedback)) = line.verdict ↔
      Undisturbed k line (remaining feedback) := by
  show resultFor k line feedback = _ ↔ _
  rw [Undisturbed]
  cases h : line.verdict with
  | passed => exact resultFor_passed_iff h
  | failed => exact resultFor_failed_iff h
  | delete => exact iff_of_true (resultFor_delete h) trivial
  | skip => exact resultFor_skip_iff h
  | discard => exact resultFor_discard_iff h

/-- Letters, digits and underscores of ASCII. -/
def asciiWords : WordChars where
  isWord c := c.isAlphanum || c == '_'
  letter c h := by simp [Char.isAlphanum,h]
  newline := by decide

/-- A refusal whose feedback holds the word of a pass is returned as passed, one that quotes the
rule for a deletion as a deletion. -/
theorem feedback_overrides :
    (VerdictLine.notPassed.verdict = .failed ∧
      verdictOf (parseJResult asciiWords (judgeOutput .notPassed "反馈：改好后才能 PASS".toList)) =
        .passed) ∧
    (VerdictLine.ruling .no false 1).verdict = .failed ∧
      verdictOf (parseJResult asciiWords
        (judgeOutput (.ruling .no false 1) "反馈: 不是宏，不能写 通过: 删除".toList)) = .delete := by
  have hpass : remaining "反馈：改好后才能 PASS".toList =
      ['反','馈','：','改','好','后','才','能',' ','P','A','S','S'] := by
    rw [show "反馈：改好后才能 PASS".toList =
      ['反','馈','：','改','好','后','才','能',' ','P','A','S','S'] from String.toList_ofList]
    decide
  have hdelete : remaining "反馈: 不是宏，不能写 通过: 删除".toList =
      ['反','馈',':',' ','不','是','宏','，','不','能','写',' ','通','过',':',' ','删','除'] := by
    rw [show "反馈: 不是宏，不能写 通过: 删除".toList =
      ['反','馈',':',' ','不','是','宏','，','不','能','写',' ','通','过',':',' ','删','除'] from
      String.toList_ofList]
    decide +kernel
  refine ⟨⟨rfl,?_⟩,rfl,?_⟩
  · show resultFor asciiWords _ _ = _
    have hno : NoRuling asciiWords ['反','馈','：','改','好','后','才','能',' ','P','A','S','S'] := by
      unfold NoRuling
      decide +kernel
    have hmark : ((section? asciiWords true
        ['反','馈','：','改','好','后','才','能',' ','P','A','S','S']).any isMarked) = false := by
      decide
    have hword : mentions asciiWords passPatterns
        ['反','馈','：','改','好','后','才','能',' ','P','A','S','S'] = true := by
      decide +kernel
    rw [← hpass] at hno hmark hword
    rw [← isMarked_feedbackOf .notPassed] at hmark
    rw [resultFor_of_noRuling (by decide) (by decide) (by decide) hno,verdictOf_unmarked hmark,
      mentions_pass rfl,hword]
    rfl
  · show resultFor asciiWords _ _ = _
    rw [resultFor_eq,mentions_delete (by decide),hdelete,if_pos]
    decide

end JudgeVerdict
end EntryAnalyse
