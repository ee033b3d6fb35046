import EntryAnalyse.CommentMask
import EntryAnalyse.FunctionEnd

/-! `_find_function_end` against C's own reading of comments and literals. -/
namespace EntryAnalyse
namespace FunctionEndLexing

open CLexing CommentMask Braces DyckStep FunctionEnd

/-- What the code of a text shows: a brace, or a quote that opens no literal. -/
inductive Mark
  | brace (step : DyckStep)
  | stray
deriving DecidableEq

def braceStep (c : Char) : Option DyckStep :=
  if c = '{' then some U else if c = '}' then some D else none

def mark (p : Place) (c : Char) (rest : List Char) : Option Mark :=
  if p.inside c rest then none
  else if isQuote c then some .stray
  else (braceStep c).map .brace

def lineMarks : Place → List Char → List Mark
  | _,[] => []
  | p,c :: cs => (mark p c cs).toList ++ lineMarks (p.next c cs) cs

def linePlace : Place → List Char → Place
  | p,[] => p.next '\n' []
  | p,c :: cs => linePlace (p.next c cs) cs

/-- The marks of the lines from number `li` on, each with its line. -/
def marks : Place → ℤ → List String → List (ℤ × Mark)
  | _,_,[] => []
  | p,li,line :: lines =>
    (lineMarks p line.toList).map (fun x => (li,x)) ++ marks (linePlace p line.toList) (li + 1) lines

def step? (x : ℤ × Mark) : Option (ℤ × DyckStep) :=
  match x.2 with
  | .brace s => some (x.1,s)
  | .stray => none

/-- The braces of the code. -/
def steps (w : List (ℤ × Mark)) : List (ℤ × DyckStep) := w.filterMap step?

/-- The lines from the start line on. -/
def linesFrom (lines : List String) (startLine : ℤ) : List String :=
  lines.drop (startLine - 1).toNat

/-- The block that the first opening brace at or behind the start line opens is closed on line
`l`. -/
def EndsAt (lines : List String) (startLine l : ℤ) : Prop :=
  (1 ≤ startLine ∧ startLine ≤ lines.length) ∧
    ClosedAt (steps (marks .gap startLine (linesFrom lines startLine))) l

/-- The search finds that line, or says that there is none. -/
structure FindsEnd (lines : List String) (startLine : ℤ) : Prop where
  closed : ∀ l, EndsAt lines startLine l → findFunctionEnd lines startLine = l
  unclosed : (∀ l, ¬EndsAt lines startLine l) → findFunctionEnd lines startLine = 0
  bounds : findFunctionEnd lines startLine ≠ 0 →
    startLine ≤ findFunctionEnd lines startLine ∧
      findFunctionEnd lines startLine ≤ lines.length

/-- The two thousand lines that the search looks at. -/
def scanned (lines : List String) (startLine : ℤ) : List String :=
  (linesFrom lines startLine).take 2000

/-- No quote is left over ahead of the brace that closes the block. -/
def NoStray (w : List (ℤ × Mark)) : Prop :=
  ∀ pre l post, w = pre ++ (l,.stray) :: post → ∃ k, ClosedAt (steps pre) k

/-- The braces follow the marks up to the first quote that is left over. -/
inductive Follows : List (ℤ × DyckStep) → List (ℤ × Mark) → Prop
  | nil : Follows [] []
  | stray (b : List (ℤ × DyckStep)) (l : ℤ) (w : List (ℤ × Mark)) : Follows b ((l,.stray) :: w)
  | brace {b : List (ℤ × DyckStep)} {w : List (ℤ × Mark)} (l : ℤ) (x : DyckStep) :
      Follows b w → Follows ((l,x) :: b) ((l,.brace x) :: w)

section Words
variable {b : List (ℤ × DyckStep)} {w : List (ℤ × Mark)}

/-- By induction on the marks: a walk that comes to its end ahead of every left-over quote does
not see them. -/
theorem closing_follows {d : ℕ} (h : Follows b w)
    (hw : ∀ pre l post, w = pre ++ (l,.stray) :: post → (closing d (steps pre)).isSome) :
    closing d b = closing d (steps w) := by
  induction h generalizing d with
  | nil => rfl
  | stray b l w =>
    have hnone := hw [] l w rfl
    cases hnone
  | @brace b w l x h ih =>
    have hstep : steps ((l,.brace x) :: w) = (l,x) :: steps w := rfl
    have hafter : ∀ e, (∀ pre, closing d ((l,x) :: pre) = closing e pre) →
        closing d ((l,x) :: b) = closing d ((l,x) :: steps w) := by
      intro e he
      rw [he b,he (steps w)]
      refine ih fun pre k post hpre => ?_
      have hpast := hw ((l,.brace x) :: pre) k post (by rw [hpre]; rfl)
      rwa [show steps ((l,.brace x) :: pre) = (l,x) :: steps pre from rfl,he] at hpast
    rw [hstep]
    cases x with
    | U => exact hafter (d + 1) fun pre => rfl
    | D =>
      match d with
      | 0 => exact hafter 0 fun pre => rfl
      | 1 => rfl
      | e + 2 => exact hafter (e + 1) fun pre => rfl

theorem NoStray.isSome (h : NoStray w) {pre post : List (ℤ × Mark)} {l : ℤ}
    (hw : w = pre ++ (l,.stray) :: post) : (closing 0 (steps pre)).isSome := by
  obtain ⟨k,hk⟩ := h pre l post hw
  rw [closing_iff.mpr hk]
  rfl

end Words

/-! ## The two readings of a line -/

def stateOf : Mode → State
  | .code => .code
  | .lineComment => .lineComment
  | .blockComment => .blockComment
  | .string => .string
  | .char => .char

/-- The reading of the search as a state of the mask, which steps over the same characters. -/
def maskOf (s : Lex) : Mask := ⟨stateOf s.mode,s.escape || s.skip⟩

def ReadsLex (s : Lex) (rest : List Char) (p : Place) : Prop :=
  Reads (maskOf s) rest p ∧ (s.escape = true → s.skip = false)

section Line
variable {s : Lex} {c : Char} {cs : List Char} {p : Place}

theorem maskOf_next (hnl : c ≠ '\n') (hflag : s.escape = true → s.skip = false)
    (ahead : Option Char) : maskOf (s.next c ahead) = ((maskOf s).step c ahead).2 := by
  obtain ⟨mode,escape,skip⟩ := s
  cases skip with
  | true =>
    cases escape with
    | true => cases hflag rfl
    | false => rfl
  | false =>
    cases escape with
    | true => rfl
    | false =>
      cases mode with
      | code =>
        by_cases hline : c = '/' ∧ ahead = some '/'
        · simp [maskOf,stateOf,Lex.next,Mask.step,hline]
        by_cases hblock : c = '/' ∧ ahead = some '*'
        · simp [maskOf,stateOf,Lex.next,Mask.step,hblock]
        by_cases hd : c = '"'
        · simp [maskOf,stateOf,Lex.next,Mask.step,hd]
        by_cases hq : c = '\''
        · simp [maskOf,stateOf,Lex.next,Mask.step,hq]
        · simp [maskOf,stateOf,Lex.next,Mask.step,hline,hblock,hd,hq]
      | lineComment => simp [maskOf,stateOf,Lex.next,Mask.step,hnl]
      | blockComment =>
        by_cases hclose : c = '*' ∧ ahead = some '/'
        · simp [maskOf,stateOf,Lex.next,Mask.step,hclose]
        · simp [maskOf,stateOf,Lex.next,Mask.step,hclose]
      | string =>
        by_cases hback : c = '\\'
        · simp [maskOf,stateOf,Lex.next,Mask.step,hback]
        by_cases hd : c = '"'
        · simp [maskOf,stateOf,Lex.next,Mask.step,State.quote,hd]
        · simp [maskOf,stateOf,Lex.next,Mask.step,State.quote,hback,hd,Ne.symm hd]
      | char =>
        by_cases hback : c = '\\'
        · simp [maskOf,stateOf,Lex.next,Mask.step,hback]
        by_cases hq : c = '\''
        · simp [maskOf,stateOf,Lex.next,Mask.step,State.quote,hq]
        · simp [maskOf,stateOf,Lex.next,Mask.step,State.quote,hback,hq,Ne.symm hq]

theorem flags_next (hflag : s.escape = true → s.skip = false) (ahead : Option Char) :
    (s.next c ahead).escape = true → (s.next c ahead).skip = false := by
  obtain ⟨mode,escape,skip⟩ := s
  cases skip with
  | true =>
    cases escape with
    | true => cases hflag rfl
    | false => exact fun _ => rfl
  | false =>
    cases escape with
    | true => exact fun _ => rfl
    | false =>
      unfold Lex.next
      cases mode with
      | lineComment => simp
      | _ =>
        simp only [Bool.false_eq_true,if_false]
        split_ifs <;> simp

/-- The search counts just the braces of the code. -/
theorem brace_eq (h : ReadsLex s (c :: cs) p) (hnl : c ≠ '\n') (hq : isQuote c = false) :
    mark p c cs = (s.brace c).map .brace := by
  obtain ⟨mode,escape,skip⟩ := s
  obtain ⟨hr,hflag⟩ := h
  cases hp : p.hidden with
  | true =>
    have hin : p.inside c cs = true := by
      simp [Place.inside,hp,hnl]
    have hbrace : (Lex.mk mode escape skip).brace c = none := by
      cases p with
      | lineComment =>
        obtain ⟨hstate,-⟩ := hr
        cases mode <;> cases hstate
        simp [Lex.brace]
      | opened =>
        have hstate := congrArg Mask.state hr.1
        cases mode <;> cases hstate
        simp [Lex.brace]
      | blockComment =>
        have hstate := congrArg Mask.state hr
        cases mode <;> cases hstate
        simp [Lex.brace]
      | closing =>
        have hskip : (escape || skip) = true := congrArg Mask.skip hr.1
        have hskip' : (skip || escape) = true := by rw [Bool.or_comm]; exact hskip
        exact if_pos hskip'
      | literal left =>
        obtain ⟨q,hquote,-⟩ := hr
        cases mode with
        | string => simp [Lex.brace]
        | char => simp [Lex.brace]
        | _ => cases hquote
      | _ => cases hp
    rw [mark,hin,if_pos rfl,hbrace]
    rfl
  | false =>
    have hstart : maskOf ⟨mode,escape,skip⟩ = {} := by
      cases p with
      | gap => exact hr.1
      | word => exact hr.1
      | number => exact hr.1
      | sign => exact hr.1
      | _ => cases hp
    have hmode := congrArg Mask.state hstart
    have hskip : (escape || skip) = false := congrArg Mask.skip hstart
    obtain ⟨rfl,rfl⟩ := Bool.or_eq_false_iff.mp hskip
    cases mode <;> cases hmode
    have hbrace : (Lex.mk .code false false).brace c = braceStep c := by
      simp [Lex.brace,braceStep]
    cases hb : braceStep c with
    | none =>
      rw [hbrace,hb,mark,hq,hb]
      split <;> rfl
    | some x =>
      have hc : c = '{' ∨ c = '}' := by
        unfold braceStep at hb
        split_ifs at hb with h1 h2
        · exact .inl h1
        · exact .inr h2
      have hslash : c ≠ '/' := by
        rcases hc with rfl | rfl <;> decide
      have hsign : p.SignAhead (c :: cs) := by
        cases p with
        | gap => exact hr.2
        | word => exact hr.2
        | number => exact hr.2
        | sign => exact hr.2
        | _ => cases hp
      have hplain := @Place.next_plain p c cs hp (fun h => hslash h.1) (fun h => hslash h.1) hq
      have hin : p.inside c cs = false := by
        unfold Place.inside
        rw [hp,if_neg Bool.false_ne_true,hplain.1]
      rw [hbrace,hb,mark,hin,hq,hb]
      rfl

/-- By induction on the line, where the rest of the lines follow its end. -/
theorem follows_line {li : ℤ} {b : List (ℤ × DyckStep)} {w : List (ℤ × Mark)}
    (h : ReadsLex s cs p) (hnl : '\n' ∉ cs)
    (hrest : ∀ q : Place, ReadsLex (lineEnd s cs) [] q → linePlace p cs = q.next '\n' [] →
      Follows b w) :
    Follows ((lineBraces s cs).map (fun x => (li,x)) ++ b)
      ((lineMarks p cs).map (fun x => (li,x)) ++ w) := by
  induction cs generalizing s p with
  | nil => exact hrest p h rfl
  | cons c cs ih =>
    have hc : c ≠ '\n' := fun heq => hnl (heq ▸ List.mem_cons_self)
    have hcs : '\n' ∉ cs := fun hmem => hnl (List.mem_cons_of_mem c hmem)
    rw [lineBraces,lineMarks]
    by_cases hstray : mark p c cs = some .stray
    · rw [hstray]
      exact Follows.stray _ _ _
    have hin : isQuote c = true → p.inside c cs = true := by
      intro hq
      by_contra hout
      apply hstray
      unfold mark
      rw [if_neg hout,if_pos hq]
    have hnext : ReadsLex (s.next c cs.head?) cs (p.next c cs) := by
      refine ⟨?_,flags_next h.2 _⟩
      rw [maskOf_next hc h.2]
      exact (step_reads h.1 hin).2
    have htail := ih hnext hcs hrest
    cases hq : isQuote c with
    | true =>
      have hmark : mark p c cs = none := if_pos (hin hq)
      have hbrace : s.brace c = none := by
        have hquote : c = '"' ∨ c = '\'' := by simpa [isQuote] using hq
        cases hb : s.brace c with
        | none => rfl
        | some x =>
          obtain ⟨-,⟨-,rfl⟩ | ⟨-,rfl⟩⟩ := eq_code_of_brace hb
          · rcases hquote with hq | hq <;> cases hq
          · rcases hquote with hq | hq <;> cases hq
      rw [hmark,hbrace]
      exact htail
    | false =>
      rw [brace_eq h hc hq]
      cases s.brace c with
      | none => exact htail
      | some x => exact Follows.brace li x htail

theorem readsLex_newLine {q : Place} (h : ReadsLex s [] q) (rest : List Char) :
    ReadsLex s.newLine rest (q.next '\n' []) := by
  obtain ⟨mode,escape,skip⟩ := s
  obtain ⟨hr,hflag⟩ := h
  have hplain : maskOf ⟨mode,escape,skip⟩ = {} →
      ReadsLex (Lex.mk mode escape skip).newLine rest .gap := by
    intro hstart
    have hmode := congrArg Mask.state hstart
    cases mode <;> cases hmode
    exact ⟨⟨hstart,fun h => by cases h⟩,hflag⟩
  cases q with
  | gap => exact hplain hr.1
  | word => exact hplain hr.1
  | number => exact hplain hr.1
  | sign =>
    have hgap := hplain hr.1
    exact ⟨⟨hgap.1.1,fun h => by cases h⟩,hgap.2⟩
  | lineComment =>
    obtain ⟨hstate,hskip⟩ := hr
    cases mode <;> cases hstate
    have hoff : (escape || skip) = false := by
      cases hon : (escape || skip) with
      | false => rfl
      | true => cases hskip hon
    obtain ⟨rfl,rfl⟩ := Bool.or_eq_false_iff.mp hoff
    exact ⟨⟨rfl,fun h => by cases h⟩,fun h => by cases h⟩
  | opened => cases hr.2
  | blockComment =>
    have hstate := congrArg Mask.state hr
    cases mode <;> cases hstate
    exact ⟨hr,hflag⟩
  | closing => cases hr.2
  | literal left =>
    obtain ⟨q,-,hleft⟩ := hr
    cases hskip : (maskOf ⟨mode,escape,skip⟩).skip with
    | true =>
      rw [hskip,if_pos rfl] at hleft
      obtain ⟨d,ds,k,hnil,-⟩ := hleft
      cases hnil
    | false =>
      rw [hskip,if_neg Bool.false_ne_true] at hleft
      cases hleft

theorem follows_lines {li : ℤ} {lines : List String} (h : ∀ rest, ReadsLex s.newLine rest p)
    (hnl : ∀ l ∈ lines, '\n' ∉ l.toList) : Follows (braces s li lines) (marks p li lines) := by
  induction lines generalizing s p li with
  | nil => exact Follows.nil
  | cons line lines ih =>
    refine follows_line (h _) (hnl line List.mem_cons_self) fun q hq hplace => ?_
    rw [hplace]
    exact ih (readsLex_newLine hq) fun l hl => hnl l (List.mem_cons_of_mem line hl)

end Line

/-! ## The search -/

section Search
variable {lines : List String} {startLine l : ℤ}

theorem marks_append (p : Place) (li : ℤ) (a b : List String) :
    ∃ q, marks p li (a ++ b) = marks p li a ++ marks q (li + a.length) b := by
  induction a generalizing p li with
  | nil => exact ⟨p,by simp [marks]⟩
  | cons line a ih =>
    obtain ⟨q,hq⟩ := ih (linePlace p line.toList) (li + 1)
    refine ⟨q,?_⟩
    rw [List.cons_append,marks,marks,hq,List.append_assoc,List.length_cons]
    congr 3
    push_cast
    omega

theorem le_of_mem_marks {p : Place} {li : ℤ} {x : ℤ × Mark} (h : x ∈ marks p li lines) :
    li ≤ x.1 := by
  induction lines generalizing p li with
  | nil => cases h
  | cons line lines ih =>
    rcases List.mem_append.mp h with h | h
    · obtain ⟨m,-,rfl⟩ := List.mem_map.mp h
      exact le_rfl
    · have := ih h
      omega

theorem mem_marks_lt {p : Place} {li : ℤ} {x : ℤ × Mark} (h : x ∈ marks p li lines) :
    x.1 < li + lines.length := by
  induction lines generalizing p li with
  | nil => cases h
  | cons line lines ih =>
    rw [List.length_cons]
    rcases List.mem_append.mp h with h | h
    · obtain ⟨m,-,rfl⟩ := List.mem_map.mp h
      push_cast
      omega
    · have := ih h
      push_cast
      omega

theorem fst_mem_of_closing {w : List (ℤ × Mark)} {d : ℕ} (h : closing d (steps w) = some l) :
    ∃ x ∈ w, x.1 = l := by
  obtain ⟨⟨k,m⟩,hmem,hx⟩ := List.mem_filterMap.mp (closing_mem h)
  cases m with
  | brace s =>
    cases hx
    exact ⟨_,hmem,rfl⟩
  | stray => cases hx

/-- The search walks over the braces of the lines that it looks at. -/
theorem findFunctionEnd_eq (hin : 1 ≤ startLine ∧ startLine ≤ lines.length)
    (hnl : ∀ l ∈ lines, '\n' ∉ l.toList)
    (hclean : NoStray (marks .gap startLine (scanned lines startLine))) :
    findFunctionEnd lines startLine =
      (closing 0 (steps (marks .gap startLine (scanned lines startLine)))).getD 0 := by
  have hopen : ¬(startLine - 1 < 0 ∨ (lines.length : ℤ) ≤ startLine - 1) := by omega
  have hscan : ∀ l ∈ scanned lines startLine, '\n' ∉ l.toList :=
    fun l hl => hnl l (List.mem_of_mem_drop (List.mem_of_mem_take hl))
  have hstart : ∀ rest, ReadsLex ({} : Lex).newLine rest .gap :=
    fun rest => ⟨⟨rfl,fun h => by cases h⟩,fun h => by cases h⟩
  have hfollow : Follows (braces {} startLine (scanned lines startLine)) _ :=
    follows_lines hstart hscan
  rw [findFunctionEnd,if_neg hopen,← closing_follows hfollow fun pre l post => hclean.isSome]
  exact scanLines_toScan {} 0 startLine (scanned lines startLine)

theorem endsAt_iff (hin : 1 ≤ startLine ∧ startLine ≤ lines.length) :
    EndsAt lines startLine l ↔
      closing 0 (steps (marks .gap startLine (linesFrom lines startLine))) = some l := by
  rw [closing_iff]
  exact and_iff_right hin

/-- Among the first two thousand lines the walk over all lines is the walk of the search. -/
theorem closing_linesFrom :
    closing 0 (steps (marks .gap startLine (linesFrom lines startLine))) = some l →
      (closing 0 (steps (marks .gap startLine (scanned lines startLine))) = some l ∧
          l < startLine + 2000) ∨
        (closing 0 (steps (marks .gap startLine (scanned lines startLine))) = none ∧
          startLine + 2000 ≤ l) := by
  intro h
  obtain ⟨q,hq⟩ := marks_append .gap startLine (scanned lines startLine)
    ((linesFrom lines startLine).drop 2000)
  rw [scanned,List.take_append_drop] at hq
  rw [hq,steps,List.filterMap_append,closing_append] at h
  have hlen : (scanned lines startLine).length ≤ 2000 := by
    rw [scanned,List.length_take]
    omega
  cases hc : closing 0 (steps (marks .gap startLine (scanned lines startLine))) with
  | some k =>
    have hsome : closing 0 (List.filterMap step?
        (marks .gap startLine ((linesFrom lines startLine).take 2000))) = some k := hc
    rw [hsome,Option.some_or] at h
    cases h
    obtain ⟨x,hx,rfl⟩ := fst_mem_of_closing hc
    have := mem_marks_lt hx
    exact .inl ⟨rfl,by omega⟩
  | none =>
    have hnone : closing 0 (List.filterMap step?
        (marks .gap startLine ((linesFrom lines startLine).take 2000))) = none := hc
    rw [hnone,Option.none_or] at h
    obtain ⟨x,hx,rfl⟩ := fst_mem_of_closing h
    have hle := le_of_mem_marks hx
    refine .inr ⟨rfl,?_⟩
    by_contra hlt
    have hshort : ((linesFrom lines startLine).drop 2000) ≠ [] := by
      intro hnil
      rw [hnil] at hx
      cases hx
    have hfull : ((linesFrom lines startLine).take 2000).length = 2000 := by
      rw [List.length_take]
      have := List.length_pos_iff.mpr hshort
      rw [List.length_drop] at this
      omega
    rw [hfull] at hle
    push_cast at hle
    omega

theorem closing_scanned_none
    (h : closing 0 (steps (marks .gap startLine (linesFrom lines startLine))) = none) :
    closing 0 (steps (marks .gap startLine (scanned lines startLine))) = none := by
  obtain ⟨q,hq⟩ := marks_append .gap startLine (scanned lines startLine)
    ((linesFrom lines startLine).drop 2000)
  rw [scanned,List.take_append_drop] at hq
  rw [hq,steps,List.filterMap_append,closing_append] at h
  exact (Option.or_eq_none_iff.mp h).1

theorem findFunctionEnd_out (hout : ¬(1 ≤ startLine ∧ startLine ≤ lines.length)) :
    findFunctionEnd lines startLine = 0 := if_pos (by omega)

/-- The search finds an end that lies within two thousand lines, and says otherwise that there
is none. -/
structure FindsNearEnd (lines : List String) (startLine : ℤ) : Prop where
  near : ∀ l, EndsAt lines startLine l → l < startLine + 2000 →
    findFunctionEnd lines startLine = l
  unclosed : (∀ l, EndsAt lines startLine l → startLine + 2000 ≤ l) →
    findFunctionEnd lines startLine = 0
  bounds : findFunctionEnd lines startLine ≠ 0 →
    startLine ≤ findFunctionEnd lines startLine ∧
      findFunctionEnd lines startLine ≤ lines.length

end Search

/-- A block of 2002 lines, empty but for its braces. -/
def longBlock : List String := "\x7b" :: (List.replicate 2000 "" ++ ["\x7d"])

theorem marks_blank (li : ℤ) (n : ℕ) (rest : List String) :
    marks .gap li (List.replicate n "" ++ rest) = marks .gap (li + n) rest := by
  induction n generalizing li with
  | zero => simp
  | succ n ih =>
    rw [List.replicate_succ,List.cons_append,marks]
    refine (ih (li + 1)).trans ?_
    congr 1
    push_cast
    omega

theorem braces_blank (li : ℤ) (n : ℕ) : braces {} li (List.replicate n "") = [] := by
  induction n generalizing li with
  | zero => rfl
  | succ n ih => exact ih (li + 1)

end FunctionEndLexing
end EntryAnalyse
