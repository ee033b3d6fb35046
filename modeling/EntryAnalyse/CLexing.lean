import Mathlib.Tactic

/-! The comments, string literals and character literals of a C text, without raw strings and
line splices. A quote that opens no literal, because a number uses it as a digit separator or
because no quote closes it on its line, is a character of the code. -/
namespace EntryAnalyse
namespace CLexing

def isIdentStart (c : Char) : Bool := c.isAlpha || c == '_' || decide (128 ≤ c.toNat)

def isIdentPart (c : Char) : Bool := isIdentStart c || c.isDigit

/-- What is left of a literal behind its opening quote, the closing quote included. -/
def literalLength (quote : Char) : List Char → Option ℕ
  | [] => none
  | c :: cs =>
    if c = '\n' then none
    else if c = quote then some 1
    else if c = '\\' then
      match cs with
      | [] => none
      | d :: ds => if d = '\n' then none else (literalLength quote ds).map (· + 2)
    else (literalLength quote cs).map (· + 1)

/-- Where a character stands. `opened` and `closing` are before the second character of `/*` and
of `*/`, `sign` is before the sign of an exponent, and `literal` counts what is left. -/
inductive Place
  | gap | word | number | sign | lineComment | opened | blockComment | closing
  | literal (left : ℕ)
deriving DecidableEq

namespace Place

/-- A place inside a comment or a literal. -/
def hidden : Place → Bool
  | gap | word | number | sign => false
  | _ => true

/-- A token begins. -/
def start (c : Char) (rest : List Char) : Place :=
  if c = '/' ∧ rest.head? = some '/' then lineComment
  else if c = '/' ∧ rest.head? = some '*' then opened
  else if c = '"' ∨ c = '\'' then ((literalLength c rest).map literal).getD gap
  else if c.isDigit || c == '.' && rest.head?.any Char.isDigit then number
  else if isIdentStart c then word
  else gap

def continuesNumber (c : Char) (rest : List Char) : Bool :=
  isIdentPart c || c == '.' || c == '\'' && rest.head?.any isIdentPart

def beforeSign (c : Char) (rest : List Char) : Bool :=
  ['e','E','p','P'].contains c && rest.head?.any fun d => d == '+' || d == '-'

def next (p : Place) (c : Char) (rest : List Char) : Place :=
  match p with
  | gap => start c rest
  | word => if isIdentPart c then word else start c rest
  | number =>
    if beforeSign c rest then sign
    else if continuesNumber c rest then number
    else start c rest
  | sign => number
  | lineComment => if c = '\n' then gap else lineComment
  | opened => blockComment
  | blockComment => if c = '*' ∧ rest.head? = some '/' then closing else blockComment
  | closing => gap
  | literal left => if left ≤ 1 then gap else literal (left - 1)

/-- The character belongs to a comment or a literal; the end of a line belongs to no line
comment. -/
def inside (p : Place) (c : Char) (rest : List Char) : Bool :=
  if p.hidden then p != lineComment || c != '\n' else (p.next c rest).hidden

end Place

/-- The characters of a text, each with whether it belongs to a comment or a literal. -/
def readFrom : Place → List Char → List (Char × Bool)
  | _,[] => []
  | p,c :: cs => (c,p.inside c cs) :: readFrom (p.next c cs) cs

def readText (text : List Char) : List (Char × Bool) := readFrom .gap text

def isQuote (c : Char) : Bool := c == '"' || c == '\''

/-- No quote is left over: each one belongs to a comment or a literal. -/
def QuotesInside (l : List (Char × Bool)) : Prop := ∀ p ∈ l, isQuote p.1 = true → p.2 = true

example : (readText ['1','\'','0']).map Prod.snd = [false,false,false] := by decide +kernel

example : (readText ['\'','0','\'']).map Prod.snd = [true,true,true] := by decide +kernel

section Literals
variable {q c d : Char} {cs : List Char} {n : ℕ}

theorem literalLength_pos (h : literalLength q cs = some n) : 1 ≤ n := by
  fun_induction literalLength q cs generalizing n with
  | case1 => cases h
  | case2 => cases h
  | case3 => cases h; exact le_rfl
  | case4 => cases h
  | case5 => cases h
  | case6 _ _ _ _ _ ih =>
    obtain ⟨m,-,rfl⟩ := Option.map_eq_some_iff.mp h
    omega
  | case7 _ _ _ _ _ ih =>
    obtain ⟨m,-,rfl⟩ := Option.map_eq_some_iff.mp h
    omega

end Literals

namespace Place
variable {p : Place} {c : Char} {cs : List Char}

/-- Before the sign of an exponent stands a sign. -/
def SignAhead (p : Place) (text : List Char) : Prop :=
  p = sign → ∀ c ∈ text.head?, c = '+' ∨ c = '-'

theorem next_slash (hcode : p.hidden = false) (hsign : p.SignAhead ('/' :: cs)) :
    p.next '/' cs = start '/' cs := by
  cases p with
  | gap => rfl
  | word => rfl
  | number =>
    simp [next,beforeSign,continuesNumber,isIdentPart,isIdentStart]
  | sign =>
    rcases hsign rfl '/' rfl with h | h
    · cases h
    · cases h
  | _ => cases hcode

/-- Where a quote of the code begins to hide the text, a literal begins. -/
theorem next_quote (hcode : p.hidden = false) (hq : isQuote c = true)
    (hin : (p.next c cs).hidden = true) :
    ∃ n, literalLength c cs = some n ∧ p.next c cs = literal n := by
  have hstart : p.next c cs = start c cs := by
    cases p with
    | gap => rfl
    | word =>
      by_cases h : isIdentPart c = true
      · simp [next,h,hidden] at hin
      · exact if_neg h
    | number =>
      by_cases h : beforeSign c cs = true
      · simp [next,h,hidden] at hin
      by_cases h' : continuesNumber c cs = true
      · simp [next,h,h',hidden] at hin
      · exact (if_neg h).trans (if_neg h')
    | sign => cases hin
    | _ => cases hcode
  have hquote : c = '"' ∨ c = '\'' := by simpa [isQuote] using hq
  have hslash : c ≠ '/' := by
    rcases hquote with rfl | rfl
    · decide
    · decide
  rw [hstart] at hin ⊢
  simp only [start,hslash,hquote,false_and,if_false,if_true] at hin ⊢
  cases hl : literalLength c cs with
  | none =>
    rw [hl] at hin
    cases hin
  | some n => exact ⟨n,rfl,rfl⟩

theorem start_plain (hline : ¬(c = '/' ∧ cs.head? = some '/'))
    (hblock : ¬(c = '/' ∧ cs.head? = some '*')) (hq : isQuote c = false) :
    (start c cs).hidden = false ∧ start c cs ≠ sign := by
  have hquote : ¬(c = '"' ∨ c = '\'') := by simpa [isQuote] using hq
  unfold start
  rw [if_neg hline,if_neg hblock,if_neg hquote]
  split_ifs <;> exact ⟨rfl,by decide⟩

/-- Any other character of the code is followed by code. -/
theorem next_plain (hcode : p.hidden = false) (hline : ¬(c = '/' ∧ cs.head? = some '/'))
    (hblock : ¬(c = '/' ∧ cs.head? = some '*')) (hq : isQuote c = false) :
    (p.next c cs).hidden = false ∧ (p.next c cs).SignAhead cs := by
  have hstart := start_plain hline hblock hq
  have hahead : (start c cs).SignAhead cs := fun h => absurd h hstart.2
  cases p with
  | gap => exact ⟨hstart.1,hahead⟩
  | word =>
    by_cases h : isIdentPart c = true
    · rw [show word.next c cs = word from if_pos h]
      exact ⟨rfl,fun h => by cases h⟩
    · rw [show word.next c cs = start c cs from if_neg h]
      exact ⟨hstart.1,hahead⟩
  | number =>
    by_cases h : beforeSign c cs = true
    · rw [show number.next c cs = sign from if_pos h]
      refine ⟨rfl,fun _ d hd => ?_⟩
      have hsign := (Bool.and_eq_true_iff.mp h).2
      rw [Option.mem_def.mp hd] at hsign
      simpa using hsign
    by_cases h' : continuesNumber c cs = true
    · rw [show number.next c cs = number from (if_neg h).trans (if_pos h')]
      exact ⟨rfl,fun h => by cases h⟩
    · rw [show number.next c cs = start c cs from (if_neg h).trans (if_neg h')]
      exact ⟨hstart.1,hahead⟩
  | sign => exact ⟨rfl,fun h => by cases h⟩
  | _ => cases hcode

end Place

end CLexing
end EntryAnalyse
