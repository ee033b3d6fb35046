import Mathlib.Combinatorics.Enumerative.DyckWord

/-! The braces of a text outside comments and literals, as steps of a Dyck path with the places
at which they stand, and the step that closes the first block. -/
namespace EntryAnalyse
namespace Braces

open DyckStep

/-! ## Words of steps -/

section Words

variable {α : Type}

/-- The place of the step that brings the depth back to zero. A closing step at depth zero is
passed over. -/
def closing : ℕ → List (α × DyckStep) → Option α
  | _,[] => none
  | d,(_,U) :: w => closing (d + 1) w
  | 0,(_,D) :: w => closing 0 w
  | 1,(a,D) :: _ => some a
  | d + 2,(_,D) :: w => closing (d + 1) w

/-- The depth behind a word that closes nothing. -/
def depthAfter : ℕ → List DyckStep → ℕ
  | d,[] => d
  | d,U :: w => depthAfter (d + 1) w
  | d,D :: w => depthAfter (d - 1) w

/-- The first opening step is closed at `a`: between the two stands a Dyck word. -/
def ClosedAt (w : List (α × DyckStep)) (a : α) : Prop :=
  ∃ pre b mid post, w = pre ++ (b,U) :: (mid ++ (a,D) :: post) ∧ (∀ p ∈ pre, p.2 = D) ∧
    ∃ q : DyckWord, q.toList = mid.map Prod.snd

/-- A word that goes down by `d` and never by more. -/
structure Descends (d : ℕ) (w : List DyckStep) : Prop where
  total : w.count D = w.count U + d
  bounded : ∀ n, (w.take n).count D ≤ (w.take n).count U + d

theorem descends_nil {d : ℕ} : Descends d [] ↔ d = 0 := by
  constructor
  · intro h
    have := h.total
    simpa using this.symm
  · rintro rfl
    exact ⟨rfl,fun n => by simp⟩

theorem descends_up {d : ℕ} {w : List DyckStep} : Descends d (U :: w) ↔ Descends (d + 1) w := by
  constructor
  · intro h
    refine ⟨?_,fun n => ?_⟩
    · have := h.total
      simp only [List.count_cons_self,List.count_cons_of_ne (show U ≠ D by decide)] at this
      omega
    · have := h.bounded (n + 1)
      simp only [List.take_succ_cons,List.count_cons_self,
        List.count_cons_of_ne (show U ≠ D by decide)] at this
      omega
  · intro h
    refine ⟨?_,fun n => ?_⟩
    · have := h.total
      simp only [List.count_cons_self,List.count_cons_of_ne (show U ≠ D by decide)]
      omega
    · cases n with
      | zero => simp
      | succ n =>
        have := h.bounded n
        simp only [List.take_succ_cons,List.count_cons_self,
          List.count_cons_of_ne (show U ≠ D by decide)]
        omega

theorem not_descends_down {w : List DyckStep} : ¬Descends 0 (D :: w) := by
  intro h
  have := h.bounded 1
  simp at this

theorem descends_down {d : ℕ} {w : List DyckStep} :
    Descends (d + 1) (D :: w) ↔ Descends d w := by
  constructor
  · intro h
    refine ⟨?_,fun n => ?_⟩
    · have := h.total
      simp only [List.count_cons_self,List.count_cons_of_ne (show D ≠ U by decide)] at this
      omega
    · have := h.bounded (n + 1)
      simp only [List.take_succ_cons,List.count_cons_self,
        List.count_cons_of_ne (show D ≠ U by decide)] at this
      omega
  · intro h
    refine ⟨?_,fun n => ?_⟩
    · have := h.total
      simp only [List.count_cons_self,List.count_cons_of_ne (show D ≠ U by decide)]
      omega
    · cases n with
      | zero => simp
      | succ n =>
        have := h.bounded n
        simp only [List.take_succ_cons,List.count_cons_self,
          List.count_cons_of_ne (show D ≠ U by decide)]
        omega

theorem descends_zero_iff {w : List DyckStep} : Descends 0 w ↔ ∃ q : DyckWord, q.toList = w := by
  constructor
  · intro h
    exact ⟨⟨w,h.total.symm,h.bounded⟩,rfl⟩
  · rintro ⟨q,rfl⟩
    exact ⟨q.count_U_eq_count_D.symm,q.count_D_le_count_U⟩

theorem closing_succ_iff {d : ℕ} {w : List (α × DyckStep)} {a : α} :
    closing (d + 1) w = some a ↔
      ∃ mid post, w = mid ++ (a,D) :: post ∧ Descends d (mid.map Prod.snd) := by
  induction w generalizing d with
  | nil =>
    refine iff_of_false (by simp [closing]) ?_
    rintro ⟨mid,post,h,-⟩
    simp at h
  | cons p w ih =>
    obtain ⟨b,x⟩ := p
    constructor
    · intro h
      cases x with
      | U =>
        obtain ⟨mid,post,rfl,hmid⟩ := ih.mp (by simpa [closing] using h)
        exact ⟨(b,U) :: mid,post,rfl,descends_up.mpr hmid⟩
      | D =>
        cases d with
        | zero =>
          obtain rfl : b = a := by simpa [closing] using h
          exact ⟨[],w,rfl,descends_nil.mpr rfl⟩
        | succ d =>
          obtain ⟨mid,post,rfl,hmid⟩ := ih.mp (by simpa [closing] using h)
          exact ⟨(b,D) :: mid,post,rfl,descends_down.mpr hmid⟩
    · rintro ⟨mid,post,hw,hmid⟩
      cases mid with
      | nil =>
        obtain rfl := descends_nil.mp hmid
        obtain ⟨hp,-⟩ := List.cons.inj hw
        obtain ⟨rfl,rfl⟩ := Prod.mk.inj hp
        rfl
      | cons p mid =>
        obtain ⟨rfl,rfl⟩ := List.cons.inj hw
        cases x with
        | U => exact ih.mpr ⟨mid,post,rfl,descends_up.mp hmid⟩
        | D =>
          cases d with
          | zero => exact absurd hmid not_descends_down
          | succ d => exact ih.mpr ⟨mid,post,rfl,descends_down.mp hmid⟩

/-- The walk finds the partner of the first opening step. -/
theorem closing_iff {w : List (α × DyckStep)} {a : α} : closing 0 w = some a ↔ ClosedAt w a := by
  induction w with
  | nil =>
    refine iff_of_false (by simp [closing]) ?_
    rintro ⟨pre,b,mid,post,h,-⟩
    simp at h
  | cons p w ih =>
    obtain ⟨b,x⟩ := p
    cases x with
    | U =>
      refine (closing_succ_iff (d := 0)).trans ?_
      constructor
      · rintro ⟨mid,post,rfl,hmid⟩
        exact ⟨[],b,mid,post,rfl,by simp,descends_zero_iff.mp hmid⟩
      · rintro ⟨pre,b',mid,post,hw,hpre,hmid⟩
        cases pre with
        | nil => exact ⟨mid,post,(List.cons.inj hw).2,descends_zero_iff.mpr hmid⟩
        | cons p pre =>
          have hp : p.2 = D := hpre p List.mem_cons_self
          obtain ⟨rfl,-⟩ := List.cons.inj hw
          cases hp
    | D =>
      refine ih.trans ?_
      constructor
      · rintro ⟨pre,b',mid,post,rfl,hpre,hmid⟩
        exact ⟨(b,D) :: pre,b',mid,post,rfl,List.forall_mem_cons.mpr ⟨rfl,hpre⟩,hmid⟩
      · rintro ⟨pre,b',mid,post,hw,hpre,hmid⟩
        cases pre with
        | nil => cases (List.cons.inj hw).1
        | cons p pre =>
          exact ⟨pre,b',mid,post,(List.cons.inj hw).2,(List.forall_mem_cons.mp hpre).2,hmid⟩

/-- The first block is closed at one place only. -/
theorem ClosedAt.unique {w : List (α × DyckStep)} {a b : α} (ha : ClosedAt w a)
    (hb : ClosedAt w b) : a = b :=
  Option.some.inj ((closing_iff.mpr ha).symm.trans (closing_iff.mpr hb))

theorem closing_mem {d : ℕ} {w : List (α × DyckStep)} {a : α} (h : closing d w = some a) :
    (a,D) ∈ w := by
  fun_induction closing d w with
  | case1 => cases h
  | case2 d b w ih => exact List.mem_cons_of_mem _ (ih h)
  | case3 b w ih => exact List.mem_cons_of_mem _ (ih h)
  | case4 b w =>
    cases h
    exact List.mem_cons_self
  | case5 d b w ih => exact List.mem_cons_of_mem _ (ih h)

theorem closing_append (d : ℕ) (v w : List (α × DyckStep)) :
    closing d (v ++ w) =
      (closing d v).or (closing (depthAfter d (v.map Prod.snd)) w) := by
  induction v generalizing d with
  | nil => rfl
  | cons p v ih =>
    obtain ⟨b,x⟩ := p
    cases x with
    | U => exact ih (d + 1)
    | D =>
      match d with
      | 0 => exact ih 0
      | 1 => rfl
      | d + 2 => exact ih (d + 1)

end Words

/-! ## The braces of a text -/

inductive Mode
  | code | lineComment | blockComment | string | char
  deriving DecidableEq

/-- What a character is read as. `skip` stands before the second character of `//`, `/*` or
`*/`. -/
structure Lex where
  mode : Mode := .code
  escape : Bool := false
  skip : Bool := false

namespace Lex

def next (s : Lex) (ch : Char) (ahead : Option Char) : Lex :=
  if s.skip then { s with skip := false }
  else if s.escape then { s with escape := false }
  else match s.mode with
    | .lineComment => s
    | .blockComment =>
      if ch == '*' && ahead == some '/' then { s with mode := .code, skip := true } else s
    | .string =>
      if ch == '\\' then { s with escape := true }
      else if ch == '"' then { s with mode := .code } else s
    | .char =>
      if ch == '\\' then { s with escape := true }
      else if ch == '\'' then { s with mode := .code } else s
    | .code =>
      if ch == '/' && ahead == some '/' then { s with mode := .lineComment, skip := true }
      else if ch == '/' && ahead == some '*' then { s with mode := .blockComment, skip := true }
      else if ch == '"' then { s with mode := .string }
      else if ch == '\'' then { s with mode := .char }
      else s

/-- A brace of the code. -/
def brace (s : Lex) (ch : Char) : Option DyckStep :=
  if s.skip || s.escape then none
  else match s.mode with
    | .code => if ch == '{' then some U else if ch == '}' then some D else none
    | _ => none

/-- A line comment ends with its line; a literal does not. -/
def newLine (s : Lex) : Lex :=
  if s.mode = .lineComment then { s with mode := .code } else s

end Lex

def lineBraces : Lex → List Char → List DyckStep
  | _,[] => []
  | s,ch :: cs => (s.brace ch).toList ++ lineBraces (s.next ch cs.head?) cs

def lineEnd : Lex → List Char → Lex
  | s,[] => s
  | s,ch :: cs => lineEnd (s.next ch cs.head?) cs

/-- The braces of the lines from number `li` on, each with its line. -/
def braces : Lex → ℤ → List String → List (ℤ × DyckStep)
  | _,_,[] => []
  | s,li,line :: lines =>
    (lineBraces s.newLine line.toList).map (fun x => (li,x)) ++
      braces (lineEnd s.newLine line.toList) (li + 1) lines

theorem le_of_mem_braces {s : Lex} {li : ℤ} {lines : List String} {p : ℤ × DyckStep}
    (h : p ∈ braces s li lines) : li ≤ p.1 := by
  induction lines generalizing s li with
  | nil => cases h
  | cons line lines ih =>
    rcases List.mem_append.mp h with h | h
    · obtain ⟨x,-,rfl⟩ := List.mem_map.mp h
      exact le_rfl
    · have := ih h
      omega

end Braces
end EntryAnalyse
