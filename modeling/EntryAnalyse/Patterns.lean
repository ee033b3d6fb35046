import EntryAnalyse.AgentResult

/-! Searches with regular expressions that need no backtracking: a sequence of pieces, each of
which takes all that it can, and does not take what the next piece begins with. -/
namespace EntryAnalyse
namespace Patterns

open PyJson Runner

inductive Piece
  | oneOf (p : Char → Bool)
  | spaces
  | boundary
  | maybe (w : List Char)

/-- The letters of a word in any case; those of `w` are in lower case. -/
def word (w : String) : List Piece := w.toList.map fun l => .oneOf fun c => foldCase c == l

/-- The characters of words, `\w`. -/
structure WordChars where
  isWord : Char → Bool
  letter : ∀ c : Char, c.isAlpha = true → isWord c = true
  newline : isWord '\n' = false

variable (k : WordChars)

/-- `\b` between two characters, where `none` stands for an end of the text. -/
def atBoundary (before ahead : Option Char) : Bool := before.any k.isWord != ahead.any k.isWord

/-- What is left behind a match at the start of a text; `before` stands before it. -/
def matchHere : List Piece → Option Char → List Char → Option (List Char)
  | [],_,cs => some cs
  | .oneOf _ :: _,_,[] => none
  | .oneOf p :: ps,_,c :: cs => if p c then matchHere ps (some c) cs else none
  | .spaces :: ps,before,cs =>
    matchHere ps ((cs.takeWhile pyIsSpace).getLast?.or before) (cs.dropWhile pyIsSpace)
  | .boundary :: ps,before,cs =>
    if atBoundary k before cs.head? then matchHere ps before cs else none
  | .maybe w :: ps,before,cs =>
    if w.isPrefixOf cs then matchHere ps (w.getLast?.or before) (cs.drop w.length)
    else matchHere ps before cs

/-- What is left behind the first match. -/
def search (ps : List Piece) : Option Char → List Char → Option (List Char)
  | before,[] => matchHere k ps before []
  | before,c :: cs =>
    match matchHere k ps before (c :: cs) with
    | some rest => some rest
    | none => search ps (some c) cs

/-- One of the alternatives is found. -/
def mentions (pss : List (List Piece)) (cs : List Char) : Bool :=
  pss.any fun ps => (search k ps none cs).isSome

/-- A match may begin with the character. -/
def starts : List Piece → Char → Bool
  | [],_ => true
  | .oneOf p :: _,c => p c
  | .spaces :: ps,c => pyIsSpace c || starts ps c
  | .boundary :: ps,c => starts ps c
  | .maybe w :: ps,c => w.head? == some c || starts ps c

/-- The pattern does not match the empty text. -/
def solid : List Piece → Bool
  | [] => false
  | .oneOf _ :: _ => true
  | _ :: ps => solid ps

section Search

variable {k} {ps : List Piece} {before : Option Char} {c : Char} {cs xs : List Char}

theorem matchHere_nil (h : solid ps = true) : matchHere k ps before [] = none := by
  induction ps with
  | nil => cases h
  | cons p ps ih =>
    cases p with
    | oneOf p => rfl
    | spaces => exact ih h
    | boundary =>
      rw [matchHere]
      split
      · exact ih h
      · rfl
    | maybe w =>
      rw [matchHere]
      split
      · rename_i hw
        obtain rfl : w = [] := by simpa using hw
        exact ih h
      · exact ih h

theorem matchHere_of_not_starts (hs : solid ps = true) (h : starts ps c = false) :
    matchHere k ps before (c :: cs) = none := by
  induction ps with
  | nil => cases hs
  | cons p ps ih =>
    cases p with
    | oneOf p =>
      rw [matchHere,if_neg]
      rwa [Bool.not_eq_true]
    | spaces =>
      rw [starts,Bool.or_eq_false_iff] at h
      rw [matchHere,List.takeWhile_cons_of_neg (by simp [h.1]),
        List.dropWhile_cons_of_neg (by simp [h.1])]
      exact ih hs h.2
    | boundary =>
      rw [matchHere]
      split
      · exact ih hs h
      · rfl
    | maybe w =>
      rw [starts,Bool.or_eq_false_iff] at h
      rw [matchHere]
      cases w with
      | nil => exact ih hs h.2
      | cons d w =>
        have hd : (d == c) = false := by simpa using h.1
        rw [if_neg (by simp [List.isPrefixOf,hd])]
        exact ih hs h.2

theorem search_of_match {rest : List Char} (h : matchHere k ps before cs = some rest) :
    search k ps before cs = some rest := by
  cases cs with
  | nil => exact h
  | cons c cs => rw [search,h]

theorem search_cons (h : matchHere k ps before (c :: cs) = none) :
    search k ps before (c :: cs) = search k ps (some c) cs := by
  rw [search,h]

/-- Characters with which no match begins are passed over. -/
theorem search_append (hs : solid ps = true) (h : ∀ x ∈ xs, starts ps x = false) :
    search k ps before (xs ++ cs) = search k ps (xs.getLast?.or before) cs := by
  induction xs generalizing before with
  | nil => rfl
  | cons x xs ih =>
    obtain ⟨hx,hxs⟩ := List.forall_mem_cons.mp h
    rw [List.cons_append,search_cons (matchHere_of_not_starts hs hx),ih hxs]
    cases xs with
    | nil => rfl
    | cons y xs => rw [List.getLast?_cons_cons,List.getLast?_cons,Option.some_or,Option.some_or]

theorem search_nil (hs : solid ps = true) : search k ps before [] = none := matchHere_nil hs

/-- Only whether a word ends here counts of what stands before. -/
theorem matchHere_congr {b b' : Option Char} (h : b.any k.isWord = b'.any k.isWord)
    (cs : List Char) : matchHere k ps b cs = matchHere k ps b' cs := by
  induction ps generalizing b b' cs with
  | nil => rfl
  | cons p ps ih =>
    cases p with
    | oneOf p => cases cs <;> rfl
    | spaces =>
      rw [matchHere,matchHere]
      refine ih ?_ _
      cases (cs.takeWhile pyIsSpace).getLast? with
      | none => exact h
      | some c => rfl
    | boundary =>
      rw [matchHere,matchHere,atBoundary,atBoundary,h]
      split
      · exact ih h cs
      · rfl
    | maybe w =>
      rw [matchHere,matchHere]
      split
      · refine ih ?_ _
        cases w.getLast? with
        | none => exact h
        | some c => rfl
      · exact ih h cs

theorem search_congr {b b' : Option Char} (h : b.any k.isWord = b'.any k.isWord)
    (cs : List Char) : search k ps b cs = search k ps b' cs := by
  cases cs with
  | nil => exact matchHere_congr h []
  | cons c cs => rw [search,search,matchHere_congr h]

/-- A search goes on behind a line break as at the start of a text. -/
theorem search_newline (hs : solid ps = true) (h : starts ps '\n' = false) :
    search k ps before ('\n' :: cs) = search k ps none cs := by
  rw [search_cons (matchHere_of_not_starts hs h)]
  exact search_congr (by rw [Option.any_some,k.newline,Option.any_none]) cs

/-- The letters of a word take a text that begins with it. -/
theorem matchHere_word_append (w : String) (h : ∀ c ∈ w.toList, foldCase c = c)
    (qs : List Piece) (before : Option Char) (cs : List Char) :
    matchHere k (word w ++ qs) before (w.toList ++ cs) =
      matchHere k qs (w.toList.getLast?.or before) cs := by
  rw [word]
  generalize w.toList = ls at h ⊢
  induction ls generalizing before with
  | nil => rfl
  | cons l ls ih =>
    obtain ⟨hl,hls⟩ := List.forall_mem_cons.mp h
    rw [List.map_cons,List.cons_append,List.cons_append,matchHere,if_pos (by simp [hl]),ih _ hls]
    cases ls with
    | nil => rfl
    | cons m ls => rw [List.getLast?_cons_cons,List.getLast?_cons,Option.some_or,Option.some_or]

end Search

end Patterns
end EntryAnalyse
