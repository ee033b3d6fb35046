import EntryAnalyse.Braces
import EntryAnalyse.PyText

/-! The end of a function: `_find_function_end` counts braces from a line on, outside comments,
texts and characters. -/
namespace EntryAnalyse
namespace FunctionEnd

open PyText

/-- The variables of the loop. `skip` stands before the second character of `//`, `/*` or `*/`,
which the loop steps over. -/
structure Scan where
  depth : ℕ := 0
  foundOpen : Bool := false
  inLineComment : Bool := false
  inBlockComment : Bool := false
  inString : Bool := false
  inChar : Bool := false
  escapeNext : Bool := false
  skip : Bool := false

/-- One character, with the one behind it on the line; `none` at the brace that ends the
function. -/
def scanChar (s : Scan) (ch : Char) (next : Option Char) : Option Scan :=
  if s.skip then some { s with skip := false }
  else if s.escapeNext then some { s with escapeNext := false }
  else if ch == '\\' && (s.inString || s.inChar) then some { s with escapeNext := true }
  else if s.inLineComment then some s
  else if s.inBlockComment then
    if ch == '*' && next == some '/' then some { s with inBlockComment := false, skip := true }
    else some s
  else if s.inString then some { s with inString := ch != '"' }
  else if s.inChar then some { s with inChar := ch != '\'' }
  else if ch == '/' && next == some '/' then some { s with inLineComment := true, skip := true }
  else if ch == '/' && next == some '*' then some { s with inBlockComment := true, skip := true }
  else if ch == '"' then some { s with inString := true }
  else if ch == '\'' then some { s with inChar := true }
  else if ch == '{' then some { s with depth := s.depth + 1, foundOpen := true }
  else if ch == '}' && s.foundOpen then
    if s.depth = 1 then none else some { s with depth := s.depth - 1 }
  else some s

def scanLine : Scan → List Char → Option Scan
  | s,[] => some s
  | s,ch :: cs =>
    match scanChar s ch cs.head? with
    | some s' => scanLine s' cs
    | none => none

/-- The lines from number `li` on. A line comment ends with its line; a text does not. -/
def scanLines : Scan → ℤ → List String → ℤ
  | _,_,[] => 0
  | s,li,line :: lines =>
    match scanLine { s with inLineComment := false } line.toList with
    | some s' => scanLines s' (li + 1) lines
    | none => li

/-- `_find_function_end`, which looks at two thousand lines; `0` where it finds no end. -/
def findFunctionEnd (lines : List String) (startLine : ℤ) : ℤ :=
  if startLine - 1 < 0 ∨ (lines.length : ℤ) ≤ startLine - 1 then 0
  else scanLines {} startLine ((lines.drop (startLine - 1).toNat).take 2000)

example : findFunctionEnd ["int f(void)","\x7b g(\"\x7d\"); // \x7d","\x7d"] 1 = 3 := by decide +kernel

theorem scanLines_bounds (s : Scan) (li : ℤ) (lines : List String) :
    scanLines s li lines = 0 ∨
      (li ≤ scanLines s li lines ∧ scanLines s li lines < li + lines.length) := by
  induction lines generalizing s li with
  | nil => exact .inl rfl
  | cons line lines ih =>
    rw [scanLines]
    split
    · rename_i s' _
      refine (ih s' (li + 1)).imp_right fun h => ?_
      rw [List.length_cons]
      omega
    · rw [List.length_cons]
      omega

/-- An end that is found lies in the file, at the first line or behind it. -/
theorem findFunctionEnd_bounds {lines : List String} {startLine : ℤ}
    (h : findFunctionEnd lines startLine ≠ 0) :
    1 ≤ startLine ∧ startLine ≤ findFunctionEnd lines startLine ∧
      findFunctionEnd lines startLine ≤ lines.length := by
  rw [findFunctionEnd] at h ⊢
  split
  · rename_i hout
    rw [if_pos hout] at h
    exact absurd rfl h
  · rename_i hin
    rw [if_neg hin] at h
    obtain ⟨hle,hlt⟩ := (scanLines_bounds _ _ _).resolve_left h
    rw [List.length_take,List.length_drop] at hlt
    omega

/-! ## The scan as a walk over the braces -/

open Braces DyckStep

/-- The variables of the loop at a depth, with what the characters are read as. -/
def toScan (s : Lex) (depth : ℕ) : Scan where
  depth := depth
  foundOpen := decide (0 < depth)
  inLineComment := s.mode = .lineComment
  inBlockComment := s.mode = .blockComment
  inString := s.mode = .string
  inChar := s.mode = .char
  escapeNext := s.escape
  skip := s.skip

theorem scanChar_open (d : ℕ) (ahead : Option Char) :
    scanChar (toScan {} d) '{' ahead = some (toScan {} (d + 1)) := by
  simp [scanChar,toScan]

/-- A closing brace ends the scan at depth one, and is passed over at depth zero. -/
theorem scanChar_close (d : ℕ) (ahead : Option Char) :
    scanChar (toScan {} d) '}' ahead = if d = 1 then none else some (toScan {} (d - 1)) := by
  match d with
  | 0 => simp [scanChar,toScan]
  | 1 => simp [scanChar,toScan]
  | d + 2 => simp [scanChar,toScan]

/-- Any other character leaves the depth. -/
theorem scanChar_none {s : Lex} {ch : Char} (h : s.brace ch = none) (d : ℕ)
    (ahead : Option Char) :
    scanChar (toScan s d) ch ahead = some (toScan (s.next ch ahead) d) := by
  obtain ⟨mode,escape,skip⟩ := s
  cases skip with
  | true => simp [scanChar,toScan,Lex.next]
  | false =>
    cases escape with
    | true => simp [scanChar,toScan,Lex.next]
    | false =>
      cases mode with
      | lineComment => simp [scanChar,toScan,Lex.next]
      | blockComment =>
        by_cases hstar : ch = '*' <;> by_cases hahead : ahead = some '/' <;>
          simp [scanChar,toScan,Lex.next,hstar,hahead]
      | string =>
        by_cases hslash : ch = '\\'
        · simp [scanChar,toScan,Lex.next,hslash]
        · by_cases hquote : ch = '"' <;> simp [scanChar,toScan,Lex.next,hslash,hquote]
      | char =>
        by_cases hslash : ch = '\\'
        · simp [scanChar,toScan,Lex.next,hslash]
        · by_cases hquote : ch = '\'' <;> simp [scanChar,toScan,Lex.next,hslash,hquote]
      | code =>
        have hopen : ch ≠ '{' := by
          rintro rfl
          cases h
        have hclose : ch ≠ '}' := by
          rintro rfl
          cases h
        by_cases hslash : ch = '/'
        · by_cases hline : ahead = some '/' <;> by_cases hblock : ahead = some '*' <;>
            simp [scanChar,toScan,Lex.next,hslash,hline,hblock]
        by_cases hquote : ch = '"'
        · simp [scanChar,toScan,Lex.next,hquote]
        by_cases htick : ch = '\''
        · simp [scanChar,toScan,Lex.next,htick]
        · simp [scanChar,toScan,Lex.next,hslash,hquote,htick,hopen,hclose]

theorem eq_code_of_brace {s : Lex} {ch : Char} {x : DyckStep} (h : s.brace ch = some x) :
    s = {} ∧ (x = U ∧ ch = '{' ∨ x = D ∧ ch = '}') := by
  obtain ⟨mode,escape,skip⟩ := s
  cases skip with
  | true => cases h
  | false =>
    cases escape with
    | true => cases h
    | false =>
      cases mode with
      | code =>
        refine ⟨rfl,?_⟩
        by_cases hopen : ch = '{'
        · exact .inl ⟨by simpa [Lex.brace,hopen] using h.symm,hopen⟩
        by_cases hclose : ch = '}'
        · exact .inr ⟨by simpa [Lex.brace,hclose] using h.symm,hclose⟩
        · simp [Lex.brace,hopen,hclose] at h
      | _ => cases h

theorem scanLine_toScan (s : Lex) (d : ℕ) (cs : List Char) (li : ℤ) :
    scanLine (toScan s d) cs =
      if (closing d ((lineBraces s cs).map fun x => (li,x))).isSome then none
      else some (toScan (lineEnd s cs) (depthAfter d (lineBraces s cs))) := by
  induction cs generalizing s d with
  | nil => rfl
  | cons ch cs ih =>
    rw [scanLine,lineBraces,lineEnd]
    cases hb : s.brace ch with
    | none =>
      rw [scanChar_none hb]
      exact ih _ d
    | some x =>
      obtain ⟨rfl,⟨rfl,rfl⟩ | ⟨rfl,rfl⟩⟩ := eq_code_of_brace hb
      · rw [scanChar_open]
        exact ih {} (d + 1)
      · rw [scanChar_close]
        match d with
        | 0 => exact ih {} 0
        | 1 => rfl
        | d + 2 => exact ih {} (d + 1)

/-- The loop ends at the line of the brace that closes the first block. -/
theorem scanLines_toScan (s : Lex) (d : ℕ) (li : ℤ) (lines : List String) :
    scanLines (toScan s d) li lines = (closing d (braces s li lines)).getD 0 := by
  induction lines generalizing s d li with
  | nil => rfl
  | cons line lines ih =>
    have hnew : { toScan s d with inLineComment := false } = toScan s.newLine d := by
      obtain ⟨mode,escape,skip⟩ := s
      cases mode <;> rfl
    rw [scanLines,hnew,scanLine_toScan s.newLine d line.toList li,braces,closing_append]
    cases hc : closing d ((lineBraces s.newLine line.toList).map fun x => (li,x)) with
    | some l =>
      obtain ⟨x,-,hx⟩ := List.mem_map.mp (closing_mem hc)
      cases hx
      rfl
    | none =>
      rw [Option.isSome_none,if_neg Bool.false_ne_true,Option.none_or,List.map_map]
      refine (ih _ _ (li + 1)).trans ?_
      rw [show (Prod.snd ∘ fun x : DyckStep => (li,x)) = id from rfl,List.map_id]

/-- The scan of some lines finds the line at which the first block is closed, or none. -/
theorem scanLines_eq_iff {li stop : ℤ} {lines : List String} (hstop : stop ≠ 0) :
    scanLines {} li lines = stop ↔ ClosedAt (braces {} li lines) stop := by
  rw [show ({} : Scan) = toScan {} 0 from rfl,scanLines_toScan,← closing_iff]
  cases hc : closing 0 (braces {} li lines) with
  | none => exact iff_of_false (fun h => hstop h.symm) (fun h => by cases h)
  | some l => exact ⟨congrArg some,Option.some.inj⟩

theorem scanLines_eq_zero_iff {li : ℤ} {lines : List String} (hli : 1 ≤ li) :
    scanLines {} li lines = 0 ↔ ∀ l, ¬ClosedAt (braces {} li lines) l := by
  constructor
  · intro h l hl
    have hle : li ≤ l := le_of_mem_braces (closing_mem (closing_iff.mpr hl))
    have := (scanLines_eq_iff (by omega : l ≠ 0)).mpr hl
    omega
  · intro h
    by_contra hne
    exact h _ ((scanLines_eq_iff hne).mp rfl)

end FunctionEnd
end EntryAnalyse
