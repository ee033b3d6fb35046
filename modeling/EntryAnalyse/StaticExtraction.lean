import EntryAnalyse.FunctionPasses

/-! `extract_functions_static`: the passes put together, and where the functions of a file stand. -/
namespace EntryAnalyse
namespace Extractor

open PyJson PyText FunctionEnd

structure FunctionExtract where
  name : String
  signature : String
  startLine : ℕ
  endLine : ℤ
  body : String
deriving DecidableEq

/-- What the extraction is run with. -/
structure Tools where
  isWord : Char → Bool
  /-- tree-sitter, if it is installed. -/
  parser : Option Parser
  /-- The text of a file, if it can be read. -/
  read : String → Option String

section Extract
variable (tools : Tools) (filePath : String) (lines : List String)

/-- The main pass. -/
def firstPass : List Entry :=
  match tools.parser with
  | some p => extractFunctionsTreeSitter p filePath lines
  | none => extractFunctionsRegex tools.isWord lines

/-- The entry of `func_ranges`, if there is one. -/
def rangeOf (e : Entry) : Option (ℤ × ℤ) :=
  if e.line = 0 then none
  else if e.line ≤ e.endLine then some (e.line,e.endLine)
  else
    let fallback := findFunctionEnd lines e.line
    if (e.line : ℤ) < fallback then some (e.line,fallback) else none

def macroEntries : List Entry :=
  scanMacroFunctions tools.isWord lines ((firstPass tools filePath lines).filterMap (rangeOf lines))

/-- A macro function is added where no function begins yet. -/
def addEntry (entries : List Entry) (e : Entry) : List Entry :=
  if e.line ∈ entries.map Entry.line then entries else entries ++ [e]

def rawEntries : List Entry :=
  (macroEntries tools filePath lines).foldl addEntry (firstPass tools filePath lines)

/-- The end that the pass gives, or else the one that the braces give. -/
def entryEnd (e : Entry) : ℤ :=
  if e.endLine = 0 ∨ e.endLine < e.line then findFunctionEnd lines e.line else e.endLine

def entrySignature (e : Entry) : String :=
  e.regexSignature.getD (if e.signature = "" then e.name else e.signature)

/-- The function of an entry. Without an end its text is cut off behind 150 lines. -/
def toExtract (e : Entry) : Option FunctionExtract :=
  if e.line = 0 ∨ lines.length < e.line then none
  else
    let endLine := entryEnd lines e
    if 0 < endLine ∧ (e.line : ℤ) ≤ endLine then
      some ⟨e.name,entrySignature e,e.line,endLine,joinLines (slice lines (e.line - 1) endLine)⟩
    else if (slice lines (e.line - 1) (min (e.line + 9) lines.length)).any ('{' ∈ ·.toList) then
      some ⟨e.name,entrySignature e,e.line,endLine,
        joinLines (slice lines (e.line - 1) (e.line - 1 + 150))⟩
    else none

/-- The first function of each line. -/
def firstOfStarts : List ℕ → List FunctionExtract → List FunctionExtract
  | _,[] => []
  | seen,f :: fs =>
    if f.startLine ∈ seen then firstOfStarts seen fs
    else f :: firstOfStarts (f.startLine :: seen) fs

def extractLines : List FunctionExtract :=
  firstOfStarts [] (((rawEntries tools filePath lines).filterMap (toExtract lines)).insertionSort
    fun f g => f.startLine ≤ g.startLine)

end Extract

/-- `extract_functions_static`. -/
def extractFunctionsStatic (tools : Tools) (filePath : String) : List FunctionExtract :=
  match tools.read filePath with
  | none => []
  | some raw => extractLines tools filePath (splitlines raw)

/-- The lines of a file; none if it cannot be read. -/
def Tools.linesOf (tools : Tools) (filePath : String) : List String :=
  ((tools.read filePath).map splitlines).getD []

/-! ## Where functions stand -/

/-- The function stands between its lines, and its text is theirs. -/
structure FunctionExtract.Stands (lines : List String) (f : FunctionExtract) : Prop where
  start : 1 ≤ f.startLine
  ordered : (f.startLine : ℤ) ≤ f.endLine
  within : f.endLine ≤ lines.length
  body : f.body = joinLines (slice lines (f.startLine - 1) f.endLine)

/-- No end was found. One of the ten lines from the start on has a brace, and the text is cut off. -/
structure FunctionExtract.Open (lines : List String) (f : FunctionExtract) : Prop where
  start : 1 ≤ f.startLine ∧ f.startLine ≤ lines.length
  unknown : f.endLine = 0
  notFound : findFunctionEnd lines f.startLine = 0
  brace : ∃ line ∈ slice lines (f.startLine - 1) (min (f.startLine + 9) lines.length),
    '{' ∈ line.toList
  body : f.body = joinLines (slice lines (f.startLine - 1) (f.startLine - 1 + 150))

section Passes
variable {tools : Tools} {filePath : String} {lines : List String} {e : Entry} {f : FunctionExtract}
  {isWord : Char → Bool} {ranges : List (ℤ × ℤ)}

mutual

theorem exists_node_of_mem_walk (node : Node) (he : e ∈ walk lines node) :
    ∃ d ∈ nodes node, d.kind = "function_definition" ∧ e.line = d.startRow + 1 ∧
      e.endLine = d.endRow + 1 := by
  cases node with
  | mk kind text startRow endRow children =>
    unfold walk at he
    unfold nodes
    have hinner (h : e ∈ walkAll lines children) :
        ∃ d ∈ Node.mk kind text startRow endRow children :: nodesOfAll children,
          d.kind = "function_definition" ∧ e.line = d.startRow + 1 ∧ e.endLine = d.endRow + 1 := by
      obtain ⟨d,hd,h⟩ := exists_node_of_mem_walkAll children h
      exact ⟨d,List.mem_cons_of_mem _ hd,h⟩
    split at he
    · rename_i hkind
      dsimp only at he
      split at he
      · exact hinner he
      · cases List.mem_singleton.mp he
        exact ⟨_,List.mem_cons_self,hkind,rfl,rfl⟩
    · exact hinner he

theorem exists_node_of_mem_walkAll (all : List Node) (he : e ∈ walkAll lines all) :
    ∃ d ∈ nodesOfAll all, d.kind = "function_definition" ∧ e.line = d.startRow + 1 ∧
      e.endLine = d.endRow + 1 := by
  cases all with
  | nil => cases he
  | cons child children =>
    unfold walkAll at he
    unfold nodesOfAll
    rcases List.mem_append.mp he with he | he
    · obtain ⟨d,hd,h⟩ := exists_node_of_mem_walk child he
      exact ⟨d,List.mem_append_left _ hd,h⟩
    · obtain ⟨d,hd,h⟩ := exists_node_of_mem_walkAll children he
      exact ⟨d,List.mem_append_right _ hd,h⟩

end

theorem endLine_regexLine {s : ScopeScan} (numbered : String × ℕ)
    (h : ∀ e ∈ s.entries, e.endLine = 0) : ∀ e ∈ (regexLine isWord s numbered).entries, e.endLine = 0 := by
  unfold regexLine
  dsimp only
  split
  · split
    · exact h
    · intro e he
      rcases List.mem_append.mp he with he | he
      · exact h e he
      · rw [List.mem_singleton.mp he]
  · exact h

/-- The entries of the main pass end in the file, as far as they have an end. -/
theorem endLine_firstPass (he : e ∈ firstPass tools filePath lines) : e.endLine ≤ lines.length := by
  unfold firstPass at he
  split at he
  · rename_i p _
    obtain ⟨d,hd,hkind,-,hend⟩ := exists_node_of_mem_walk _ he
    have hwithin := p.within filePath lines d hd hkind
    omega
  · have hzero : ∀ e ∈ extractFunctionsRegex tools.isWord lines, e.endLine = 0 := by
      unfold extractFunctionsRegex
      refine List.foldlRecOn _ _ (motive := fun s => ∀ e ∈ ScopeScan.entries s, e.endLine = 0)
        (by simp) fun s hs numbered _ => endLine_regexLine numbered hs
    rw [hzero e he]
    exact Nat.zero_le _

/-- By induction on the lines: a call of a macro is not within a range. -/
theorem outside_of_macroCall {names seen : List String} {numbered : List (String × ℕ)}
    (he : e ∈ macroCalls names ranges seen numbered) :
    e.endLine = 0 ∧ ∀ r ∈ ranges, ¬(r.1 < (e.line : ℤ) ∧ (e.line : ℤ) ≤ r.2) := by
  induction numbered generalizing seen with
  | nil => cases he
  | cons n numbered ih =>
    unfold macroCalls at he
    split at he
    · dsimp only at he
      split at he
      · exact ih he
      · rename_i hout
        split at he
        · exact ih he
        · rcases List.mem_cons.mp he with rfl | he
          · refine ⟨rfl,fun r hr hin => hout ?_⟩
            exact List.any_eq_true.mpr ⟨r,hr,decide_eq_true hin⟩
          · exact ih he
    · exact ih he

theorem macro_cases (he : e ∈ scanMacroFunctions isWord lines ranges) : e.endLine = 0 ∧
    ((∃ m ∈ (findMacros isWord lines).fixedBody, m.2 = e.line) ∨
      ∀ r ∈ ranges, ¬(r.1 < (e.line : ℤ) ∧ (e.line : ℤ) ≤ r.2)) := by
  unfold scanMacroFunctions at he
  dsimp only at he
  rcases List.mem_append.mp he with he | he
  · split at he
    · cases he
    · obtain ⟨hend,hout⟩ := outside_of_macroCall he
      exact ⟨hend,Or.inr hout⟩
  · obtain ⟨m,hm,rfl⟩ := List.mem_map.mp he
    exact ⟨rfl,Or.inl ⟨m,hm,rfl⟩⟩

theorem mem_foldl_addEntry {entries added : List Entry} (he : e ∈ added.foldl addEntry entries) :
    e ∈ entries ∨ e ∈ added ∧ ∀ x ∈ entries, x.line ≠ e.line := by
  induction added generalizing entries with
  | nil => exact Or.inl he
  | cons a added ih =>
    have hstep : ∀ x ∈ entries, x ∈ addEntry entries a := by
      intro x hx
      unfold addEntry
      split
      · exact hx
      · exact List.mem_append_left _ hx
    rcases ih he with he | ⟨he,hfree⟩
    · unfold addEntry at he
      split at he
      · exact Or.inl he
      · rename_i hnew
        rcases List.mem_append.mp he with he | he
        · exact Or.inl he
        · obtain rfl := List.mem_singleton.mp he
          refine Or.inr ⟨List.mem_cons_self,fun x hx hline => hnew ?_⟩
          exact List.mem_map.mpr ⟨x,hx,hline⟩
    · exact Or.inr ⟨List.mem_cons_of_mem _ he,fun x hx => hfree x (hstep x hx)⟩

theorem mem_rawEntries (he : e ∈ rawEntries tools filePath lines) :
    e ∈ firstPass tools filePath lines ∨ e ∈ macroEntries tools filePath lines ∧
      ∀ x ∈ firstPass tools filePath lines, x.line ≠ e.line :=
  mem_foldl_addEntry he

theorem endLine_rawEntries (he : e ∈ rawEntries tools filePath lines) : e.endLine ≤ lines.length := by
  rcases mem_rawEntries he with he | ⟨he,-⟩
  · exact endLine_firstPass he
  · rw [(macro_cases he).1]
    exact Nat.zero_le _

theorem entryEnd_cases (he : e.endLine ≤ lines.length) :
    entryEnd lines e = 0 ∧ findFunctionEnd lines e.line = 0 ∨
      (e.line : ℤ) ≤ entryEnd lines e ∧ entryEnd lines e ≤ lines.length := by
  unfold entryEnd
  split
  · by_cases hzero : findFunctionEnd lines e.line = 0
    · exact Or.inl ⟨hzero,hzero⟩
    · exact Or.inr (findFunctionEnd_bounds hzero).2
  · omega

theorem startLine_toExtract (h : toExtract lines e = some f) : f.startLine = e.line := by
  unfold toExtract at h
  dsimp only at h
  split at h
  · cases h
  · split at h
    · cases h
      rfl
    · split at h
      · cases h
        rfl
      · cases h

/-- The function of an entry stands in its lines, or its end is not known. -/
theorem toExtract_cases (he : e.endLine ≤ lines.length) (h : toExtract lines e = some f) :
    f.Stands lines ∨ f.Open lines := by
  unfold toExtract at h
  dsimp only at h
  split at h
  · cases h
  · rename_i hline
    rcases entryEnd_cases he with ⟨hzero,hnone⟩ | hend
    · rw [if_neg (by omega)] at h
      split at h
      · rename_i hbrace
        cases h
        obtain ⟨line,hmem,hbrace⟩ := List.any_eq_true.mp hbrace
        exact Or.inr ⟨by dsimp only; omega,hzero,hnone,⟨line,hmem,of_decide_eq_true hbrace⟩,rfl⟩
      · cases h
    · rw [if_pos (by omega)] at h
      cases h
      exact Or.inl ⟨by dsimp only; omega,hend.1,hend.2,rfl⟩

theorem mem_firstOfStarts {fs : List FunctionExtract} {seen : List ℕ}
    (h : f ∈ firstOfStarts seen fs) : f ∈ fs ∧ f.startLine ∉ seen := by
  induction fs generalizing seen with
  | nil => cases h
  | cons g fs ih =>
    unfold firstOfStarts at h
    split at h
    · exact ⟨List.mem_cons_of_mem g (ih h).1,(ih h).2⟩
    · rename_i hnew
      rcases List.mem_cons.mp h with rfl | h
      · exact ⟨List.mem_cons_self,hnew⟩
      · exact ⟨List.mem_cons_of_mem g (ih h).1,fun hseen => (ih h).2 (List.mem_cons_of_mem _ hseen)⟩

theorem pairwise_firstOfStarts {fs : List FunctionExtract} {seen : List ℕ}
    (h : fs.Pairwise fun f g => f.startLine ≤ g.startLine) :
    (firstOfStarts seen fs).Pairwise fun f g => f.startLine < g.startLine := by
  induction fs generalizing seen with
  | nil => exact List.Pairwise.nil
  | cons f fs ih =>
    obtain ⟨hf,hfs⟩ := List.pairwise_cons.mp h
    unfold firstOfStarts
    split
    · exact ih hfs
    · refine List.pairwise_cons.mpr ⟨fun g hg => ?_,ih hfs⟩
      obtain ⟨hmem,hnew⟩ := mem_firstOfStarts hg
      exact lt_of_le_of_ne (hf g hmem) (List.ne_of_not_mem_cons hnew).symm

theorem exists_entry (h : f ∈ extractLines tools filePath lines) :
    ∃ e ∈ rawEntries tools filePath lines, toExtract lines e = some f := by
  have hmem := (mem_firstOfStarts h).1
  rw [List.mem_insertionSort] at hmem
  exact List.mem_filterMap.mp hmem

theorem extracted_cases (hf : f ∈ extractFunctionsStatic tools filePath) :
    f ∈ extractLines tools filePath (tools.linesOf filePath) := by
  unfold extractFunctionsStatic at hf
  unfold Tools.linesOf
  cases hread : tools.read filePath with
  | none =>
    rw [hread] at hf
    cases hf
  | some raw =>
    rw [hread] at hf
    exact hf

/-- Every function that is found stands in its lines or has no end that is known; they come in the
order of their first lines, which are all different; and a function that the macro pass adds, but for
a macro with a body of its own, does not begin within one of the main pass. -/
theorem extracted_in_order (tools : Tools) (filePath : String) :
    (∀ f ∈ extractFunctionsStatic tools filePath,
      f.Stands (tools.linesOf filePath) ∨ f.Open (tools.linesOf filePath)) ∧
    ((extractFunctionsStatic tools filePath).Pairwise fun f g => f.startLine < g.startLine) ∧
    ∀ f ∈ extractFunctionsStatic tools filePath,
      (∀ e ∈ firstPass tools filePath (tools.linesOf filePath), e.line ≠ f.startLine) →
      (∃ m ∈ (findMacros tools.isWord (tools.linesOf filePath)).fixedBody, m.2 = f.startLine) ∨
        ∀ e ∈ firstPass tools filePath (tools.linesOf filePath),
          ∀ r, rangeOf (tools.linesOf filePath) e = some r →
            ¬(r.1 < (f.startLine : ℤ) ∧ (f.startLine : ℤ) ≤ r.2) := by
  refine ⟨fun f hf => ?_,?_,fun f hf hnew => ?_⟩
  · obtain ⟨e,he,hfe⟩ := exists_entry (extracted_cases hf)
    exact toExtract_cases (endLine_rawEntries he) hfe
  · unfold extractFunctionsStatic
    split
    · exact List.Pairwise.nil
    · exact pairwise_firstOfStarts (List.pairwise_insertionSort
        (fun f g : FunctionExtract => f.startLine ≤ g.startLine) _)
  · obtain ⟨e,he,hfe⟩ := exists_entry (extracted_cases hf)
    rw [startLine_toExtract hfe] at hnew ⊢
    rcases mem_rawEntries he with he | ⟨he,-⟩
    · exact absurd rfl (hnew e he)
    · refine (macro_cases he).2.imp_right fun hout x hx r hr => hout r ?_
      exact List.mem_filterMap.mpr ⟨x,hx,hr⟩

end Passes

/-! ## Open functions -/

/-- The extraction as asked for: every function between its lines, no two at one place, in order, and
those of the macro pass apart from those of the main pass. -/
structure FoundApart (tools : Tools) (filePath : String) : Prop where
  stands : ∀ f ∈ extractFunctionsStatic tools filePath, f.Stands (tools.linesOf filePath)
  distinct : ∀ f ∈ extractFunctionsStatic tools filePath, ∀ g ∈ extractFunctionsStatic tools filePath,
    f.name = g.name → f.startLine = g.startLine → f = g
  ordered : (extractFunctionsStatic tools filePath).Pairwise fun f g => f.startLine < g.startLine
  apart : ∀ f ∈ extractFunctionsStatic tools filePath,
    (∀ e ∈ firstPass tools filePath (tools.linesOf filePath), e.line ≠ f.startLine) →
    ∀ e ∈ firstPass tools filePath (tools.linesOf filePath),
      ∀ r, rangeOf (tools.linesOf filePath) e = some r → f.endLine < r.1 ∨ r.2 < (f.startLine : ℤ)

/-- Without tree-sitter. In `a.c` a brace is missing; in `b.c` a function follows the call of a macro. -/
def plainTools : Tools where
  isWord c := c.isAlphanum || c == '_'
  parser := none
  read filePath :=
    if filePath = "a.c" then some "f()\x7b"
    else if filePath = "b.c" then some "#define D(x) x##f()\x7b\x7d\nD(a);\ng()\x7b\n\x7d"
    else none

theorem open_function_returned :
    extractFunctionsStatic plainTools "a.c" = [⟨"f","f()",1,0,"f()\x7b"⟩] ∧
      ¬FoundApart plainTools "a.c" ∧
      extractFunctionsStatic plainTools "b.c" =
        [⟨"D(a)","D(a)",2,4,"D(a);\ng()\x7b\n\x7d"⟩,⟨"g","g()",3,4,"g()\x7b\n\x7d"⟩] ∧
      ¬FoundApart plainTools "b.c" := by
  have ha : extractFunctionsStatic plainTools "a.c" = [⟨"f","f()",1,0,"f()\x7b"⟩] := by
    decide
  have hb : extractFunctionsStatic plainTools "b.c" =
      [⟨"D(a)","D(a)",2,4,"D(a);\ng()\x7b\n\x7d"⟩,⟨"g","g()",3,4,"g()\x7b\n\x7d"⟩] := by
    decide +kernel
  have hfirst : firstPass plainTools "b.c" (plainTools.linesOf "b.c") =
      [⟨"g","",3,0,"",some "g()"⟩] := by
    decide +kernel
  have hrange : rangeOf (plainTools.linesOf "b.c") ⟨"g","",3,0,"",some "g()"⟩ = some (3,4) := by
    decide
  refine ⟨ha,fun h => ?_,hb,fun h => ?_⟩
  · have hstands := h.stands ⟨"f","f()",1,0,"f()\x7b"⟩ (by rw [ha]; exact List.mem_cons_self)
    exact absurd hstands.ordered (by decide)
  · have hnew : ∀ e ∈ firstPass plainTools "b.c" (plainTools.linesOf "b.c"), e.line ≠ 2 := by
      rw [hfirst]
      simp
    have hapart := h.apart ⟨"D(a)","D(a)",2,4,"D(a);\ng()\x7b\n\x7d"⟩
      (by rw [hb]; exact List.mem_cons_self) hnew ⟨"g","",3,0,"",some "g()"⟩
      (by rw [hfirst]; exact List.mem_cons_self) (3,4) hrange
    revert hapart
    decide

end Extractor
end EntryAnalyse
