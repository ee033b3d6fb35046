import EntryAnalyse.FuncDb
import EntryAnalyse.LineRanges
import EntryAnalyse.PyText

/-! The gaps of a source file: `_compute_gaps` merges the ranges of the extracted functions and
reports what lies between them, unless its first lines show nothing that could be code. -/
namespace EntryAnalyse
namespace GapCoverage

open PyJson PyText LineRanges

/-- A line that is neither blank nor begins like a comment or a directive. -/
def isCode (line : String) : Bool :=
  strip line != "" && !(startsWith (strip line) "//" || startsWith (strip line) "*" ||
    startsWith (strip line) "#")

/-- An item of the result. -/
structure Gap where
  id : String
  start : ℤ
  stop : ℤ
  lines : ℤ
  kind : String
  maybeFunction : Bool
  filterReason : String
  score : ℚ

/-- `f.end_line or f.start_line`. -/
def lastLine (f : FunctionExtract) : ℤ := if f.endLine = 0 then f.startLine else f.endLine

/-- The ranges of the functions, cut to the file and sorted by their first lines. -/
def covered (total : ℤ) (funcs : List FunctionExtract) : List LineRange :=
  ((funcs.filter (fun f => 0 < f.startLine)).map
    (fun f => (max 1 f.startLine,min total (lastLine f)))).insertionSort (fun a b => a.1 ≤ b.1)

/-- `has_code`, which looks at thirty lines of the gap. -/
def hasCode (lines : List String) (start stop : ℤ) : Bool :=
  (slice lines (start - 1) (min (start + 29) stop)).any isCode

/-- `looks` stands for `_looks_like_function_gap`, a scan of the lines of one gap. -/
abbrev LooksLike := List String → ℤ → ℤ → Bool × String × ℚ

variable (looks : LooksLike)

/-- The loop over the merged ranges, from behind line `prevEnd` on. -/
def gapsFrom (lines : List String) (minGap : ℤ) : ℤ → ℕ → List LineRange → List Gap
  | _,_,[] => []
  | prevEnd,gapId,seg :: segs =>
    let gapStart := prevEnd + 1
    let gapEnd := seg.1 - 1
    if gapStart ≤ gapEnd ∧ minGap ≤ gapEnd - gapStart + 1 ∧
        hasCode lines gapStart gapEnd = true then
      let (maybe,reason,score) := looks lines gapStart gapEnd
      { id := "gap-" ++ toString (gapId + 1), start := gapStart, stop := gapEnd,
        lines := gapEnd - gapStart + 1, kind := if maybe then "maybe_function" else reason,
        maybeFunction := maybe, filterReason := reason, score := score } ::
        gapsFrom lines minGap seg.2 (gapId + 1) segs
    else gapsFrom lines minGap seg.2 gapId segs

/-- The merged ranges; a file without lines is left before they are computed. -/
def merged (lines : List String) (funcs : List FunctionExtract) : List LineRange :=
  if lines = [] then [] else merge (covered lines.length funcs)

/-- `_compute_gaps`; `none` is a file that cannot be read. -/
def computeGaps (file : Option (List String)) (funcs : List FunctionExtract) (minGap : ℤ := 1) :
    List Gap :=
  match file with
  | none => []
  | some lines =>
    if lines = [] then []
    else gapsFrom looks lines minGap 0 0
      (merged lines funcs ++ [((lines.length : ℤ) + 1,(lines.length : ℤ) + 1)])

/-! ## What is reported -/

/-- The lines of a gap. -/
def Gap.range (g : Gap) : LineRange := (g.start,g.stop)

/-- A piece between two ranges that is reported. -/
def isReported (lines : List String) (minGap : ℤ) (b : LineRange) : Bool :=
  b.1 ≤ b.2 && minGap ≤ b.2 - b.1 + 1 && hasCode lines b.1 b.2

theorem gapsFrom_ranges (lines : List String) (minGap prevEnd : ℤ) (gapId : ℕ)
    (segs : List LineRange) : (gapsFrom looks lines minGap prevEnd gapId segs).map Gap.range =
      (between prevEnd segs).filter (isReported lines minGap) := by
  induction segs generalizing prevEnd gapId with
  | nil => rfl
  | cons seg segs ih =>
    simp only [gapsFrom,between]
    split
    · rename_i h
      rw [List.map_cons,ih,List.filter_cons_of_pos]
      · rfl
      · simpa [isReported,and_assoc] using h
    · rename_i h
      rw [ih,List.filter_cons_of_neg]
      simpa [isReported,and_assoc] using h

variable {looks} {lines : List String} {funcs : List FunctionExtract}

theorem covered_sorted (total : ℤ) (funcs : List FunctionExtract) :
    Sorted (covered total funcs) := by
  have htotal : Std.Total (fun a b : LineRange => a.1 ≤ b.1) := ⟨fun a b => le_total a.1 b.1⟩
  have htrans : IsTrans LineRange (fun a b => a.1 ≤ b.1) := ⟨fun _ _ _ => le_trans⟩
  exact List.pairwise_insertionSort _ _

/-- The lines that a function takes up. One without a first line takes up none, and one without
a last line its first. -/
def Spans (f : FunctionExtract) (i : ℤ) : Prop :=
  0 < f.startLine ∧ f.startLine ≤ i ∧ i ≤ lastLine f

theorem covers_covered {total i : ℤ} (hi : 1 ≤ i) (ht : i ≤ total) :
    Covers (covered total funcs) i ↔ ∃ f ∈ funcs, Spans f i := by
  constructor
  · rintro ⟨r,hr,hle,hle'⟩
    rw [covered,List.mem_insertionSort] at hr
    obtain ⟨f,hf,rfl⟩ := List.mem_map.mp hr
    obtain ⟨hf,hpos⟩ := List.mem_filter.mp hf
    exact ⟨f,hf,of_decide_eq_true hpos,by simp at hle; omega,by simp at hle'; omega⟩
  · rintro ⟨f,hf,hpos,hle,hle'⟩
    refine ⟨(max 1 f.startLine,min total (lastLine f)),?_,by simp; omega,by simp; omega⟩
    rw [covered,List.mem_insertionSort]
    exact List.mem_map_of_mem (List.mem_filter.mpr ⟨hf,decide_eq_true hpos⟩)

theorem covered_bounds {total : ℤ} :
    ∀ r ∈ covered total funcs, 1 ≤ r.1 ∧ r.2 ≤ total := by
  intro r hr
  rw [covered,List.mem_insertionSort] at hr
  obtain ⟨f,-,rfl⟩ := List.mem_map.mp hr
  exact ⟨le_max_left _ _,min_le_left _ _⟩

/-- The merged ranges of a file whose inverted ranges do no harm. -/
theorem within_merge {total : ℤ} (h : Ordered (merge (covered total funcs))) :
    Within 0 total (merge (covered total funcs)) where
  ordered := h
  first := first_merge (covered_sorted total funcs) fun r hr => (covered_bounds r hr).1
  last := last_merge fun r hr => (covered_bounds r hr).2

/-- The gaps of a file, as ranges. -/
def gapRanges (looks : LooksLike) (lines : List String) (funcs : List FunctionExtract) :
    List LineRange := (computeGaps looks (some lines) funcs).map Gap.range

theorem mem_gapRanges (hlines : lines ≠ []) (h : Ordered (merge (covered lines.length funcs)))
    {b : LineRange} : b ∈ gapRanges looks lines funcs ↔
      Block (covered lines.length funcs) 0 lines.length b ∧ hasCode lines b.1 b.2 = true := by
  have hblock : ∀ hb : b.1 ≤ b.2,
      (b ∈ between 0 (merge (covered lines.length funcs) ++
        [((lines.length : ℤ) + 1,(lines.length : ℤ) + 1)]) ↔
      Block (covered lines.length funcs) 0 lines.length b) := fun hb =>
    (mem_between_iff (within_merge h) hb).trans
      (Block.congr (covers_merge (covered_sorted _ _)))
  simp only [gapRanges,computeGaps,if_neg hlines,gapsFrom_ranges,merged,List.mem_filter,
    isReported,Bool.and_eq_true,decide_eq_true_eq]
  constructor
  · rintro ⟨hmem,⟨hle,-⟩,hcode⟩
    exact ⟨(hblock hle).mp hmem,hcode⟩
  · rintro ⟨hb,hcode⟩
    exact ⟨(hblock hb.nonempty).mpr hb,⟨hb.nonempty,by have := hb.nonempty; omega⟩,hcode⟩

/-! ## Coverage -/

/-- The merged ranges and the gaps are in order and apart, and every line with code that no
function takes up is in a gap. -/
structure Covering (looks : LooksLike) (lines : List String) (funcs : List FunctionExtract)
    (code : ℤ → Prop) : Prop where
  merged : Ordered (GapCoverage.merged lines funcs)
  gaps : Ordered (gapRanges looks lines funcs)
  apart : ∀ m ∈ GapCoverage.merged lines funcs, ∀ g ∈ gapRanges looks lines funcs,
    m.2 < g.1 ∨ g.2 < m.1
  reported : ∀ i : ℤ, 1 ≤ i → i ≤ lines.length → (∀ f ∈ funcs, ¬Spans f i) → code i →
    Covers (gapRanges looks lines funcs) i

/-- Every block of lines without a function that holds code shows some in its first lines. -/
def ShowsCode (lines : List String) (funcs : List FunctionExtract) (code : ℤ → Prop) : Prop :=
  ∀ b, Block (covered lines.length funcs) 0 lines.length b →
    ∀ i, b.1 ≤ i → i ≤ b.2 → code i → hasCode lines b.1 b.2 = true

theorem ordered_gaps (hlines : lines ≠ []) (h : Ordered (merge (covered lines.length funcs))) :
    Ordered (gapRanges looks lines funcs) := by
  refine ⟨fun b hb => ((mem_gapRanges hlines h).mp hb).1.nonempty,?_⟩
  have hwithin := within_merge h
  simp only [gapRanges,computeGaps,if_neg hlines,gapsFrom_ranges,merged]
  refine (between_pairwise ?_ ?_).filter _
  · rw [List.pairwise_append]
    refine ⟨h.2,List.pairwise_singleton _ _,fun m hm s hs => ?_⟩
    have hm := hwithin.last m hm
    rw [List.mem_singleton.mp hs]
    simp only
    omega
  · intro r hr
    rcases List.mem_append.mp hr with hr | hr
    · exact h.1 r hr
    · rw [List.mem_singleton.mp hr]

/-- The gaps cover a file iff no inverted range does harm and the first thirty lines of each
block without a function show whether it holds code. -/
theorem covering_iff (looks : LooksLike) (lines : List String) (funcs : List FunctionExtract)
    (code : ℤ → Prop) : Covering looks lines funcs code ↔
      lines = [] ∨ (Sound (covered lines.length funcs) ∧ ShowsCode lines funcs code) := by
  by_cases hlines : lines = []
  · subst hlines
    refine iff_of_true ?_ (.inl rfl)
    exact ⟨⟨fun r hr => absurd hr List.not_mem_nil,.nil⟩,
      ⟨fun r hr => absurd hr List.not_mem_nil,.nil⟩,fun m hm => absurd hm List.not_mem_nil,
      fun i hi hi' => by simp at hi'; omega⟩
  · have hsorted := covered_sorted lines.length funcs
    have hmerged : merged lines funcs = merge (covered lines.length funcs) := if_neg hlines
    rw [or_iff_right hlines,← ordered_merge_iff hsorted]
    constructor
    · intro h
      have hordered : Ordered (merge (covered lines.length funcs)) := hmerged ▸ h.merged
      refine ⟨hordered,fun b hb i hi hi' hcode => ?_⟩
      have hbounds := hb.first
      have hfree := hb.free i hi hi'
      rw [covers_covered (by omega) (hi'.trans hb.last)] at hfree
      obtain ⟨g,hg,hgi⟩ := h.reported i (by omega) (hi'.trans hb.last)
        (fun f hf hs => hfree ⟨f,hf,hs⟩) hcode
      obtain ⟨hblock,hshown⟩ := (mem_gapRanges hlines hordered).mp hg
      rw [hb.unique hblock ⟨hi,hi'⟩ hgi]
      exact hshown
    · rintro ⟨hordered,hshows⟩
      refine ⟨hmerged ▸ hordered,ordered_gaps hlines hordered,fun m hm g hg => ?_,
        fun i hi hi' hfree hcode => ?_⟩
      · rw [hmerged] at hm
        refine ((mem_gapRanges hlines hordered).mp hg).1.apart (hordered.1 m hm) fun i hi hi' => ?_
        exact (covers_merge hsorted i).mp ⟨m,hm,hi,hi'⟩
      · have hnot : ¬Covers (covered lines.length funcs) i := by
          rw [covers_covered hi hi']
          exact fun ⟨f,hf,hs⟩ => hfree f hf hs
        obtain ⟨b,hb,hbi⟩ := exists_between (p := 0) (by omega)
          ((covers_merge hsorted i).not.mpr hnot) hi'
        have hblock := (Block.congr (covers_merge hsorted)).mp
          ((mem_between_iff (within_merge hordered) (hbi.1.trans hbi.2)).mp hb)
        exact ⟨b,(mem_gapRanges hlines hordered).mpr
          ⟨hblock,hshows b hblock i hbi.1 hbi.2 hcode⟩,hbi⟩

/-- A function behind thirty-one blank lines, which nothing has extracted. -/
def blankHead : List String := List.replicate 31 "" ++ ["int f(void) { return 0; }"]

/-- Eight declarations, and a function whose last line lies before its first. -/
def declarations : List String := List.replicate 8 "int a;"

def invertedFunction : FunctionExtract where
  name := "g"
  signature := "int g(void)"
  startLine := 6
  endLine := 2
  body := ""

/-- A line with code is in no gap, and two gaps overlap. -/
theorem gaps_not_covering : ∃ looks : LooksLike,
    computeGaps looks (some blankHead) [] = [] ∧ blankHead[31]?.any isCode = true ∧
    ¬Covering looks blankHead [] (· = 32) ∧
    gapRanges looks declarations [invertedFunction] = [(1,5),(3,8)] ∧
    ¬Covering looks declarations [invertedFunction] (fun _ => True) := by
  have hnone : ∀ looks : LooksLike, computeGaps looks (some blankHead) [] = [] := by
    intro looks
    have hshown : hasCode blankHead 1 32 = false := by decide +kernel
    simp only [computeGaps,merged,covered,List.filter_nil,List.map_nil,List.insertionSort_nil,
      merge]
    rw [if_neg (by simp [blankHead]),ite_self,List.nil_append]
    simp only [gapsFrom]
    rw [if_neg]
    rintro ⟨-,-,h⟩
    exact absurd (hshown.symm.trans h) (by decide)
  refine ⟨fun _ _ _ => (false,"",0),hnone _,by decide +kernel,fun h => ?_,by decide +kernel,
    fun h => ?_⟩
  · obtain ⟨g,hg,-⟩ := h.reported 32 (by decide) (by decide) (fun _ hf => by cases hf) rfl
    rw [gapRanges,hnone] at hg
    cases hg
  · have hgaps : gapRanges (fun _ _ _ => (false,"",0)) declarations [invertedFunction] =
        [(1,5),(3,8)] := by decide +kernel
    have hordered := h.gaps.2
    rw [hgaps] at hordered
    exact absurd ((List.pairwise_cons.mp hordered).1 (3,8) (List.mem_singleton_self _)) (by decide)

end GapCoverage
end EntryAnalyse
