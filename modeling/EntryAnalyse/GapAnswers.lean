import EntryAnalyse.AgentResult
import EntryAnalyse.Corrections
import EntryAnalyse.GapCoverage
import EntryAnalyse.PublishedLists

/-! The answers of the R1-W agents. For each gap an agent is asked once, and a second time when
nothing in its answer was valid; the answer is a text with a block of JSON, whose items are moved
to the lines of the file, checked against the gap and stored. An exception on the way ends R1 of
the whole file. -/
namespace EntryAnalyse
namespace GapAnswers

open PyJson PyText Runner

/-- The exceptions that leave the functions below. -/
inductive Raised
  | recursionError | typeError | valueError | overflowError | unicodeEncodeError
  deriving DecidableEq

/-- What `json.loads` makes of a text: a value, an exception that the caller expects, or the
`RecursionError` of a text that is nested too deeply. -/
inductive Loaded
  | value (v : PyJson)
  | rejected
  | tooDeep

/-- What the interpreter decides: its text formats, `json.loads`, `int(s)` (`none` for the
exception), and whether a text can be encoded: one that JSON escapes have put together may hold
half of a surrogate pair. -/
structure Interpreter where
  py : PyRuntime
  loads : String → Loaded
  intOfStr : String → Option ℤ
  encodes : String → Bool

/-! ## `_parse_r1_corrections` -/

/-- The text before and behind the first occurrence of `pat`. -/
def splitFirst (pat : List Char) : List Char → Option (List Char × List Char)
  | [] => if pat.isEmpty then some ([],[]) else none
  | c :: cs =>
    if pat.isPrefixOf (c :: cs) then some ([],(c :: cs).drop pat.length)
    else (splitFirst pat cs).map (fun p => (c :: p.1,p.2))

/-- The group of `<result>(.*?)</result>`, stripped. -/
def resultBlock (output : String) : Option String := do
  let (_,rest) ← splitFirst "<result>".toList output.toList
  let (block,_) ← splitFirst "</result>".toList rest
  pure (strip (String.ofList block))

/-- A search for a word of letters in any case. -/
def searchWord (word text : String) : Bool :=
  containsText (String.ofList (text.toList.map foldCase)) word

def saysNoCorrections (text : String) : Bool :=
  searchWord "no_corrections" text || searchWord "无需修正" text

def saysSourceIncomplete (text : String) : Bool := searchWord "source_incomplete" text

/-- The words that decide an answer before its JSON is read. -/
def hasSentinel (text : String) : Bool := saysNoCorrections text || saysSourceIncomplete text

/-- The opening fence, with the name of the language. -/
def dropOpening (text : String) : String :=
  if startsWith text "```" then
    let rest := text.toList.drop 3
    strip (String.ofList (if "json".toList.isPrefixOf rest then rest.drop 4 else rest))
  else strip text

def dropClosing (text : String) : String :=
  if "```".toList.isSuffixOf text.toList then
    strip (String.ofList (text.toList.take (text.toList.length - 3)))
  else strip text

def unfence (text : String) : String := dropClosing (dropOpening text)

example : unfence "```json\n[1]\n```" = "[1]" := by decide

inductive Answer
  | noCorrections
  | sourceIncomplete
  | items (xs : List PyJson)

variable (i : Interpreter)

def parseR1Corrections (output : String) : Except Raised Answer :=
  match resultBlock output with
  | none => .ok (.items [])
  | some text =>
    if saysNoCorrections text then .ok .noCorrections
    else if saysSourceIncomplete text then .ok .sourceIncomplete
    else match i.loads (unfence text) with
      | .tooDeep => .error .recursionError
      | .value (.list xs) => .ok (.items xs)
      | .value (.dict d) => .ok (.items [.dict d])
      | _ => .ok (.items [])

/-! ## `_parse_and_validate` -/

/-- `int(v or 0)`. -/
def intOf (v : PyJson) : Except Raised ℤ :=
  match v.or (.int 0) with
  | .int n => .ok n
  | .bool b => .ok (if b then 1 else 0)
  | .float (.finite q) => .ok (if 0 ≤ q then ⌊q⌋ else ⌈q⌉)
  | .float .nan => .error .valueError
  | .float _ => .error .overflowError
  | .str s => match i.intOfStr s with
    | some n => .ok n
    | none => .error .valueError
  | _ => .error .typeError

def nameOf (d : List (String × PyJson)) : String := i.py.text (field d "name")

/-- `str(item.get("signature") or name).strip()`. -/
def signatureOf (d : List (String × PyJson)) : String :=
  strip (i.py.str ((field d "signature").or (.str (nameOf i d))))

/-- An item that is accepted, as it goes into the list of corrections. -/
def newItem (name signature : String) (startLine endLine : ℤ) : Corrections.Item where
  funcHash := "new"
  name := name
  signature := some signature
  startLine := startLine
  endLine := endLine

/-- One item of the answer: the correction, if it is accepted, and the errors. -/
def validateItem (gapStart gapEnd : ℤ) (index : ℕ) (item : PyJson) :
    Except Raised (Option Corrections.Item × List String) :=
  match item with
  | .dict d => do
    let relStart ← intOf i (field d "start_line")
    let relEnd ← intOf i (field d "end_line")
    let name := nameOf i d
    let label := "item[" ++ toString index ++ "]"
    if name = "" then pure (none,[label ++ ": name empty, skipped"])
    else if relStart ≤ 0 ∨ relEnd ≤ 0 then
      pure (none,[label ++ " " ++ name ++ ": start_line or end_line missing"])
    else if relEnd < relStart then
      pure (none,[label ++ " " ++ name ++ ": start_line(" ++ toString relStart ++ ") > end_line(" ++
        toString relEnd ++ ")"])
    else
      let absStart := gapStart + relStart - 1
      let absEnd := gapStart + relEnd - 1
      let place := "outside gap [" ++ toString gapStart ++ ", " ++ toString gapEnd ++ "] (your rel "
      if absStart < gapStart ∨ gapEnd < absStart then
        pure (none,[label ++ " " ++ name ++ ": absolute start_line=" ++ toString absStart ++ " " ++
          place ++ toString relStart ++ " → abs " ++ toString absStart ++ ")"])
      else if (absEnd < gapStart ∨ gapEnd < absEnd) ∧ absEnd ≠ gapEnd then
        pure (none,[label ++ " " ++ name ++ ": absolute end_line=" ++ toString absEnd ++ " " ++
          place ++ toString relEnd ++ " → abs " ++ toString absEnd ++ ")"])
      else
        pure (some (newItem name (signatureOf i d) absStart absEnd),[])
  | _ => .ok (none,[])

/-- `_parse_and_validate`: the accepted corrections and the reason of an error. -/
def parseAndValidate (gapStart gapEnd : ℤ) (output : String) :
    Except Raised (List Corrections.Item × String) := do
  match ← parseR1Corrections i output with
  | .noCorrections => pure ([],"")
  | .sourceIncomplete => pure ([],"parse_failed")
  | .items xs =>
    let results ← xs.zipIdx.mapM (fun p => validateItem i gapStart gapEnd p.2 p.1)
    pure (results.filterMap Prod.fst,"; ".intercalate (results.flatMap Prod.snd))

/-! ## `_run_one_gap` and R1 of the file -/

variable (src : R1Registration.Sources) (lines : List String) (picked path : String)

/-- `apply_corrections` on accepted items: the hash encodes the name, the insertion the rest. -/
def applyAccepted (db : FuncDb) (cs : List Corrections.Item) : Except Raised FuncDb :=
  cs.foldlM (fun db c =>
    if i.encodes c.name && i.encodes (c.signature.getD c.name) then
      .ok (Corrections.applyItem src lines picked path db c)
    else .error .unicodeEncodeError) db

/-- What an agent answers for a gap: its first output, how it ended, and the output of the second
call. -/
structure GapRun where
  gapStart : ℤ
  gapEnd : ℤ
  output : String
  exitCode : ℤ
  retried : String

def runOneGap (db : FuncDb) (g : GapRun) : Except Raised FuncDb := do
  let (parsed,validationError) ← parseAndValidate i g.gapStart g.gapEnd g.output
  let parsed ←
    if validationError ≠ "" ∧ parsed.isEmpty = true ∧ g.exitCode = 0 then do
      let (parsed₂,_) ← parseAndValidate i g.gapStart g.gapEnd g.retried
      pure (if parsed₂.isEmpty then parsed else parsed₂)
    else pure parsed
  applyAccepted i src lines picked path db parsed

/-- What `_run_r1` sets for the file after the gaps: `gather` hands on the first exception. -/
def r1State (db : FuncDb) (gaps : List GapRun) : NodeState :=
  match gaps.foldlM (runOneGap i src lines picked path) db with
  | .ok _ => .passed
  | .error _ => .failed

/-! ## Items -/

/-- What the checks of an item ask for once its numbers are `s` and `e`. -/
structure Fits (gapStart gapEnd : ℤ) (d : List (String × PyJson)) (s e : ℤ) : Prop where
  named : nameOf i d ≠ ""
  first : 1 ≤ s
  le : s ≤ e
  inside : gapStart + e - 1 ≤ gapEnd

/-- An item that is accepted: its dictionary and its numbers, counted from the gap's first line. -/
def Placed (gapStart gapEnd : ℤ) (item : PyJson) (c : Corrections.Item) : Prop :=
  ∃ d s e, item = .dict d ∧ intOf i (field d "start_line") = .ok s ∧
    intOf i (field d "end_line") = .ok e ∧ Fits i gapStart gapEnd d s e ∧
    c = newItem (nameOf i d) (signatureOf i d) (gapStart + s - 1) (gapStart + e - 1)

section Items

variable {i} {gapStart gapEnd : ℤ} {d : List (String × PyJson)} {s e : ℤ}

theorem validateItem_of_fits (index : ℕ) (hs : intOf i (field d "start_line") = .ok s)
    (he : intOf i (field d "end_line") = .ok e) (h : Fits i gapStart gapEnd d s e) :
    validateItem i gapStart gapEnd index (.dict d) =
      .ok (some (newItem (nameOf i d) (signatureOf i d) (gapStart + s - 1) (gapStart + e - 1)),
        []) := by
  obtain ⟨hname,hfirst,hle,hin⟩ := h
  simp only [validateItem,hs,he,bind,Except.bind]
  rw [if_neg hname,if_neg (by omega),if_neg (by omega),if_neg (by omega),if_neg (by omega)]
  rfl

theorem validateItem_of_not_fits (index : ℕ) (hs : intOf i (field d "start_line") = .ok s)
    (he : intOf i (field d "end_line") = .ok e) (h : ¬ Fits i gapStart gapEnd d s e) :
    ∃ log, validateItem i gapStart gapEnd index (.dict d) = .ok (none,log) := by
  simp only [validateItem,hs,he,bind,Except.bind]
  by_cases hname : nameOf i d = ""
  · rw [if_pos hname]
    exact ⟨_,rfl⟩
  by_cases hfirst : s ≤ 0 ∨ e ≤ 0
  · rw [if_neg hname,if_pos hfirst]
    exact ⟨_,rfl⟩
  by_cases hle : e < s
  · rw [if_neg hname,if_neg hfirst,if_pos hle]
    exact ⟨_,rfl⟩
  rw [if_neg hname,if_neg hfirst,if_neg hle]
  by_cases hstart : gapStart + s - 1 < gapStart ∨ gapEnd < gapStart + s - 1
  · rw [if_pos hstart]
    exact ⟨_,rfl⟩
  by_cases hstop : (gapStart + e - 1 < gapStart ∨ gapEnd < gapStart + e - 1) ∧
      gapStart + e - 1 ≠ gapEnd
  · rw [if_neg hstart,if_pos hstop]
    exact ⟨_,rfl⟩
  · exact absurd ⟨hname,by omega,by omega,by omega⟩ h

/-- The numbers of an item that is looked at convert. -/
theorem converts_of_validateItem {index : ℕ} {r : Option Corrections.Item × List String}
    (h : validateItem i gapStart gapEnd index (.dict d) = .ok r) :
    ∃ s e, intOf i (field d "start_line") = .ok s ∧ intOf i (field d "end_line") = .ok e := by
  cases hs : intOf i (field d "start_line") with
  | error x =>
    simp only [validateItem,hs] at h
    cases h
  | ok s =>
    cases he : intOf i (field d "end_line") with
    | error x =>
      simp only [validateItem,hs,he] at h
      cases h
    | ok e => exact ⟨s,e,rfl,rfl⟩

theorem placed_iff {index : ℕ} {item : PyJson} {r : Option Corrections.Item × List String}
    (h : validateItem i gapStart gapEnd index item = .ok r) (c : Corrections.Item) :
    r.1 = some c ↔ Placed i gapStart gapEnd item c := by
  constructor
  · intro hr
    cases item with
    | dict d =>
      obtain ⟨s,e,hs,he⟩ := converts_of_validateItem h
      by_cases hfits : Fits i gapStart gapEnd d s e
      · rw [validateItem_of_fits index hs he hfits] at h
        cases h
        cases hr
        exact ⟨d,s,e,rfl,hs,he,hfits,rfl⟩
      · obtain ⟨log,hlog⟩ := validateItem_of_not_fits index hs he hfits
        rw [hlog] at h
        cases h
        cases hr
    | _ =>
      cases h
      cases hr
  · rintro ⟨d,s,e,rfl,hs,he,hfits,rfl⟩
    rw [validateItem_of_fits index hs he hfits] at h
    cases h
    rfl

theorem Placed.funcHash {item : PyJson} {c : Corrections.Item}
    (h : Placed i gapStart gapEnd item c) : c.funcHash = "new" := by
  obtain ⟨d,s,e,-,-,-,-,rfl⟩ := h
  rfl

end Items

/-! ## One gap -/

/-- An item that stops nothing: its numbers convert, and its texts can be encoded where it is
accepted. -/
def Harmless (gapStart gapEnd : ℤ) (item : PyJson) : Prop :=
  ∀ d, item = .dict d → ∃ s e, intOf i (field d "start_line") = .ok s ∧
    intOf i (field d "end_line") = .ok e ∧
    (Fits i gapStart gapEnd d s e →
      i.encodes (nameOf i d) = true ∧ i.encodes (signatureOf i d) = true)

/-- The items that a value holds. -/
def itemsOf : Loaded → List PyJson
  | .value (.list xs) => xs
  | .value (.dict d) => [.dict d]
  | _ => []

/-- The answers that are handled as they should be: no sentinel next to a list, no text that is
nested too deeply, and only harmless items. -/
def Clean (gapStart gapEnd : ℤ) (output : String) : Prop :=
  ∀ text, resultBlock output = some text →
    if hasSentinel text = true then ∀ xs, i.loads (unfence text) ≠ .value (.list xs)
    else i.loads (unfence text) ≠ .tooDeep ∧
      ∀ item ∈ itemsOf (i.loads (unfence text)), Harmless i gapStart gapEnd item

/-- The answer is handled without an exception, its items end up at their place in the gap, and a
list is taken as the corrections. -/
structure Isolated (gapStart gapEnd : ℤ) (output : String) : Prop where
  handled : ∀ db, ∃ cs reason db', parseAndValidate i gapStart gapEnd output = .ok (cs,reason) ∧
    applyAccepted i src lines picked path db cs = .ok db'
  placed : ∀ cs reason, parseAndValidate i gapStart gapEnd output = .ok (cs,reason) →
    ∀ c ∈ cs, gapStart ≤ c.startLine ∧ c.startLine ≤ c.endLine ∧ c.endLine ≤ gapEnd ∧
      ∃ xs, parseR1Corrections i output = .ok (.items xs) ∧
        ∃ item ∈ xs, Placed i gapStart gapEnd item c
  used : ∀ text xs, resultBlock output = some text →
    i.loads (unfence text) = .value (.list xs) → parseR1Corrections i output = .ok (.items xs)

section Gap

variable {i src lines picked path} {gapStart gapEnd : ℤ} {output : String}

theorem parseR1Corrections_of_sentinel {text : String} (htext : resultBlock output = some text)
    (h : hasSentinel text = true) :
    parseR1Corrections i output = .ok .noCorrections ∨
      parseR1Corrections i output = .ok .sourceIncomplete := by
  rw [parseR1Corrections,htext]
  by_cases hno : saysNoCorrections text = true
  · exact .inl (if_pos hno)
  · rw [hasSentinel,Bool.or_eq_true] at h
    exact .inr ((if_neg hno).trans (if_pos (h.resolve_left hno)))

theorem parseR1Corrections_of_loads {text : String} (htext : resultBlock output = some text)
    (h : ¬ hasSentinel text = true) (hdeep : i.loads (unfence text) ≠ .tooDeep) :
    parseR1Corrections i output = .ok (.items (itemsOf (i.loads (unfence text)))) := by
  rw [hasSentinel,Bool.or_eq_true,not_or] at h
  rw [parseR1Corrections,htext]
  show (if _ then _ else if _ then _ else _) = _
  rw [if_neg h.1,if_neg h.2]
  cases hv : i.loads (unfence text) with
  | tooDeep => exact absurd hv hdeep
  | rejected => rfl
  | value v => cases v <;> rfl

/-- The items of an answer are looked at iff their numbers convert. -/
theorem parseAndValidate_items {xs : List PyJson}
    (hxs : parseR1Corrections i output = .ok (.items xs)) {cs : List Corrections.Item}
    {reason : String} (h : parseAndValidate i gapStart gapEnd output = .ok (cs,reason)) :
    (∀ c, c ∈ cs ↔ ∃ item ∈ xs, Placed i gapStart gapEnd item c) ∧
      ∀ item ∈ xs, ∀ d, item = .dict d → ∃ s e, intOf i (field d "start_line") = .ok s ∧
        intOf i (field d "end_line") = .ok e := by
  rw [parseAndValidate,hxs] at h
  cases hres : xs.zipIdx.mapM (fun p => validateItem i gapStart gapEnd p.2 p.1) with
  | error x =>
    simp only [bind,Except.bind,hres] at h
    cases h
  | ok results =>
    simp only [bind,Except.bind,hres,pure,Except.pure,Except.ok.injEq,Prod.mk.injEq] at h
    obtain ⟨rfl,-⟩ := h
    have hall := mapM_ok_iff.mp hres
    refine ⟨fun c => ?_,?_⟩
    · rw [List.mem_filterMap]
      constructor
      · rintro ⟨r,hr,hc⟩
        obtain ⟨p,hp,hpr⟩ := forall₂_mem_right hall hr
        exact ⟨p.1,List.fst_mem_of_mem_zipIdx hp,(placed_iff hpr c).mp hc⟩
      · rintro ⟨item,hitem,hc⟩
        rw [← List.zipIdx_map_fst 0 xs] at hitem
        obtain ⟨p,hp,rfl⟩ := List.mem_map.mp hitem
        obtain ⟨r,hr,hpr⟩ := forall₂_mem_left hall hp
        exact ⟨r,hr,(placed_iff hpr c).mpr hc⟩
    · rintro item hitem d rfl
      rw [← List.zipIdx_map_fst 0 xs] at hitem
      obtain ⟨p,hp,hd⟩ := List.mem_map.mp hitem
      obtain ⟨r,hr,hpr⟩ := forall₂_mem_left hall hp
      rw [hd] at hpr
      exact converts_of_validateItem hpr

theorem parseAndValidate_of_harmless {xs : List PyJson}
    (hxs : parseR1Corrections i output = .ok (.items xs))
    (h : ∀ item ∈ xs, Harmless i gapStart gapEnd item) :
    ∃ cs reason, parseAndValidate i gapStart gapEnd output = .ok (cs,reason) := by
  have hres : ∃ results, xs.zipIdx.mapM (fun p => validateItem i gapStart gapEnd p.2 p.1) =
      .ok results := by
    refine mapM_isOk fun p hp => ?_
    obtain ⟨item,index⟩ := p
    have hitem := h item (List.fst_mem_of_mem_zipIdx hp)
    cases item with
    | dict d =>
      obtain ⟨s,e,hs,he,-⟩ := hitem d rfl
      by_cases hfits : Fits i gapStart gapEnd d s e
      · exact ⟨_,validateItem_of_fits index hs he hfits⟩
      · obtain ⟨log,hlog⟩ := validateItem_of_not_fits index hs he hfits
        exact ⟨_,hlog⟩
    | _ => exact ⟨_,rfl⟩
  obtain ⟨results,hres⟩ := hres
  refine ⟨results.filterMap Prod.fst,"; ".intercalate (results.flatMap Prod.snd),?_⟩
  rw [parseAndValidate,hxs]
  simp only [bind,Except.bind,hres,pure,Except.pure]

/-- Accepted items go into the rows iff their texts can be encoded. -/
theorem applyAccepted_isOk {cs : List Corrections.Item} {db : FuncDb} :
    (∃ db', applyAccepted i src lines picked path db cs = .ok db') ↔
      ∀ c ∈ cs, (i.encodes c.name && i.encodes (c.signature.getD c.name)) = true := by
  induction cs generalizing db with
  | nil => exact iff_of_true ⟨db,rfl⟩ (fun c hc => absurd hc List.not_mem_nil)
  | cons c cs ih =>
    rw [List.forall_mem_cons,applyAccepted,List.foldlM_cons]
    by_cases hc : (i.encodes c.name && i.encodes (c.signature.getD c.name)) = true
    · rw [if_pos hc]
      exact ih.trans ⟨fun h => ⟨hc,h⟩,And.right⟩
    · rw [if_neg hc]
      refine iff_of_false ?_ (fun h => hc h.1)
      rintro ⟨db',h⟩
      cases h

theorem parseAndValidate_of_sentinel {text : String} (htext : resultBlock output = some text)
    (h : hasSentinel text = true) :
    ∃ reason, parseAndValidate i gapStart gapEnd output = .ok ([],reason) := by
  rcases parseR1Corrections_of_sentinel (i := i) htext h with hp | hp
  · exact ⟨"",by rw [parseAndValidate,hp]; rfl⟩
  · exact ⟨"parse_failed",by rw [parseAndValidate,hp]; rfl⟩

/-- Where an item is accepted, the answer is a list of items and it is one of them. -/
theorem exists_placed {cs : List Corrections.Item} {reason : String}
    (h : parseAndValidate i gapStart gapEnd output = .ok (cs,reason)) {c : Corrections.Item}
    (hc : c ∈ cs) : ∃ xs, parseR1Corrections i output = .ok (.items xs) ∧
      ∃ item ∈ xs, Placed i gapStart gapEnd item c := by
  cases hp : parseR1Corrections i output with
  | error x =>
    rw [parseAndValidate,hp] at h
    cases h
  | ok answer =>
    cases answer with
    | noCorrections =>
      rw [parseAndValidate,hp] at h
      cases h
      cases hc
    | sourceIncomplete =>
      rw [parseAndValidate,hp] at h
      cases h
      cases hc
    | items xs => exact ⟨xs,rfl,((parseAndValidate_items hp h).1 c).mp hc⟩

theorem Placed.inside {item : PyJson} {c : Corrections.Item}
    (h : Placed i gapStart gapEnd item c) :
    gapStart ≤ c.startLine ∧ c.startLine ≤ c.endLine ∧ c.endLine ≤ gapEnd := by
  obtain ⟨d,s,e,-,-,-,⟨-,hfirst,hle,hin⟩,rfl⟩ := h
  exact ⟨show gapStart ≤ gapStart + s - 1 by omega,
    show gapStart + s - 1 ≤ gapStart + e - 1 by omega,hin⟩

theorem encodes_of_harmless {item : PyJson} {c : Corrections.Item}
    (h : Harmless i gapStart gapEnd item) (hc : Placed i gapStart gapEnd item c) :
    (i.encodes c.name && i.encodes (c.signature.getD c.name)) = true := by
  obtain ⟨d,s,e,rfl,hs,he,hfits,rfl⟩ := hc
  obtain ⟨s',e',hs',he',henc⟩ := h d rfl
  cases hs.symm.trans hs'
  cases he.symm.trans he'
  rw [Bool.and_eq_true]
  exact henc hfits

theorem handled_of_harmless {xs : List PyJson} (hxs : parseR1Corrections i output = .ok (.items xs))
    (h : ∀ item ∈ xs, Harmless i gapStart gapEnd item) (db : FuncDb) :
    ∃ cs reason db', parseAndValidate i gapStart gapEnd output = .ok (cs,reason) ∧
      applyAccepted i src lines picked path db cs = .ok db' := by
  obtain ⟨cs,reason,hcs⟩ := parseAndValidate_of_harmless hxs h
  have happly : ∃ db', applyAccepted i src lines picked path db cs = .ok db' := by
    refine applyAccepted_isOk.mpr fun c hc => ?_
    obtain ⟨item,hitem,hplaced⟩ := ((parseAndValidate_items hxs hcs).1 c).mp hc
    exact encodes_of_harmless (h item hitem) hplaced
  obtain ⟨db',hdb'⟩ := happly
  exact ⟨cs,reason,db',hcs,hdb'⟩

variable (src lines picked path) in
/-- A clean answer raises nothing. -/
theorem handled_of_clean (h : Clean i gapStart gapEnd output) (db : FuncDb) :
    ∃ cs reason db', parseAndValidate i gapStart gapEnd output = .ok (cs,reason) ∧
      applyAccepted i src lines picked path db cs = .ok db' := by
  cases htext : resultBlock output with
  | none =>
    have hp : parseR1Corrections i output = .ok (.items []) := by
      rw [parseR1Corrections,htext]
    exact handled_of_harmless hp (fun item hitem => absurd hitem List.not_mem_nil) db
  | some text =>
    have htext' := h text htext
    by_cases hs : hasSentinel text = true
    · obtain ⟨reason,hparse⟩ := parseAndValidate_of_sentinel (i := i) htext hs
      exact ⟨[],reason,db,hparse,rfl⟩
    · rw [if_neg hs] at htext'
      exact handled_of_harmless (parseR1Corrections_of_loads htext hs htext'.1) htext'.2 db

theorem isolated_of_clean (h : Clean i gapStart gapEnd output) :
    Isolated i src lines picked path gapStart gapEnd output where
  handled := handled_of_clean src lines picked path h
  placed cs reason hparse c hc := by
    obtain ⟨xs,hxs,item,hitem,hplaced⟩ := exists_placed hparse hc
    obtain ⟨hfirst,hle,hlast⟩ := hplaced.inside
    exact ⟨hfirst,hle,hlast,xs,hxs,item,hitem,hplaced⟩
  used text xs htext hxs := by
    have htext' := h text htext
    by_cases hs : hasSentinel text = true
    · rw [if_pos hs] at htext'
      exact absurd hxs (htext' xs)
    · rw [if_neg hs] at htext'
      rw [parseR1Corrections_of_loads htext hs htext'.1,hxs]
      rfl

theorem clean_of_isolated (h : Isolated i src lines picked path gapStart gapEnd output) :
    Clean i gapStart gapEnd output := by
  intro text htext
  by_cases hs : hasSentinel text = true
  · rw [if_pos hs]
    intro xs hxs
    have hused := h.used text xs htext hxs
    rcases parseR1Corrections_of_sentinel (i := i) htext hs with hp | hp
    · rw [hp] at hused
      cases hused
    · rw [hp] at hused
      cases hused
  rw [if_neg hs]
  obtain ⟨cs,reason,db',hcs,happly⟩ := h.handled .empty
  have hdeep : i.loads (unfence text) ≠ .tooDeep := by
    intro hv
    rw [parseAndValidate,parseR1Corrections,htext] at hcs
    rw [hasSentinel,Bool.or_eq_true,not_or] at hs
    simp only [hs.1,hs.2,hv,bind,Except.bind] at hcs
    cases hcs
  refine ⟨hdeep,fun item hitem d hd => ?_⟩
  have hitems := parseAndValidate_items (parseR1Corrections_of_loads htext hs hdeep) hcs
  obtain ⟨s,e,hstart,hstop⟩ := hitems.2 item hitem d hd
  refine ⟨s,e,hstart,hstop,fun hfits => ?_⟩
  have hc := (hitems.1 _).mpr ⟨item,hitem,d,s,e,hd,hstart,hstop,hfits,rfl⟩
  have henc := applyAccepted_isOk.mp ⟨db',happly⟩ _ hc
  rwa [Bool.and_eq_true] at henc

end Gap

/-! ## The file -/

section File

variable {i src lines picked path} {gaps : List GapRun} {db : FuncDb}

variable (src lines picked path db) in
theorem runOneGap_of_clean {g : GapRun} (h : Clean i g.gapStart g.gapEnd g.output)
    (hretried : Clean i g.gapStart g.gapEnd g.retried) :
    ∃ db', runOneGap i src lines picked path db g = .ok db' := by
  obtain ⟨cs,reason,db',hcs,happly⟩ := handled_of_clean src lines picked path h db
  obtain ⟨cs₂,reason₂,db₂,hcs₂,happly₂⟩ := handled_of_clean src lines picked path hretried db
  rw [runOneGap,hcs]
  by_cases hasked : reason ≠ "" ∧ cs.isEmpty = true ∧ g.exitCode = 0
  · simp only [bind,Except.bind,if_pos hasked,hcs₂,pure,Except.pure]
    by_cases hempty : cs₂.isEmpty = true
    · rw [if_pos hempty]
      exact ⟨db',happly⟩
    · rw [if_neg hempty]
      exact ⟨db₂,happly₂⟩
  · simp only [bind,Except.bind,if_neg hasked,pure,Except.pure]
    exact ⟨db',happly⟩

/-- Clean answers end in a file that has passed. -/
theorem r1State_of_clean (h : ∀ g ∈ gaps, Clean i g.gapStart g.gapEnd g.output ∧
    Clean i g.gapStart g.gapEnd g.retried) :
    r1State i src lines picked path db gaps = .passed := by
  have hfold : ∃ db', gaps.foldlM (runOneGap i src lines picked path) db = .ok db' := by
    induction gaps generalizing db with
    | nil => exact ⟨db,rfl⟩
    | cons g gaps ih =>
      obtain ⟨hg,hrest⟩ := List.forall_mem_cons.mp h
      obtain ⟨db₁,hdb₁⟩ := runOneGap_of_clean src lines picked path db hg.1 hg.2
      rw [List.foldlM_cons,hdb₁]
      exact ih hrest
  obtain ⟨db',hdb'⟩ := hfold
  rw [r1State,hdb']

/-- One first answer that raises fails the file, whatever the other gaps hold. -/
theorem r1State_of_raised {g : GapRun} (hg : g ∈ gaps) {x : Raised}
    (h : parseAndValidate i g.gapStart g.gapEnd g.output = .error x) :
    r1State i src lines picked path db gaps = .failed := by
  have hraise : ∀ db, runOneGap i src lines picked path db g = .error x := by
    intro db
    rw [runOneGap,h]
    rfl
  have hfold : ∀ db, ∃ y, gaps.foldlM (runOneGap i src lines picked path) db = .error y := by
    induction gaps with
    | nil => cases hg
    | cons g' gaps ih =>
      intro db
      rw [List.foldlM_cons]
      cases hstep : runOneGap i src lines picked path db g' with
      | error y => exact ⟨y,rfl⟩
      | ok db₁ =>
        rcases List.mem_cons.mp hg with rfl | hg
        · rw [hraise db] at hstep
          cases hstep
        · exact ih hg db₁
  obtain ⟨y,hy⟩ := hfold db
  rw [r1State,hy]

end File

/-- An answer is isolated and placed exactly where it is clean. -/
theorem isolated_iff (gapStart gapEnd : ℤ) (output : String) :
    Isolated i src lines picked path gapStart gapEnd output ↔ Clean i gapStart gapEnd output :=
  ⟨clean_of_isolated,isolated_of_clean⟩

def inBlock (text : String) : String := "<result>" ++ text ++ "</result>"

/-- An item whose first line is a word. -/
def wordText : String := "[\x7b\"name\": \"f\", \"start_line\": \"first\", \"end_line\": 2\x7d]"

def wordItem : List (String × PyJson) :=
  [("name",.str "f"),("start_line",.str "first"),("end_line",.int 2)]

/-- An item whose name holds a sentinel. -/
def sentinelText : String :=
  "[\x7b\"name\": \"report_no_corrections\", \"start_line\": 1, \"end_line\": 2\x7d]"

def sentinelItem : List (String × PyJson) :=
  [("name",.str "report_no_corrections"),("start_line",.int 1),("end_line",.int 2)]

/-- `json.loads` on these two texts. -/
def plainLoads (text : String) : Loaded :=
  if text = wordText then .value (.list [.dict wordItem])
  else if text = sentinelText then .value (.list [.dict sentinelItem])
  else .rejected

def plainInterpreter : Interpreter where
  py := plainRuntime
  loads := plainLoads
  intOfStr _ := none
  encodes _ := true

/-- A line number that is a word fails the file although the other gap has its answer, and a name
that holds a sentinel hides its list. -/
theorem answers_not_isolated :
    ¬Isolated plainInterpreter Corrections.plainSources [] "a1" "/a.c" 10 20 (inBlock wordText) ∧
    r1State plainInterpreter Corrections.plainSources [] "a1" "/a.c" .empty
      [⟨1,5,inBlock "NO_CORRECTIONS",0,""⟩,⟨10,20,inBlock wordText,0,""⟩] = .failed ∧
    ¬Isolated plainInterpreter Corrections.plainSources [] "a1" "/a.c" 10 20
      (inBlock sentinelText) := by
  have hblock : resultBlock (inBlock wordText) = some wordText := by decide +kernel
  have hload : plainInterpreter.loads (unfence wordText) = .value (.list [.dict wordItem]) := by
    rw [show unfence wordText = wordText by decide]
    show plainLoads wordText = _
    rw [plainLoads,if_pos rfl]
  have hitems : parseR1Corrections plainInterpreter (inBlock wordText) =
      .ok (.items [.dict wordItem]) := by
    have hdeep : plainInterpreter.loads (unfence wordText) ≠ .tooDeep := by
      rw [hload]
      exact fun h => by cases h
    rw [parseR1Corrections_of_loads hblock (by decide) hdeep,hload]
    rfl
  have hword : parseAndValidate plainInterpreter 10 20 (inBlock wordText) = .error .valueError := by
    rw [parseAndValidate,hitems]
    rfl
  refine ⟨fun h => ?_,r1State_of_raised (List.mem_cons_of_mem _ (List.mem_singleton_self _)) hword,
    fun h => ?_⟩
  · obtain ⟨cs,reason,db',hcs,-⟩ := h.handled .empty
    rw [hword] at hcs
    cases hcs
  · have hclean := clean_of_isolated h sentinelText (by decide +kernel)
    rw [if_pos (by decide +kernel)] at hclean
    refine hclean [.dict sentinelItem] ?_
    rw [show unfence sentinelText = sentinelText by decide +kernel]
    show plainLoads sentinelText = _
    rw [plainLoads,if_neg (by decide),if_pos rfl]

end GapAnswers
end EntryAnalyse
