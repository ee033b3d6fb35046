import EntryAnalyse.AgentResult
import EntryAnalyse.PublishedLists
import EntryAnalyse.PyText

/-! `_parse_markdown_fallback` reads the entries out of a Markdown table. The columns are known by
their names, a row with such a name is a heading, and the markup of the cells is taken off. -/
namespace EntryAnalyse
namespace MarkdownFallback

open PyJson PyText Runner FunctionsList

abbrev Text := List Char

/-! ## Columns -/

/-- The fields that the columns hold; `fileLine` is `file.cpp:line`. -/
inductive Field
  | function | type | taints | file | fileLine | line
  deriving DecidableEq

def names : Field → List String
  | .function => ["入口函数","function","entry function","func","函数","函数名"]
  | .type => ["入口类型","type","tag","类型"]
  | .taints => ["污点变量","taints","taint variables","污点参数","污点"]
  | .file => ["源文件","file","source file","文件","文件名"]
  | .fileLine => ["文件位置"]
  | .line => ["行号","line","line no","行"]

def lowerText (cs : Text) : Text := (lower (String.ofList cs)).toList

/-- `_classify`: the field with that name, in the order of the code. -/
def classify (name : Text) : Option Field :=
  [Field.function,.type,.taints,.file,.fileLine,.line].find? fun f =>
    (names f).contains (String.ofList (trim (lowerText name)))

/-- `re.sub` of the characters by nothing. -/
def removeChars (marks : List Char) (cs : Text) : Text := cs.filter fun c => !marks.contains c

def ticksAndStars : List Char := ['\x60','*']

/-- The cell of a heading without its markup. -/
def cleanHeading (cell : Text) : Text :=
  trim (lowerText (removeChars ['\x60','*','_','【','】'] cell))

/-- `[-:]+` once the blanks are out. -/
def isRule (cell : Text) : Bool :=
  let c := cell.filter (· != ' ')
  !c.isEmpty && c.all fun x => x == '-' || x == ':'

/-- A row of which every cell that is not empty is a rule. -/
def isSeparator (cells : List Text) : Bool := (cells.filter fun c => !c.isEmpty).all isRule

/-! ## Numbers -/

/-- The most digits that `int` takes. -/
def maxDigits : ℕ := 4300

/-- Digits with single underscores between them; the flag says that a digit stands before. -/
def digitsValue : ℕ → Bool → Text → Option ℕ
  | n,b,[] => if b then some n else none
  | n,b,c :: cs =>
    if c = '_' then if b then digitsValue n false cs else none
    else match digitValue c with
      | some v => digitsValue (10 * n + v) true cs
      | none => none

def unsignedInt (cs : Text) : Option ℕ :=
  if (cs.filter (· != '_')).length ≤ maxDigits then digitsValue 0 false cs else none

/-- `int` of a text without white space. -/
def intOfText : Text → Option ℤ
  | '-' :: cs => (unsignedInt cs).map fun n => -(n : ℤ)
  | '+' :: cs => (unsignedInt cs).map fun n => (n : ℤ)
  | cs => (unsignedInt cs).map fun n => (n : ℤ)

/-! ## Cells -/

def isDigit (c : Char) : Bool := (digitValue c).isSome

/-- `:(\d+)` up to the end. -/
def isLineSuffix : Text → Bool
  | ':' :: ds => !ds.isEmpty && ds.all isDigit
  | _ => false

/-- The first group of `^(.+?)(?::(\d+))?$`. -/
def fileGroup : Text → Text
  | [] => []
  | c :: cs => if cs.isEmpty || isLineSuffix cs then [c] else c :: fileGroup cs

/-- The group of the first `:(\d+)`. -/
def colonDigits : Text → Option Text
  | [] => none
  | c :: cs =>
    if c = ':' ∧ cs.head?.any isDigit = true then some (cs.takeWhile isDigit) else colonDigits cs

/-- The groups of `` `([^`]+)` ``; the second argument is what stands behind an opening tick. -/
def tickTokens : Option Text → Text → List Text
  | _,[] => []
  | none,c :: cs => if c = '\x60' then tickTokens (some []) cs else tickTokens none cs
  | some acc,c :: cs =>
    if c = '\x60' then
      if acc.isEmpty then tickTokens (some []) cs else acc.reverse :: tickTokens none cs
    else tickTokens (some (c :: acc)) cs

def isTaintSeparator (c : Char) : Bool := c == ',' || c == '，' || c == '、' || pyIsSpace c

def nonEmpty (cs : Text) : Bool := !cs.isEmpty

/-- The taints of a cell. A run of separators splits like one, up to empty parts. -/
def parseTaints (cell : Text) : List Text :=
  let tokens := tickTokens none cell
  if tokens.isEmpty then
    (((trim (removeChars ticksAndStars cell)).splitOnP isTaintSeparator).map trim).filter nonEmpty
  else (tokens.map trim).filter nonEmpty

inductive Tag
  | passive | active
  deriving DecidableEq

def Tag.text : Tag → String
  | .passive => "P"
  | .active => "A"

def parseTag (cell : Text) : Tag :=
  let typeRaw := String.ofList (trim (lowerText (removeChars ticksAndStars cell)))
  if containsText typeRaw "主动" || containsText typeRaw "active" then .active else .passive

/-- An entry. -/
structure Entry where
  tag : Tag
  file : Text
  line : ℤ
  function : Text
  taints : List Text
  deriving DecidableEq

/-- The columns of the table: the field of each, if its name is known. -/
abbrev ColMap := List (Option Field)

/-- `_get`: the cell below the first column of the field. -/
def get (colMap : ColMap) (cells : List Text) (f : Field) : Text :=
  (((colMap.zip cells).find? fun p => p.1 == some f).map Prod.snd).getD []

def plain (cell : Text) : Text := trim (removeChars ticksAndStars cell)

def parseFile (colMap : ColMap) (cells : List Text) : Text :=
  let raw := plain (get colMap cells .fileLine)
  if raw.isEmpty then plain (get colMap cells .file) else trim (fileGroup raw)

def parseLine (colMap : ColMap) (cells : List Text) : ℤ :=
  let raw := plain (get colMap cells .fileLine)
  if colMap.contains (some .line) then
    (intOfText ((removeChars ticksAndStars (get colMap cells .line)).filter
      fun c => !pyIsSpace c)).getD 0
  else if raw.isEmpty then 0
  else ((colonDigits raw).bind intOfText).getD 0

/-- A row of data; it is left out where it names no function. -/
def parseEntry (colMap : ColMap) (cells : List Text) : Option Entry :=
  let funcRaw := plain (get colMap cells .function)
  if funcRaw.isEmpty then none
  else some {
    tag := parseTag (get colMap cells .type)
    file := parseFile colMap cells
    line := parseLine colMap cells
    function := funcRaw
    taints := parseTaints (get colMap cells .taints) }

/-! ## The table -/

/-- The cells of a line of the table, `none` for another line. -/
def splitCells (line : Text) : Option (List Text) :=
  let stripped := trim line
  if stripped.head? = some '|' then
    some (((stripped.splitOn '|').tail.dropLast).map trim)
  else none

def parseLineOf (colMap : ColMap) (line : Text) : ColMap × Option Entry :=
  match splitCells line with
  | none => ([],none)
  | some cells =>
    if cells.isEmpty then (colMap,none)
    else if isSeparator cells then (colMap,none)
    else
      let clean := cells.map cleanHeading
      if clean.any fun h => (classify h).isSome then (clean.map classify,none)
      else if colMap.all fun f => f.isNone then (colMap,none)
      else (colMap,parseEntry colMap cells)

def parseLines : ColMap → List Text → List Entry
  | _,[] => []
  | colMap,line :: lines =>
    let (colMap',entry) := parseLineOf colMap line
    entry.toList ++ parseLines colMap' lines

/-- The dictionary of an entry. -/
def entryItem (py : PyRuntime) (e : Entry) : List (String × PyJson) :=
  let function := String.ofList e.function
  let taints := e.taints.map String.ofList
  [("tag",.str e.tag.text),("file",.str (String.ofList e.file)),("line",.int e.line),
    ("function",.str function),("taints",.list (taints.map .str)),
    ("function_description",.str (defaultFunctionDescription function)),
    ("function_description_source",.str "default"),
    ("entry_reason",.str (defaultEntryReason e.tag.text function)),
    ("entry_reason_source",.str "default"),
    ("taint_details",.list ((normalizeTaintDetails py taints (.list [])).map .dict))]

/-- `_parse_markdown_fallback`. -/
def parseMarkdownFallback (py : PyRuntime) (content : Text) : List (List (String × PyJson)) :=
  (parseLines [] (content.splitOn '\n')).map (entryItem py)

/-! ## Taints -/

/-- The cell of the taints, each in ticks or none. -/
def taintsCell (ticks : Bool) (taints : List Text) : Text :=
  ", ".toList.intercalate (taints.map fun t => if ticks then '\x60' :: t ++ ['\x60'] else t)

/-- A taint that is read back as it is. -/
def TaintFits (ticks : Bool) (t : Text) : Prop :=
  t ≠ [] ∧ if ticks then trim t = t ∧ '\x60' ∉ t
    else ∀ c ∈ t, c ∉ ticksAndStars ∧ isTaintSeparator c = false

section Taints

variable {p : Char → Bool} {cs t part : Text} {c : Char}

theorem mem_removeChars {marks : List Char} : c ∈ removeChars marks cs ↔ c ∈ cs ∧ c ∉ marks := by
  simp [removeChars,List.mem_filter]

theorem removeChars_eq_self {marks : List Char} (h : ∀ c ∈ cs, c ∉ marks) :
    removeChars marks cs = cs := by
  rw [removeChars,List.filter_eq_self]
  intro c hc
  simpa using h c hc

theorem trim_eq_self_of_no_space (h : ∀ c ∈ cs, pyIsSpace c = false) : trim cs = cs :=
  trim_eq_self_iff.mpr ⟨fun c hc => h c (List.mem_of_mem_head? hc),
    fun c hc => h c (List.mem_of_getLast? hc)⟩

/-- A part between separators holds none, and only characters of the text. -/
theorem mem_splitOnP (h : part ∈ cs.splitOnP p) (hc : c ∈ part) : c ∈ cs ∧ p c = false := by
  induction cs generalizing part with
  | nil =>
    obtain rfl := List.mem_singleton.mp h
    cases hc
  | cons d cs ih =>
    rw [List.splitOnP_cons_eq_if_modifyHead] at h
    split at h
    · rcases List.mem_cons.mp h with rfl | h
      · cases hc
      · exact (ih h hc).imp_left (List.mem_cons_of_mem d)
    · rename_i hd
      obtain ⟨hd₁,tl,hsplit⟩ := List.exists_cons_of_ne_nil (List.splitOnP_ne_nil p cs)
      rw [hsplit,List.modifyHead_cons] at h
      rcases List.mem_cons.mp h with rfl | h
      · rcases List.mem_cons.mp hc with rfl | hc
        · exact ⟨List.mem_cons_self,Bool.eq_false_iff.mpr hd⟩
        · exact (ih (hsplit ▸ List.mem_cons_self) hc).imp_left (List.mem_cons_of_mem d)
      · exact (ih (hsplit ▸ List.mem_cons_of_mem _ h) hc).imp_left (List.mem_cons_of_mem d)

/-- A token holds no tick. -/
theorem not_mem_tickTokens {acc : Option Text} (hacc : ∀ a ∈ acc, '\x60' ∉ a) :
    ∀ t ∈ tickTokens acc cs, '\x60' ∉ t := by
  fun_induction tickTokens acc cs with
  | case1 => exact fun t ht => absurd ht List.not_mem_nil
  | case2 cs ih => exact ih (fun a ha => by cases ha; exact List.not_mem_nil)
  | case3 c cs hc ih => exact ih (fun a ha => by cases ha)
  | case4 acc cs hnil ih => exact ih (fun a ha => by cases ha; exact List.not_mem_nil)
  | case5 acc cs hne ih =>
    intro t ht
    rcases List.mem_cons.mp ht with rfl | ht
    · exact fun h => hacc acc rfl (List.mem_reverse.mp h)
    · exact ih (fun a ha => by cases ha) t ht
  | case6 acc c cs hc ih =>
    refine ih (fun a ha => ?_)
    cases ha
    exact List.not_mem_cons_of_ne_of_not_mem (Ne.symm hc) (hacc acc rfl)

theorem tickTokens_of_not_mem {acc : Option Text} (h : '\x60' ∉ cs) : tickTokens acc cs = [] := by
  induction cs generalizing acc with
  | nil => cases acc <;> rfl
  | cons c cs ih =>
    have hc : c ≠ '\x60' := fun hc => h (hc ▸ List.mem_cons_self)
    have htail : '\x60' ∉ cs := fun ht => h (List.mem_cons_of_mem c ht)
    cases acc with
    | none => rw [tickTokens,if_neg hc,ih htail]
    | some a => rw [tickTokens,if_neg hc,ih htail]

theorem tickTokens_some (h : '\x60' ∉ t) (acc cs : Text) (hne : acc.reverse ++ t ≠ []) :
    tickTokens (some acc) (t ++ '\x60' :: cs) = (acc.reverse ++ t) :: tickTokens none cs := by
  induction t generalizing acc with
  | nil =>
    have hacc : acc.isEmpty = false := by
      rw [List.append_nil] at hne
      simpa using hne
    rw [List.nil_append,tickTokens,if_pos rfl,hacc,if_neg Bool.false_ne_true,List.append_nil]
  | cons c t ih =>
    have hc : c ≠ '\x60' := fun hc => h (hc ▸ List.mem_cons_self)
    rw [List.cons_append,tickTokens,if_neg hc,
      ih (fun ht => h (List.mem_cons_of_mem c ht)) (c :: acc) (by simp)]
    simp

/-- A text in ticks is a token. -/
theorem tickTokens_ticked (h : '\x60' ∉ t) (hne : t ≠ []) (cs : Text) :
    tickTokens none ('\x60' :: t ++ '\x60' :: cs) = t :: tickTokens none cs := by
  rw [List.cons_append,tickTokens,if_pos rfl,tickTokens_some h [] cs (by simpa using hne)]
  rfl

end Taints

section TaintCells

variable {ticks : Bool} {taints : List Text} {t : Text}

theorem taintsCell_cons_cons (u : Text) :
    taintsCell ticks (t :: u :: taints) =
      taintsCell ticks [t] ++ ',' :: ' ' :: taintsCell ticks (u :: taints) := by
  rw [taintsCell,List.map_cons,List.map_cons,List.intercalate_cons_cons,taintsCell,
    List.map_singleton,List.intercalate_singleton,List.append_assoc]
  rfl

theorem taintsCell_singleton :
    taintsCell ticks [t] = if ticks then '\x60' :: t ++ ['\x60'] else t := List.intercalate_singleton

/-- A cell of fitting taints has no white space at its ends. -/
theorem trim_taintsCell (h : ∀ t ∈ taints, TaintFits ticks t) :
    trim (taintsCell ticks taints) = taintsCell ticks taints := by
  have hone : ∀ t, TaintFits ticks t → taintsCell ticks [t] ≠ [] ∧
      (∀ c ∈ (taintsCell ticks [t]).head?, pyIsSpace c = false) ∧
      ∀ c ∈ (taintsCell ticks [t]).getLast?, pyIsSpace c = false := by
    rintro t ⟨hne,ht⟩
    rw [taintsCell_singleton]
    cases ticks with
    | true =>
      refine ⟨by simp,fun c hc => ?_,fun c hc => ?_⟩
      · obtain rfl : '\x60' = c := by simpa using hc
        decide
      · rw [if_pos rfl,List.getLast?_concat] at hc
        cases hc
        decide
    | false =>
      have hspace : ∀ c ∈ t, pyIsSpace c = false := fun c hc =>
        (Bool.or_eq_false_iff.mp (ht c hc).2).2
      exact ⟨hne,fun c hc => hspace c (List.mem_of_mem_head? hc),
        fun c hc => hspace c (List.mem_of_getLast? hc)⟩
  rw [trim_eq_self_iff]
  induction taints with
  | nil => exact ⟨fun c hc => (by cases hc),fun c hc => (by cases hc)⟩
  | cons t taints ih =>
    obtain ⟨ht,htaints⟩ := List.forall_mem_cons.mp h
    obtain ⟨hne,hhead,hlast⟩ := hone t ht
    cases taints with
    | nil => exact ⟨hhead,hlast⟩
    | cons u taints =>
      rw [taintsCell_cons_cons]
      constructor
      · intro c hc
        rw [List.head?_append_of_ne_nil _ hne] at hc
        exact hhead c hc
      · intro c hc
        have hrest : taintsCell ticks (u :: taints) ≠ [] := by
          obtain ⟨hu,-⟩ := hone u (htaints u List.mem_cons_self)
          cases taints with
          | nil => exact hu
          | cons v taints =>
            rw [taintsCell_cons_cons]
            simp
        have hsplit : taintsCell ticks [t] ++ ',' :: ' ' :: taintsCell ticks (u :: taints) =
            (taintsCell ticks [t] ++ [',',' ']) ++ taintsCell ticks (u :: taints) := by simp
        rw [hsplit,List.getLast?_append_of_ne_nil _ hrest] at hc
        exact (ih htaints).2 c hc

theorem tickTokens_taintsCell (h : ∀ t ∈ taints, TaintFits true t) :
    tickTokens none (taintsCell true taints) = taints := by
  induction taints with
  | nil => rfl
  | cons t taints ih =>
    obtain ⟨⟨hne,-,htick⟩,htaints⟩ := List.forall_mem_cons.mp h
    cases taints with
    | nil =>
      rw [taintsCell_singleton,if_pos rfl,tickTokens_ticked htick hne]
      rfl
    | cons u taints =>
      rw [taintsCell_cons_cons,taintsCell_singleton,if_pos rfl,List.append_assoc,
        List.singleton_append,tickTokens_ticked htick hne]
      exact congrArg (t :: ·) (ih htaints)

theorem splitOnP_taintsCell (h : ∀ t ∈ taints, TaintFits false t) :
    (((taintsCell false taints).splitOnP isTaintSeparator).map trim).filter nonEmpty = taints := by
  induction taints with
  | nil => rfl
  | cons t taints ih =>
    obtain ⟨⟨hne,ht⟩,htaints⟩ := List.forall_mem_cons.mp h
    have hsep : ∀ c ∈ t, isTaintSeparator c = false := fun c hc => (ht c hc).2
    have htrim : trim t = t :=
      trim_eq_self_of_no_space fun c hc => (Bool.or_eq_false_iff.mp (hsep c hc)).2
    have hkeep : nonEmpty t = true := by simpa [nonEmpty] using hne
    cases taints with
    | nil =>
      rw [taintsCell_singleton,if_neg Bool.false_ne_true,List.splitOnP_eq_singleton hsep,
        List.map_singleton,htrim,List.filter_cons_of_pos hkeep]
      rfl
    | cons u taints =>
      rw [taintsCell_cons_cons,taintsCell_singleton,if_neg Bool.false_ne_true,
        List.splitOnP_append_cons_of_forall_mem hsep ',' (by decide),
        List.splitOnP_cons_eq_if_modifyHead,if_pos (by decide),List.map_cons,List.map_cons,htrim,
        List.filter_cons_of_pos hkeep,List.filter_cons_of_neg (by decide),ih htaints]

theorem mem_taintsCell {c : Char} (h : c ∈ taintsCell false taints) :
    c = ',' ∨ c = ' ' ∨ ∃ t ∈ taints, c ∈ t := by
  induction taints with
  | nil => cases h
  | cons t taints ih =>
    cases taints with
    | nil =>
      rw [taintsCell_singleton] at h
      exact .inr (.inr ⟨t,List.mem_cons_self,h⟩)
    | cons u taints =>
      rw [taintsCell_cons_cons,taintsCell_singleton,List.mem_append,List.mem_cons,
        List.mem_cons] at h
      rcases h with h | rfl | rfl | h
      · exact .inr (.inr ⟨t,List.mem_cons_self,h⟩)
      · exact .inl rfl
      · exact .inr (.inl rfl)
      · refine (ih h).imp_right fun h => h.imp_right fun ⟨v,hv,hc⟩ => ?_
        exact ⟨v,List.mem_cons_of_mem t hv,hc⟩

/-- The taints of a row are read back iff each of them fits. -/
theorem parseTaints_iff :
    parseTaints (trim (taintsCell ticks taints)) = taints ↔ ∀ t ∈ taints, TaintFits ticks t := by
  constructor
  · intro h t ht
    rw [parseTaints] at h
    by_cases htokens : (tickTokens none (trim (taintsCell ticks taints))).isEmpty = true
    · rw [if_pos htokens] at h
      rw [← h] at ht
      obtain ⟨hmem,hne⟩ := List.mem_filter.mp ht
      obtain ⟨part,hpart,rfl⟩ := List.mem_map.mp hmem
      have hplain : ∀ c ∈ trim part, c ∉ ticksAndStars ∧ isTaintSeparator c = false := by
        intro c hc
        obtain ⟨hcell,hsep⟩ := mem_splitOnP hpart (mem_of_mem_trim hc)
        exact ⟨(mem_removeChars.mp (mem_of_mem_trim hcell)).2,hsep⟩
      refine ⟨by simpa [nonEmpty] using hne,?_⟩
      cases ticks with
      | true => exact ⟨trim_trim,fun hc => (hplain _ hc).1 (by decide)⟩
      | false => exact hplain
    · rw [if_neg htokens] at h
      have hticks : ∀ t ∈ taints, t ≠ [] ∧ trim t = t ∧ '\x60' ∉ t := by
        intro t ht
        rw [← h] at ht
        obtain ⟨hmem,hne⟩ := List.mem_filter.mp ht
        obtain ⟨token,htoken,rfl⟩ := List.mem_map.mp hmem
        exact ⟨by simpa [nonEmpty] using hne,trim_trim,
          fun hc => not_mem_tickTokens (fun a ha => by cases ha) token htoken (mem_of_mem_trim hc)⟩
      cases ticks with
      | true => exact hticks t ht
      | false =>
        refine absurd ?_ htokens
        rw [tickTokens_of_not_mem]
        · rfl
        · intro hc
          rcases mem_taintsCell (mem_of_mem_trim hc) with hc | hc | ⟨u,hu,hc⟩
          · exact absurd hc (by decide)
          · exact absurd hc (by decide)
          · exact (hticks u hu).2.2 hc
  · intro h
    rw [trim_taintsCell h,parseTaints]
    cases ticks with
    | true =>
      rw [tickTokens_taintsCell h]
      cases taints with
      | nil => rfl
      | cons t taints =>
        rw [if_neg (by simp)]
        have hmap : (t :: taints).map trim = t :: taints :=
          (List.map_congr_left fun u hu => (h u hu).2.1).trans (List.map_id _)
        rw [hmap,List.filter_eq_self]
        exact fun u hu => by simpa [nonEmpty] using (h u hu).1
    | false =>
      have hmarks : ∀ c ∈ taintsCell false taints, c ∉ ticksAndStars := by
        intro c hc
        rcases mem_taintsCell hc with rfl | rfl | ⟨t,ht,hc⟩
        · decide
        · decide
        · exact ((h t ht).2 c hc).1
      rw [tickTokens_of_not_mem fun hc => hmarks _ hc (by decide),List.isEmpty_nil,if_pos rfl,
        removeChars_eq_self hmarks,trim_taintsCell h,splitOnP_taintsCell h]

end TaintCells

/-! ## Line numbers -/

/-- `str(n)`. -/
def intText (n : ℤ) : Text := (toString n).toList

/-- `int` takes as many digits as the number has. -/
def LineFits (n : ℤ) : Prop := (Nat.toDigits 10 n.natAbs).length ≤ maxDigits

section Numbers

variable {n : ℤ} {c : Char} {ds : Text}

theorem intText_natCast (m : ℕ) : intText m = Nat.toDigits 10 m := Nat.toList_repr

theorem intText_neg (m : ℕ) : intText (Int.negSucc m) = '-' :: Nat.toDigits 10 (m + 1) := by
  show ("-" ++ (m + 1).repr).toList = _
  rw [String.toList_append,Nat.toList_repr]
  rfl

theorem isDigit_of_mem_toDigits {m : ℕ} (h : c ∈ Nat.toDigits 10 m) : c.isDigit = true :=
  Nat.isDigit_of_mem_toDigits (by decide) (by decide) h

theorem toNat_of_isDigit (h : c.isDigit = true) : 48 ≤ c.toNat ∧ c.toNat ≤ 57 :=
  Char.isDigit_iff_toNat.mp h

theorem digitValue_of_isDigit (h : c.isDigit = true) : digitValue c = some (c.toNat - '0'.toNat) := by
  obtain ⟨hlow,hhigh⟩ := toNat_of_isDigit h
  rw [digitValue,digitZeros,List.find?_cons_of_pos]
  · rfl
  · simp only [Bool.and_eq_true,decide_eq_true_eq]
    omega

theorem ne_of_isDigit {d : Char} (h : c.isDigit = true) (hd : d.isDigit = false) : c ≠ d := by
  rintro rfl
  rw [h] at hd
  cases hd

theorem not_space_of_isDigit (h : c.isDigit = true) : pyIsSpace c = false := by
  obtain ⟨hlow,hhigh⟩ := toNat_of_isDigit h
  simp only [pyIsSpace]
  simp only [Bool.or_eq_false_iff,Bool.and_eq_false_iff,decide_eq_false_iff_not,beq_eq_false_iff_ne]
  omega

theorem digitsValue_digits (h : ∀ c ∈ ds, c.isDigit = true) (m : ℕ) :
    digitsValue m true ds = some (Nat.ofDigitChars 10 ds m) := by
  induction ds generalizing m with
  | nil => rfl
  | cons c ds ih =>
    obtain ⟨hc,hds⟩ := List.forall_mem_cons.mp h
    rw [digitsValue,if_neg (ne_of_isDigit hc (by decide)),digitValue_of_isDigit hc,
      Nat.ofDigitChars_cons]
    exact ih hds _

theorem unsignedInt_toDigits (m : ℕ) : unsignedInt (Nat.toDigits 10 m) =
    if (Nat.toDigits 10 m).length ≤ maxDigits then some m else none := by
  have hfilter : (Nat.toDigits 10 m).filter (· != '_') = Nat.toDigits 10 m := by
    rw [List.filter_eq_self]
    exact fun c hc => bne_iff_ne.mpr (ne_of_isDigit (isDigit_of_mem_toDigits hc) (by decide))
  have hvalue : digitsValue 0 false (Nat.toDigits 10 m) = some m := by
    obtain ⟨c,cs,hcs⟩ := List.exists_cons_of_ne_nil (Nat.toDigits_ne_nil (n := m) (b := 10))
    have hall : ∀ d ∈ c :: cs, d.isDigit = true := fun d hd =>
      isDigit_of_mem_toDigits (m := m) (hcs ▸ hd)
    have htrue := digitsValue_digits hall 0
    rw [← hcs,Nat.ofDigitChars_ten_toDigits,hcs] at htrue
    rw [hcs,← htrue,digitsValue,digitsValue,if_neg (ne_of_isDigit (hall c List.mem_cons_self)
      (by decide)),if_neg (ne_of_isDigit (hall c List.mem_cons_self) (by decide))]
  rw [unsignedInt,hfilter,hvalue]

theorem intOfText_of_digits (h : ∀ c ∈ ds, c.isDigit = true) :
    intOfText ds = (unsignedInt ds).map fun m => (m : ℤ) := by
  cases ds with
  | nil => rfl
  | cons c ds =>
    have hc := h c List.mem_cons_self
    rw [intOfText]
    · rintro _ ⟨⟩
      cases hc
    · rintro _ ⟨⟩
      cases hc

theorem intOfText_intText (n : ℤ) :
    intOfText (intText n) = if (Nat.toDigits 10 n.natAbs).length ≤ maxDigits then some n else none := by
  cases n with
  | ofNat m =>
    show intOfText (intText (m : ℤ)) = _
    rw [intText_natCast,intOfText_of_digits fun c hc => isDigit_of_mem_toDigits hc,
      unsignedInt_toDigits,Int.ofNat_eq_natCast,Int.natAbs_natCast]
    split <;> rfl
  | negSucc m =>
    rw [intText_neg,intOfText,unsignedInt_toDigits,Int.natAbs_negSucc]
    split <;> rfl

theorem mem_intText (h : c ∈ intText n) : c = '-' ∨ c.isDigit = true := by
  cases n with
  | ofNat m => exact .inr (isDigit_of_mem_toDigits (intText_natCast m ▸ h))
  | negSucc m =>
    rw [intText_neg] at h
    exact (List.mem_cons.mp h).imp_right isDigit_of_mem_toDigits

theorem intText_ne_nil : intText n ≠ [] := by
  cases n with
  | ofNat m => exact fun h => Nat.toDigits_ne_nil ((intText_natCast m).symm.trans h)
  | negSucc m =>
    rw [intText_neg]
    exact List.cons_ne_nil _ _

theorem not_space_of_mem_intText (h : c ∈ intText n) : pyIsSpace c = false := by
  rcases mem_intText h with rfl | h
  · decide
  · exact not_space_of_isDigit h

theorem not_mark_of_mem_intText (h : c ∈ intText n) : c ∉ ticksAndStars := by
  rcases mem_intText h with rfl | h
  · decide
  · simp only [ticksAndStars,List.mem_cons,List.not_mem_nil,or_false,not_or]
    exact ⟨ne_of_isDigit h (by decide),ne_of_isDigit h (by decide)⟩

theorem getD_intOfText_iff : (intOfText (intText n)).getD 0 = n ↔ LineFits n := by
  rw [intOfText_intText,LineFits]
  split
  · rename_i h
    exact iff_of_true rfl h
  · rename_i h
    refine iff_of_false (fun hn => h ?_) h
    rw [show n = 0 from hn.symm]
    decide

/-- The line of a column of its own is read back iff `int` takes it. -/
theorem lineCell_iff :
    (intOfText ((removeChars ticksAndStars (trim (intText n))).filter
      fun c => !pyIsSpace c)).getD 0 = n ↔ LineFits n := by
  have hspace : ∀ c ∈ intText n, pyIsSpace c = false := fun c hc => not_space_of_mem_intText hc
  rw [trim_eq_self_of_no_space hspace,removeChars_eq_self fun c hc => not_mark_of_mem_intText hc,
    List.filter_eq_self.mpr fun c hc => by simp [hspace c hc]]
  exact getD_intOfText_iff

end Numbers

/-! ## Files -/

/-- A text without markup and without white space at its ends. -/
def Plain (cs : Text) : Prop := trim cs = cs ∧ ∀ c ∈ cs, c ∉ ticksAndStars

def fileLineCell (file : Text) (n : ℤ) : Text := file ++ ':' :: intText n

/-- A file that a cell with its line gives back. -/
structure FileLineFits (file : Text) (n : ℤ) : Prop where
  ne_nil : file ≠ []
  plain : Plain file
  nonneg : 0 ≤ n

section Files

variable {cs file ds : Text} {n : ℤ} {c : Char}

theorem plain_trim_iff : plain (trim cs) = cs ↔ Plain cs := by
  constructor
  · intro h
    refine ⟨by rw [← h]; exact trim_trim,fun c hc => ?_⟩
    rw [← h] at hc
    exact (mem_removeChars.mp (mem_of_mem_trim hc)).2
  · rintro ⟨htrim,hmarks⟩
    rw [plain,htrim,removeChars_eq_self hmarks,htrim]

theorem isDigit_of_isDigit (h : c.isDigit = true) : isDigit c = true := by
  rw [isDigit,digitValue_of_isDigit h]
  rfl

theorem mem_fileGroup (h : c ∈ fileGroup cs) : c ∈ cs := by
  fun_induction fileGroup cs with
  | case1 => exact h
  | case2 d cs hend =>
    rw [List.mem_singleton.mp h]
    exact List.mem_cons_self
  | case3 d cs hgo ih =>
    rcases List.mem_cons.mp h with rfl | h
    · exact List.mem_cons_self
    · exact List.mem_cons_of_mem d (ih h)

theorem isLineSuffix_cons :
    isLineSuffix (c :: ds) = (c == ':' && (!ds.isEmpty && ds.all isDigit)) := by
  by_cases hc : c = ':'
  · subst hc
    rfl
  · rw [beq_eq_false_iff_ne.mpr hc,isLineSuffix]
    · rfl
    · rintro _ ⟨⟩
      exact hc rfl

/-- Behind the colon of a line suffix stand digits only. -/
theorem not_isLineSuffix_append {d : Char} (hd : isDigit d = false) (hcs : cs = [] → d ≠ ':')
    (rest : Text) : isLineSuffix (cs ++ d :: rest) = false := by
  cases cs with
  | nil =>
    rw [List.nil_append,isLineSuffix_cons,beq_eq_false_iff_ne.mpr (hcs rfl)]
    rfl
  | cons e cs =>
    rw [List.cons_append,isLineSuffix_cons,List.all_append,List.all_cons,hd]
    simp

theorem fileGroup_digits (h : ∀ c ∈ ds, c.isDigit = true) : fileGroup ds = ds := by
  induction ds with
  | nil => rfl
  | cons c ds ih =>
    obtain ⟨-,hds⟩ := List.forall_mem_cons.mp h
    have hsuffix : isLineSuffix ds = false := by
      cases ds with
      | nil => rfl
      | cons d ds =>
        have hd : d ≠ ':' := ne_of_isDigit (hds d List.mem_cons_self) (by decide)
        rw [isLineSuffix_cons,beq_eq_false_iff_ne.mpr hd]
        rfl
    rw [fileGroup,hsuffix,ih hds]
    cases ds <;> rfl

/-- A minus before the digits hides them from the pattern. -/
theorem fileGroup_minus (h : ∀ c ∈ ds, c.isDigit = true) :
    fileGroup (cs ++ '-' :: ds) = cs ++ '-' :: ds := by
  induction cs with
  | nil =>
    have hsuffix : isLineSuffix ds = false := by
      cases ds with
      | nil => rfl
      | cons d ds =>
        have hd : d ≠ ':' := ne_of_isDigit (h d List.mem_cons_self) (by decide)
        rw [isLineSuffix_cons,beq_eq_false_iff_ne.mpr hd]
        rfl
    rw [List.nil_append,fileGroup,hsuffix,fileGroup_digits h]
    cases ds <;> rfl
  | cons c cs ih =>
    have hne : (cs ++ '-' :: ds).isEmpty = false := by cases cs <;> rfl
    rw [List.cons_append,fileGroup,hne,
      not_isLineSuffix_append (by decide) (fun _ => by decide),if_neg (by decide),ih]

theorem fileGroup_line (hfile : file ≠ []) (hds : ds ≠ []) (h : ∀ c ∈ ds, c.isDigit = true) :
    fileGroup (file ++ ':' :: ds) = file := by
  have hend : isLineSuffix (':' :: ds) = true := by
    rw [isLineSuffix_cons,List.all_eq_true.mpr fun c hc => isDigit_of_isDigit (h c hc)]
    cases ds with
    | nil => exact absurd rfl hds
    | cons d ds => rfl
  induction file with
  | nil => exact absurd rfl hfile
  | cons c file ih =>
    rw [List.cons_append,fileGroup]
    cases file with
    | nil => rw [List.nil_append,hend,Bool.or_true,if_pos rfl]
    | cons d file =>
      rw [not_isLineSuffix_append (by decide) (fun h => by cases h)]
      exact congrArg (c :: ·) (ih (List.cons_ne_nil _ _))

theorem trim_cons_ne_nil (h : pyIsSpace c = false) : trim (c :: cs) ≠ [] := by
  intro hnil
  rw [trim,List.dropWhile_cons_of_neg (by simp [h]),List.rdropWhile_eq_nil_iff] at hnil
  have := hnil c List.mem_cons_self
  rw [h] at this
  cases this

theorem not_space_fileLineCell (c : Char) (hc : c ∈ (fileLineCell file n).getLast?) :
    pyIsSpace c = false := by
  have hne : ':' :: intText n ≠ [] := List.cons_ne_nil _ _
  rw [fileLineCell,List.getLast?_append_of_ne_nil _ hne] at hc
  rcases List.mem_cons.mp (List.mem_of_getLast? hc) with rfl | hc
  · decide
  · exact not_space_of_mem_intText hc

/-- A plain file leaves its cell as it is. -/
theorem plain_fileLineCell (h : Plain file) :
    plain (trim (fileLineCell file n)) = fileLineCell file n := by
  refine plain_trim_iff.mpr ⟨trim_eq_self_iff.mpr ⟨fun c hc => ?_,not_space_fileLineCell⟩,?_⟩
  · cases file with
    | nil =>
      cases hc
      decide
    | cons d file => exact (trim_eq_self_iff.mp h.1).1 c hc
  · intro c hc
    rcases List.mem_append.mp hc with hc | hc
    · exact h.2 c hc
    · rcases List.mem_cons.mp hc with rfl | hc
      · decide
      · exact not_mark_of_mem_intText hc

/-- The file of a cell with its line is read back iff it is plain, there, and the line is not
negative. -/
theorem fileLineCell_iff :
    trim (fileGroup (plain (trim (fileLineCell file n)))) = file ↔ FileLineFits file n := by
  constructor
  · intro h
    have hplain : Plain file := by
      refine ⟨by rw [← h]; exact trim_trim,fun c hc => ?_⟩
      rw [← h] at hc
      exact (mem_removeChars.mp (mem_of_mem_trim (mem_fileGroup (mem_of_mem_trim hc)))).2
    rw [plain_fileLineCell hplain] at h
    refine ⟨?_,hplain,?_⟩
    · rintro rfl
      rw [fileLineCell,List.nil_append,fileGroup] at h
      split at h
      · exact trim_cons_ne_nil (by decide) h
      · exact trim_cons_ne_nil (by decide) h
    · cases n with
      | ofNat m => exact Int.natCast_nonneg m
      | negSucc m =>
        have hcell : fileLineCell file (Int.negSucc m) =
            (file ++ [':']) ++ '-' :: Nat.toDigits 10 (m + 1) := by
          rw [fileLineCell,intText_neg]
          simp
        have htrim := plain_fileLineCell (n := Int.negSucc m) hplain
        have hself : trim (fileLineCell file (Int.negSucc m)) = fileLineCell file (Int.negSucc m) := by
          rw [← htrim]
          exact trim_trim
        rw [hcell,fileGroup_minus (fun c hc => isDigit_of_mem_toDigits hc),← hcell,hself,
          fileLineCell] at h
        have := congrArg List.length h
        simp at this
  · rintro ⟨hne,hplain,hnonneg⟩
    obtain ⟨m,rfl⟩ := Int.eq_ofNat_of_zero_le hnonneg
    rw [plain_fileLineCell hplain,fileLineCell,intText_natCast,
      fileGroup_line hne Nat.toDigits_ne_nil (fun c hc => isDigit_of_mem_toDigits hc)]
    exact hplain.1

/-- A line number that stands in the name of the file comes first. -/
theorem colonDigits_append (hds : ds ≠ []) (h : ∀ c ∈ ds, c.isDigit = true) :
    colonDigits (file ++ ':' :: ds) = (colonDigits file).or (some ds) := by
  have hdigits : ∀ c ∈ ds, isDigit c = true := fun c hc => isDigit_of_isDigit (h c hc)
  induction file with
  | nil =>
    obtain ⟨d,ds',rfl⟩ := List.exists_cons_of_ne_nil hds
    have hfirst : colonDigits (':' :: d :: ds') = some ((d :: ds').takeWhile isDigit) :=
      if_pos ⟨rfl,hdigits d List.mem_cons_self⟩
    rw [List.nil_append,hfirst,List.takeWhile_eq_self_iff.mpr hdigits]
    rfl
  | cons c file ih =>
    have hhead : (file ++ ':' :: ds).head?.any isDigit = file.head?.any isDigit := by
      cases file with
      | nil => exact show isDigit ':' = false by decide
      | cons d file => rfl
    have htake : (file ++ ':' :: ds).takeWhile isDigit = file.takeWhile isDigit := by
      rw [List.takeWhile_append,List.takeWhile_cons_of_neg (by decide)]
      split
      · rename_i hlen
        have hall := (List.takeWhile_prefix (l := file) isDigit).eq_of_length hlen
        rw [List.append_nil,hall]
      · rfl
    rw [List.cons_append,colonDigits,colonDigits,hhead,htake]
    split
    · rfl
    · exact ih

/-- What is read as the line of a cell of file and line. -/
theorem lineOf_fileLineCell (h : FileLineFits file n) :
    ((colonDigits (fileLineCell file n)).bind intOfText).getD 0 = n ↔
      match colonDigits file with
      | some ds => (intOfText ds).getD 0 = n
      | none => LineFits n := by
  obtain ⟨m,rfl⟩ := Int.eq_ofNat_of_zero_le h.nonneg
  rw [fileLineCell,intText_natCast,colonDigits_append Nat.toDigits_ne_nil
    (fun c hc => isDigit_of_mem_toDigits hc)]
  cases colonDigits file with
  | some ds => exact Iff.rfl
  | none =>
    rw [Option.none_or,Option.bind_some,← intText_natCast]
    exact getD_intOfText_iff

end Files

/-! ## Rendering -/

/-- How the tag is written: as its letter, or as the kind of entry in either language. -/
inductive TagStyle
  | letter | chinese | english
  deriving DecidableEq

def typeCell : TagStyle → Tag → Text
  | .letter,tag => tag.text.toList
  | .chinese,.active => "主动拉取".toList
  | .chinese,.passive => "被动回调".toList
  | .english,.active => "active".toList
  | .english,.passive => "passive".toList

/-- The columns of a table with their names, in any order, and the style of its cells. The file and
the line have columns of their own or one for both. -/
structure Layout where
  columns : List (Field × String)
  tags : TagStyle
  ticks : Bool
  named : ∀ c ∈ columns, c.2 ∈ names c.1
  function_mem : Field.function ∈ columns.map Prod.fst
  type_mem : Field.type ∈ columns.map Prod.fst
  taints_mem : Field.taints ∈ columns.map Prod.fst
  file_mem : Field.file ∈ columns.map Prod.fst ∨ Field.fileLine ∈ columns.map Prod.fst
  line_mem : Field.line ∈ columns.map Prod.fst ∨ Field.fileLine ∈ columns.map Prod.fst

/-- `| a | b |`. -/
def rowLine (cells : List Text) : Text :=
  ['|'].intercalate ([] :: cells.map (fun c => ' ' :: (c ++ [' '])) ++ [[]])

namespace Layout

variable (l : Layout)

def has (f : Field) : Bool := (l.columns.map Prod.fst).contains f

def cell (e : Entry) : Field → Text
  | .function => e.function
  | .type => typeCell l.tags e.tag
  | .taints => taintsCell l.ticks e.taints
  | .file => e.file
  | .fileLine => fileLineCell e.file e.line
  | .line => intText e.line

def heading : Text := rowLine (l.columns.map fun c => c.2.toList)

def rule : Text := rowLine (l.columns.map fun _ => "---".toList)

def row (e : Entry) : Text := rowLine (l.columns.map fun c => l.cell e c.1)

/-- The Markdown table of the entries. -/
def render (entries : List Entry) : Text :=
  ['\n'].intercalate (l.heading :: l.rule :: entries.map l.row)

/-- No cell of the entry holds a bar or a line break. -/
def Renders (e : Entry) : Prop :=
  ∀ f, l.has f = true → '|' ∉ l.cell e f ∧ '\n' ∉ l.cell e f

/-- What is read as the line where it has no column of its own. -/
def LineInFile (e : Entry) : Prop :=
  match colonDigits e.file with
  | some ds => (intOfText ds).getD 0 = e.line
  | none => LineFits e.line

/-- The values that a row gives back. -/
structure Fits (e : Entry) : Prop where
  function_ne : e.function ≠ []
  function_plain : Plain e.function
  file : if l.has .fileLine then FileLineFits e.file e.line else Plain e.file
  line : if l.has .line then LineFits e.line else LineInFile e
  tag : l.tags = .letter → e.tag = .passive
  taints : ∀ t ∈ e.taints, TaintFits l.ticks t

/-- A cell that is taken for the name of a column. -/
def IsHeading (e : Entry) : Prop :=
  ∃ f, l.has f = true ∧ (classify (cleanHeading (trim (l.cell e f)))).isSome = true

def colMap : ColMap := l.columns.map fun c => some c.1

def cells (e : Entry) : List Text := l.columns.map fun c => trim (l.cell e c.1)

end Layout

section Rows

variable {l : Layout} {e : Entry} {f : Field}

theorem has_iff : l.has f = true ↔ ∃ c ∈ l.columns, c.1 = f := by
  rw [Layout.has,List.contains_iff_mem,List.mem_map]

theorem has_fileLine (h : l.has .line = false ∨ l.has .file = false) :
    l.has .fileLine = true := by
  simp only [Layout.has,List.contains_eq_mem,decide_eq_false_iff_not,decide_eq_true_eq] at h ⊢
  rcases h with h | h
  · exact l.line_mem.resolve_left h
  · exact l.file_mem.resolve_left h

/-- The cell below the first column of a field. -/
theorem get_cells : get l.colMap (l.cells e) f = if l.has f then trim (l.cell e f) else [] := by
  rw [get,Layout.colMap,Layout.cells,Layout.has]
  induction l.columns with
  | nil => rfl
  | cons c columns ih =>
    rw [List.map_cons,List.map_cons,List.map_cons,List.zip_cons_cons]
    by_cases hc : c.1 = f
    · rw [List.find?_cons_of_pos (by simp [hc]),List.contains_cons,hc,beq_self_eq_true,Bool.true_or,
        if_pos rfl]
      rfl
    · rw [List.find?_cons_of_neg (by simp [hc]),List.contains_cons,
        beq_eq_false_iff_ne.mpr (Ne.symm hc),Bool.false_or]
      exact ih

theorem parseTag_iff {s : TagStyle} {tag : Tag} :
    parseTag (trim (typeCell s tag)) = tag ↔ (s = .letter → tag = .passive) := by
  cases s <;> cases tag <;> decide

theorem parseFile_iff : parseFile l.colMap (l.cells e) = e.file ↔
    if l.has .fileLine then FileLineFits e.file e.line else Plain e.file := by
  rw [parseFile,get_cells]
  cases hfl : l.has .fileLine with
  | true =>
    rw [if_pos rfl,if_pos rfl]
    have hne : (plain (trim (l.cell e .fileLine))).isEmpty = false := by
      have hcolon : ':' ∈ fileLineCell e.file e.line :=
        List.mem_append_right _ List.mem_cons_self
      have hmem : ':' ∈ plain (trim (fileLineCell e.file e.line)) :=
        mem_trim (mem_removeChars.mpr ⟨mem_trim hcolon (by decide),by decide⟩) (by decide)
      rw [List.isEmpty_eq_false_iff_exists_mem]
      exact ⟨_,hmem⟩
    rw [hne,if_neg Bool.false_ne_true]
    exact fileLineCell_iff
  | false =>
    have hfile : l.has .file = true := by
      by_contra hno
      rw [has_fileLine (.inr (Bool.eq_false_iff.mpr hno))] at hfl
      cases hfl
    rw [if_neg Bool.false_ne_true,if_neg Bool.false_ne_true,get_cells,hfile,if_pos rfl]
    exact plain_trim_iff

theorem contains_line : l.colMap.contains (some .line) = l.has .line := by
  rw [Layout.colMap,Layout.has]
  induction l.columns with
  | nil => rfl
  | cons c columns ih =>
    rw [List.map_cons,List.map_cons,List.contains_cons,List.contains_cons,ih]
    rfl

theorem parseLine_iff (hfile : parseFile l.colMap (l.cells e) = e.file) :
    parseLine l.colMap (l.cells e) = e.line ↔
      if l.has .line then LineFits e.line else Layout.LineInFile e := by
  rw [parseLine,contains_line,get_cells,get_cells]
  cases hline : l.has .line with
  | true =>
    rw [if_pos rfl,if_pos rfl,if_pos rfl]
    exact lineCell_iff
  | false =>
    have hfl : l.has .fileLine = true := has_fileLine (.inl hline)
    rw [parseFile_iff,hfl,if_pos rfl] at hfile
    have hplain : plain (trim (l.cell e .fileLine)) = fileLineCell e.file e.line :=
      plain_fileLineCell hfile.plain
    have hne : (fileLineCell e.file e.line).isEmpty = false := by
      rw [List.isEmpty_eq_false_iff_exists_mem]
      exact ⟨':',List.mem_append_right _ List.mem_cons_self⟩
    rw [if_neg Bool.false_ne_true,if_neg Bool.false_ne_true,hfl,if_pos rfl,hplain,hne,
      if_neg Bool.false_ne_true]
    exact lineOf_fileLineCell hfile

theorem mk_eq_iff {tag : Tag} {file function : Text} {line : ℤ} {taints : List Text} :
    Entry.mk tag file line function taints = e ↔ tag = e.tag ∧ file = e.file ∧ line = e.line ∧
      function = e.function ∧ taints = e.taints := by
  cases e
  exact iff_of_eq (Entry.mk.injEq _ _ _ _ _ _ _ _ _ _)

/-- A row of data gives its entry back iff the values fit. -/
theorem parseEntry_iff : parseEntry l.colMap (l.cells e) = some e ↔ l.Fits e := by
  have hfunction : l.has .function = true := List.contains_iff_mem.mpr l.function_mem
  have htype : l.has .type = true := List.contains_iff_mem.mpr l.type_mem
  have htaints : l.has .taints = true := List.contains_iff_mem.mpr l.taints_mem
  rw [parseEntry,get_cells,get_cells,get_cells,hfunction,htype,htaints,if_pos rfl,if_pos rfl,
    if_pos rfl]
  show (if (plain (trim e.function)).isEmpty = true then none else some (Entry.mk
    (parseTag (trim (typeCell l.tags e.tag))) _ _ (plain (trim e.function))
    (parseTaints (trim (taintsCell l.ticks e.taints))))) = some e ↔ _
  constructor
  · intro h
    split at h
    · cases h
    rename_i hne
    obtain ⟨htag,hfile,hline,hfun,htaints⟩ := mk_eq_iff.mp (Option.some.inj h)
    rw [hfun,List.isEmpty_iff] at hne
    exact ⟨hne,plain_trim_iff.mp hfun,parseFile_iff.mp hfile,(parseLine_iff hfile).mp hline,
      parseTag_iff.mp htag,parseTaints_iff.mp htaints⟩
  · rintro ⟨hne,hplain,hfile,hline,htag,htaintsFit⟩
    have hfile' := parseFile_iff.mpr hfile
    have hne' : ¬e.function.isEmpty = true := by rwa [List.isEmpty_iff]
    rw [plain_trim_iff.mpr hplain,if_neg hne',hfile',(parseLine_iff hfile').mpr hline,parseTag_iff.mpr htag,parseTaints_iff.mpr htaintsFit]

end Rows

/-! ## Lines of the table -/

section Lines

variable {l : Layout} {e : Entry} {cells : List Text}

theorem intercalate_concat_nil {sep : Char} {parts : List Text} (h : parts ≠ []) :
    [sep].intercalate (parts ++ [[]]) = [sep].intercalate parts ++ [sep] := by
  induction parts with
  | nil => exact absurd rfl h
  | cons p parts ih =>
    cases parts with
    | nil => simp [List.intercalate_cons_cons]
    | cons q parts =>
      rw [List.cons_append,List.intercalate_cons_of_ne_nil (by simp),ih (by simp),
        List.intercalate_cons_cons]
      simp

/-- The cells of a rendered line, without the white space at their ends. -/
theorem splitCells_rowLine (h : ∀ c ∈ cells, '|' ∉ c) :
    splitCells (rowLine cells) = some (cells.map trim) := by
  have hparts : ∀ part ∈ [] :: cells.map (fun c => ' ' :: (c ++ [' '])) ++ [[]], '|' ∉ part := by
    intro part hpart
    simp only [List.cons_append,List.mem_cons,List.mem_append,List.mem_map,List.not_mem_nil,
      or_false] at hpart
    rcases hpart with rfl | ⟨c,hc,rfl⟩ | rfl
    · exact List.not_mem_nil
    · simp [h c hc]
    · exact List.not_mem_nil
  have hends : ∃ mid, rowLine cells = '|' :: mid ∧ (rowLine cells).getLast? = some '|' := by
    refine ⟨['|'].intercalate (cells.map (fun c => ' ' :: (c ++ [' '])) ++ [[]]),?_,?_⟩
    · rw [rowLine,List.cons_append,List.intercalate_cons_of_ne_nil (by simp)]
      rfl
    · rw [rowLine,intercalate_concat_nil (by simp),List.getLast?_concat]
  obtain ⟨mid,hmid,hlast⟩ := hends
  have htrim : trim (rowLine cells) = rowLine cells := by
    refine trim_eq_self_iff.mpr ⟨fun c hc => ?_,fun c hc => ?_⟩
    · rw [hmid] at hc
      cases hc
      decide
    · rw [hlast] at hc
      cases hc
      decide
  rw [splitCells,htrim,hmid,List.head?_cons,if_pos rfl,← hmid,rowLine,
    List.splitOn_intercalate '|' hparts (by simp)]
  rw [List.cons_append,List.tail_cons,List.dropLast_concat,List.map_map]
  congr 1
  refine List.map_congr_left fun c hc => ?_
  show trim (' ' :: (c ++ [' '])) = trim c
  rw [trim_space_cons (by decide),trim_concat_space (by decide)]

theorem lowerText_eq (cs : Text) : lowerText cs = cs.flatMap fun c =>
    if c.toNat = 0x212A then ['k']
    else if c.toNat = 0x130 then ['i',Char.ofNat 0x307]
    else [c.toLower] := by
  rw [lowerText,lower,String.toList_ofList,String.toList_ofList]

theorem names_spec (f : Field) : ∀ n ∈ names f, classify (cleanHeading (trim n.toList)) = some f ∧
    isRule (trim n.toList) = false ∧ trim n.toList ≠ [] ∧ '|' ∉ n.toList ∧ '\n' ∉ n.toList := by
  simp only [classify,cleanHeading,lowerText_eq]
  cases f <;> decide +kernel

theorem exists_column (f : Field) (h : l.has f = true) : ∃ c ∈ l.columns, c.1 = f := has_iff.mp h

theorem heading_spec (colMap : ColMap) : parseLineOf colMap l.heading = (l.colMap,none) := by
  obtain ⟨c,hc,-⟩ := exists_column .function (List.contains_iff_mem.mpr l.function_mem)
  have hspec := fun c hc => names_spec c.1 c.2 (l.named c hc)
  have hcells : splitCells l.heading = some (l.columns.map fun c => trim c.2.toList) := by
    rw [Layout.heading,splitCells_rowLine,List.map_map]
    · rfl
    · intro x hx
      obtain ⟨d,hd,rfl⟩ := List.mem_map.mp hx
      exact (hspec d hd).2.2.2.1
  have hmem : trim c.2.toList ∈ l.columns.map fun c => trim c.2.toList := List.mem_map_of_mem hc
  have hsep : isSeparator (l.columns.map fun c => trim c.2.toList) = false := by
    rw [isSeparator,List.all_eq_false]
    refine ⟨trim c.2.toList,List.mem_filter.mpr ⟨hmem,?_⟩,?_⟩
    · simpa using (hspec c hc).2.2.1
    · rw [(hspec c hc).2.1]
      exact Bool.false_ne_true
  have hclassify : ((l.columns.map fun c => trim c.2.toList).map cleanHeading).map classify =
      l.colMap := by
    rw [List.map_map,List.map_map]
    refine List.map_congr_left fun d hd => ?_
    rw [Function.comp_apply,Function.comp_apply]
    exact (hspec d hd).1
  have hany : (((l.columns.map fun c => trim c.2.toList).map cleanHeading).any
      fun h => (classify h).isSome) = true := by
    rw [List.any_eq_true]
    refine ⟨cleanHeading (trim c.2.toList),List.mem_map.mpr ⟨trim c.2.toList,hmem,rfl⟩,?_⟩
    rw [(hspec c hc).1]
    rfl
  have hne : (l.columns.map fun c => trim c.2.toList).isEmpty = false := by
    rw [List.isEmpty_eq_false_iff_exists_mem]
    exact ⟨_,hmem⟩
  simp only [parseLineOf,hcells,hne,hsep,hany,hclassify,Bool.false_eq_true,if_false,if_true]

theorem rule_spec (colMap : ColMap) : parseLineOf colMap l.rule = (colMap,none) := by
  have hcells : splitCells l.rule = some (l.columns.map fun _ => "---".toList) := by
    rw [Layout.rule,splitCells_rowLine,List.map_map]
    · have hrule : trim "---".toList = "---".toList := by
        simp only [String.reduceToList]
        decide
      exact congrArg some (List.map_congr_left fun c hc => hrule)
    · intro x hx
      obtain ⟨d,hd,rfl⟩ := List.mem_map.mp hx
      decide
  have hsep : isSeparator (l.columns.map fun _ => "---".toList) = true := by
    rw [isSeparator,List.all_eq_true]
    intro x hx
    obtain ⟨d,hd,rfl⟩ := List.mem_map.mp (List.mem_filter.mp hx).1
    decide
  simp only [parseLineOf,hcells,hsep,if_true]
  split <;> rfl

/-- The cell of the type keeps a row of data from being a separator. -/
theorem not_isSeparator : isSeparator (l.cells e) = false := by
  obtain ⟨c,hc,hf⟩ := exists_column .type (List.contains_iff_mem.mpr l.type_mem)
  have htype : ∀ s tag, (trim (typeCell s tag)).isEmpty = false ∧
      isRule (trim (typeCell s tag)) = false := by
    intro s tag
    cases s <;> cases tag <;> dsimp only [typeCell,Tag.text,String.reduceToList] <;> decide
  rw [isSeparator,List.all_eq_false]
  have hmem : trim (l.cell e c.1) ∈ l.cells e := List.mem_map.mpr ⟨c,hc,rfl⟩
  refine ⟨trim (l.cell e c.1),List.mem_filter.mpr ⟨hmem,?_⟩,?_⟩
  · rw [hf]
    exact (Bool.not_eq_true' _).mpr (htype l.tags e.tag).1
  · rw [hf]
    exact (Bool.eq_false_iff.mp (htype l.tags e.tag).2)

theorem any_heading_iff : (((l.cells e).map cleanHeading).any fun h => (classify h).isSome) = true ↔
    l.IsHeading e := by
  rw [List.any_eq_true]
  constructor
  · rintro ⟨x,hx,hsome⟩
    obtain ⟨y,hy,rfl⟩ := List.mem_map.mp hx
    obtain ⟨c,hc,rfl⟩ := List.mem_map.mp hy
    exact ⟨c.1,has_iff.mpr ⟨c,hc,rfl⟩,hsome⟩
  · rintro ⟨f,hf,hsome⟩
    obtain ⟨c,hc,rfl⟩ := exists_column f hf
    exact ⟨cleanHeading (trim (l.cell e c.1)),
      List.mem_map.mpr ⟨trim (l.cell e c.1),List.mem_map.mpr ⟨c,hc,rfl⟩,rfl⟩,hsome⟩

/-- A row of data is a heading, or it is read with the columns of the table. -/
theorem row_spec (h : l.Renders e) :
    (l.IsHeading e → ∃ colMap, parseLineOf l.colMap (l.row e) = (colMap,none)) ∧
      (¬l.IsHeading e →
        parseLineOf l.colMap (l.row e) = (l.colMap,parseEntry l.colMap (l.cells e))) := by
  obtain ⟨c,hc,-⟩ := exists_column .function (List.contains_iff_mem.mpr l.function_mem)
  have hcells : splitCells (l.row e) = some (l.cells e) := by
    rw [Layout.row,splitCells_rowLine,List.map_map]
    · rfl
    · intro x hx
      obtain ⟨d,hd,rfl⟩ := List.mem_map.mp hx
      exact (h d.1 (has_iff.mpr ⟨d,hd,rfl⟩)).1
  have hne : (l.cells e).isEmpty = false := by
    rw [List.isEmpty_eq_false_iff_exists_mem]
    exact ⟨trim (l.cell e c.1),List.mem_map.mpr ⟨c,hc,rfl⟩⟩
  have hmap : (l.colMap.all fun f => f.isNone) = false := by
    rw [List.all_eq_false]
    exact ⟨some c.1,List.mem_map.mpr ⟨c,hc,rfl⟩,Bool.false_ne_true⟩
  constructor
  · intro hhead
    simp only [parseLineOf,hcells,hne,not_isSeparator,any_heading_iff.mpr hhead,Bool.false_eq_true,
      if_false,if_true]
    exact ⟨_,rfl⟩
  · intro hhead
    have hany := Bool.eq_false_iff.mpr (fun h => hhead (any_heading_iff.mp h))
    simp only [parseLineOf,hcells,hne,not_isSeparator,hany,hmap,Bool.false_eq_true,if_false]

end Lines

theorem length_parseLines_le (colMap : ColMap) (lines : List Text) :
    (parseLines colMap lines).length ≤ lines.length := by
  induction lines generalizing colMap with
  | nil => exact le_rfl
  | cons line lines ih =>
    have htail := ih (parseLineOf colMap line).1
    have hhead : (parseLineOf colMap line).2.toList.length ≤ 1 := by
      cases (parseLineOf colMap line).2 <;> simp
    rw [parseLines,List.length_append,List.length_cons]
    show (parseLineOf colMap line).2.toList.length + (parseLines _ lines).length ≤ _
    omega

/-- The rows of data give the entries back iff each of them fits and none is a heading. -/
theorem parseLines_rows_iff {l : Layout} {entries : List Entry}
    (h : ∀ e ∈ entries, l.Renders e) :
    parseLines l.colMap (entries.map l.row) = entries ↔
      ∀ e ∈ entries, l.Fits e ∧ ¬l.IsHeading e := by
  induction entries with
  | nil => exact iff_of_true rfl (fun e he => absurd he List.not_mem_nil)
  | cons e entries ih =>
    obtain ⟨he,hentries⟩ := List.forall_mem_cons.mp h
    have ih := ih hentries
    obtain ⟨hhead,hdata⟩ := row_spec he
    rw [List.map_cons,parseLines,List.forall_mem_cons]
    by_cases hheading : l.IsHeading e
    · obtain ⟨colMap,hrow⟩ := hhead hheading
      rw [hrow]
      refine iff_of_false (fun hno => ?_) (fun hno => hno.1.2 hheading)
      have hlen := length_parseLines_le colMap (entries.map l.row)
      have := congrArg List.length hno
      simp only [Option.toList_none,List.nil_append,List.length_cons,List.length_map] at this hlen
      omega
    · rw [hdata hheading]
      cases hentry : parseEntry l.colMap (l.cells e) with
      | none =>
        refine iff_of_false (fun hno => ?_) (fun hno => ?_)
        · have hlen := length_parseLines_le l.colMap (entries.map l.row)
          have := congrArg List.length hno
          simp only [Option.toList_none,List.nil_append,List.length_cons,List.length_map] at this hlen
          omega
        · rw [parseEntry_iff.mpr hno.1.1] at hentry
          cases hentry
      | some e' =>
        show e' :: parseLines l.colMap (entries.map l.row) = e :: entries ↔ _
        rw [List.cons.injEq,ih]
        refine and_congr_left' ⟨fun heq => ⟨?_,hheading⟩,fun hfits => ?_⟩
        · rw [heq] at hentry
          exact parseEntry_iff.mp hentry
        · rw [parseEntry_iff.mpr hfits.1] at hentry
          exact (Option.some.inj hentry).symm

theorem not_mem_rowLine {cells : List Text} (h : ∀ c ∈ cells, '\n' ∉ c) : '\n' ∉ rowLine cells := by
  have hjoin : ∀ parts : List Text, (∀ p ∈ parts, '\n' ∉ p) → '\n' ∉ ['|'].intercalate parts := by
    intro parts hparts
    induction parts with
    | nil => exact List.not_mem_nil
    | cons p parts ih =>
      obtain ⟨hp,hps⟩ := List.forall_mem_cons.mp hparts
      cases parts with
      | nil => rwa [List.intercalate_singleton]
      | cons q parts =>
        rw [List.intercalate_cons_cons]
        simp only [List.mem_append,List.mem_singleton,show ('\n' = '|') = False by decide,or_false]
        exact not_or.mpr ⟨hp,ih hps⟩
  refine hjoin _ fun part hpart => ?_
  simp only [List.cons_append,List.mem_cons,List.mem_append,List.mem_map,List.not_mem_nil,
    or_false] at hpart
  rcases hpart with rfl | ⟨c,hc,rfl⟩ | rfl
  · exact List.not_mem_nil
  · simp [h c hc]
  · exact List.not_mem_nil

theorem parseLines_render {l : Layout} {entries : List Entry} (h : ∀ e ∈ entries, l.Renders e) :
    parseLines [] ((l.render entries).splitOn '\n') =
      parseLines l.colMap (entries.map l.row) := by
  have hlines : ∀ line ∈ l.heading :: l.rule :: entries.map l.row, '\n' ∉ line := by
    intro line hline
    simp only [List.mem_cons,List.mem_map] at hline
    rcases hline with rfl | rfl | ⟨e,he,rfl⟩
    · refine not_mem_rowLine fun c hc => ?_
      obtain ⟨d,hd,rfl⟩ := List.mem_map.mp hc
      exact (names_spec d.1 d.2 (l.named d hd)).2.2.2.2
    · refine not_mem_rowLine fun c hc => ?_
      obtain ⟨d,hd,rfl⟩ := List.mem_map.mp hc
      decide
    · refine not_mem_rowLine fun c hc => ?_
      obtain ⟨d,hd,rfl⟩ := List.mem_map.mp hc
      exact (h e he d.1 (has_iff.mpr ⟨d,hd,rfl⟩)).2
  rw [Layout.render,List.splitOn_intercalate '\n' hlines (List.cons_ne_nil _ _),parseLines,
    heading_spec]
  show parseLines l.colMap (l.rule :: entries.map l.row) = _
  rw [parseLines,rule_spec]
  rfl

/-! ## The path of the JSON -/

/-- The fields of an entry in the list of entries. -/
def entryDict (e : Entry) : List (String × PyJson) :=
  [("tag",.str e.tag.text),("file",.str (String.ofList e.file)),("line",.int e.line),
    ("function",.str (String.ofList e.function)),
    ("taints",.list (e.taints.map fun t => .str (String.ofList t)))]

/-- The same five fields of an item as `generate_functions_list` takes them from the JSON. -/
def flatFields (item : List (String × PyJson)) : Except PyError (List (String × PyJson)) := do
  let rawTag := PyDict.getD item "tag" (.str "")
  let tag ← if isTag rawTag then pure rawTag else do
    let tag ← inferTag item
    pure (.str tag)
  let line := match PyDict.getD item "line" (.int 0) with
    | .int n => .int n
    | .bool b => .bool b
    | _ => .int 0
  pure [("tag",tag),("file",PyDict.getD item "file" (.str "")),("line",line),
    ("function",PyDict.getD item "function" (.str "")),
    ("taints",(field item "taints").or (.list []))]

/-- The five fields of an item of the fallback. -/
def coreFields (item : List (String × PyJson)) : List (String × PyJson) :=
  ["tag","file","line","function","taints"].map fun key => (key,field item key)

theorem flatFields_entryDict (e : Entry) : flatFields (entryDict e) = .ok (entryDict e) := by
  obtain ⟨tag,file,line,function,taints⟩ := e
  cases tag <;> cases taints <;> rfl

theorem coreFields_entryItem (py : PyRuntime) (e : Entry) :
    coreFields (entryItem py e) = entryDict e := by
  show [_,_,_,_,("taints",PyJson.list ((e.taints.map String.ofList).map PyJson.str))] = entryDict e
  rw [List.map_map]
  rfl

theorem entryDict_injective : Function.Injective entryDict := by
  intro a b h
  obtain ⟨tag,file,line,function,taints⟩ := a
  obtain ⟨tag',file',line',function',taints'⟩ := b
  simp only [entryDict,List.cons.injEq,Prod.mk.injEq,true_and,and_true,PyJson.str.injEq,
    PyJson.int.injEq,PyJson.list.injEq,String.ofList_inj] at h
  obtain ⟨htag,rfl,rfl,rfl,htaints⟩ := h
  have hstr : Function.Injective fun t : Text => PyJson.str (String.ofList t) := fun s t hst =>
    String.ofList_injective (PyJson.str.inj hst)
  obtain rfl := List.map_injective_iff.mpr hstr htaints
  have htag : tag = tag' := by
    cases tag <;> cases tag' <;> first | rfl | exact absurd htag (by decide)
  rw [htag]

/-- The table is read as the JSON of its entries is. -/
def SameAsJson (py : PyRuntime) (l : Layout) (entries : List Entry) : Prop :=
  (entries.map entryDict).mapM flatFields =
    .ok ((parseMarkdownFallback py (l.render entries)).map coreFields)

theorem sameAsJson_iff_parseLines (py : PyRuntime) (l : Layout) (entries : List Entry) :
    SameAsJson py l entries ↔ parseLines [] ((l.render entries).splitOn '\n') = entries := by
  have hjson : (entries.map entryDict).mapM flatFields = .ok (entries.map entryDict) := by
    refine mapM_ok_iff.mpr ?_
    rw [List.forall₂_same]
    intro d hd
    obtain ⟨e,he,rfl⟩ := List.mem_map.mp hd
    exact flatFields_entryDict e
  have hcore : (parseMarkdownFallback py (l.render entries)).map coreFields =
      (parseLines [] ((l.render entries).splitOn '\n')).map entryDict := by
    rw [parseMarkdownFallback,List.map_map]
    exact List.map_congr_left fun e he => coreFields_entryItem py e
  rw [SameAsJson,hjson,hcore,Except.ok.injEq]
  constructor
  · intro heq
    exact (List.map_injective_iff.mpr entryDict_injective heq).symm
  · intro heq
    rw [heq]

/-- The fallback equals the path of the JSON exactly where every row fits and none is taken for a
heading. -/
theorem sameAsJson_iff (py : PyRuntime) (l : Layout) (entries : List Entry)
    (h : ∀ e ∈ entries, l.Renders e) :
    SameAsJson py l entries ↔ ∀ e ∈ entries, l.Fits e ∧ ¬l.IsHeading e := by
  rw [sameAsJson_iff_parseLines,parseLines_render h]
  exact parseLines_rows_iff h

/-- A table with the line in a column of its own. -/
def plainLayout : Layout where
  columns := [(.function,"function"),(.type,"入口类型"),(.taints,"taints"),(.file,"file"),
    (.line,"line")]
  tags := .chinese
  ticks := false
  named := by decide
  function_mem := by decide
  type_mem := by decide
  taints_mem := by decide
  file_mem := by decide
  line_mem := by decide

def recvLoop : Entry where
  tag := .active
  file := "loop.c".toList
  line := 505
  function := "recv_loop(int fd)".toList
  taints := ["recv@buf".toList,"len".toList]

theorem recvLoop_sameAsJson : SameAsJson plainRuntime plainLayout [recvLoop] := by
  refine (sameAsJson_iff plainRuntime plainLayout [recvLoop] fun e he => ?_).mpr fun e he => ?_
  · rw [List.mem_singleton.mp he]
    intro f hf
    cases f <;> decide
  · rw [List.mem_singleton.mp he]
    refine ⟨⟨?_,?_,?_,?_,fun h => ?_,?_⟩,?_⟩
    · decide
    · exact ⟨by decide,by decide⟩
    · exact ⟨by decide,by decide⟩
    · show (Nat.toDigits 10 505).length ≤ maxDigits
      decide
    · cases h
    · have htaints : ∀ t ∈ recvLoop.taints, t ≠ [] ∧
          ∀ c ∈ t, c ∉ ticksAndStars ∧ isTaintSeparator c = false := by decide
      exact htaints
    · rintro ⟨f,hf,hhead⟩
      cases f <;> exact absurd hhead (by decide +kernel)

/-- A taint with the name of a column drops its row, and the letter of an active entry is read as
a passive one. -/
theorem table_not_sameAsJson :
    ¬SameAsJson plainRuntime plainLayout [{ recvLoop with taints := ["line".toList] }] ∧
    ¬SameAsJson plainRuntime { plainLayout with tags := .letter } [recvLoop] := by
  refine ⟨fun h => ?_,fun h => ?_⟩
  · exact absurd ((sameAsJson_iff_parseLines _ _ _).mp h) (by decide +kernel)
  · exact absurd ((sameAsJson_iff_parseLines _ _ _).mp h) (by decide +kernel)

end MarkdownFallback
end EntryAnalyse
