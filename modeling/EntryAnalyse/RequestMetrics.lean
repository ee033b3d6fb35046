import Mathlib.Data.String.Basic
import EntryAnalyse.AgentResult

/-! The metrics of the HTTP requests: the counters that each request adds to, and the lines in
which they are exported. -/
namespace EntryAnalyse
namespace Metrics

open Runner

/-! ## Texts -/

/-- `text.replace(old,new)`, for an `old` that is not empty. -/
def replaceChars (old new : List Char) : ℕ → List Char → List Char
  | 0,text => text
  | _ + 1,[] => []
  | fuel + 1,c :: cs =>
    if old.isPrefixOf (c :: cs) then new ++ replaceChars old new fuel ((c :: cs).drop old.length)
    else c :: replaceChars old new fuel cs

def replaceText (old new text : String) : String :=
  String.ofList (replaceChars old.toList new.toList text.toList.length text.toList)

/-- Where `str.splitlines` ends a line. -/
def isLineBoundary (c : Char) : Bool :=
  let n := c.toNat
  (10 ≤ n && n ≤ 13) || (28 ≤ n && n ≤ 30) || n == 0x85 || n == 0x2028 || n == 0x2029

def splitChars : List Char → List (List Char)
  | [] => []
  | [c] => if isLineBoundary c then [[]] else [[c]]
  | c :: c' :: cs =>
    if isLineBoundary c then
      if c = '\r' ∧ c' = '\n' then [] :: splitChars cs else [] :: splitChars (c' :: cs)
    else
      match splitChars (c' :: cs) with
      | [] => [[c]]
      | line :: lines => (c :: line) :: lines

def splitlines (text : String) : List String := (splitChars text.toList).map String.ofList

theorem mem_replaceChars {old new text : List Char} {fuel : ℕ} {c : Char}
    (h : c ∈ replaceChars old new fuel text) : c ∈ new ∨ c ∈ text := by
  induction fuel generalizing text with
  | zero => exact Or.inr h
  | succ fuel ih =>
    cases text with
    | nil => cases h
    | cons d ds =>
      rw [replaceChars] at h
      split at h
      · rcases List.mem_append.mp h with hnew | hrest
        · exact Or.inl hnew
        · rcases ih hrest with hnew | hdrop
          · exact Or.inl hnew
          · exact Or.inr (List.mem_of_mem_drop hdrop)
      · rcases List.mem_cons.mp h with heq | hrest
        · exact Or.inr (List.mem_cons.mpr (Or.inl heq))
        · rcases ih hrest with hnew | hds
          · exact Or.inl hnew
          · exact Or.inr (List.mem_cons_of_mem d hds)

theorem mem_replaceText {old new text : String} {c : Char}
    (h : c ∈ (replaceText old new text).toList) : c ∈ new.toList ∨ c ∈ text.toList := by
  rw [replaceText,String.toList_ofList] at h
  exact mem_replaceChars h

/-- A character that is replaced is gone. -/
theorem not_mem_replaceChars {a : Char} {new text : List Char} (hnew : a ∉ new) {fuel : ℕ}
    (hfuel : text.length ≤ fuel) : a ∉ replaceChars [a] new fuel text := by
  induction fuel generalizing text with
  | zero =>
    rw [List.length_eq_zero_iff.mp (Nat.le_zero.mp hfuel)]
    exact List.not_mem_nil
  | succ fuel ih =>
    cases text with
    | nil => exact List.not_mem_nil
    | cons d ds =>
      have hds : a ∉ replaceChars [a] new fuel ds := ih (Nat.le_of_succ_le_succ hfuel)
      rw [replaceChars]
      split
      · exact fun h => (List.mem_append.mp h).elim hnew hds
      · rename_i hne
        intro h
        rcases List.mem_cons.mp h with heq | hmem
        · rw [heq] at hne
          simp at hne
        · exact hds hmem

/-- No line of a text holds the end of a line. -/
theorem splitChars_clean {text : List Char} :
    ∀ line ∈ splitChars text, ∀ c ∈ line, isLineBoundary c = false := by
  induction text using splitChars.induct with
  | case1 =>
    intro line h
    cases h
  | case2 c hc =>
    intro line h
    rw [splitChars,if_pos hc] at h
    rw [List.mem_singleton.mp h]
    exact fun c' h' => by cases h'
  | case3 c hc =>
    intro line h d hd
    rw [splitChars,if_neg hc] at h
    rw [List.mem_singleton.mp h] at hd
    rw [List.mem_singleton.mp hd]
    exact Bool.eq_false_iff.mpr hc
  | case4 c c' cs hc hne ih =>
    intro line h
    rw [splitChars,if_pos hc,if_pos hne] at h
    rcases List.mem_cons.mp h with rfl | h
    · exact fun d hd => by cases hd
    · exact ih line h
  | case5 c c' cs hc hne ih =>
    intro line h
    rw [splitChars,if_pos hc,if_neg hne] at h
    rcases List.mem_cons.mp h with rfl | h
    · exact fun d hd => by cases hd
    · exact ih line h
  | case6 c c' cs hc hnil ih =>
    intro line h d hd
    rw [splitChars,if_neg hc,hnil] at h
    rw [List.mem_singleton.mp h] at hd
    rw [List.mem_singleton.mp hd]
    exact Bool.eq_false_iff.mpr hc
  | case7 c c' cs hc first rest hcons ih =>
    intro line h d hd
    rw [splitChars,if_neg hc,hcons] at h
    rw [hcons] at ih
    rcases List.mem_cons.mp h with rfl | h
    · rcases List.mem_cons.mp hd with rfl | hd
      · exact Bool.eq_false_iff.mpr hc
      · exact ih first List.mem_cons_self d hd
    · exact ih line (List.mem_cons_of_mem first h) d hd

/-- A line without a boundary stands in front of its end. -/
theorem splitChars_append {line : List Char} (hline : ∀ c ∈ line, isLineBoundary c = false)
    (rest : List Char) : splitChars (line ++ '\n' :: rest) = line :: splitChars rest := by
  have hend : splitChars ('\n' :: rest) = [] :: splitChars rest := by
    cases rest with
    | nil => rfl
    | cons d ds =>
      rw [splitChars,if_pos (by decide),if_neg (fun h => absurd h.1 (by decide))]
  induction line with
  | nil => exact hend
  | cons c cs ih =>
    have hc := hline c List.mem_cons_self
    have ih := ih fun d hd => hline d (List.mem_cons_of_mem c hd)
    cases cs with
    | nil =>
      rw [List.cons_append,List.nil_append,splitChars,if_neg (by simp [hc]),hend]
    | cons d ds =>
      rw [List.cons_append,List.cons_append,splitChars,if_neg (by simp [hc])]
      rw [List.cons_append] at ih
      rw [ih]

/-- Lines without boundaries are read back one by one. -/
theorem splitlines_join {lines : List String}
    (h : ∀ line ∈ lines, ∀ c ∈ line.toList, isLineBoundary c = false) :
    splitlines (String.join (lines.map (· ++ "\n"))) = lines := by
  rw [splitlines,String.toList_join]
  induction lines with
  | nil => rfl
  | cons line lines ih =>
    have hcons : ((line :: lines).map (· ++ "\n")).flatMap String.toList =
        line.toList ++ '\n' :: (lines.map (· ++ "\n")).flatMap String.toList := by
      simp
    rw [hcons,splitChars_append (h line List.mem_cons_self),List.map_cons,String.ofList_toList,
      ih fun l hl => h l (List.mem_cons_of_mem line hl)]

/-! ## Routes -/

def isHex (c : Char) : Bool :=
  ('0' ≤ c && c ≤ '9') || ('a' ≤ c && c ≤ 'f') || ('A' ≤ c && c ≤ 'F')

/-- A whole segment of a path that `_PATH_ID_SEGMENT_RE` takes for an identifier. -/
def isIdSegment (segment : List Char) : Bool :=
  (!segment.isEmpty && segment.all fun c => (digitValue c).isSome) ||
    (8 ≤ segment.length && segment.all isHex) ||
    (36 ≤ segment.length && (segment.take 8).all isHex && segment[8]? == some '-' &&
      (segment.drop 9).all fun c => isHex c || c == '-')

/-- The path in front of the first slash is left as it is. -/
def normalizeHttpRoute (path : String) : String :=
  let stripped := strip path
  let raw := if stripped = "" then "/" else stripped
  match raw.toList.splitOn '/' with
  | [] => ""
  | first :: segments =>
    String.ofList (first ++ segments.flatMap fun segment =>
      if isIdSegment segment then "/{id}".toList else '/' :: segment)

def httpStatusClass (statusCode : ℤ) : String :=
  let code := if statusCode = 0 then 500 else statusCode
  if code < 0 then "cancelled" else toString (code / 100) ++ "xx"

/-! ## The counters -/

/-- `_HTTP_DURATION_BUCKETS`. -/
def httpDurationBuckets : List ℚ :=
  [1/200,1/100,1/40,1/20,1/10,1/4,1/2,1,5/2,5,10,30,60]

/-- The arithmetic of doubles, from the rounding of an exact result. -/
structure FloatArith where
  round : ℚ → PyFloat

end Metrics

namespace PyFloat

open Metrics

/-- `x <= y`. -/
def le : PyFloat → PyFloat → Bool
  | .finite p,.finite q => p ≤ q
  | .negInf,.finite _ | .negInf,.negInf | .negInf,.posInf => true
  | .finite _,.posInf | .posInf,.posInf => true
  | _,_ => false

/-- `x < y`. -/
def lt (x y : PyFloat) : Bool := x.le y && !y.le x

def add (arith : FloatArith) : PyFloat → PyFloat → PyFloat
  | .finite p,.finite q => arith.round (p + q)
  | .nan,_ | _,.nan => .nan
  | .posInf,.negInf | .negInf,.posInf => .nan
  | .posInf,_ | _,.posInf => .posInf
  | .negInf,_ | _,.negInf => .negInf

end PyFloat

namespace Metrics

/-- The labels of `secflow_entry_analyse_http_requests_total`. -/
structure TotalKey where
  method : String
  route : String
  statusClass : String
  statusCode : String
  deriving DecidableEq

structure DurationKey where
  method : String
  route : String
  deriving DecidableEq

structure DurationRow where
  key : DurationKey
  count : ℕ
  sum : PyFloat
  buckets : List ℕ

/-- `_HTTP_REQUEST_TOTAL`, `_HTTP_REQUEST_DURATION` and `_HTTP_REQUEST_INFLIGHT`. -/
structure RequestMetrics where
  totals : List (TotalKey × ℕ)
  durations : List DurationRow
  inflight : List (DurationKey × ℤ)

def RequestMetrics.empty : RequestMetrics := ⟨[],[],[]⟩

/-- The arguments of `observe_http_request`. -/
structure Request where
  method : String
  path : String
  statusCode : ℤ
  duration : PyFloat

section Observe

variable (upper : String → String) (arith : FloatArith)

def Request.totalKey (r : Request) : TotalKey :=
  ⟨upper r.method,normalizeHttpRoute r.path,httpStatusClass r.statusCode,toString r.statusCode⟩

def Request.durationKey (r : Request) : DurationKey :=
  ⟨upper r.method,normalizeHttpRoute r.path⟩

/-- `totals[key] += 1` of a `defaultdict(int)`. -/
def addTotal (key : TotalKey) : List (TotalKey × ℕ) → List (TotalKey × ℕ)
  | [] => [(key,1)]
  | (k,n) :: rows => if k = key then (k,n + 1) :: rows else (k,n) :: addTotal key rows

/-- `max(0.0,x)`: a comparison with `nan` is false. -/
def maxZero (x : PyFloat) : PyFloat := if (PyFloat.finite 0).lt x then x else .finite 0

/-- Each bucket whose bound the duration does not exceed is raised. -/
def raiseBuckets (duration : PyFloat) (buckets : List ℕ) : List ℕ :=
  List.zipWith (fun bound n => if duration.le (.finite bound) then n + 1 else n)
    httpDurationBuckets buckets

def DurationRow.observe (duration : PyFloat) (row : DurationRow) : DurationRow :=
  { row with
    count := row.count + 1
    sum := row.sum.add arith (maxZero duration)
    buckets := raiseBuckets duration row.buckets }

def DurationRow.new (key : DurationKey) : DurationRow :=
  ⟨key,0,.finite 0,List.replicate 13 0⟩

def addDuration (key : DurationKey) (duration : PyFloat) : List DurationRow → List DurationRow
  | [] => [(DurationRow.new key).observe arith duration]
  | row :: rows =>
    if row.key = key then row.observe arith duration :: rows
    else row :: addDuration key duration rows

def observeHttpRequest (m : RequestMetrics) (r : Request) : RequestMetrics :=
  { m with
    totals := addTotal (r.totalKey upper) m.totals
    durations := addDuration arith (r.durationKey upper) r.duration m.durations }

/-- The number does not fall below zero. -/
def addInflight (key : DurationKey) (delta : ℤ) : List (DurationKey × ℤ) → List (DurationKey × ℤ)
  | [] => [(key,max 0 delta)]
  | (k,n) :: rows =>
    if k = key then (k,max 0 (n + delta)) :: rows else (k,n) :: addInflight key delta rows

def observeHttpRequestInflight (m : RequestMetrics) (method route : String) (delta : ℤ) :
    RequestMetrics :=
  let key : DurationKey :=
    ⟨upper (if method = "" then "GET" else method),normalizeHttpRoute route⟩
  { m with inflight := addInflight key delta m.inflight }

/-- The counters after a sequence of requests. -/
def observeAll (requests : List Request) : RequestMetrics :=
  requests.foldl (observeHttpRequest upper arith) .empty

end Observe

/-! ## The lines -/

def escapeLabel (value : String) : String :=
  replaceText "\"" "\\\"" (replaceText "\n" "\\n" (replaceText "\\" "\\\\" value))

def labels (pairs : List (String × String)) : String :=
  if pairs.isEmpty then ""
  else "\x7b" ++ ",".intercalate (pairs.map fun p => p.1 ++ "=\"" ++ escapeLabel p.2 ++ "\"") ++
    "\x7d"

/-- The nearest integer; of two, the even one. -/
def roundHalfEven (x : ℚ) : ℤ :=
  let low := ⌊x⌋
  if x - low < 1/2 then low
  else if 1/2 < x - low then low + 1
  else if low % 2 = 0 then low else low + 1

def padLeft (width : ℕ) (digits : String) : String :=
  String.ofList (List.replicate (width - digits.toList.length) '0') ++ digits

/-- A number of millionths with its point. -/
def fmtMillionths (sign : String) (n : ℕ) : String :=
  sign ++ toString (n / 1000000) ++ "." ++ padLeft 6 (toString (n % 1000000))

/-- `f"{x:.6f}"`. -/
def fmt : PyFloat → String
  | .finite q =>
    fmtMillionths (if q < 0 then "-" else "") (roundHalfEven (|q| * 1000000)).toNat
  | .posInf => "inf"
  | .negInf => "-inf"
  | .nan => "nan"

def TotalKey.le (a b : TotalKey) : Bool :=
  [a.method,a.route,a.statusClass,a.statusCode] ≤ [b.method,b.route,b.statusClass,b.statusCode]

def DurationKey.le (a b : DurationKey) : Bool := [a.method,a.route] ≤ [b.method,b.route]

/-- `cumulative` at each bound. -/
def cumulate : ℕ → List ℕ → List ℕ
  | _,[] => []
  | total,n :: buckets => (total + n) :: cumulate (total + n) buckets

/-- The samples `_bucket` of one row: each bound with its value. -/
def DurationRow.samples (row : DurationRow) : List (ℚ × ℕ) :=
  httpDurationBuckets.zip (cumulate 0 row.buckets)

def totalLine (p : TotalKey × ℕ) : String :=
  "secflow_entry_analyse_http_requests_total" ++
    labels [("method",p.1.method),("route",p.1.route),("status_class",p.1.statusClass),
      ("status_code",p.1.statusCode)] ++ " " ++ toString p.2

def DurationRow.bucketLine (row : DurationRow) (sample : ℚ × ℕ) : String :=
  "secflow_entry_analyse_http_request_duration_seconds_bucket" ++
    labels [("method",row.key.method),("route",row.key.route),("le",fmt (.finite sample.1))] ++
    " " ++ toString sample.2

def DurationRow.lines (row : DurationRow) : List String :=
  let l := labels [("method",row.key.method),("route",row.key.route)]
  row.samples.map row.bucketLine ++
    ["secflow_entry_analyse_http_request_duration_seconds_sum" ++ l ++ " " ++ fmt row.sum,
      "secflow_entry_analyse_http_request_duration_seconds_count" ++ l ++ " " ++
        toString row.count]

def helpLines : List String :=
  ["# HELP secflow_entry_analyse_http_requests_total Total normalized HTTP requests observed " ++
      "by this process.",
    "# TYPE secflow_entry_analyse_http_requests_total counter",
    "# HELP secflow_entry_analyse_http_request_duration_seconds Normalized HTTP request " ++
      "duration in seconds.",
    "# TYPE secflow_entry_analyse_http_request_duration_seconds histogram",
    "# HELP secflow_entry_analyse_http_request_inflight Current inflight HTTP requests.",
    "# TYPE secflow_entry_analyse_http_request_inflight gauge"]

def inflightLine (p : DurationKey × ℤ) : String :=
  "secflow_entry_analyse_http_request_inflight" ++
    labels [("method",p.1.method),("route",p.1.route)] ++ " " ++ toString p.2

/-- `_render_request_metrics`. -/
def renderRequestMetrics (m : RequestMetrics) : List String :=
  helpLines ++ (m.totals.insertionSort fun a b => a.1.le b.1).map totalLine ++
    (m.durations.insertionSort fun a b => a.key.le b.key).flatMap DurationRow.lines ++
    (m.inflight.insertionSort fun a b => a.1.le b.1).map inflightLine

/-- The text that is exported: each line with its end. -/
def render (m : RequestMetrics) : String :=
  String.join ((renderRequestMetrics m).map (· ++ "\n"))

/-! ## Lines stay whole -/

def Unbroken (s : String) : Prop := ∀ c ∈ s.toList, isLineBoundary c = false

/-- A label that breaks no line once it is escaped. -/
def Clean (s : String) : Prop := ∀ c ∈ s.toList, isLineBoundary c = true → c = '\n'

-- Named, since characters are finitely many and a search over all of them would be found first.
instance (s : String) : Decidable (Unbroken s) :=
  List.decidableBAll (fun c => isLineBoundary c = false) s.toList

instance (s : String) : Decidable (Clean s) :=
  List.decidableBAll (fun c => isLineBoundary c = true → c = '\n') s.toList

theorem Unbroken.clean {s : String} (h : Unbroken s) : Clean s := by
  intro c hc hb
  rw [h c hc] at hb
  cases hb

/-- A literal is checked as the list of its characters. -/
theorem all_ofList {p : Char → Bool} {l : List Char} (h : l.all p = true) :
    ∀ c ∈ (String.ofList l).toList, p c = true := by
  rw [String.toList_ofList]
  exact List.all_eq_true.mp h

theorem unbroken_ofList {l : List Char} (h : (l.all fun c => !isLineBoundary c) = true) :
    Unbroken (String.ofList l) := by
  intro c hc
  simpa using all_ofList h c hc

theorem unbroken_append {s t : String} (hs : Unbroken s) (ht : Unbroken t) : Unbroken (s ++ t) := by
  intro c hc
  rw [String.toList_append] at hc
  exact (List.mem_append.mp hc).elim (hs c) (ht c)

theorem isLineBoundary_digit {c : Char} (h : c.isDigit = true) : isLineBoundary c = false := by
  have hc : 48 ≤ c.toNat ∧ c.toNat ≤ 57 := by
    simp only [Char.isDigit,Bool.and_eq_true,decide_eq_true_eq] at h
    exact ⟨h.1,h.2⟩
  simp only [isLineBoundary,Bool.or_eq_false_iff,Bool.and_eq_false_iff,decide_eq_false_iff_not,
    beq_eq_false_iff_ne]
  omega

theorem unbroken_nat (n : ℕ) : Unbroken (toString n) := by
  intro c hc
  have hc : c ∈ Nat.toDigits 10 n := by
    rw [← Nat.toList_repr]
    exact hc
  exact isLineBoundary_digit (Nat.isDigit_of_mem_toDigits (by decide) (by decide) hc)

theorem unbroken_int (i : ℤ) : Unbroken (toString i) := by
  cases i with
  | ofNat n => exact unbroken_nat n
  | negSucc n =>
    have hsign : Unbroken "-" := by decide
    have heq : toString (Int.negSucc n) = "-" ++ toString (n + 1) := rfl
    rw [heq]
    exact unbroken_append hsign (unbroken_nat (n + 1))

theorem unbroken_padLeft (width : ℕ) {s : String} (hs : Unbroken s) : Unbroken (padLeft width s) := by
  refine unbroken_append ?_ hs
  intro c hc
  rw [String.toList_ofList] at hc
  rw [List.eq_of_mem_replicate hc]
  decide

theorem unbroken_fmtMillionths {sign : String} (hsign : Unbroken sign) (n : ℕ) :
    Unbroken (fmtMillionths sign n) := by
  have hpoint : Unbroken "." := by decide
  unfold fmtMillionths
  exact unbroken_append (unbroken_append (unbroken_append hsign (unbroken_nat _)) hpoint)
    (unbroken_padLeft 6 (unbroken_nat _))

theorem unbroken_fmt (x : PyFloat) : Unbroken (fmt x) := by
  cases x with
  | finite q =>
    rw [fmt]
    apply unbroken_fmtMillionths
    split <;> decide
  | posInf => decide
  | negInf => decide
  | nan => decide

theorem unbroken_escapeLabel {value : String} (h : Clean value) : Unbroken (escapeLabel value) := by
  intro c hc
  by_contra hb
  have hb : isLineBoundary c = true := Bool.not_eq_false _ ▸ hb
  have hnot : ∀ s : String, Unbroken s → c ∉ s.toList := by
    intro s hs hmem
    rw [hs c hmem] at hb
    cases hb
  have hinner := (mem_replaceText hc).resolve_left (hnot _ (by decide))
  have hvalue := (mem_replaceText ((mem_replaceText hinner).resolve_left
    (hnot _ (by decide)))).resolve_left (hnot _ (by decide))
  have hc := h c hvalue hb
  rw [hc,replaceText,String.toList_ofList] at hinner
  exact not_mem_replaceChars (by decide) (Nat.le_refl _) hinner

theorem mem_intercalate {α : Type} {sep : List α} {parts : List (List α)} {c : α}
    (h : c ∈ sep.intercalate parts) : c ∈ sep ∨ ∃ part ∈ parts, c ∈ part := by
  induction parts with
  | nil => cases h
  | cons part parts ih =>
    cases parts with
    | nil =>
      rw [List.intercalate_singleton] at h
      exact Or.inr ⟨part,List.mem_cons_self,h⟩
    | cons part' parts =>
      rw [List.intercalate_cons_cons] at h
      rcases List.mem_append.mp h with h | h
      · rcases List.mem_append.mp h with h | h
        · exact Or.inr ⟨part,List.mem_cons_self,h⟩
        · exact Or.inl h
      · rcases ih h with h | ⟨x,hx,hcx⟩
        · exact Or.inl h
        · exact Or.inr ⟨x,List.mem_cons_of_mem part hx,hcx⟩

theorem unbroken_labels {pairs : List (String × String)}
    (h : ∀ p ∈ pairs, Unbroken p.1 ∧ Clean p.2) : Unbroken (labels pairs) := by
  unfold labels
  split
  · decide
  · refine unbroken_append (unbroken_append (by decide) ?_) (by decide)
    intro c hc
    rw [String.toList_intercalate] at hc
    rcases mem_intercalate hc with hc | ⟨part,hpart,hc⟩
    · have hcomma : Unbroken "," := by decide
      exact hcomma c hc
    · obtain ⟨s,hs,rfl⟩ := List.mem_map.mp hpart
      obtain ⟨p,hp,rfl⟩ := List.mem_map.mp hs
      have hs : Unbroken (p.1 ++ "=\"" ++ escapeLabel p.2 ++ "\"") :=
        unbroken_append (unbroken_append (unbroken_append (h p hp).1 (by decide))
          (unbroken_escapeLabel (h p hp).2)) (by decide)
      exact hs c hc

theorem unbroken_statusClass (code : ℤ) : Unbroken (httpStatusClass code) := by
  have hxx : Unbroken "xx" := by decide
  unfold httpStatusClass
  dsimp only
  generalize (if code = 0 then 500 else code) = n
  by_cases hn : n < 0
  · rw [if_pos hn]
    decide
  · rw [if_neg hn]
    exact unbroken_append (unbroken_int _) hxx

end Metrics
end EntryAnalyse
