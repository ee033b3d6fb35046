import EntryAnalyse.RequestMetrics

/-! The reader of the exported metrics, and its summary of the HTTP requests by route. -/
namespace EntryAnalyse

namespace PyFloat

open Metrics

variable (arith : FloatArith)

def neg : PyFloat → PyFloat
  | .finite q => .finite (-q)
  | .posInf => .negInf
  | .negInf => .posInf
  | .nan => .nan

def sub (x y : PyFloat) : PyFloat := x.add arith y.neg

def isPos (x : PyFloat) : Bool := (PyFloat.finite 0).lt x

def mul : PyFloat → PyFloat → PyFloat
  | .finite p,.finite q => arith.round (p * q)
  | .nan,_ | _,.nan => .nan
  | x,y =>
    if x = .finite 0 ∨ y = .finite 0 then .nan
    else if x.isPos = y.isPos then .posInf else .negInf

/-- `x / y`, for a `y` that is not zero. -/
def div : PyFloat → PyFloat → PyFloat
  | .finite p,.finite q => arith.round (p / q)
  | .nan,_ | _,.nan => .nan
  | .finite _,_ => .finite 0
  | x,.finite q => if 0 < q then x else x.neg
  | _,_ => .nan

end PyFloat

namespace Metrics

open Runner

/-! ## The reader -/

structure MetricRow where
  name : String
  familyName : String
  labels : List (String × String)
  value : PyFloat

def isNameStart (c : Char) : Bool :=
  ('a' ≤ c && c ≤ 'z') || ('A' ≤ c && c ≤ 'Z') || c == '_'

def isLabelPart (c : Char) : Bool := isNameStart c || ('0' ≤ c && c ≤ '9')

def isMetricStart (c : Char) : Bool := isNameStart c || c == ':'

def isMetricPart (c : Char) : Bool := isLabelPart c || c == ':'

/-- `\s+([^\s]+)(?:\s+\d+)?$`: the text of the value. -/
def matchValue (text : List Char) : Option (List Char) :=
  match text with
  | [] => none
  | c :: cs =>
    if pyIsSpace c then
      let body := cs.dropWhile pyIsSpace
      let value := body.takeWhile fun c => !pyIsSpace c
      let stamp := (body.dropWhile fun c => !pyIsSpace c).dropWhile pyIsSpace
      if value.isEmpty then none
      else if (body.dropWhile fun c => !pyIsSpace c).isEmpty then some value
      else if !stamp.isEmpty && stamp.all fun c => (digitValue c).isSome then some value
      else none
    else none

/-- `(\{.*\})` and what follows, for the last brace that leaves a value. -/
def matchLabels : List Char → Option (List Char × List Char)
  | [] => none
  | c :: cs =>
    match matchLabels cs with
    | some (front,value) => some (c :: front,value)
    | none => if c = '\x7d' then (matchValue cs).map fun value => ([c],value) else none

/-- The groups of `_METRIC_RE`. -/
def matchMetric (line : List Char) : Option (List Char × List Char × List Char) :=
  match line with
  | [] => none
  | c :: _ =>
    if isMetricStart c then
      let name := line.takeWhile isMetricPart
      match line.dropWhile isMetricPart with
      | '\x7b' :: rest => (matchLabels rest).map fun p => (name,'\x7b' :: p.1,p.2)
      | rest => (matchValue rest).map fun value => (name,[],value)
    else none

/-- The value of a label up to its closing quote, and what follows. -/
def matchQuoted : List Char → Option (List Char × List Char)
  | [] => none
  | ['\\'] => none
  | '\\' :: c :: cs =>
    if c = '\n' then none else (matchQuoted cs).map fun p => ('\\' :: c :: p.1,p.2)
  | '"' :: cs => some ([],cs)
  | c :: cs => (matchQuoted cs).map fun p => (c :: p.1,p.2)

/-- A match of `_LABEL_RE` at the start. -/
def matchLabel (text : List Char) : Option (List Char × List Char × List Char) :=
  match text with
  | [] => none
  | c :: _ =>
    if isNameStart c then
      match text.dropWhile isLabelPart with
      | '=' :: '"' :: rest => (matchQuoted rest).map fun p => (text.takeWhile isLabelPart,p.1,p.2)
      | _ => none
    else none

/-- `_LABEL_RE.findall`. -/
def findLabels : ℕ → List Char → List (List Char × List Char)
  | 0,_ => []
  | _ + 1,[] => []
  | fuel + 1,c :: cs =>
    match matchLabel (c :: cs) with
    | some (key,value,rest) => (key,value) :: findLabels fuel rest
    | none => findLabels fuel cs

def unescape (value : String) : String :=
  replaceText "\\n" "\n" (replaceText "\\\"" "\"" (replaceText "\\\\" "\\" value))

def endsWith (text suffix : String) : Bool := decide (suffix.toList <:+ text.toList)

def dropEnd (text suffix : String) : String :=
  String.ofList (text.toList.take (text.toList.length - suffix.toList.length))

def familyName (name : String) : String :=
  match ["_bucket","_sum","_count","_total"].find? (endsWith name) with
  | some suffix => dropEnd name suffix
  | none => name

section Parse

variable (py : PyRuntime)

def parseLine (rawLine : String) : Option MetricRow :=
  let line := strip rawLine
  if line = "" || line.toList.head? = some '#' then none
  else do
    let (name,labelsRaw,valueRaw) ← matchMetric line.toList
    let value ← py.floatOfStr (String.ofList valueRaw)
    let labels := (findLabels labelsRaw.length labelsRaw).map fun p =>
      (String.ofList p.1,unescape (String.ofList p.2))
    some ⟨String.ofList name,familyName (String.ofList name),labels,value⟩

/-- `parse_prometheus_metrics`. -/
def parsePrometheusMetrics (text : String) : List MetricRow :=
  (splitlines text).filterMap (parseLine py)

end Parse

/-- `labels.get(key)`: of two labels with one name the last counts. -/
def MetricRow.get (row : MetricRow) (key : String) : Option String := row.labels.reverse.lookup key

/-- `labels.get(key) or labels.get(other)`. -/
def orElse (a b : Option String) : Option String := if a = none ∨ a = some "" then b else a

/-! ## The summary -/

/-- The fields of one row of the summary. -/
structure RestRow where
  route : String
  method : String
  requestCount : PyFloat := .finite 0
  avgSeconds : Option PyFloat := none
  p50Seconds : Option PyFloat := none
  p95Seconds : Option PyFloat := none
  p99Seconds : Option PyFloat := none
  approxMaxSeconds : Option PyFloat := none
  status2xx : PyFloat := .finite 0
  status4xx : PyFloat := .finite 0
  status5xx : PyFloat := .finite 0
  inflight : PyFloat := .finite 0

section Summary

variable (py : PyRuntime) (arith : FloatArith)

def labelsMatch (row : MetricRow) (expected : List (String × String)) : Bool :=
  expected.all fun p => row.get p.1 = some p.2

def sumMetric (rows : List MetricRow) (p : MetricRow → Bool) : PyFloat :=
  (rows.filter p).foldl (fun total row => total.add arith row.value) (.finite 0)

def histogramAverage (rows : List MetricRow) (family : String)
    (expected : List (String × String)) : Option PyFloat :=
  let sumValue := sumMetric arith rows fun row =>
    row.familyName = family && endsWith row.name "_sum" && labelsMatch row expected
  let countValue := sumMetric arith rows fun row =>
    row.familyName = family && endsWith row.name "_count" && labelsMatch row expected
  if countValue.le (.finite 0) then none else some (sumValue.div arith countValue)

/-- The bound of a sample. -/
def upperBound (row : MetricRow) : Except PyError PyFloat :=
  match row.get "le" with
  | none | some "" => .ok (.finite 0)
  | some "+Inf" => .ok .posInf
  | some le =>
    match py.floatOfStr le with
    | some x => .ok x
    | none => .error .valueError

/-- The loop of `histogram_quantile`. -/
def quantileAt (target : PyFloat) : PyFloat → PyFloat → List (PyFloat × PyFloat) → Option PyFloat
  | _,_,[] => none
  | previousUpper,previousCount,(upper,count) :: buckets =>
    if target.le count then
      if upper = .posInf ∨ upper = .negInf then some previousUpper
      else
        let bucketCount := count.sub arith previousCount
        if bucketCount.le (.finite 0) then some upper
        else
          let offset := (target.sub arith previousCount).div arith bucketCount
          some (previousUpper.add arith ((upper.sub arith previousUpper).mul arith offset))
    else
      quantileAt target (if upper = .posInf ∨ upper = .negInf then previousUpper else upper) count
        buckets

def histogramQuantile (rows : List MetricRow) (family : String) (quantile : PyFloat)
    (expected : List (String × String)) : Except PyError (Option PyFloat) := do
  let samples := rows.filter fun row =>
    row.familyName = family && endsWith row.name "_bucket" && labelsMatch row expected
  let buckets ← samples.mapM fun row => do pure (← upperBound py row,row.value)
  let sorted := buckets.insertionSort fun a b => !b.1.lt a.1
  match sorted.getLast? with
  | none => pure none
  | some (_,total) =>
    if total.le (.finite 0) then pure none
    else pure (quantileAt arith (total.mul arith quantile) (.finite 0) (.finite 0) sorted)

/-- The families in which the summary looks for durations. -/
def durationFamilies : List String :=
  ["http_request_duration_seconds","api_request_duration_seconds",
    "secflow_http_request_duration_seconds","secflow_api_request_duration_seconds"]

/-- `first_non_null` of a quantile over the families. -/
def firstQuantile (rows : List MetricRow) (quantile : PyFloat) (expected : List (String × String)) :
    Except PyError (Option PyFloat) := do
  let values ← durationFamilies.mapM fun family =>
    histogramQuantile py arith rows family quantile expected
  pure (values.findSome? id)

/-- The greatest of the values that there are. -/
def maxOf (values : List (Option PyFloat)) : Option PyFloat :=
  values.foldl (fun best v =>
    match best,v with
    | none,v => v
    | some b,none => some b
    | some b,some v => if b.lt v then some v else some b) none

def isCounter (name : String) : Bool :=
  endsWith name "_requests_total" || endsWith name "_request_total" ||
    endsWith name "_requests_count"

def startsWith (text front : String) : Bool := decide (front.toList <+: text.toList)

/-- What one sample adds to the row of its route. -/
def RestRow.count (item : RestRow) (row : MetricRow) : RestRow :=
  let status := (orElse (row.get "status") (orElse (row.get "status_code") (row.get "code"))).getD ""
  let counted :=
    if isCounter row.name then
      let item := { item with requestCount := item.requestCount.add arith row.value }
      if startsWith status "2" then { item with status2xx := item.status2xx.add arith row.value }
      else if startsWith status "4" then
        { item with status4xx := item.status4xx.add arith row.value }
      else if startsWith status "5" then
        { item with status5xx := item.status5xx.add arith row.value }
      else item
    else item
  if containsText row.name "inflight" || containsText row.name "in_progress" ||
      containsText row.name "running_requests" then
    { counted with inflight := counted.inflight.add arith row.value }
  else counted

/-- The route and the method of a sample that the summary takes up. -/
def MetricRow.routeKey (row : MetricRow) : Option (String × String) :=
  if containsText row.name "http" || containsText row.name "api" then
    match orElse (row.get "route") (row.get "path") with
    | none | some "" => none
    | some route =>
      some (((orElse (row.get "method") (orElse (row.get "http_method") none)).getD "ALL"),route)
  else none

/-- The row of a route, a new one where there is none, takes the sample up. -/
def countRow (key : String × String) (row : MetricRow) : List RestRow → List RestRow
  | [] => [RestRow.count arith { route := key.2, method := key.1 } row]
  | item :: items =>
    if item.method = key.1 ∧ item.route = key.2 then item.count arith row :: items
    else item :: countRow key row items

def takeUp (items : List RestRow) (row : MetricRow) : List RestRow :=
  match row.routeKey with
  | none => items
  | some key => countRow arith key row items

def routeMap (rows : List MetricRow) : List RestRow := rows.foldl (takeUp arith) []

/-- The durations of one row. -/
def RestRow.withDurations (rows : List MetricRow) (item : RestRow) : Except PyError RestRow := do
  let expected := [("route",item.route),("method",item.method)]
  let avgSeconds := durationFamilies.findSome? fun family =>
    histogramAverage arith rows family expected
  let p50 ← firstQuantile py arith rows (.finite (1/2)) expected
  let p95 ← firstQuantile py arith rows (arith.round (95/100)) expected
  let p99 ← firstQuantile py arith rows (arith.round (99/100)) expected
  pure { item with
    avgSeconds := avgSeconds
    p50Seconds := p50
    p95Seconds := p95
    p99Seconds := p99
    approxMaxSeconds := maxOf [avgSeconds,p95,p99] }

/-- `a` does not come behind `b` when the rows are sorted by their keys, the greatest first. -/
def RestRow.notBehind (a b : RestRow) : Bool :=
  let p (item : RestRow) := item.p95Seconds.getD (.finite 0)
  if p a = p b then !(a.requestCount.lt b.requestCount) else !((p a).lt (p b))

/-- The rows of `build_rest_api_summary`. -/
def buildRestApiSummary (rows : List MetricRow) : Except PyError (List RestRow) := do
  let items ← (routeMap arith rows).mapM (RestRow.withDurations py arith rows)
  pure (items.insertionSort fun a b => a.notBehind b)

end Summary

end Metrics
end EntryAnalyse
