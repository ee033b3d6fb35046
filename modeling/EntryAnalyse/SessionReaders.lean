import EntryAnalyse.PyJson

/-! The two readers of a session file: the one that parses every line, and the one of the session
index, which counts the lines and parses the first and the last of them. -/
namespace EntryAnalyse
namespace SessionReaders

/-- What `json.loads` makes of a text. It raises other exceptions than `JSONDecodeError` too, for
texts that nest too deep and integers of too many digits. -/
inductive Loaded
  | value (v : PyJson) | malformed | raises

structure Json where
  loads : String → Loaded
  loads_empty : loads "" = .malformed

/-! ## Lines -/

/-- The line ends of a text file are all read as `\n`. -/
def universalNewlines : List Char → List Char
  | [] => []
  | '\r' :: '\n' :: cs => '\n' :: universalNewlines cs
  | '\r' :: cs => '\n' :: universalNewlines cs
  | c :: cs => c :: universalNewlines cs

def keepLines : List Char → List (List Char)
  | [] => []
  | c :: cs =>
    if c = '\n' then [c] :: keepLines cs
    else
      match keepLines cs with
      | [] => [[c]]
      | line :: lines => (c :: line) :: lines

/-- The lines that both readers iterate over. -/
def readlines (text : String) : List String :=
  (keepLines (universalNewlines text.toList)).map String.ofList

/-! ## The full reader -/

abbrev Dict := List (String × PyJson)

structure Reading where
  sessionMeta : Dict := []
  events : List Dict := []
  warnings : List String := []
  lineCount : ℕ := 0

/-- `text[:200]`. -/
def clip (text : String) : String := String.ofList (text.toList.take 200)

def parseMessagePart (py : PyRuntime) (item : Dict) : PyJson :=
  match PyDict.getD item "type" (.str "") with
  | .str "text" => .dict [("type",.str "text"),("text",PyDict.getD item "text" (.str ""))]
  | .str "thinking" =>
    .dict [("type",.str "thinking"),("text",PyDict.getD item "thinking" (.str ""))]
  | .str "toolCall" =>
    .dict [("type",.str "toolCall"),("name",PyDict.getD item "name" (.str "")),
      ("id",PyDict.getD item "id" (.str "")),("arguments",PyDict.getD item "arguments" (.dict []))]
  | .str "toolResult" =>
    .dict [("type",.str "toolResult"),("text",PyDict.getD item "text" (.str ""))]
  | _ => .dict [("type",.str "unknown"),("detail",.str (clip (py.str (.dict item))))]

def parseMessageParts (py : PyRuntime) : PyJson → List PyJson
  | .str s => [.dict [("type",.str "text"),("text",.str s)]]
  | .list items => items.filterMap fun
    | .dict item => some (parseMessagePart py item)
    | _ => none
  | _ => []

def thinkingLevels : List (String × String) :=
  [("off","off"),("minimal","minimal"),("low","low"),("medium","medium"),("high","high"),
    ("x-high","xhigh")]

/-- The fields of a header that are kept. -/
def headerMeta (obj : Dict) : Dict :=
  [("id",PyDict.getD obj "id" (.str "")),("version",PyDict.getD obj "version" (.str "")),
    ("timestamp",PyDict.getD obj "timestamp" (.str "")),("cwd",PyDict.getD obj "cwd" (.str ""))]

/-- `obj.get("type", "") == kind`. -/
def isType (kind : String) (obj : Dict) : Bool :=
  match PyDict.getD obj "type" (.str "") with
  | .str s => s == kind
  | _ => false

def rawEvent (lineNo : ℕ) (line : String) : Dict :=
  [("type",.str "raw"),("line",.int lineNo),("raw_line",.str (clip line)),
    ("summary",.str (clip line))]

section Events

variable (py : PyRuntime) (lineNo : ℕ) (line : String) (obj : Dict)

/-- The fields that the events of the known types begin with. -/
def eventHead (kind : String) : Dict :=
  [("type",.str kind),("line",.int lineNo),("event_index",.int lineNo),
    ("timestamp",PyDict.getD obj "timestamp" (.str "")),
    ("display_timestamp",PyDict.getD obj "timestamp" (.str ""))]

def modelChangeEvent : Dict :=
  eventHead lineNo obj "model_change" ++
    [("provider",PyDict.getD obj "provider" (.str "")),
      ("modelId",PyDict.getD obj "modelId" (.str "")),("raw_line",.str line)]

def thinkingLevelEvent : Dict :=
  let level := PyDict.getD obj "thinkingLevel" (.str "")
  eventHead lineNo obj "thinking_level_change" ++
    [("thinkingLevel",level),
      ("thinkingLevelClass",
        .str ("thinking-" ++ (thinkingLevels.lookup (lower (py.str level))).getD "off")),
      ("raw_line",.str line)]

def messageEvent : Dict :=
  let msg : Dict := match PyDict.get obj "message" with
    | some (.dict msg) => msg
    | _ => []
  let role := PyDict.getD msg "role" (.str "")
  let data := eventHead lineNo obj "message" ++
    [("role",role),("render_role",role),
      ("parts",.list (parseMessageParts py (PyDict.getD msg "content" (.list [])))),
      ("raw_line",.str line)]
  match role with
  | .str "toolResult" =>
    data ++
      [("toolCallId",PyDict.getD msg "toolCallId" (PyDict.getD msg "tool_call_id" (.str ""))),
        ("toolName",PyDict.getD msg "toolName" (PyDict.getD msg "tool_name" (.str ""))),
        ("isError",PyDict.getD msg "isError" (PyDict.getD msg "is_error" (.bool false)))]
  | _ => data

def otherEvent : Dict :=
  [("type",(PyDict.getD obj "type" (.str "")).or (.str "unknown_event")),("line",.int lineNo),
    ("event_index",.int lineNo),("display_timestamp",PyDict.getD obj "timestamp" (.str "")),
    ("summary",.str (clip (py.str (.dict obj)))),("raw_line",.str (clip line))]

def eventOf : Dict :=
  if isType "model_change" obj then modelChangeEvent lineNo line obj
  else if isType "thinking_level_change" obj then thinkingLevelEvent py lineNo line obj
  else if isType "message" obj then messageEvent py lineNo line obj
  else otherEvent py lineNo line obj

end Events

section Full

variable (json : Json) (py : PyRuntime)

/-- One pass of the loop; `none` when `json.loads` raises what the loop does not catch. -/
def parseLine (lineNo : ℕ) (rawLine : String) (r : Reading) : Option Reading :=
  let line := strip rawLine
  if line = "" then some r
  else
    let r := { r with lineCount := r.lineCount + 1 }
    match json.loads line with
    | .raises => none
    | .malformed =>
      some { r with
        warnings := r.warnings ++ ["第 " ++ toString lineNo ++ " 行 JSON 解析失败"],
        events := r.events ++ [rawEvent lineNo line] }
    | .value (.dict obj) =>
      if isType "session" obj then some { r with sessionMeta := headerMeta obj }
      else some { r with events := r.events ++ [eventOf py lineNo line obj] }
    | .value _ => some { r with events := r.events ++ [rawEvent lineNo line] }

def parseFrom : ℕ → List String → Reading → Option Reading
  | _,[],r => some r
  | lineNo,rawLine :: lines,r =>
    (parseLine json py lineNo rawLine r).bind (parseFrom (lineNo + 1) lines)

/-- `_parse_session_jsonl_lines`. -/
def parseSessionJsonlLines (lines : List String) : Option Reading := parseFrom json py 1 lines {}

end Full

/-! ## The fast reader -/

structure Boundary where
  lineCount : ℕ := 0
  firstLine : String := ""
  lastLine : String := ""

def scanLine (b : Boundary) (raw : String) : Boundary :=
  let stripped := strip raw
  if stripped = "" then b
  else
    ⟨b.lineCount + 1,if b.lineCount + 1 = 1 then stripped else b.firstLine,stripped⟩

section Fast

variable (json : Json)

/-- The `try` block around the first line. -/
def firstMeta (firstLine : String) : Dict :=
  match json.loads firstLine with
  | .value (.dict obj) => if isType "session" obj then headerMeta obj else []
  | _ => []

/-- The `try` block around the last line. -/
def lastEvents (lastLine : String) : List Dict :=
  match json.loads lastLine with
  | .value (.dict obj) =>
    let ts := (PyJson.field obj "timestamp").or (PyJson.field obj "display_timestamp")
    if ts.truthy then [[("timestamp",ts),("display_timestamp",ts)]] else []
  | _ => []

/-- `_stat_session_jsonl_file`, after the lines are read. -/
def statSessionJsonlFile (lines : List String) : Reading :=
  let b := lines.foldl scanLine {}
  let sessionMeta := firstMeta json b.firstLine
  let ts := PyJson.field sessionMeta "timestamp"
  let events := if ts.truthy then [[("timestamp",ts)]] else []
  { sessionMeta,
    events := events ++
      if b.lastLine ≠ "" ∧ b.lastLine ≠ b.firstLine then lastEvents json b.lastLine else [],
    lineCount := b.lineCount }

end Fast

/-! ## The times of a session -/

/-- `datetime.fromisoformat` and its time stamp; `none` for the exceptions. -/
abbrev FromIso := String → Option ℚ

section Times

variable (py : PyRuntime) (iso : FromIso)

/-- `_parse_iso_timestamp`. -/
def parseIsoTimestamp (value : PyJson) : Option ℚ :=
  let raw := py.text value
  if raw = "" then none
  else if raw.toList.getLast? = some 'Z' then
    iso (String.ofList raw.toList.dropLast ++ "+00:00")
  else iso raw

def eventTime (evt : Dict) : Option ℚ :=
  parseIsoTimestamp py iso
    ((PyJson.field evt "timestamp").or (PyJson.field evt "display_timestamp"))

/-- `_extract_session_timestamps`. -/
def extractSessionTimestamps (sessionMeta : Dict) (events : List Dict) (statMtime : ℚ) : ℚ × ℚ :=
  let eventTimestamps := events.filterMap (eventTime py iso)
  let startedTs := (parseIsoTimestamp py iso (PyJson.field sessionMeta "timestamp")).or
    eventTimestamps.head?
  let lastTs := eventTimestamps.getLast?.or startedTs
  (startedTs.getD statMtime,lastTs.getD statMtime)

end Times

/-! ## What a file holds -/

/-- The lines that are not blank, stripped. -/
def texts (lines : List String) : List String := (lines.map strip).filter (· != "")

section Contents

variable (json : Json) (py : PyRuntime) (iso : FromIso)

/-- The object in a line. -/
def record (line : String) : Option Dict :=
  match json.loads line with
  | .value (.dict obj) => some obj
  | _ => none

/-- The line holds a JSON value, or what is too large to be read. -/
def isJson (line : String) : Bool :=
  match json.loads line with
  | .malformed => false
  | _ => true

def header (line : String) : Option Dict := (record json line).filter (isType "session")

/-- The time of the event in a line. -/
def timeOf (line : String) : Option ℚ :=
  ((record json line).filter fun obj => !isType "session" obj).bind fun obj =>
    parseIsoTimestamp py iso (PyJson.field obj "timestamp")

/-- The header in the first line. -/
def firstHeader (lines : List String) : Option Dict := lines.head?.bind (header json)

/-- The time in that header. -/
def headerTime (lines : List String) : Option ℚ :=
  (firstHeader json lines).bind fun obj =>
    parseIsoTimestamp py iso (PyJson.field obj "timestamp")

/-- The time in the last line, be it an event or a header, unless the line is the first one
again. -/
def closingTime (lines : List String) : Option ℚ :=
  if lines.getLast? = lines.head? then none
  else (lines.getLast?.bind (record json)).bind (eventTime py iso)

end Contents

section Blank

variable {json : Json} {py : PyRuntime} {iso : FromIso}

theorem record_empty : record json "" = none := by
  rw [record,json.loads_empty]

theorem header_empty : header json "" = none := by
  rw [header,record_empty]
  rfl

theorem timeOf_empty : timeOf json py iso "" = none := by
  rw [timeOf,record_empty]
  rfl

theorem header_some {line : String} {obj : Dict} (h : record json line = some obj) :
    header json line = if isType "session" obj then some obj else none := by
  rw [header,h]
  rfl

theorem timeOf_some {line : String} {obj : Dict} (h : record json line = some obj) :
    timeOf json py iso line =
      if isType "session" obj then none
      else parseIsoTimestamp py iso (PyJson.field obj "timestamp") := by
  rw [timeOf,h]
  cases ht : isType "session" obj <;> simp [Option.filter,ht]

theorem texts_cons (raw : String) (lines : List String) :
    texts (raw :: lines) = if strip raw = "" then texts lines else strip raw :: texts lines := by
  unfold texts
  rw [List.map_cons,List.filter_cons]
  by_cases h : strip raw = "" <;> simp [h]

theorem parseIsoTimestamp_falsy {v : PyJson} (h : v.truthy = false) :
    parseIsoTimestamp py iso v = none := by
  have htext : py.text v = "" := by
    unfold PyRuntime.text PyJson.or
    rw [h,if_neg Bool.false_ne_true,PyRuntime.str]
    decide
  rw [parseIsoTimestamp,if_pos htext]

/-- A missing time stamp and an empty one are the same. -/
theorem parseIsoTimestamp_getD (obj : Dict) :
    parseIsoTimestamp py iso (PyDict.getD obj "timestamp" (.str "")) =
      parseIsoTimestamp py iso (PyJson.field obj "timestamp") := by
  unfold PyJson.field PyDict.getD
  cases PyDict.get obj "timestamp" with
  | none => rw [Option.getD_none,Option.getD_none,parseIsoTimestamp_falsy rfl,
      parseIsoTimestamp_falsy rfl]
  | some v => rfl

theorem eventTime_rawEvent (lineNo : ℕ) (line : String) :
    eventTime py iso (rawEvent lineNo line) = none := parseIsoTimestamp_falsy rfl

theorem eventTime_head (lineNo : ℕ) (obj : Dict) (kind : String) (rest : Dict) :
    eventTime py iso (eventHead lineNo obj kind ++ rest) =
      parseIsoTimestamp py iso (PyJson.field obj "timestamp") := by
  have hself : eventTime py iso (eventHead lineNo obj kind ++ rest) =
      parseIsoTimestamp py iso ((PyDict.getD obj "timestamp" (.str "")).or
        (PyDict.getD obj "timestamp" (.str ""))) := rfl
  rw [hself,← parseIsoTimestamp_getD,PyJson.or,ite_self]

theorem eventTime_eventOf (lineNo : ℕ) (line : String) (obj : Dict) :
    eventTime py iso (eventOf py lineNo line obj) =
      parseIsoTimestamp py iso (PyJson.field obj "timestamp") := by
  unfold eventOf
  split
  · exact eventTime_head lineNo obj _ _
  · split
    · exact eventTime_head lineNo obj _ _
    · split
      · unfold messageEvent
        dsimp only
        generalize PyDict.getD _ "role" _ = role
        split
        · rw [List.append_assoc]
          exact eventTime_head lineNo obj _ _
        · exact eventTime_head lineNo obj _ _
      · rw [← parseIsoTimestamp_getD]
        rfl

end Blank

/-! ## What the full reader derives -/

section Full

variable {json : Json} {py : PyRuntime} (iso : FromIso)

/-- What a reading gains by a list of lines. -/
structure Gains (json : Json) (py : PyRuntime) (iso : FromIso) (L : List String)
    (r r' : Reading) : Prop where
  sessionMeta : r'.sessionMeta =
    ((L.filterMap (header json)).getLast?.map headerMeta).getD r.sessionMeta
  times : r'.events.filterMap (eventTime py iso) =
    r.events.filterMap (eventTime py iso) ++ L.filterMap (timeOf json py iso)
  lineCount : r'.lineCount = r.lineCount + L.length

variable {iso}

theorem Gains.refl (r : Reading) : Gains json py iso [] r r := by
  refine ⟨rfl,?_,rfl⟩
  rw [List.filterMap_nil,List.append_nil]

theorem Gains.trans {L M : List String} {r r' r'' : Reading} (h : Gains json py iso L r r')
    (h' : Gains json py iso M r' r'') : Gains json py iso (L ++ M) r r'' := by
  refine ⟨?_,?_,?_⟩
  · rw [h'.sessionMeta,h.sessionMeta,List.filterMap_append,List.getLast?_append]
    cases (M.filterMap (header json)).getLast? <;> rfl
  · rw [h'.times,h.times,List.filterMap_append,List.append_assoc]
  · rw [h'.lineCount,h.lineCount,List.length_append,Nat.add_assoc]

/-- One line. -/
theorem parseLine_gains {n : ℕ} {raw : String} {r r' : Reading}
    (h : parseLine json py n raw r = some r') : Gains json py iso (texts [raw]) r r' := by
  have hone : texts [raw] = if strip raw = "" then [] else [strip raw] := texts_cons raw []
  rw [hone]
  unfold parseLine at h
  dsimp only at h
  split
  · rename_i hblank
    rw [if_pos hblank] at h
    cases h
    exact .refl r
  · rename_i hline
    rw [if_neg hline] at h
    generalize strip raw = line at h
    cases hl : json.loads line with
    | raises =>
      rw [hl] at h
      cases h
    | malformed =>
      rw [hl] at h
      cases h
      have hrec : record json line = none := by rw [record,hl]
      refine ⟨by simp [header,hrec],?_,rfl⟩
      simp [timeOf,hrec,eventTime_rawEvent]
    | value v =>
      rw [hl] at h
      cases v with
      | dict obj =>
        have hrec : record json line = some obj := by rw [record,hl]
        dsimp only at h
        cases ht : isType "session" obj with
        | true =>
          rw [ht,if_pos rfl] at h
          cases h
          exact ⟨by simp [header_some hrec,ht],by simp [timeOf_some hrec,ht],rfl⟩
        | false =>
          rw [ht,if_neg Bool.false_ne_true] at h
          cases h
          refine ⟨by simp [header_some hrec,ht],?_,rfl⟩
          rw [List.filterMap_append,List.filterMap_cons,List.filterMap_cons,eventTime_eventOf,
            timeOf_some hrec,ht,if_neg Bool.false_ne_true]
          cases parseIsoTimestamp py iso (PyJson.field obj "timestamp") <;> rfl
      | _ =>
        cases h
        have hrec : record json line = none := by rw [record,hl]
        refine ⟨by simp [header,hrec],?_,rfl⟩
        simp [timeOf,hrec,eventTime_rawEvent]

theorem parseFrom_gains {lines : List String} {n : ℕ} {r r' : Reading}
    (h : parseFrom json py n lines r = some r') : Gains json py iso (texts lines) r r' := by
  induction lines generalizing n r with
  | nil =>
    cases h
    exact .refl _
  | cons raw lines ih =>
    unfold parseFrom at h
    obtain ⟨r₁,h₁,h₂⟩ := Option.bind_eq_some_iff.mp h
    have happ : texts (raw :: lines) = texts [raw] ++ texts lines := by
      rw [texts_cons,texts_cons]
      split <;> rfl
    rw [happ]
    exact (parseLine_gains h₁).trans (ih h₂)

/-- The reader gives a result unless a line is too large. -/
theorem parseLine_isSome {n : ℕ} {raw : String} {r : Reading} :
    (parseLine json py n raw r).isSome = true ↔ json.loads (strip raw) ≠ .raises := by
  unfold parseLine
  dsimp only
  split
  · rename_i hblank
    rw [hblank,json.loads_empty]
    simp
  · cases json.loads (strip raw) with
    | raises => simp
    | malformed => simp
    | value v =>
      cases v with
      | dict obj =>
        dsimp only
        split <;> simp
      | _ => simp

theorem parseFrom_isSome {lines : List String} {n : ℕ} {r : Reading} :
    (parseFrom json py n lines r).isSome = true ↔
      ∀ line ∈ lines, json.loads (strip line) ≠ .raises := by
  induction lines generalizing n r with
  | nil => simp [parseFrom]
  | cons raw lines ih =>
    rw [List.forall_mem_cons,← @parseLine_isSome json py n raw r,parseFrom]
    cases parseLine json py n raw r with
    | none => simp
    | some r₁ => simp [ih]

end Full

/-! ## What the fast reader derives -/

section Fast

variable {json : Json} {py : PyRuntime} {iso : FromIso}

theorem foldl_scanLine (lines : List String) (b : Boundary) :
    lines.foldl scanLine b =
      ⟨b.lineCount + (texts lines).length,
        if b.lineCount = 0 then (texts lines).head?.getD b.firstLine else b.firstLine,
        (texts lines).getLast?.getD b.lastLine⟩ := by
  induction lines generalizing b with
  | nil =>
    have hnil : texts [] = [] := rfl
    simp [hnil]
  | cons raw lines ih =>
    rw [List.foldl_cons,ih,texts_cons,scanLine]
    split
    · rfl
    · rename_i hline
      have hcount : b.lineCount + 1 ≠ 0 := by omega
      rw [if_neg hcount,List.length_cons,List.head?_cons,Option.getD_some,List.getLast?_cons,
        Option.getD_some,Boundary.mk.injEq]
      refine ⟨Nat.add_right_comm _ _ _,?_,rfl⟩
      by_cases hb : b.lineCount = 0 <;> simp [hb]

theorem scan_eq (lines : List String) :
    lines.foldl scanLine {} =
      ⟨(texts lines).length,(texts lines).head?.getD "",(texts lines).getLast?.getD ""⟩ := by
  rw [foldl_scanLine,if_pos rfl,Nat.zero_add]

theorem firstMeta_eq (line : String) :
    firstMeta json line = ((header json line).map headerMeta).getD [] := by
  unfold firstMeta
  cases hl : json.loads line with
  | value v =>
    cases v with
    | dict obj =>
      have hrec : record json line = some obj := by rw [record,hl]
      rw [header_some hrec]
      dsimp only
      split <;> rfl
    | _ =>
      have hrec : record json line = none := by rw [record,hl]
      rw [header,hrec]
      rfl
  | _ =>
    have hrec : record json line = none := by rw [record,hl]
    rw [header,hrec]
    rfl

theorem firstHeader_eq (L : List String) : firstHeader json L = header json (L.head?.getD "") := by
  cases L with
  | nil => exact header_empty.symm
  | cons line L => rfl

theorem stat_sessionMeta (lines : List String) :
    (statSessionJsonlFile json lines).sessionMeta =
      ((firstHeader json (texts lines)).map headerMeta).getD [] := by
  rw [firstHeader_eq,← firstMeta_eq,statSessionJsonlFile,scan_eq]

/-- The time stamp of the header, read back from its fields. -/
theorem parse_sessionMeta (h : Option Dict) :
    parseIsoTimestamp py iso (PyJson.field ((h.map headerMeta).getD []) "timestamp") =
      h.bind fun obj => parseIsoTimestamp py iso (PyJson.field obj "timestamp") := by
  cases h with
  | none => exact parseIsoTimestamp_falsy rfl
  | some obj =>
    have hfield : PyJson.field (headerMeta obj) "timestamp" =
      PyDict.getD obj "timestamp" (.str "") := rfl
    rw [Option.map_some,Option.getD_some,Option.bind_some,hfield,parseIsoTimestamp_getD]

/-- An event that is there when its time stamp is not empty. -/
theorem optional_times {v : PyJson} {evt : Dict}
    (h : v.truthy = true → eventTime py iso evt = parseIsoTimestamp py iso v) :
    (if v.truthy then [evt] else []).filterMap (eventTime py iso) =
      (parseIsoTimestamp py iso v).toList := by
  cases ht : v.truthy with
  | true =>
    rw [if_pos rfl,List.filterMap_cons,h ht]
    cases parseIsoTimestamp py iso v <;> rfl
  | false =>
    rw [parseIsoTimestamp_falsy ht]
    rfl

theorem eventTime_of_truthy {v : PyJson} (rest : Dict) (h : v.truthy = true) :
    eventTime py iso (("timestamp",v) :: rest) = parseIsoTimestamp py iso v := by
  have hfield : PyJson.field (("timestamp",v) :: rest) "timestamp" = v := rfl
  rw [eventTime,hfield,PyJson.or,if_pos h]

theorem lastEvents_times (line : String) :
    (lastEvents json line).filterMap (eventTime py iso) =
      ((record json line).bind (eventTime py iso)).toList := by
  unfold lastEvents
  cases hl : json.loads line with
  | value v =>
    cases v with
    | dict obj =>
      have hrec : record json line = some obj := by rw [record,hl]
      rw [hrec,Option.bind_some,eventTime]
      dsimp only
      generalize (PyJson.field obj "timestamp").or (PyJson.field obj "display_timestamp") = ts
      exact optional_times (eventTime_of_truthy _)
    | _ =>
      have hrec : record json line = none := by rw [record,hl]
      rw [hrec]
      rfl
  | _ =>
    have hrec : record json line = none := by rw [record,hl]
    rw [hrec]
    rfl

theorem texts_ne {lines : List String} {line : String} (h : line ∈ texts lines) : line ≠ "" := by
  have hne := (List.mem_filter.mp h).2
  exact bne_iff_ne.mp hne

/-- The last line is parsed unless it is the first one again. -/
theorem finish_times {L : List String} (hne : ∀ line ∈ L, line ≠ "") :
    (if L.getLast?.getD "" ≠ "" ∧ L.getLast?.getD "" ≠ L.head?.getD "" then
      lastEvents json (L.getLast?.getD "") else []).filterMap (eventTime py iso) =
      (closingTime json py iso L).toList := by
  cases L with
  | nil => rfl
  | cons line L =>
    obtain ⟨final,hfinal⟩ : ∃ final, (line :: L).getLast? = some final :=
      ⟨_,List.getLast?_eq_some_getLast (List.cons_ne_nil line L)⟩
    have hmem : final ∈ line :: L := List.mem_of_getLast? hfinal
    rw [closingTime,hfinal,List.head?_cons,Option.getD_some,Option.getD_some]
    by_cases heq : final = line
    · rw [if_neg fun h => h.2 heq,if_pos (congrArg some heq)]
      rfl
    · rw [if_pos ⟨hne final hmem,heq⟩,if_neg fun h => heq (Option.some.inj h),lastEvents_times]
      rfl

theorem stat_times (lines : List String) :
    (statSessionJsonlFile json lines).events.filterMap (eventTime py iso) =
      (headerTime json py iso (texts lines)).toList ++
        (closingTime json py iso (texts lines)).toList := by
  have hne : ∀ line ∈ texts lines, line ≠ "" := fun line h => texts_ne h
  rw [headerTime,← parse_sessionMeta,← stat_sessionMeta,← finish_times hne,statSessionJsonlFile,
    scan_eq,List.filterMap_append]
  exact congrArg₂ (· ++ ·) (optional_times (eventTime_of_truthy _)) rfl

theorem stat_lineCount (lines : List String) :
    (statSessionJsonlFile json lines).lineCount = (texts lines).length := by
  rw [statSessionJsonlFile,scan_eq]

end Fast

/-! ## When the readers agree -/

section Agreement

variable (json : Json) (py : PyRuntime) (iso : FromIso)

/-- `_extract_session_timestamps` of a reading. -/
def Reading.times (r : Reading) (statMtime : ℚ) : ℚ × ℚ :=
  extractSessionTimestamps py iso r.sessionMeta r.events statMtime

/-- Two readings show the same session. -/
structure SameSession (r r' : Reading) : Prop where
  sessionMeta : r.sessionMeta = r'.sessionMeta
  times : ∀ statMtime, r.times py iso statMtime = r'.times py iso statMtime

/-- The lines that are left without the malformed ones. -/
def wellFormed (lines : List String) : List String := lines.filter fun line => isJson json (strip line)

/-- Both readers find the same in a file, and neither finds more without its malformed lines. -/
structure ReadersAgree (lines : List String) : Prop where
  same : ∃ r, parseSessionJsonlLines json py lines = some r ∧
    r.lineCount = (statSessionJsonlFile json lines).lineCount ∧
    SameSession py iso r (statSessionJsonlFile json lines)
  full_hides_nothing : ∃ r r', parseSessionJsonlLines json py lines = some r ∧
    parseSessionJsonlLines json py (wellFormed json lines) = some r' ∧ SameSession py iso r r'
  fast_hides_nothing : SameSession py iso (statSessionJsonlFile json lines)
    (statSessionJsonlFile json (wellFormed json lines))

/-- A file that its first and its last line sum up: with a header anywhere there is one in the
first line, with the fields of the last header; the last line has the time of the last event with
a time; and it has that of the first one too when the header has none. Where a time is missing,
that of the header counts. -/
structure SummedUp (L : List String) : Prop where
  header : ∀ h ∈ (L.filterMap (header json)).getLast?,
    ∃ h' ∈ firstHeader json L, headerMeta h = headerMeta h'
  last : (L.filterMap (timeOf json py iso)).getLast?.or (headerTime json py iso L) =
    (closingTime json py iso L).or (headerTime json py iso L)
  start : (headerTime json py iso L).or (L.filterMap (timeOf json py iso)).head? =
    (headerTime json py iso L).or (closingTime json py iso L)

/-- The condition on a file. -/
structure Readable (lines : List String) : Prop where
  loads : ∀ line ∈ lines, json.loads (strip line) ≠ .raises
  whole : SummedUp json py iso (texts lines)
  wellFormed : SummedUp json py iso (texts (wellFormed json lines))

end Agreement

section Same

variable {json : Json} {py : PyRuntime} {iso : FromIso} {r r' r'' : Reading}

theorem SameSession.symm (h : SameSession py iso r r') : SameSession py iso r' r :=
  ⟨h.sessionMeta.symm,fun m => (h.times m).symm⟩

theorem SameSession.trans (h : SameSession py iso r r') (h' : SameSession py iso r' r'') :
    SameSession py iso r r'' :=
  ⟨h.sessionMeta.trans h'.sessionMeta,fun m => (h.times m).trans (h'.times m)⟩

/-- Two times are the same when they are with every time of the file in place of a missing one. -/
theorem forall_getD_iff {a b : Option ℚ} : (∀ m, a.getD m = b.getD m) ↔ a = b := by
  constructor
  · intro h
    cases a with
    | none => cases b with
      | none => rfl
      | some y =>
        have hy := h (y + 1)
        simp at hy
    | some x => cases b with
      | none =>
        have hx := h (x + 1)
        simp at hx
      | some y => exact congrArg some (h 0)
  · rintro rfl m
    rfl

/-- What a reading shows, by the time in its header and those of its events. -/
theorem times_eq {s : Option ℚ} {E : List ℚ}
    (hs : parseIsoTimestamp py iso (PyJson.field r.sessionMeta "timestamp") = s)
    (hE : r.events.filterMap (eventTime py iso) = E) (m : ℚ) :
    r.times py iso m = ((s.or E.head?).getD m,(E.getLast?.or s).getD m) := by
  unfold Reading.times extractSessionTimestamps
  rw [hs,hE]
  cases E with
  | nil => simp
  | cons t E =>
    dsimp only
    rw [List.getLast?_eq_some_getLast (List.cons_ne_nil t E),Option.some_or,Option.some_or]

theorem sameSession_iff {s s' : Option ℚ} {E E' : List ℚ}
    (hs : parseIsoTimestamp py iso (PyJson.field r.sessionMeta "timestamp") = s)
    (hE : r.events.filterMap (eventTime py iso) = E)
    (hs' : parseIsoTimestamp py iso (PyJson.field r'.sessionMeta "timestamp") = s')
    (hE' : r'.events.filterMap (eventTime py iso) = E') :
    SameSession py iso r r' ↔ r.sessionMeta = r'.sessionMeta ∧
      s.or E.head? = s'.or E'.head? ∧ E.getLast?.or s = E'.getLast?.or s' := by
  constructor
  · intro h
    refine ⟨h.sessionMeta,forall_getD_iff.mp fun m => ?_,forall_getD_iff.mp fun m => ?_⟩
    · have hm := h.times m
      rw [times_eq hs hE,times_eq hs' hE'] at hm
      exact congrArg Prod.fst hm
    · have hm := h.times m
      rw [times_eq hs hE,times_eq hs' hE'] at hm
      exact congrArg Prod.snd hm
  · rintro ⟨hmeta,hstart,hlast⟩
    refine ⟨hmeta,fun m => ?_⟩
    rw [times_eq hs hE,times_eq hs' hE',hstart,hlast]

end Same

section Agreement

variable {json : Json} {py : PyRuntime} {iso : FromIso} {lines : List String} {r r' : Reading}

theorem firstHeader_of_no_header {L : List String} (h : L.filterMap (header json) = []) :
    firstHeader json L = none := by
  cases L with
  | nil => rfl
  | cons line L =>
    rw [List.filterMap_eq_nil_iff] at h
    exact h line List.mem_cons_self

/-- The fields of the last header are those of the first line's. -/
theorem sessionMeta_same_iff {L : List String} :
    ((L.filterMap (header json)).getLast?.map headerMeta).getD [] =
        ((firstHeader json L).map headerMeta).getD [] ↔
      ∀ h ∈ (L.filterMap (header json)).getLast?,
        ∃ h' ∈ firstHeader json L, headerMeta h = headerMeta h' := by
  cases hlast : (L.filterMap (header json)).getLast? with
  | none =>
    rw [firstHeader_of_no_header (List.getLast?_eq_none_iff.mp hlast)]
    simp
  | some h =>
    cases firstHeader json L with
    | none => simp [headerMeta]
    | some h' => simp

theorem full_same_fast_iff (h : parseSessionJsonlLines json py lines = some r) :
    SameSession py iso r (statSessionJsonlFile json lines) ↔
      SummedUp json py iso (texts lines) := by
  have g : Gains json py iso (texts lines) {} r := parseFrom_gains h
  rw [sameSession_iff rfl g.times rfl (stat_times lines),g.sessionMeta,stat_sessionMeta,
    parse_sessionMeta,parse_sessionMeta,sessionMeta_same_iff]
  have hfast (s c : Option ℚ) : s.or (s.toList ++ c.toList).head? = s.or c ∧
      (s.toList ++ c.toList).getLast?.or s = c.or s := by
    cases s <;> cases c <;> simp
  have htime : (∀ h ∈ ((texts lines).filterMap (header json)).getLast?,
      ∃ h' ∈ firstHeader json (texts lines), headerMeta h = headerMeta h') →
      (((texts lines).filterMap (header json)).getLast?.bind fun obj =>
        parseIsoTimestamp py iso (PyJson.field obj "timestamp")) =
        headerTime json py iso (texts lines) := by
    intro hall
    rw [headerTime,← parse_sessionMeta,← parse_sessionMeta,sessionMeta_same_iff.mpr hall]
  rw [← headerTime,(hfast _ _).1,(hfast _ _).2]
  constructor
  · rintro ⟨hmeta,hstart,hlast⟩
    rw [htime hmeta] at hstart hlast
    exact ⟨hmeta,hlast,hstart⟩
  · intro w
    rw [htime w.header]
    exact ⟨w.header,w.start,w.last⟩

theorem texts_wellFormed (lines : List String) :
    texts (wellFormed json lines) = (texts lines).filter (isJson json) := by
  unfold texts wellFormed
  rw [List.filter_map,List.filter_map,List.filter_map,List.filter_filter,List.filter_filter]
  simp only [Function.comp_apply,Bool.and_comm]

theorem record_of_malformed {line : String} (h : isJson json line = false) :
    record json line = none := by
  unfold isJson at h
  unfold record
  cases hl : json.loads line with
  | value v =>
    rw [hl] at h
    cases h
  | _ => rfl

/-- The full reader finds in the other lines what it finds in all of them. -/
theorem full_hides_nothing (h : parseSessionJsonlLines json py lines = some r)
    (h' : parseSessionJsonlLines json py (wellFormed json lines) = some r') :
    SameSession py iso r r' := by
  have g : Gains json py iso (texts lines) {} r := parseFrom_gains h
  have g' : Gains json py iso (texts (wellFormed json lines)) {} r' := parseFrom_gains h'
  have hkeep {β : Type} (f : String → Option β)
      (hf : ∀ line, isJson json line = false → f line = none) :
      (texts (wellFormed json lines)).filterMap f = (texts lines).filterMap f := by
    rw [texts_wellFormed,List.filterMap_filter]
    congr 1
    funext line
    cases hline : isJson json line with
    | true => rfl
    | false => exact (hf line hline).symm
  have hheader : ∀ line, isJson json line = false → header json line = none := by
    intro line hline
    rw [header,record_of_malformed hline]
    rfl
  have htime : ∀ line, isJson json line = false → timeOf json py iso line = none := by
    intro line hline
    rw [timeOf,record_of_malformed hline]
    rfl
  have hmeta : r.sessionMeta = r'.sessionMeta := by
    rw [g.sessionMeta,g'.sessionMeta,hkeep _ hheader]
  rw [sameSession_iff rfl g.times rfl g'.times,hkeep _ htime,hmeta]
  exact ⟨rfl,rfl,rfl⟩

/-- The readers agree on a file exactly when its first and its last line sum it up, with and
without its malformed lines, and none of its lines is too large. -/
theorem session_readers_agree_iff (json : Json) (py : PyRuntime) (iso : FromIso)
    (content : String) : ReadersAgree json py iso (readlines content) ↔
      Readable json py iso (readlines content) := by
  generalize readlines content = lines
  constructor
  · intro w
    obtain ⟨r,hr,-,hsame⟩ := w.same
    obtain ⟨-,r',-,hr',-⟩ := w.full_hides_nothing
    refine ⟨?_,(full_same_fast_iff hr).mp hsame,(full_same_fast_iff hr').mp ?_⟩
    · exact parseFrom_isSome.mp (Option.isSome_iff_exists.mpr ⟨r,hr⟩)
    · exact ((full_hides_nothing hr hr').symm.trans hsame).trans w.fast_hides_nothing
  · intro w
    obtain ⟨r,hr⟩ : ∃ r, parseSessionJsonlLines json py lines = some r :=
      Option.isSome_iff_exists.mp (parseFrom_isSome.mpr w.loads)
    obtain ⟨r',hr'⟩ : ∃ r', parseSessionJsonlLines json py (wellFormed json lines) = some r' :=
      Option.isSome_iff_exists.mp
        (parseFrom_isSome.mpr fun line hline => w.loads line (List.mem_of_mem_filter hline))
    have hsame := (full_same_fast_iff hr).mpr w.whole
    have hsame' := (full_same_fast_iff hr').mpr w.wellFormed
    have hfull : SameSession py iso r r' := full_hides_nothing hr hr'
    have g : Gains json py iso (texts lines) {} r := parseFrom_gains hr
    refine ⟨⟨r,hr,?_,hsame⟩,⟨r,r',hr,hr',hfull⟩,(hsame.symm.trans hfull).trans hsame'⟩
    rw [g.lineCount,stat_lineCount,Nat.zero_add]

end Agreement

/-! ## A session that is continued -/

def firstRun : String := "\x7b\"type\":\"session\",\"id\":\"a\"\x7d"

def secondRun : String := "\x7b\"type\":\"session\",\"id\":\"b\"\x7d"

/-- The two headers are what can be read. -/
def twoRuns : Json where
  loads line :=
    if line = firstRun then .value (.dict [("type",.str "session"),("id",.str "a")])
    else if line = secondRun then .value (.dict [("type",.str "session"),("id",.str "b")])
    else .malformed
  loads_empty := rfl

/-- The index shows the identifier of the first run, the session itself that of the second. -/
theorem second_header_unseen : ¬ ∀ json py iso content,
    ReadersAgree json py iso (readlines content) := by
  intro hall
  have htexts : texts (readlines (firstRun ++ "\n" ++ secondRun ++ "\n")) =
      [firstRun,secondRun] := by
    decide +kernel
  obtain ⟨r,hr,-,hsame⟩ := (hall twoRuns
    ⟨fun _ => "",fun _ => "",fun _ => none,fun n => some n,fun _ => none,id⟩ (fun _ => none)
    (firstRun ++ "\n" ++ secondRun ++ "\n")).same
  have hheader := ((full_same_fast_iff hr).mp hsame).header
  rw [htexts] at hheader
  obtain ⟨h',hfirst,hid⟩ := hheader [("type",.str "session"),("id",.str "b")] rfl
  cases hfirst
  have hb : PyJson.str "b" = .str "a" := congrArg (fun obj => PyJson.field obj "id") hid
  exact absurd (PyJson.str.inj hb) (by decide)

end SessionReaders
end EntryAnalyse
