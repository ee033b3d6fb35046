import EntryAnalyse.LineReader
import EntryAnalyse.TokenTotals

/-! What the runner reads of a `pi` process: the chunks of its output are cut into lines, and each line
is an event in JSON. Reading a line can raise, and then nothing more is read. -/
namespace EntryAnalyse
namespace ProcessOutput

open PyJson LineReader
open TokenTotals (isText)

/-- The fields of `TokenUsage`. -/
inductive Counter
  | input | output | cacheRead | cacheWrite | cost
  deriving DecidableEq

/-- What is collected in `AgentResult`; `streamed` are the calls of `on_stream`. -/
structure Collected where
  messages : List PyJson := []
  usage : Counter → PyFloat := 0
  error : PyJson := .null
  streamed : List PyJson := []

abbrev Reading := Collected × Option PyError

def Reading.andThen (r : Reading) (f : Collected → Reading) : Reading :=
  match r.2 with
  | none => f r.1
  | some _ => r

section Lines

variable (py : PyRuntime) (onStream : Bool)

/-- What `x += v` adds to a number. -/
def amount : PyJson → Except PyError PyFloat
  | .bool b => .ok (.finite (if b then 1 else 0))
  | .int i => .ok (.finite i)
  | .float x => .ok x
  | _ => .error .typeError

def Collected.addAmount (s : Collected) (counter : Counter) (v : PyJson) : Reading :=
  match amount v with
  | .ok x => ({ s with usage := s.usage + Pi.single counter x },none)
  | .error e => (s,some e)

def addCost (s : Collected) : PyJson → Reading
  | .dict cost => s.addAmount .cost (PyDict.getD cost "total" (.int 0))
  | .bool b => s.addAmount .cost (.bool b)
  | .int i => s.addAmount .cost (.int i)
  | .float x => s.addAmount .cost (.float x)
  | _ => (s,none)

/-- The error that a message reports. -/
def stopError (msg : List (String × PyJson)) : Option PyJson :=
  if isText (field msg "stopReason") "error" then
    some (PyDict.getD msg "errorMessage" (.str "Unknown error"))
  else none

def addError (s : Collected) (msg : List (String × PyJson)) : Collected :=
  match stopError msg with
  | some error => { s with error := error }
  | none => s

def processAssistant (s : Collected) (msg : List (String × PyJson)) : Reading :=
  match PyDict.getD msg "usage" (.dict []) with
  | .dict usage =>
    (s.addAmount .input (PyDict.getD usage "input" (.int 0))).andThen fun s =>
    (s.addAmount .output (PyDict.getD usage "output" (.int 0))).andThen fun s =>
    (s.addAmount .cacheRead (PyDict.getD usage "cacheRead" (.int 0))).andThen fun s =>
    (s.addAmount .cacheWrite (PyDict.getD usage "cacheWrite" (.int 0))).andThen fun s =>
    (addCost s (PyDict.getD usage "cost" (.dict []))).andThen fun s => (addError s msg,none)
  | _ => (s,some .attributeError)

def processEnd (s : Collected) (msg : PyJson) : Reading :=
  if msg.truthy then
    let s := { s with messages := s.messages ++ [msg] }
    match msg with
    | .dict m =>
      if isText (field m "role") "assistant" then processAssistant s m else (s,none)
    | _ => (s,some .attributeError)
  else (s,none)

def processUpdate (s : Collected) : PyJson → Reading
  | .dict ae =>
    if isText (field ae "type") "text_delta" ∧ onStream then
      ({ s with streamed := s.streamed ++ [PyDict.getD ae "delta" (.str "")] },none)
    else (s,none)
  | _ => (s,some .attributeError)

/-- `_process_line`. -/
def processLine (s : Collected) (line : String) : Reading :=
  if strip line = "" then (s,none)
  else match py.loads (strip line) with
    | none => (s,none)
    | some (.dict event) =>
      if isText (field event "type") "message_update" then
        processUpdate onStream s (PyDict.getD event "assistantMessageEvent" (.dict []))
      else if isText (field event "type") "message_end" then processEnd s (field event "message")
      else (s,none)
    | some _ => (s,some .attributeError)

variable (decode : List UInt8 → String)

/-- The round of the inner loop for a line. After an exception the loop is left. -/
def readLine (r : Reading) (line : List UInt8) : Reading :=
  r.andThen fun s => processLine py onStream s (decode line)

def newline : UInt8 := 10

/-- `not buffer.strip()`. -/
def isBlank (buffer : List UInt8) : Bool := buffer.all fun b => b = 32 || (9 ≤ b && b ≤ 13)

/-- The read loop of `_execute`, with `errors="replace"` in `decode`. -/
def readStdout (chunks : List (List UInt8)) : Reading :=
  let (r,buffer) := chunks.foldl (feed newline (readLine py onStream decode)) (({},none),[])
  if isBlank buffer then r else readLine py onStream decode r buffer

/-! ## What a line adds -/

/-- The lines of an output. White space that no line break follows is none. -/
def outputLines (output : List UInt8) : List (List UInt8) :=
  complete newline output ++
    if isBlank (remainder newline output) then [] else [remainder newline output]

/-- The event of a line. -/
def event (line : String) : Option (List (String × PyJson)) :=
  if strip line = "" then none
  else match py.loads (strip line) with
    | some (.dict event) => some event
    | _ => none

/-- The message that a line brings. -/
def ended (line : String) : Option PyJson :=
  (event py line).bind fun e =>
    if isText (field e "type") "message_end" ∧ (field e "message").truthy then
      some (field e "message")
    else none

/-- The text of an update that is handed to `on_stream`. -/
def deltaOf : PyJson → Option PyJson
  | .dict ae =>
    if isText (field ae "type") "text_delta" ∧ onStream then some (PyDict.getD ae "delta" (.str ""))
    else none
  | _ => none

/-- The text that a line hands to `on_stream`. -/
def delta (line : String) : Option PyJson :=
  (event py line).bind fun e =>
    if isText (field e "type") "message_update" then
      deltaOf onStream (PyDict.getD e "assistantMessageEvent" (.dict []))
    else none

/-- The fields of a message of the assistant. -/
def assistant : PyJson → Option (List (String × PyJson))
  | .dict m => if isText (field m "role") "assistant" then some m else none
  | _ => none

/-- A number, and 0 for what is none. -/
def amountOf (v : PyJson) : PyFloat :=
  match amount v with
  | .ok x => x
  | .error _ => 0

def number (d : List (String × PyJson)) (k : String) : PyFloat :=
  amountOf (PyDict.getD d k (.int 0))

def costOf : PyJson → PyFloat
  | .dict cost => number cost "total"
  | v => amountOf v

/-- The usage of a message: the counters of its own and the cost, which may be a number. -/
def usageOf (msg : PyJson) : Counter → PyFloat :=
  match assistant msg with
  | none => 0
  | some m =>
    match PyDict.getD m "usage" (.dict []) with
    | .dict usage => fun
      | .input => number usage "input"
      | .output => number usage "output"
      | .cacheRead => number usage "cacheRead"
      | .cacheWrite => number usage "cacheWrite"
      | .cost => costOf (PyDict.getD usage "cost" (.dict []))
    | _ => 0

def errorOf (msg : PyJson) : Option PyJson := (assistant msg).bind stopError

/-- What reading a line raises. -/
def raised (line : String) : Option PyError := (processLine py onStream {} line).2

end Lines

section Adding

variable {py : PyRuntime} {onStream : Bool} {decode : List UInt8 → String} {s : Collected}

@[simp] theorem andThen_none (s : Collected) (f : Collected → Reading) :
    Reading.andThen (s,none) f = f s := rfl

@[simp] theorem andThen_some (s : Collected) (e : PyError) (f : Collected → Reading) :
    Reading.andThen (s,some e) f = (s,some e) := rfl

/-- What a reading raises does not depend on what is collected already. -/
theorem addAmount_snd (s s' : Collected) (counter : Counter) (v : PyJson) :
    (s.addAmount counter v).2 = (s'.addAmount counter v).2 := by
  unfold Collected.addAmount
  cases amount v <;> rfl

theorem andThen_snd {r r' : Reading} {f : Collected → Reading} (hr : r.2 = r'.2)
    (hf : ∀ s s', (f s).2 = (f s').2) : (r.andThen f).2 = (r'.andThen f).2 := by
  obtain ⟨s,e⟩ := r
  obtain ⟨s',e'⟩ := r'
  obtain rfl : e = e' := hr
  cases e with
  | none => exact hf s s'
  | some e => rfl

theorem addCost_snd (s s' : Collected) (v : PyJson) : (addCost s v).2 = (addCost s' v).2 := by
  cases v <;> first | rfl | exact addAmount_snd _ _ _ _

theorem processAssistant_snd (s s' : Collected) (m : List (String × PyJson)) :
    (processAssistant s m).2 = (processAssistant s' m).2 := by
  unfold processAssistant
  split
  · refine andThen_snd (addAmount_snd _ _ _ _) fun s s' => ?_
    refine andThen_snd (addAmount_snd _ _ _ _) fun s s' => ?_
    refine andThen_snd (addAmount_snd _ _ _ _) fun s s' => ?_
    refine andThen_snd (addAmount_snd _ _ _ _) fun s s' => ?_
    exact andThen_snd (addCost_snd _ _ _) fun _ _ => rfl
  · rfl

theorem processEnd_snd (s s' : Collected) (msg : PyJson) :
    (processEnd s msg).2 = (processEnd s' msg).2 := by
  unfold processEnd
  split
  · cases msg with
    | dict m =>
      simp only
      split
      · exact processAssistant_snd _ _ _
      · rfl
    | _ => rfl
  · rfl

theorem processUpdate_snd (s s' : Collected) (v : PyJson) :
    (processUpdate onStream s v).2 = (processUpdate onStream s' v).2 := by
  cases v with
  | dict ae =>
    simp only [processUpdate]
    split <;> rfl
  | _ => rfl

theorem processLine_snd (s : Collected) (line : String) :
    (processLine py onStream s line).2 = raised py onStream line := by
  unfold raised processLine
  split
  · rfl
  · split
    · rfl
    · split
      · exact processUpdate_snd _ _ _
      · split
        · exact processEnd_snd _ _ _
        · rfl
    · rfl

theorem andThen_ok {r : Reading} {f : Collected → Reading} (h : (r.andThen f).2 = none) :
    r.2 = none ∧ (f r.1).2 = none ∧ r.andThen f = f r.1 := by
  obtain ⟨s,e⟩ := r
  cases e with
  | none => exact ⟨rfl,h,rfl⟩
  | some e => cases h

theorem addAmount_ok {counter : Counter} {v : PyJson} (h : (s.addAmount counter v).2 = none) :
    (s.addAmount counter v).1 = { s with usage := s.usage + Pi.single counter (amountOf v) } := by
  unfold Collected.addAmount amountOf at *
  cases hv : amount v with
  | ok x => simp
  | error e => simp [hv] at h

theorem addCost_ok {v : PyJson} (h : (addCost s v).2 = none) :
    (addCost s v).1 = { s with usage := s.usage + Pi.single .cost (costOf v) } := by
  cases v with
  | dict cost => exact addAmount_ok h
  | bool b => exact addAmount_ok h
  | int i => exact addAmount_ok h
  | float x => exact addAmount_ok h
  | null => simp [addCost,costOf,amountOf,amount]
  | str t => simp [addCost,costOf,amountOf,amount]
  | list xs => simp [addCost,costOf,amountOf,amount]

theorem addError_eq (s : Collected) (m : List (String × PyJson)) :
    addError s m = { s with error := (stopError m).getD s.error } := by
  unfold addError
  cases stopError m <;> rfl

theorem processAssistant_ok {m : List (String × PyJson)} (hrole : assistant (.dict m) = some m)
    (h : (processAssistant s m).2 = none) :
    (processAssistant s m).1 = { s with
      usage := s.usage + usageOf (.dict m)
      error := (errorOf (.dict m)).getD s.error } := by
  unfold processAssistant at h ⊢
  cases hu : PyDict.getD m "usage" (.dict []) with
  | dict usage =>
    simp only [hu] at h ⊢
    obtain ⟨h₁,h,e₁⟩ := andThen_ok h
    obtain ⟨h₂,h,e₂⟩ := andThen_ok h
    obtain ⟨h₃,h,e₃⟩ := andThen_ok h
    obtain ⟨h₄,h,e₄⟩ := andThen_ok h
    obtain ⟨h₅,-,e₅⟩ := andThen_ok h
    rw [e₁,e₂,e₃,e₄,e₅,addCost_ok h₅,addAmount_ok h₄,addAmount_ok h₃,addAmount_ok h₂,
      addAmount_ok h₁]
    have husage : usageOf (.dict m) = Pi.single .input (number usage "input") +
        Pi.single .output (number usage "output") +
        Pi.single .cacheRead (number usage "cacheRead") +
        Pi.single .cacheWrite (number usage "cacheWrite") +
        Pi.single .cost (costOf (PyDict.getD usage "cost" (.dict []))) := by
      funext c
      cases c <;> simp [usageOf,hrole,hu]
    rw [husage]
    simp only [addError_eq,errorOf,hrole,number,add_assoc,Option.bind_some]
  | _ => simp [hu] at h

theorem usageOf_of_none {msg : PyJson} (h : assistant msg = none) : usageOf msg = 0 := by
  simp [usageOf,h]

theorem processEnd_ok {msg : PyJson} (h : (processEnd s msg).2 = none) :
    (processEnd s msg).1 =
      if msg.truthy then { s with
        messages := s.messages ++ [msg]
        usage := s.usage + usageOf msg
        error := (errorOf msg).getD s.error } else s := by
  unfold processEnd at h ⊢
  by_cases htruthy : msg.truthy
  · simp only [if_pos htruthy] at h ⊢
    cases msg with
    | dict m =>
      by_cases hrole : isText (field m "role") "assistant"
      · simp only [if_pos hrole] at h ⊢
        exact processAssistant_ok (by simp [assistant,hrole]) h
      · have hnone : assistant (.dict m) = none := by simp [assistant,hrole]
        simp [hrole,usageOf_of_none hnone,errorOf,hnone]
    | _ => cases h
  · simp [htruthy]

theorem processUpdate_ok {v : PyJson} (h : (processUpdate onStream s v).2 = none) :
    (processUpdate onStream s v).1 = { s with
      streamed := s.streamed ++ (deltaOf onStream v).toList } := by
  cases v with
  | dict ae =>
    simp only [processUpdate,deltaOf]
    split <;> simp
  | _ => cases h

theorem isText_ne {v : PyJson} {a b : String} (h : isText v a) (hne : a ≠ b) :
    isText v b = false := by
  cases v with
  | str t =>
    obtain rfl : t = a := by simpa [isText] using h
    simp [isText,hne]
  | _ => rfl

/-- What a line adds that raises nothing. -/
theorem processLine_ok {line : String} (h : raised py onStream line = none) :
    (processLine py onStream s line).1 = {
      messages := s.messages ++ (ended py line).toList
      usage := s.usage + ((ended py line).toList.map usageOf).sum
      error := ((ended py line).bind errorOf).getD s.error
      streamed := s.streamed ++ (delta py onStream line).toList } := by
  rw [← processLine_snd s] at h
  unfold processLine at h ⊢
  by_cases hblank : strip line = ""
  · simp [ended,delta,event,hblank]
  · simp only [if_neg hblank] at h ⊢
    cases hload : py.loads (strip line) with
    | none => simp [ended,delta,event,hblank,hload]
    | some v =>
      cases v with
      | dict e =>
        have hevent : event py line = some e := by simp [event,hblank,hload]
        simp only [hload] at h ⊢
        by_cases hupdate : isText (field e "type") "message_update"
        · have hend : isText (field e "type") "message_end" = false := isText_ne hupdate (by decide)
          simp only [if_pos hupdate] at h ⊢
          rw [processUpdate_ok h]
          simp [ended,delta,hevent,hupdate,hend]
        · by_cases hend : isText (field e "type") "message_end"
          · simp only [if_neg hupdate,if_pos hend] at h ⊢
            rw [processEnd_ok h]
            by_cases htruthy : (field e "message").truthy
            · simp [ended,delta,hevent,hend,htruthy,hupdate]
            · simp [ended,delta,hevent,hend,htruthy,hupdate]
          · simp [ended,delta,hevent,hend,hupdate]
      | _ =>
        simp only [hload] at h
        cases h

theorem readLine_raised {r : Reading} {line : List UInt8} :
    (readLine py onStream decode r line).2 = r.2.or (raised py onStream (decode line)) := by
  obtain ⟨s,e⟩ := r
  cases e with
  | none => exact processLine_snd s (decode line)
  | some e => rfl

/-- The first line that raises something ends the reading. -/
theorem readLines_raised (r : Reading) (lines : List (List UInt8)) :
    (lines.foldl (readLine py onStream decode) r).2 =
      r.2.or ((lines.map decode).findSome? (raised py onStream)) := by
  induction lines generalizing r with
  | nil => simp
  | cons line lines ih =>
    rw [List.foldl_cons,ih,readLine_raised,List.map_cons,List.findSome?_cons,Option.or_assoc]
    cases raised py onStream (decode line) <;> rfl

theorem readLines_ok {lines : List (List UInt8)}
    (h : ∀ line ∈ lines, raised py onStream (decode line) = none) :
    (lines.foldl (readLine py onStream decode) (s,none)).1 =
      let messages := (lines.map decode).filterMap (ended py)
      { messages := s.messages ++ messages
        usage := s.usage + (messages.map usageOf).sum
        error := (messages.filterMap errorOf).getLast?.getD s.error
        streamed := s.streamed ++ (lines.map decode).filterMap (delta py onStream) } := by
  induction lines generalizing s with
  | nil => simp
  | cons line lines ih =>
    have hline := h line (by simp)
    have hread : readLine py onStream decode (s,none) line =
        ((processLine py onStream s (decode line)).1,none) :=
      Prod.ext rfl ((processLine_snd s _).trans hline)
    rw [List.foldl_cons,hread,ih fun l hl => h l (by simp [hl]),processLine_ok hline]
    cases hended : ended py (decode line) with
    | none => cases hdelta : delta py onStream (decode line) <;> simp [hended,hdelta]
    | some msg =>
      cases herror : errorOf msg with
      | none =>
        cases hdelta : delta py onStream (decode line) <;>
          simp [hended,hdelta,herror,add_assoc]
      | some e =>
        cases hdelta : delta py onStream (decode line) <;>
          simp [hended,hdelta,herror,add_assoc,List.getLast?_cons]

theorem readStdout_eq (chunks : List (List UInt8)) :
    readStdout py onStream decode chunks =
      (outputLines chunks.flatten).foldl (readLine py onStream decode) ({},none) := by
  rw [readStdout,foldl_feed,outputLines,List.foldl_append]
  simp only
  split <;> rfl

variable (py onStream decode)

/-- What is read of a process depends on its output, not on how it is cut into chunks. The first line
that raises something decides what is raised. Without one the messages are those of the lines in their
order, the usage is the sum of the messages', the error is that of the last message with one, and the
texts are streamed in their order. -/
theorem readStdout_reads (chunks : List (List UInt8)) :
    let lines := (outputLines chunks.flatten).map decode
    let r := readStdout py onStream decode chunks
    r.2 = lines.findSome? (raised py onStream) ∧
      (r.2 = none → r.1 = {
        messages := lines.filterMap (ended py)
        usage := ((lines.filterMap (ended py)).map usageOf).sum
        error := ((lines.filterMap (ended py)).filterMap errorOf).getLast?.getD .null
        streamed := lines.filterMap (delta py onStream) }) := by
  intro lines r
  have hr : r = (outputLines chunks.flatten).foldl (readLine py onStream decode) ({},none) :=
    readStdout_eq chunks
  have hraised : r.2 = lines.findSome? (raised py onStream) := by
    rw [hr,readLines_raised]
    rfl
  refine ⟨hraised,fun hnone => ?_⟩
  rw [hraised,List.findSome?_eq_none_iff] at hnone
  rw [hr,readLines_ok fun line hline => hnone _ (List.mem_map_of_mem hline)]
  simp [lines]

end Adding

end ProcessOutput
end EntryAnalyse
