import EntryAnalyse.GapAnswers

/-! The classification of a batch of functions by an agent, which is asked again when its answer
cannot be read, in the fast mode and on the functions' bodies. -/
namespace EntryAnalyse
namespace BatchClassifiers

open PyJson Runner GapAnswers

/-! ## `_parse_result` -/

def asText : PyJson → Option String
  | .str s => some s
  | _ => none

/-- The elements of the array, if all of them are texts. -/
def allTexts (xs : List PyJson) : Option (List String) := xs.mapM asText

variable (i : Interpreter)

def parseResult (output : String) : Except Raised (Option (List String)) :=
  match resultBlock output with
  | none => .ok none
  | some text =>
    match i.loads (unfence text) with
    | .tooDeep => .error .recursionError
    | .value (.list xs) => .ok (some ((allTexts xs).getD (xs.map i.py.str)))
    | _ => .ok none

/-! ## The prompts -/

/-- A function of the batch. -/
structure BatchFunc where
  funcHash : String
  name : String := ""
  signature : String := ""
  file : String := ""
  body : String := ""

def BatchFunc.shown (f : BatchFunc) : String := if f.signature = "" then f.name else f.signature

def buildBatchPrompt (batch : List BatchFunc) : String :=
  "\n".intercalate ([
    s!"请分析以下 {batch.length} 个函数，判断哪些是模块的潜在外部入口。",
    "",
    "判断为外部入口(true)的条件（满足任一）：",
    "1. 被动型：参数名含 buf/data/msg/packet/request/arg/name/path/file/module/uri/host/cmd/handle 等外部数据暗示",
    "2. 主动型：callees 含 recv/recvfrom/read/accept/mmap/ioctl/fgets/getline 等接收外部数据 I/O",
    "3. sink 导向：参数流入 dlopen/LoadLibrary/xmlModulePlatformOpen/system/exec/open/connect/sql 等敏感 sink（即使参数名是 name/path 也算）",
    "4. 外部入口点：函数本身被 OS/外部调用——DllMain/DllEntryPoint/导出函数(EXTERN/BOOL APIENTRY)/main/wmain/回调注册，不论参数是否“请求数据”都算入口",
    "服务生命周期函数(_init/_start/_stop/_free/_register 且无外部I/O)不算入口。",
    ""] ++
    batch.flatMap fun f =>
      [s!"- func_hash: {f.funcHash}",s!"  signature: {f.shown}",s!"  file: {f.file}",""])

def buildPhase1BodyPrompt (batch : List BatchFunc) : String :=
  "\n".intercalate ([
    s!"请分析以下 {batch.length} 个函数的**函数体**，判断哪些处理外部输入（是模块的潜在外部入口）。",
    "",
    "判断为外部入口(true)的条件（满足任一）：",
    "1. 被动型：参数名含 buf/data/msg/packet/request/arg/name/path/file/module/uri/host/cmd/handle 等外部数据暗示",
    "2. 主动型：函数体调用 recv/recvfrom/read/accept/mmap/ioctl/fgets/getline 等接收外部数据 I/O",
    "3. sink 导向：参数流入 dlopen/LoadLibrary/xmlModulePlatformOpen/system/exec/open/connect/sql 等敏感 sink",
    "4. 外部入口点：函数本身被 OS/外部调用——DllMain/DllEntryPoint/导出函数(EXTERN/BOOL APIENTRY)/main/wmain/回调注册",
    "服务生命周期函数(_init/_start/_stop/_free/_register 且无外部I/O)不算入口。",
    "只输出被判定为入口的 func_hash，不要输出分析过程。",
    ""] ++
    batch.flatMap fun f =>
      [s!"── func_hash: {f.funcHash} ──",s!"signature: {f.shown}",s!"file: {f.file}","```cpp",
        if 3000 < f.body.toList.length then
          String.ofList (f.body.toList.take 3000) ++ "\n// ... (truncated)"
        else f.body,
        "```",""])

/-- `_PARSE_FEEDBACK`, with the number of the attempt. -/
def retryPrompt (attempt : ℕ) : String :=
  "\n\n⚠️ 上次输出格式不正确。请严格在 <result> 标签内输出 JSON 数组，" ++
  "仅包含被判定为潜在入口的 func_hash。例如：\n" ++
  "<result>\n[\"abc123def456\", \"789012345678\"]\n</result>\n" ++
  "如果该批没有入口函数，输出 <result>[]</result>。" ++
  "不要输出任何 JSON 之外的文字。" ++ s!"\n(第 {attempt} 次重试)"

/-! ## The loop -/

/-- What the loop meets at an attempt: whether the run is cancelled before it, and else what the
agent returns. -/
structure Turn where
  cancelled : Bool := false
  result : AgentResult := {}

/-- What the loop returns, and the prompts that it has sent. -/
structure Outcome where
  kept : List String
  prompts : List String
  deriving DecidableEq

/-- The attempts that are left, the first of them with the given number. An error of the agent is
logged only, and its output is read like any other. -/
def classify (hashes : List String) :
    ℕ → ℕ → String → (ℕ → Turn) → Except Raised Outcome
  | 0,_,_,_ => .ok ⟨hashes,[]⟩
  | k + 1,attempt,prompt,turns =>
    if (turns 0).cancelled then .ok ⟨hashes,[]⟩
    else do
      let parsed ← parseResult i (turns 0).result.output
      match parsed with
      | some answer => pure ⟨answer.filter (· ∈ hashes),[prompt]⟩
      | none =>
        let rest ← classify hashes k (attempt + 1) (retryPrompt attempt) fun n => turns (n + 1)
        pure ⟨rest.kept,prompt :: rest.prompts⟩

def maxParseRetries : ℕ := 3

def runFastModeClassification (batch : List BatchFunc) (turns : ℕ → Turn) :
    Except Raised Outcome :=
  classify i (batch.map (·.funcHash)) maxParseRetries 1 (buildBatchPrompt batch) turns

/-- `_run_phase1_classification`. -/
def runPhase1Classification (batch : List BatchFunc) (turns : ℕ → Turn) :
    Except Raised Outcome :=
  classify i (batch.map (·.funcHash)) maxParseRetries 1 (buildPhase1BodyPrompt batch) turns

/-! ## Failing safe -/

def arrayOfTexts : Loaded → Option (List String)
  | .value (.list xs) => allTexts xs
  | _ => none

/-- The texts of a result block that holds an array of texts. -/
def answered (output : String) : Option (List String) :=
  (resultBlock output).bind fun text => arrayOfTexts (i.loads (unfence text))

/-- What a classifier with `k` attempts promises: it returns functions of the batch only, leaves
out what an array of texts leaves out, and keeps the whole batch when no such array came. -/
def FailSafe (hashes : List String) (k : ℕ) (turns : ℕ → Turn)
    (out : Except Raised Outcome) : Prop :=
  ∃ o, out = .ok o ∧ o.prompts.length ≤ k ∧ (∀ h ∈ o.kept, h ∈ hashes) ∧
    (∀ h ∈ hashes, h ∉ o.kept → ∃ n xs, n + 1 = o.prompts.length ∧
      answered i (turns n).result.output = some xs ∧ h ∉ xs) ∧
    ∀ n, n + 1 = o.prompts.length → answered i (turns n).result.output = none →
      o.kept = hashes ∧ (n + 1 = k ∨ (turns (n + 1)).cancelled = true)

/-- The answers that do no harm: the first that is read as a list is an array of texts, or else
the last that is asked for, and its elements' texts keep the whole batch. -/
def Harmless (hashes : List String) : ℕ → (ℕ → Turn) → Prop
  | 0,_ => True
  | k + 1,turns => (turns 0).cancelled = true ∨
    match (resultBlock (turns 0).result.output).map fun text => i.loads (unfence text) with
    | some .tooDeep => False
    | some (.value (.list xs)) => (allTexts xs).isSome = true ∨
      (k = 0 ∨ (turns 1).cancelled = true) ∧ (xs.map i.py.str).filter (· ∈ hashes) = hashes
    | _ => Harmless hashes k fun n => turns (n + 1)

variable {i} {hashes : List String} {k attempt : ℕ} {prompt : String} {turns : ℕ → Turn}

/-- Where no agent is asked the batch is kept. -/
theorem classify_unasked {o : Outcome}
    (h : classify i hashes k attempt prompt turns = .ok o) (unasked : o.prompts = []) :
    o.kept = hashes ∧ (k = 0 ∨ (turns 0).cancelled = true) := by
  cases k with
  | zero =>
    cases h
    exact ⟨rfl,.inl rfl⟩
  | succ k =>
    rw [classify] at h
    split at h
    · rename_i cancelled
      cases h
      exact ⟨rfl,.inr cancelled⟩
    · obtain ⟨parsed,-,h⟩ := bind_eq_ok.mp h
      cases parsed with
      | some answer => cases h; cases unasked
      | none =>
        obtain ⟨rest,-,h⟩ := bind_eq_ok.mp h
        cases h
        cases unasked

/-- A retry is safe iff what follows it is. -/
theorem failSafe_retry {out : Except Raised Outcome} (h : answered i (turns 0).result.output = none)
    (unasked : ∀ o, out = .ok o → o.prompts = [] →
      o.kept = hashes ∧ (k = 0 ∨ (turns 1).cancelled = true)) :
    FailSafe i hashes (k + 1) turns
        (out.bind fun o => .ok ⟨o.kept,prompt :: o.prompts⟩) ↔
      FailSafe i hashes k (fun n => turns (n + 1)) out := by
  cases out with
  | error e => exact iff_of_false (fun ⟨_,h,_⟩ => by cases h) fun ⟨_,h,_⟩ => by cases h
  | ok o =>
    have unasked := unasked o rfl
    constructor
    · rintro ⟨_,eq,le,only,left,whole⟩
      cases eq
      refine ⟨o,rfl,Nat.le_of_succ_le_succ le,only,fun h' hmem out => ?_,fun n last none => ?_⟩
      · obtain ⟨n,xs,last,texts,missing⟩ := left h' hmem out
        cases n with
        | zero => rw [h] at texts; cases texts
        | succ n => exact ⟨n,xs,Nat.succ.inj last,texts,missing⟩
      · obtain ⟨kept,stop⟩ := whole (n + 1) (congrArg Nat.succ last) none
        exact ⟨kept,stop.imp_left Nat.succ.inj⟩
    · rintro ⟨_,eq,le,only,left,whole⟩
      cases eq
      refine ⟨_,rfl,Nat.succ_le_succ le,only,fun h' hmem out => ?_,fun n last none => ?_⟩
      · obtain ⟨n,xs,last,texts,missing⟩ := left h' hmem out
        exact ⟨n + 1,xs,congrArg Nat.succ last,texts,missing⟩
      · cases n with
        | zero =>
          have empty : o.prompts = [] := List.eq_nil_of_length_eq_zero (Nat.succ.inj last).symm
          exact ⟨(unasked empty).1,(unasked empty).2.imp_left fun zero => by rw [zero]⟩
        | succ n =>
          obtain ⟨kept,stop⟩ := whole n (Nat.succ.inj last) none
          exact ⟨kept,stop.imp_left (congrArg Nat.succ)⟩

/-- A turn in which nothing is asked. -/
theorem failSafe_unasked : FailSafe i hashes k turns (.ok ⟨hashes,[]⟩) :=
  ⟨_,rfl,Nat.zero_le k,fun _ h => h,fun _ h out => absurd h out,fun _ last => by cases last⟩

/-- An array of texts is a right answer, whatever it leaves out. -/
theorem failSafe_answered {xs : List String}
    (h : answered i (turns 0).result.output = some xs) :
    FailSafe i hashes (k + 1) turns (.ok ⟨xs.filter (· ∈ hashes),[prompt]⟩) := by
  refine ⟨_,rfl,Nat.succ_le_succ (Nat.zero_le k),fun h' mem => ?_,fun h' mem out => ?_,
    fun n last none => ?_⟩
  · exact of_decide_eq_true (List.mem_filter.mp mem).2
  · exact ⟨0,xs,rfl,h,fun inside => out (List.mem_filter.mpr ⟨inside,decide_eq_true mem⟩)⟩
  · obtain rfl : n = 0 := Nat.succ.inj last
    rw [h] at none
    cases none

/-- Any other list is one only if it keeps the whole batch, and no more answers are asked for. -/
theorem failSafe_accepted_iff {xs : List String} (h : answered i (turns 0).result.output = none) :
    FailSafe i hashes (k + 1) turns (.ok ⟨xs.filter (· ∈ hashes),[prompt]⟩) ↔
      (k = 0 ∨ (turns 1).cancelled = true) ∧ xs.filter (· ∈ hashes) = hashes := by
  constructor
  · rintro ⟨_,eq,-,-,-,whole⟩
    cases eq
    obtain ⟨kept,stop⟩ := whole 0 rfl h
    exact ⟨stop.imp_left fun last => (Nat.succ.inj last).symm,kept⟩
  · rintro ⟨stop,kept⟩
    rw [kept]
    refine ⟨_,rfl,Nat.succ_le_succ (Nat.zero_le k),fun _ h => h,fun _ h out => absurd h out,
      fun n last _ => ?_⟩
    obtain rfl : n = 0 := Nat.succ.inj last
    exact ⟨rfl,stop.imp_left fun zero => by rw [zero]⟩

theorem classify_failSafe_iff : FailSafe i hashes k turns
    (classify i hashes k attempt prompt turns) ↔ Harmless i hashes k turns := by
  induction k generalizing attempt prompt turns with
  | zero => exact iff_of_true failSafe_unasked trivial
  | succ k ih =>
    rw [classify,Harmless]
    split
    · rename_i cancelled
      exact iff_of_true failSafe_unasked (.inl cancelled)
    · rename_i asked
      rw [or_iff_right asked]
      have retry (none : answered i (turns 0).result.output = none) :
          FailSafe i hashes (k + 1) turns (do
            let rest ← classify i hashes k (attempt + 1) (retryPrompt attempt)
              fun n => turns (n + 1)
            pure ⟨rest.kept,prompt :: rest.prompts⟩) ↔
          Harmless i hashes k fun n => turns (n + 1) :=
        (failSafe_retry none fun o h => classify_unasked h).trans ih
      cases block : resultBlock (turns 0).result.output with
      | none =>
        have none : answered i (turns 0).result.output = none := by
          rw [answered,block]
          rfl
        rw [parseResult,block]
        exact retry none
      | some text =>
        have texts : answered i (turns 0).result.output = arrayOfTexts (i.loads (unfence text)) := by
          rw [answered,block]
          rfl
        rw [parseResult,block,Option.map_some]
        dsimp only
        cases value : i.loads (unfence text) with
        | tooDeep => exact iff_of_false (fun ⟨_,h,_⟩ => by cases h) id
        | rejected =>
          rw [value] at texts
          exact retry texts
        | value v =>
          rw [value] at texts
          cases v with
          | list xs =>
            dsimp only
            rw [arrayOfTexts] at texts
            cases all : allTexts xs with
            | some answer =>
              exact iff_of_true (failSafe_answered (texts.trans all)) (.inl rfl)
            | none =>
              rw [or_iff_right (by simp)]
              exact failSafe_accepted_iff (texts.trans all)
          | _ => exact retry texts

theorem batch_classifiers_safe_iff (i : Interpreter) (batch : List BatchFunc)
    (turns : ℕ → Turn) :
    (FailSafe i (batch.map (·.funcHash)) 3 turns (runFastModeClassification i batch turns) ↔
        Harmless i (batch.map (·.funcHash)) 3 turns) ∧
      (FailSafe i (batch.map (·.funcHash)) 3 turns (runPhase1Classification i batch turns) ↔
        Harmless i (batch.map (·.funcHash)) 3 turns) ∧
      (runFastModeClassification i batch turns).map Outcome.kept =
        (runPhase1Classification i batch turns).map Outcome.kept := by
  refine ⟨classify_failSafe_iff,classify_failSafe_iff,?_⟩
  have same (k attempt : ℕ) (p q : String) (turns : ℕ → Turn) :
      (classify i (batch.map (·.funcHash)) k attempt p turns).map Outcome.kept =
        (classify i (batch.map (·.funcHash)) k attempt q turns).map Outcome.kept := by
    cases k with
    | zero => rfl
    | succ k =>
      rw [classify,classify]
      split
      · rfl
      · cases parseResult i (turns 0).result.output with
        | error e => rfl
        | ok parsed => cases parsed with
          | some answer => rfl
          | none =>
            change ((classify i _ k _ _ _).bind _).map _ = ((classify i _ k _ _ _).bind _).map _
            cases classify i (batch.map (·.funcHash)) k (attempt + 1) (retryPrompt attempt)
              fun n => turns (n + 1) <;> rfl
  exact same 3 1 _ _ turns

/-- An interpreter that reads the array `[1]`. -/
def readsNumber : Interpreter where
  py :=
    { repr := fun _ => "1"
      dumps := fun _ => ""
      loads := fun _ => none
      floatOfInt := fun _ => none
      floatOfStr := fun _ => none
      round2 := id }
  loads := fun text => if text = "[1]" then .value (.list [.int 1]) else .rejected
  intOfStr := fun _ => none
  encodes := fun _ => true

/-- An array with a number filters the batch. -/
theorem number_filters_batch : ¬FailSafe readsNumber ["ab12"] 3
    (fun _ => { result := { output := "<result>[1]</result>" } })
    (runFastModeClassification readsNumber [{ funcHash := "ab12" }]
      fun _ => { result := { output := "<result>[1]</result>" } }) := by
  have block : resultBlock "<result>[1]</result>" = some "[1]" := by decide +kernel
  have text : unfence "[1]" = "[1]" := by decide +kernel
  intro safe
  have harmless := classify_failSafe_iff.mp safe
  simp [Harmless,block,text,readsNumber,allTexts,asText,PyRuntime.str] at harmless

end BatchClassifiers
end EntryAnalyse
