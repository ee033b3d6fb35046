import EntryAnalyse.PyJson

/-! The result of one `pi` process and how the runner classifies it: by its exit code, by
whether messages came, and by the texts of its error. Both retry loops and the recovery from a
full context branch on these predicates only. -/
namespace EntryAnalyse
namespace Runner

/-- A message of the session: its role and the parts of its content that are text. -/
structure Message where
  role : String
  texts : List String := []
  deriving DecidableEq

/-- The fields of `AgentResult` that the retry loops and the recovery read, or set on a result
that they return. -/
structure AgentResult where
  output : String := ""
  messages : List Message := []
  outputTokens : ℤ := 0
  exitCode : ℤ := 0
  error : Option String := none
  fatal : Bool := false
  contextWindow : ℕ := 0
  proxyReservedTokens : ℕ := 0
  contextBudgetExceededPreflight : Bool := false
  contextOverflowFailedAfterCompaction : Bool := false
  deriving DecidableEq

/-! ## Texts -/

/-- `pattern in text`. -/
def containsText (text pattern : String) : Bool :=
  decide (pattern.toList <:+: text.toList)

/-- `all(p in text for p in pattern)` for one of the patterns. -/
def matchesAny (patterns : List (List String)) (text : String) : Bool :=
  patterns.any fun pattern => pattern.all (containsText text)

/-- The code points of the zeros of the decimal digits, ten in a row each. -/
def digitZeros : List ℕ :=
  [0x30,0x660,0x6F0,0x7C0,0x966,0x9E6,0xA66,0xAE6,0xB66,0xBE6,0xC66,0xCE6,0xD66,0xDE6,0xE50,0xED0,
    0xF20,0x1040,0x1090,0x17E0,0x1810,0x1946,0x19D0,0x1A80,0x1A90,0x1B50,0x1BB0,0x1C40,0x1C50,
    0xA620,0xA8D0,0xA900,0xA9D0,0xA9F0,0xAA50,0xABF0,0xFF10,0x104A0,0x10D30,0x11066,0x110F0,
    0x11136,0x111D0,0x112F0,0x11450,0x114D0,0x11650,0x116C0,0x11730,0x118E0,0x11950,0x11C50,
    0x11D50,0x11DA0,0x16A60,0x16AC0,0x16B50,0x1D7CE,0x1D7D8,0x1D7E2,0x1D7EC,0x1D7F6,0x1E140,
    0x1E2F0,0x1E950,0x1FBF0]

/-- The value of a character that `\d` matches. -/
def digitValue (c : Char) : Option ℕ :=
  (digitZeros.find? fun z => z ≤ c.toNat && c.toNat < z + 10).map (c.toNat - ·)

/-- A character as `re.IGNORECASE` compares it with one of a pattern in ASCII letters. -/
def foldCase (c : Char) : Char :=
  if c.toNat = 0x130 ∨ c.toNat = 0x131 then 'i'
  else if c.toNat = 0x17F then 's'
  else if c.toNat = 0x212A then 'k'
  else c.toLower

/-- What is left of `text` after `literal`, in any case. -/
def dropLiteral : List Char → List Char → Option (List Char)
  | [],text => some text
  | _ :: _,[] => none
  | l :: literal,c :: text => if foldCase c = l then dropLiteral literal text else none

/-- What is left of `text` after `\s+`. -/
def dropSpaces : List Char → Option (List Char)
  | [] => none
  | c :: text => if pyIsSpace c then some (text.dropWhile pyIsSpace) else none

/-- `int` of the digits that `(\d+)` takes. -/
def takeDigits (text : List Char) : Option ℕ :=
  match text.takeWhile fun c => (digitValue c).isSome with
  | [] => none
  | digits => some (digits.foldl (fun n c => 10 * n + (digitValue c).getD 0) 0)

/-- The number where the expression `before\s+(\d+)\s+after` matches the start of `text`. -/
def matchNumber (before after : String) (text : List Char) : Option ℕ := do
  let text ← dropLiteral before.toList text
  let text ← dropSpaces text
  let n ← takeDigits text
  let text ← dropSpaces (text.dropWhile fun c => (digitValue c).isSome)
  let _ ← dropLiteral after.toList text
  return n

/-- The number of the first match of `before\s+(\d+)\s+after`, 0 without a match. -/
def searchNumber (before after text : String) : ℕ :=
  (text.toList.tails.findSome? (matchNumber before after)).getD 0

/-! ## A context that is full -/

/-- The details of `_parse_context_overflow_details` that are used. -/
structure OverflowDetails where
  contextLength : ℕ := 0
  proxyReservedTokens : ℕ := 0
  deriving DecidableEq

def parseContextOverflowDetails (errorText : Option String) : OverflowDetails :=
  let text := errorText.getD ""
  let lowered := lower text
  if !containsText lowered "context length" && !containsText lowered "input tokens" &&
      !containsText lowered "prefill_context_length_exceeded" then {}
  else
    let contextLength := searchNumber "context length is only" "tokens" text
    let providerReported := searchNumber "maximum context length is" "tokens" text
    ⟨if contextLength = 0 then providerReported else contextLength,
      searchNumber "reserves" "safety-buffer tokens" text⟩

def isContextOverflowError (errorText : Option String) : Bool :=
  let lowered := lower (errorText.getD "")
  decide (0 < (parseContextOverflowDetails errorText).contextLength) ||
    ((containsText lowered "context length" ||
        containsText lowered "prefill_context_length_exceeded") &&
      (containsText lowered "input tokens" || containsText lowered "input has") &&
      (containsText lowered "badrequesterror" || containsText lowered "400"))

/-! ## The classes of results -/

def fatalPatterns : List (List String) :=
  [["model","not found"],["not found","use --list"],["invalid model"],["unknown model"],
    ["model does not exist"],["unsupported model"],["invalid","api key"],["invalid","api_key"],
    ["unauthorized"],["authentication","failed"],["403","forbidden"],["does not exist"],
    ["cannot find module"],["syntax error"],["syntaxerror"]]

/-- Compared with texts in lower case, so those in capitals never match. -/
def retryableApiPatterns : List String :=
  ["connection","timeout","timed out","ECONNREFUSED","ECONNRESET","ETIMEDOUT","ENOTFOUND",
    "socket hang up","fetch failed","rate limit","429","503","502","500","overloaded","capacity",
    "temporarily unavailable","server error","internal error","bad gateway","service unavailable",
    "request failed"]

def retryableQueryEngine401Patterns : List (List String) :=
  [["401","authentication error"],["client is not connected to the query engine"],
    ["must call `connect()` before attempting to query data"]]

def timeoutErrorPatterns : List String :=
  ["timeout","timed out","etimedout","request timed out"]

def rateLimitPatterns : List String :=
  ["rate limit","429","too many requests"]

namespace AgentResult

variable (r : AgentResult)

/-- `(result.error or "").lower()`. -/
def errorText : String := lower (r.error.getD "")

/-- Whether `result.error` is a text that is not empty. -/
def hasError : Bool := r.error.getD "" != ""

def isFatalError : Bool :=
  r.hasError && !isContextOverflowError r.error && matchesAny fatalPatterns r.errorText

def isRetryableApiError : Bool :=
  !(r.exitCode == 0 && !r.hasError) && retryableApiPatterns.any (containsText r.errorText)

def isRetryableQueryEngine401Error : Bool :=
  !(r.exitCode == 0 && !r.hasError) && matchesAny retryableQueryEngine401Patterns r.errorText

def isEmptyResponse : Bool :=
  r.exitCode == 0 && !r.hasError && strip r.output == "" && decide (r.outputTokens ≤ 0)

def isPiCrash : Bool :=
  r.exitCode != 0 && r.messages.isEmpty && !r.isRetryableApiError && !r.isFatalError

def isTimeoutError : Bool := timeoutErrorPatterns.any (containsText r.errorText)

/-- A retryable error of the API that says the rate limit is reached. -/
def isRateLimitError : Bool :=
  r.isRetryableApiError && rateLimitPatterns.any (containsText r.errorText)

/-- The text of the last assistant message becomes the output. -/
def extractOutput : AgentResult :=
  match r.messages.reverse.find? fun msg => msg.role == "assistant" with
  | none => r
  | some msg => { r with output := "\n".intercalate msg.texts }

@[simp] theorem extractOutput_error : r.extractOutput.error = r.error := by
  unfold extractOutput
  split <;> rfl

@[simp] theorem extractOutput_exitCode : r.extractOutput.exitCode = r.exitCode := by
  unfold extractOutput
  split <;> rfl

@[simp] theorem extractOutput_messages : r.extractOutput.messages = r.messages := by
  unfold extractOutput
  split <;> rfl

@[simp] theorem extractOutput_isRateLimitError :
    r.extractOutput.isRateLimitError = r.isRateLimitError := by
  simp [isRateLimitError,isRetryableApiError,hasError,errorText]

/-- A process that failed without an error of its own is a crash until a message came. -/
theorem isPiCrash_of_text {e : String} (he : r.error = some e) (hx : r.exitCode ≠ 0)
    (hapi : retryableApiPatterns.any (containsText (lower e)) = false)
    (hfatal : matchesAny fatalPatterns (lower e) = false) :
    r.isPiCrash = r.messages.isEmpty := by
  have htext : r.errorText = lower e := by simp [errorText,he]
  simp [isPiCrash,isRetryableApiError,isFatalError,htext,hapi,hfatal,hx]

end AgentResult

/-- What `stderr` says of a fatal error of the `pi` command replaces the error of the messages. -/
def checkStderrForFatal (stderrText : String) (r : AgentResult) : AgentResult :=
  let textLower := lower stderrText
  if containsText textLower "error:" && !isContextOverflowError (some stderrText) &&
      matchesAny fatalPatterns textLower then
    { r with error := some (strip stderrText) }
  else r

end Runner
end EntryAnalyse
