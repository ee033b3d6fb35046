import EntryAnalyse.MarkdownFallback

/-! The session files of a run: the names that the builders give them, and what the index of the
sessions reads from a name. -/
namespace EntryAnalyse
namespace SessionNames

open PyJson PyText Runner MarkdownFallback

/-! ## The reader -/

/-- What `_infer_path_descriptor` returns. -/
structure Descriptor where
  role : String := "worker"
  roleLabel : String := "Worker"
  stageKey : String := "analyse"
  stageLabel : String := "入口分析"
  stageOrder : ℕ := 10
  moduleName : Option String := none
  attempt : Option ℤ := none
  judgeIndex : Option ℤ := none
  batchIndex : Option ℤ := none
  parentRelativePath : Option String := none
  parallelGroup : Option String := none
  familyKey : Option String := none
  flowKind : String := "worker"

/-- `_normalize_relative_path`. -/
def normalizeRelativePath (path : Text) : Text :=
  (trim (path.map fun c => if c = '\\' then '/' else c)).dropWhile (· == '/')

/-- A piece of an expression: a text, or at least one character of a kind. -/
inductive Piece where
  | lit (text : String)
  | many (kind : Char → Bool)

/-- `re.fullmatch`, where what follows a repetition does not begin with a character of its kind:
the groups, one for each repetition. -/
def fullmatch : List Piece → Text → Option (List Text)
  | [],text => if text.isEmpty then some [] else none
  | .lit l :: pieces,text =>
    if l.toList.isPrefixOf text then fullmatch pieces (text.drop l.toList.length) else none
  | .many kind :: pieces,text =>
    let group := text.takeWhile kind
    if group.isEmpty then none
    else (fullmatch pieces (text.dropWhile kind)).map (group :: ·)

/-- `[0-9a-f]`. -/
def isHex (c : Char) : Bool := ('0' ≤ c && c ≤ '9') || ('a' ≤ c && c ≤ 'f')

/-- An expression of the cascade, with the text that it begins with, and what its groups say. -/
structure Rule where
  front : String
  pieces : List Piece
  describe : List Text → Descriptor

namespace Rule

def read (r : Rule) (path : Text) : Option Descriptor :=
  (fullmatch (.lit r.front :: r.pieces) path).map r.describe

end Rule

/-- `m.group(n)`. -/
def group (groups : List Text) (n : ℕ) : Text := groups.getD (n - 1) []

def hashPieces : List Piece := [.many isHex,.lit ".jsonl"]

def hashAttemptPieces : List Piece := [.many isHex,.lit "-a",.many isDigit,.lit ".jsonl"]

def numberPieces : List Piece := [.many isDigit,.lit ".jsonl"]

/-- `_safe_int` of digits. -/
def safeInt (digits : Text) : Option ℤ := intOfText digits

def key (family : String) (text : Text) : Option String :=
  some (family ++ "::" ++ String.ofList text)

def workerRule : Rule := ⟨"worker.jsonl",[],fun _ => { familyKey := some "worker" }⟩

def masterWorkerRule : Rule := ⟨"master-worker.jsonl",[],fun _ =>
  { stageKey := "merge", stageLabel := "合并结果", stageOrder := 20,
    parentRelativePath := some "worker.jsonl", familyKey := some "master-worker" }⟩

def workerFileRule : Rule := ⟨"worker-file-",numberPieces,fun groups =>
  { batchIndex := safeInt (group groups 1), parallelGroup := some "file-workers",
    familyKey := some "file-workers", flowKind := "parallel" }⟩

def judgeRule : Rule :=
  ⟨"judge-",[.many isDigit,.lit "-r",.many isDigit,.lit ".jsonl"],fun groups =>
    { role := "judge", roleLabel := "Judge", stageKey := "judge", stageLabel := "裁判评审",
      stageOrder := 30, judgeIndex := safeInt (group groups 1),
      attempt := safeInt (group groups 2),
      parallelGroup := key "judge" ('r' :: group groups 2),
      parentRelativePath := some "master-worker.jsonl",
      familyKey := key "judge" ('r' :: group groups 2), flowKind := "parallel" }⟩

def reportWRule : Rule := ⟨"report_w.jsonl",[],fun _ =>
  { stageKey := "report", stageLabel := "报告生成", stageOrder := 40, familyKey := some "report" }⟩

def reportJRule : Rule := ⟨"report_j_a",numberPieces,fun groups =>
  { role := "judge", roleLabel := "Judge", stageKey := "report", stageLabel := "报告生成",
    stageOrder := 40, attempt := safeInt (group groups 1),
    parentRelativePath := some "report_w.jsonl", familyKey := some "report",
    flowKind := "parallel" }⟩

/-- The worker of a file or a function. -/
def hashRule (front stageKey stageLabel : String) (stageOrder : ℕ) (family : String) : Rule :=
  ⟨front,hashPieces,fun groups =>
    { stageKey := stageKey, stageLabel := stageLabel, stageOrder := stageOrder,
      familyKey := key family (group groups 1) }⟩

/-- The judge of a file or a function. -/
def hashAttemptRule (front stageKey stageLabel : String) (stageOrder : ℕ) (family parent : String) :
    Rule :=
  ⟨front,hashAttemptPieces,fun groups =>
    { role := "judge", roleLabel := "Judge", stageKey := stageKey, stageLabel := stageLabel,
      stageOrder := stageOrder, attempt := safeInt (group groups 2),
      parentRelativePath := some (parent ++ String.ofList (group groups 1) ++ ".jsonl"),
      familyKey := key family (group groups 1), flowKind := "parallel" }⟩

def r1WRule : Rule := hashRule "r1-w-" "r1" "R1 覆盖率" 5 "r1"

def r1JRule : Rule := hashAttemptRule "r1-j-" "r1" "R1 覆盖率" 5 "r1" "r1-w-"

def r2WRule : Rule := hashRule "r2-w-" "r2" "R2 准确性" 7 "r2"

def r2JRule : Rule := hashAttemptRule "r2-j-" "r2" "R2 准确性" 7 "r2" "r2-w-"

def afRule : Rule := ⟨"af-",hashPieces,fun groups =>
  { stageKey := "api_filter", stageLabel := "API Filter", stageOrder := 6,
    familyKey := key "af" (group groups 1), role := "worker", roleLabel := "Filter",
    flowKind := "parallel" }⟩

def r4FuncWRule : Rule := hashRule "r4-func-w-" "r4_func" "R4 函数分析" 35 "r4f"

def reportFuncWRule : Rule := hashRule "report-func-w-" "report_func" "per-func 报告" 42 "rpf"

def reportFuncJRule : Rule :=
  hashAttemptRule "report-func-j-" "report_func" "per-func 报告" 42 "rpf" "report-func-w-"

def r4FinalJRule : Rule := ⟨"r4-final-j-a",numberPieces,fun groups =>
  { role := "judge", roleLabel := "Judge", stageKey := "judge", stageLabel := "裁判评审",
    stageOrder := 30, attempt := safeInt (group groups 1), familyKey := some "r4_final_j" }⟩

def rules : List Rule :=
  [workerRule,masterWorkerRule,workerFileRule,judgeRule,reportWRule,reportJRule,r1WRule,r1JRule,
    r2WRule,r2JRule,afRule,r4FuncWRule,reportFuncWRule,reportFuncJRule,r4FinalJRule]

/-- `_infer_path_descriptor`. -/
def inferPathDescriptor (relativePath : Text) : Descriptor :=
  (rules.findSome? fun r => r.read (normalizeRelativePath relativePath)).getD {}

/-! ## The builders -/

/-- A prefix of a digest in hexadecimal. -/
structure Hash where
  text : Text
  nonempty : text ≠ []
  hex : ∀ c ∈ text, isHex c = true

/-- The number of an attempt or of a batch, one that Python writes in digits. -/
structure Number where
  value : ℕ
  small : LineFits value

namespace Number

def text (n : Number) : Text := Nat.toDigits 10 n.value

/-- `f"{n:03d}"`. -/
def padded (n : Number) : Text := List.replicate (3 - n.text.length) '0' ++ n.text

end Number

def hashName (front : String) (hash : Hash) : Text := front.toList ++ (hash.text ++ ".jsonl".toList)

def hashAttemptName (front : String) (hash : Hash) (attempt : Number) : Text :=
  front.toList ++ (hash.text ++ ("-a".toList ++ (attempt.text ++ ".jsonl".toList)))

def attemptName (front : String) (attempt : Number) : Text :=
  front.toList ++ (attempt.text ++ ".jsonl".toList)

def r1WSession (fileHash : Hash) : Text := hashName "r1-w-" fileHash

def r1JSession (fileHash : Hash) (attempt : Number) : Text :=
  hashAttemptName "r1-j-" fileHash attempt

def r2WSession (funcHash : Hash) : Text := hashName "r2-w-" funcHash

def r2JSession (funcHash : Hash) (attempt : Number) : Text :=
  hashAttemptName "r2-j-" funcHash attempt

def r3WSession (fileHash funcHash : Hash) : Text :=
  "r3-w-".toList ++ (fileHash.text ++ '-' :: (funcHash.text ++ ".jsonl".toList))

def r3JSession (funcHash : Hash) (attempt : Number) : Text :=
  hashAttemptName "r3-j-" funcHash attempt

def r3JFileSession (fileHash : Hash) (attempt : Number) : Text :=
  hashAttemptName "r3-j-file-" fileHash attempt

def afSession (funcHash : Hash) : Text := hashName "af-" funcHash

def r5WSession (funcHash : Hash) : Text := hashName "r5-w-" funcHash

def r5JSession (funcHash : Hash) (attempt : Number) : Text :=
  hashAttemptName "r5-j-" funcHash attempt

def r6WSession (attempt : Number) : Text := attemptName "r6-w-a" attempt

def r6JSession (attempt : Number) : Text := attemptName "r6-j-a" attempt

def r4FuncWSession (funcHash : Hash) : Text := hashName "r4-func-w-" funcHash

def r4FuncJSession (funcHash : Hash) (attempt : Number) : Text :=
  hashAttemptName "r4-func-j-" funcHash attempt

def isGapIdChar (c : Char) : Bool :=
  ('A' ≤ c && c ≤ 'Z') || ('a' ≤ c && c ≤ 'z') || ('0' ≤ c && c ≤ '9') || c == '_' || c == '.' ||
    c == '-'

/-- The text with each run of other characters as one hyphen; `inside` is whether the character
before belongs to such a run. -/
def hyphenated : Bool → Text → Text
  | _,[] => []
  | inside,c :: cs =>
    if isGapIdChar c then c :: hyphenated false cs
    else if inside then hyphenated true cs
    else '-' :: hyphenated true cs

/-- `_gap_session_path`, where the gap has this text for an id. -/
def gapSessionPath (fileHash : Hash) (gap : Text) : Text :=
  "r1-w-".toList ++ (fileHash.text ++ '-' :: (hyphenated false gap ++ ".jsonl".toList))

def batchName (front : String) (batch : Number) : Text :=
  front.toList ++ (batch.padded ++ ".jsonl".toList)

/-- A session and the arguments of its builder. The older names `r1a_*`, `r1b_*`, `report_func_*`
and `r4_final_j` build the paths of `r1_*`, `r2_*`, `r5_*` and `r6_j`. -/
inductive Session where
  | r1W (fileHash : Hash)
  | r1J (fileHash : Hash) (attempt : Number)
  | r2W (funcHash : Hash)
  | r2J (funcHash : Hash) (attempt : Number)
  | r3W (fileHash funcHash : Hash)
  | r3J (funcHash : Hash) (attempt : Number)
  | r3JFile (fileHash : Hash) (attempt : Number)
  | af (funcHash : Hash)
  | r5W (funcHash : Hash)
  | r5J (funcHash : Hash) (attempt : Number)
  | r6W (attempt : Number)
  | r6J (attempt : Number)
  | r4FuncW (funcHash : Hash)
  | r4FuncJ (funcHash : Hash) (attempt : Number)
  | gap (fileHash : Hash) (gid : Text)
  | queueAf (batch : Number)
  | queuePhase1 (batch : Number)
  | queueTaint (batch : Number)

namespace Session

/-- The path below the directory of the sessions. -/
def path : Session → Text
  | r1W fileHash => r1WSession fileHash
  | r1J fileHash attempt => r1JSession fileHash attempt
  | r2W funcHash => r2WSession funcHash
  | r2J funcHash attempt => r2JSession funcHash attempt
  | r3W fileHash funcHash => r3WSession fileHash funcHash
  | r3J funcHash attempt => r3JSession funcHash attempt
  | r3JFile fileHash attempt => r3JFileSession fileHash attempt
  | af funcHash => afSession funcHash
  | r5W funcHash => r5WSession funcHash
  | r5J funcHash attempt => r5JSession funcHash attempt
  | r6W attempt => r6WSession attempt
  | r6J attempt => r6JSession attempt
  | r4FuncW funcHash => r4FuncWSession funcHash
  | r4FuncJ funcHash attempt => r4FuncJSession funcHash attempt
  | gap fileHash gid => gapSessionPath fileHash gid
  | queueAf batch => batchName "r3-af-" batch
  | queuePhase1 batch => batchName "r3-phase1-" batch
  | queueTaint batch => batchName "r3-taint-" batch

/-- The stage, by the key that the index has for it; it has none for R3. -/
def stageKey : Session → String
  | r1W _ | r1J .. | gap .. => "r1"
  | r2W _ | r2J .. => "r2"
  | r3W .. | r3J .. | r3JFile .. | queueAf _ | queuePhase1 _ | queueTaint _ => "r3"
  | af _ => "api_filter"
  | r4FuncW _ | r4FuncJ .. => "r4_func"
  | r5W _ | r5J .. => "report_func"
  | r6W _ => "report"
  | r6J _ => "judge"

def role : Session → String
  | r1J .. | r2J .. | r3J .. | r3JFile .. | r5J .. | r6J _ | r4FuncJ .. => "judge"
  | _ => "worker"

def hashes : Session → List Hash
  | r1W h | r1J h _ | r2W h | r2J h _ | r3J h _ | r3JFile h _ | af h | r5W h | r5J h _
  | r4FuncW h | r4FuncJ h _ | gap h _ => [h]
  | r3W fileHash funcHash => [fileHash,funcHash]
  | _ => []

def attempt : Session → Option Number
  | r1J _ n | r2J _ n | r3J _ n | r3JFile _ n | r5J _ n | r6W n | r6J n | r4FuncJ _ n => some n
  | _ => none

end Session

/-- What the path is decoded to has the stage, the role, the hash and the attempt of the session. -/
structure Decodes (s : Session) (d : Descriptor) : Prop where
  stageKey : d.stageKey = s.stageKey
  role : d.role = s.role
  hashes : ∀ h ∈ s.hashes, ∃ family, d.familyKey = key family h.text
  attempt : d.attempt = s.attempt.map fun n => (n.value : ℤ)

/-- The builders whose names the cascade knows. -/
def Session.known : Session → Bool
  | .r1W _ | .r1J .. | .r2W _ | .r2J .. | .af _ | .r4FuncW _ => true
  | _ => false

/-! ## Reading a built name -/

section Read

variable {kind : Char → Bool} {pieces : List Piece} {g rest text : Text} {c : Char}

/-- Letters of file names, which no step of the normalisation changes. -/
def Plain (text : Text) : Prop := ∀ c ∈ text, isGapIdChar c = true

instance (text : Text) : Decidable (Plain text) := List.decidableBAll _ text

theorem plain_append : Plain (g ++ rest) ↔ Plain g ∧ Plain rest := List.forall_mem_append

theorem plain_cons : Plain (c :: rest) ↔ isGapIdChar c = true ∧ Plain rest :=
  List.forall_mem_cons

theorem isGapIdChar_range (h : isGapIdChar c = true) :
    (45 ≤ c.toNat ∧ c.toNat ≤ 122) ∧ c ≠ '/' ∧ c ≠ '\\' := by
  refine ⟨?_,?_,?_⟩
  · simp only [isGapIdChar,Bool.or_eq_true,Bool.and_eq_true,decide_eq_true_eq,beq_iff_eq,
      Char.le_def,UInt32.le_iff_toNat_le] at h
    rcases h with ((((⟨hlow,hhigh⟩ | ⟨hlow,hhigh⟩) | ⟨hlow,hhigh⟩) | rfl) | rfl) | rfl
    · exact ⟨le_trans (by decide) hlow,le_trans hhigh (by decide)⟩
    · exact ⟨le_trans (by decide) hlow,hhigh⟩
    · exact ⟨le_trans (by decide) hlow,le_trans hhigh (by decide)⟩
    · decide
    · decide
    · decide
  · rintro rfl
    revert h
    decide
  · rintro rfl
    revert h
    decide

theorem not_space_of_gapIdChar (h : isGapIdChar c = true) : pyIsSpace c = false := by
  have hrange := (isGapIdChar_range h).1
  simp only [pyIsSpace,Bool.or_eq_false_iff,Bool.and_eq_false_iff,decide_eq_false_iff_not,
    beq_eq_false_iff_ne]
  omega

theorem normalize_plain (h : Plain text) : normalizeRelativePath text = text := by
  have hmap : (text.map fun c => if c = '\\' then '/' else c) = text.map id :=
    List.map_congr_left fun c hc => if_neg (isGapIdChar_range (h c hc)).2.2
  rw [normalizeRelativePath,hmap,List.map_id,
    trim_eq_self_of_no_space fun c hc => not_space_of_gapIdChar (h c hc)]
  cases text with
  | nil => rfl
  | cons c text =>
    rw [List.dropWhile_cons_of_neg]
    rw [beq_iff_eq]
    exact (isGapIdChar_range (h c List.mem_cons_self)).2.1

theorem fullmatch_lit (l : String) :
    fullmatch (.lit l :: pieces) (l.toList ++ rest) = fullmatch pieces rest := by
  rw [fullmatch,if_pos (List.isPrefixOf_iff_prefix.mpr (List.prefix_append _ _)),List.drop_left]

theorem fullmatch_many (h : ∀ c ∈ g, kind c = true) (hne : g ≠ [])
    (hrest : rest.head?.any kind = false) :
    fullmatch (.many kind :: pieces) (g ++ rest) = (fullmatch pieces rest).map (g :: ·) := by
  have htake : rest.takeWhile kind = [] ∧ rest.dropWhile kind = rest := by
    cases rest with
    | nil => exact ⟨rfl,rfl⟩
    | cons c rest =>
      have hc : kind c = false := hrest
      exact ⟨List.takeWhile_cons_of_neg (by rw [hc]; decide),
        List.dropWhile_cons_of_neg (by rw [hc]; decide)⟩
  rw [fullmatch,List.takeWhile_append_of_pos h,List.dropWhile_append_of_pos h,htake.1,htake.2,
    List.append_nil,if_neg]
  rw [List.isEmpty_iff]
  exact hne

/-- The rules that may match a text with this beginning. -/
def candidates (front : String) : List Rule :=
  rules.filter fun r =>
    front.toList.isPrefixOf r.front.toList || r.front.toList.isPrefixOf front.toList

theorem read_eq_none {r : Rule} {front : String}
    (h : (front.toList.isPrefixOf r.front.toList || r.front.toList.isPrefixOf front.toList) = false) :
    r.read (front.toList ++ rest) = none := by
  rw [Bool.or_eq_false_iff] at h
  rw [Rule.read,fullmatch,if_neg,Option.map_none]
  intro hpre
  rcases List.prefix_or_prefix_of_prefix (List.isPrefixOf_iff_prefix.mp hpre)
    (List.prefix_append front.toList rest) with hp | hp
  · rw [List.isPrefixOf_iff_prefix.mpr hp] at h
    cases h.2
  · rw [List.isPrefixOf_iff_prefix.mpr hp] at h
    cases h.1

theorem findSome?_filter {α β : Type} {f : α → Option β} {p : α → Bool} {l : List α}
    (h : ∀ a, p a = false → f a = none) : (l.filter p).findSome? f = l.findSome? f := by
  induction l with
  | nil => rfl
  | cons a l ih =>
    rw [List.filter_cons]
    split
    · rw [List.findSome?_cons,List.findSome?_cons,ih]
    · rename_i ha
      rw [ih,List.findSome?_cons,h a (Bool.eq_false_iff.mpr ha)]

theorem infer_candidates (front : String) (h : Plain (front.toList ++ rest)) :
    inferPathDescriptor (front.toList ++ rest) =
      ((candidates front).findSome? fun r => r.read (front.toList ++ rest)).getD {} := by
  rw [inferPathDescriptor,normalize_plain h,candidates,findSome?_filter fun r => read_eq_none]

/-- No rule begins like this text. -/
theorem infer_none (front : String) (h : Plain (front.toList ++ rest))
    (hcand : candidates front = []) : inferPathDescriptor (front.toList ++ rest) = {} := by
  rw [infer_candidates front h,hcand]
  rfl

/-- One rule begins like this text, and matches it. -/
theorem infer_rule {r : Rule} {groups : List Text} (front : String)
    (h : Plain (front.toList ++ rest)) (hcand : candidates front = [r]) (hfront : r.front = front)
    (hmatch : fullmatch r.pieces rest = some groups) :
    inferPathDescriptor (front.toList ++ rest) = r.describe groups := by
  rw [infer_candidates front h,hcand,List.findSome?_cons,Rule.read,hfront,fullmatch_lit,hmatch]
  rfl

end Read

section Names

variable (h : Hash) (n : Number) (front : String)

theorem isGapIdChar_of_hex {c : Char} (hc : isHex c = true) : isGapIdChar c = true := by
  simp only [isHex,Bool.or_eq_true,Bool.and_eq_true,decide_eq_true_eq] at hc
  simp only [isGapIdChar,Bool.or_eq_true,Bool.and_eq_true,decide_eq_true_eq]
  rcases hc with ⟨hlow,hhigh⟩ | ⟨hlow,hhigh⟩
  · exact Or.inl (Or.inl (Or.inl (Or.inr ⟨hlow,hhigh⟩)))
  · exact Or.inl (Or.inl (Or.inl (Or.inl (Or.inr ⟨hlow,UInt32.le_trans hhigh (show 'f'.val ≤ 'z'.val by decide)⟩))))

theorem isHex_of_isDigit {c : Char} (hc : c.isDigit = true) : isHex c = true := by
  obtain ⟨hlow,hhigh⟩ := toNat_of_isDigit hc
  have hlow : '0' ≤ c := UInt32.le_iff_toNat_le.mpr hlow
  have hhigh : c ≤ '9' := UInt32.le_iff_toNat_le.mpr hhigh
  simp only [isHex,Bool.or_eq_true,Bool.and_eq_true,decide_eq_true_eq]
  exact Or.inl ⟨hlow,hhigh⟩

namespace Number

variable (n : Number)

theorem isDigit_text {c : Char} (hc : c ∈ n.text) : c.isDigit = true := isDigit_of_mem_toDigits hc

theorem text_ne_nil : n.text ≠ [] := Nat.toDigits_ne_nil

theorem plain_text : Plain n.text :=
  fun _ hc => isGapIdChar_of_hex (isHex_of_isDigit (n.isDigit_text hc))

theorem plain_padded : Plain n.padded := by
  refine plain_append.mpr ⟨fun (c : Char) hc => ?_,n.plain_text⟩
  rw [List.eq_of_mem_replicate hc]
  exact (by decide : isGapIdChar '0' = true)

/-- The number is read back. -/
theorem safeInt_text : safeInt n.text = some (n.value : ℤ) := by
  have hread := intOfText_intText n.value
  have hsmall := n.small
  rw [LineFits] at hsmall
  rw [intText_natCast,if_pos hsmall] at hread
  exact hread

end Number

theorem plain_hash : Plain h.text := fun c hc => isGapIdChar_of_hex (h.hex c hc)

theorem plain_jsonl : Plain ".jsonl".toList := by decide

theorem plain_hashName (hfront : Plain front.toList) : Plain (hashName front h) :=
  plain_append.mpr ⟨hfront,plain_append.mpr ⟨plain_hash h,plain_jsonl⟩⟩

theorem plain_attemptName (hfront : Plain front.toList) : Plain (attemptName front n) :=
  plain_append.mpr ⟨hfront,plain_append.mpr ⟨n.plain_text,plain_jsonl⟩⟩

theorem plain_hashAttemptName (hfront : Plain front.toList) : Plain (hashAttemptName front h n) :=
  plain_append.mpr ⟨hfront,plain_append.mpr ⟨plain_hash h,
    plain_append.mpr ⟨by decide,plain_append.mpr ⟨n.plain_text,plain_jsonl⟩⟩⟩⟩

theorem plain_batchName (hfront : Plain front.toList) : Plain (batchName front n) :=
  plain_append.mpr ⟨hfront,plain_append.mpr ⟨n.plain_padded,plain_jsonl⟩⟩

theorem plain_hyphenated (b : Bool) (text : Text) : Plain (hyphenated b text) := by
  induction text generalizing b with
  | nil => exact fun c hc => absurd hc List.not_mem_nil
  | cons c text ih =>
    rw [hyphenated]
    split
    · rename_i hc
      exact plain_cons.mpr ⟨hc,ih false⟩
    · split
      · exact ih true
      · exact plain_cons.mpr ⟨by decide,ih true⟩

theorem match_number : fullmatch numberPieces (n.text ++ ".jsonl".toList) = some [n.text] := by
  rw [numberPieces,fullmatch_many (fun c hc => isDigit_of_isDigit (n.isDigit_text hc))
    n.text_ne_nil rfl]
  rfl

theorem match_hash : fullmatch hashPieces (h.text ++ ".jsonl".toList) = some [h.text] := by
  rw [hashPieces,fullmatch_many h.hex h.nonempty rfl]
  rfl

theorem match_hash_attempt :
    fullmatch hashAttemptPieces (h.text ++ ("-a".toList ++ (n.text ++ ".jsonl".toList))) =
      some [h.text,n.text] := by
  have hnumber := match_number n
  rw [numberPieces] at hnumber
  rw [hashAttemptPieces,fullmatch_many h.hex h.nonempty rfl,fullmatch_lit,hnumber]
  rfl

/-- A worker's name is read by the rule that begins like it. -/
theorem infer_hashName {r : Rule} (hfront : Plain front.toList) (hcand : candidates front = [r])
    (hr : r.front = front) (hpieces : r.pieces = hashPieces) :
    inferPathDescriptor (hashName front h) = r.describe [h.text] :=
  infer_rule front (plain_hashName h front hfront) hcand hr (by rw [hpieces,match_hash])

theorem infer_hashAttemptName {r : Rule} (hfront : Plain front.toList)
    (hcand : candidates front = [r]) (hr : r.front = front)
    (hpieces : r.pieces = hashAttemptPieces) :
    inferPathDescriptor (hashAttemptName front h n) = r.describe [h.text,n.text] :=
  infer_rule front (plain_hashAttemptName h n front hfront) hcand hr
    (by rw [hpieces,match_hash_attempt])

/-- The identifier of the gap is in the way of the rule that begins like its name. -/
theorem infer_gap (gid : Text) : inferPathDescriptor (gapSessionPath h gid) = {} := by
  have hplain : Plain (gapSessionPath h gid) :=
    plain_append.mpr ⟨by decide,plain_append.mpr ⟨plain_hash h,
      plain_cons.mpr ⟨by decide,plain_append.mpr ⟨plain_hyphenated false gid,plain_jsonl⟩⟩⟩⟩
  rw [gapSessionPath] at hplain ⊢
  rw [infer_candidates "r1-w-" hplain,show candidates "r1-w-" = [r1WRule] from rfl,
    List.findSome?_cons,Rule.read,show r1WRule.front = "r1-w-" from rfl,fullmatch_lit,
    show r1WRule.pieces = hashPieces from rfl,hashPieces,
    fullmatch_many h.hex h.nonempty rfl]
  rfl

end Names

/-- What the path of a session is decoded to. -/
def Session.decoded (s : Session) : Descriptor := inferPathDescriptor s.path

/-- The paths that the cascade does not know are all described as the entry analysis by a worker,
of no file or function and no attempt. -/
theorem decoded_of_not_known (s : Session) (h : s.known = false) : s.decoded = {} := by
  cases s with
  | r3W fileHash funcHash =>
    refine infer_none "r3-w-" ?_ rfl
    exact plain_append.mpr ⟨by decide,plain_append.mpr ⟨plain_hash fileHash,
      plain_cons.mpr ⟨by decide,plain_append.mpr ⟨plain_hash funcHash,plain_jsonl⟩⟩⟩⟩
  | r3J funcHash n => exact infer_none "r3-j-" (plain_hashAttemptName funcHash n _ (by decide)) rfl
  | r3JFile fileHash n =>
    exact infer_none "r3-j-file-" (plain_hashAttemptName fileHash n _ (by decide)) rfl
  | r5W funcHash => exact infer_none "r5-w-" (plain_hashName funcHash _ (by decide)) rfl
  | r5J funcHash n => exact infer_none "r5-j-" (plain_hashAttemptName funcHash n _ (by decide)) rfl
  | r6W n => exact infer_none "r6-w-a" (plain_attemptName n _ (by decide)) rfl
  | r6J n => exact infer_none "r6-j-a" (plain_attemptName n _ (by decide)) rfl
  | r4FuncJ funcHash n =>
    exact infer_none "r4-func-j-" (plain_hashAttemptName funcHash n _ (by decide)) rfl
  | gap fileHash gid => exact infer_gap fileHash gid
  | queueAf n => exact infer_none "r3-af-" (plain_batchName n _ (by decide)) rfl
  | queuePhase1 n => exact infer_none "r3-phase1-" (plain_batchName n _ (by decide)) rfl
  | queueTaint n => exact infer_none "r3-taint-" (plain_batchName n _ (by decide)) rfl
  | r1W | r1J | r2W | r2J | af | r4FuncW => cases h

/-- What a rule for a hash says is right where its stage is. -/
theorem decodes_hashRule {s : Session} {front stage label family : String} {order : ℕ} {h : Hash}
    (hdecoded : s.decoded = (hashRule front stage label order family).describe [h.text])
    (hstage : s.stageKey = stage) (hrole : s.role = "worker") (hhash : s.hashes = [h])
    (hattempt : s.attempt = none) : Decodes s s.decoded := by
  rw [hdecoded]
  refine ⟨hstage.symm,hrole.symm,?_,by rw [hattempt]; rfl⟩
  rw [hhash]
  exact List.forall_mem_singleton.mpr ⟨family,rfl⟩

theorem decodes_hashAttemptRule {s : Session} {front stage label family parent : String} {order : ℕ}
    {h : Hash} {n : Number}
    (hdecoded : s.decoded =
      (hashAttemptRule front stage label order family parent).describe [h.text,n.text])
    (hstage : s.stageKey = stage) (hrole : s.role = "judge") (hhash : s.hashes = [h])
    (hattempt : s.attempt = some n) : Decodes s s.decoded := by
  rw [hdecoded]
  refine ⟨hstage.symm,hrole.symm,?_,?_⟩
  · rw [hhash]
    exact List.forall_mem_singleton.mpr ⟨family,rfl⟩
  · rw [hattempt]
    exact n.safeInt_text

theorem decodes_of_known (s : Session) (h : s.known = true) : Decodes s s.decoded := by
  cases s with
  | r1W fileHash =>
    exact decodes_hashRule (infer_hashName fileHash "r1-w-" (by decide) rfl rfl rfl) rfl rfl rfl rfl
  | r1J fileHash n =>
    exact decodes_hashAttemptRule
      (infer_hashAttemptName fileHash n "r1-j-" (by decide) rfl rfl rfl) rfl rfl rfl rfl
  | r2W funcHash =>
    exact decodes_hashRule (infer_hashName funcHash "r2-w-" (by decide) rfl rfl rfl) rfl rfl rfl rfl
  | r2J funcHash n =>
    exact decodes_hashAttemptRule
      (infer_hashAttemptName funcHash n "r2-j-" (by decide) rfl rfl rfl) rfl rfl rfl rfl
  | af funcHash =>
    have hdecoded : (Session.af funcHash).decoded = afRule.describe [funcHash.text] :=
      infer_hashName funcHash "af-" (by decide) rfl rfl rfl
    rw [hdecoded]
    exact ⟨rfl,rfl,List.forall_mem_singleton.mpr ⟨"af",rfl⟩,rfl⟩
  | r4FuncW funcHash =>
    exact decodes_hashRule
      (infer_hashName funcHash "r4-func-w-" (by decide) rfl rfl rfl) rfl rfl rfl rfl
  | _ => cases h

/-- The stage of the entry analysis, which the index falls back to, is that of no session. -/
theorem stageKey_ne_default (s : Session) : s.stageKey ≠ "analyse" := by
  cases s <;> simp only [Session.stageKey] <;> decide

/-- The path of a session is decoded to what it was built from iff the cascade knows its builder. -/
theorem decodes_iff (s : Session) : Decodes s s.decoded ↔ s.known = true := by
  constructor
  · intro h
    by_contra hknown
    rw [Bool.not_eq_true] at hknown
    have hstage := h.stageKey
    rw [decoded_of_not_known s hknown] at hstage
    exact stageKey_ne_default s hstage.symm
  · exact decodes_of_known s

/-- The worker of R3 is taken for one of no function. -/
theorem r3_not_decoded : ¬∀ s : Session, Decodes s s.decoded := by
  intro h
  let zero : Hash := ⟨['0'],by decide,by decide⟩
  obtain ⟨family,hfamily⟩ := (h (.r3W zero zero)).hashes zero List.mem_cons_self
  rw [decoded_of_not_known (.r3W zero zero) rfl] at hfamily
  cases hfamily

end SessionNames
end EntryAnalyse
