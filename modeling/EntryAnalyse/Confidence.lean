import EntryAnalyse.AgentResult

/-! The score that estimates whether a function is an entry from outside, over exact numbers. -/
namespace EntryAnalyse
namespace Confidence

open PyJson Runner

/-! ## Rounding -/

/-- `round(q)`, a half to the even neighbour. -/
def roundEven (q : ℚ) : ℤ :=
  if Int.fract q < 1 / 2 then ⌊q⌋
  else if 1 / 2 < Int.fract q then ⌊q⌋ + 1
  else ⌊q⌋ + ⌊q⌋ % 2

/-- `round(q, 2)`. -/
def roundCents (q : ℚ) : ℚ := roundEven (100 * q) / 100

/-- `min(1.0, max(0.0, q))`. -/
def clamp (q : ℚ) : ℚ := min 1 (max 0 q)

theorem floor_le_roundEven (q : ℚ) : ⌊q⌋ ≤ roundEven q := by
  unfold roundEven
  split_ifs <;> omega

theorem roundEven_le (q : ℚ) : roundEven q ≤ ⌊q⌋ + 1 := by
  unfold roundEven
  split_ifs <;> omega

theorem roundEven_mono {q r : ℚ} (h : q ≤ r) : roundEven q ≤ roundEven r := by
  rcases (Int.floor_mono h).lt_or_eq with less | same
  · have := roundEven_le q
    have := floor_le_roundEven r
    omega
  · have parts : Int.fract q ≤ Int.fract r := by
      rw [Int.fract,Int.fract,same]
      linarith
    unfold roundEven
    rw [same]
    split_ifs <;> first | omega | linarith

theorem roundCents_mono {q r : ℚ} (h : q ≤ r) : roundCents q ≤ roundCents r := by
  have whole : roundEven (100 * q) ≤ roundEven (100 * r) := roundEven_mono (by linarith)
  have cast : (roundEven (100 * q) : ℚ) ≤ roundEven (100 * r) := by exact_mod_cast whole
  unfold roundCents
  linarith

theorem clamp_mono {q r : ℚ} (h : q ≤ r) : clamp q ≤ clamp r :=
  min_le_min le_rfl (max_le_max le_rfl h)

theorem clamp_mem (q : ℚ) : 0 ≤ clamp q ∧ clamp q ≤ 1 :=
  ⟨le_min zero_le_one (le_max_left 0 q),min_le_left 1 _⟩

/-! ## The signals -/

/-- The keys of `_WEIGHTS`. -/
inductive Signal
  | tagA | entrySourceLines | r3JPassed | entryRoleBoundary | entryRoleCallback
  | entryRoleIpcHandler | entryRoleDispatchTgt | taintDetailsComplete | noModuleCallers
  | onlyByDispatcher | manyInternalCallers | msgHandlerName | receivedLogEvidence | lowEvidence

def baseScore : ℚ := 0.35

/-- `_WEIGHTS`. -/
def weight : Signal → ℚ
  | .tagA => 0.20
  | .entrySourceLines => 0.08
  | .r3JPassed => 0.15
  | .entryRoleBoundary => 0.15
  | .entryRoleCallback => 0.12
  | .entryRoleIpcHandler => 0.10
  | .entryRoleDispatchTgt => 0.10
  | .taintDetailsComplete => 0.05
  | .noModuleCallers => 0.15
  | .onlyByDispatcher => 0.05
  | .manyInternalCallers => -0.10
  | .msgHandlerName => 0.05
  | .receivedLogEvidence => 0.08
  | .lowEvidence => -0.05

/-- What a signal adds where it is found. -/
def add (found : Bool) (s : Signal) : ℚ := if found then weight s else 0

abbrev Dict := List (String × PyJson)

/-- The values of `get_callchain_role` that count. -/
structure CallchainRole where
  callersCount : ℕ
  callersOutsideModule : ℕ
  isOnlyCalledByDispatcher : Bool

/-- `str.upper`, exact where the result is a letter of ASCII. -/
def upper (s : String) : String := String.ofList (s.toList.map Char.toUpper)

variable (py : PyRuntime)

/-- `str(d.get(k) or "")`. -/
def said (d : Dict) (k : String) : String := py.str ((field d k).or (.str ""))

def tagOf (analysis : Dict) : String :=
  upper (strip (py.str ((field analysis "tag").or (.str "P"))))

def hasSourceLines (analysis : Dict) : Bool :=
  match field analysis "entry_source_lines" with
  | .list lines => !lines.isEmpty
  | _ => false

def judgePassed (state : Dict) : Bool := lower (said py state "r3_j_state") == "passed"

/-- The role of the analysis or else of the function's state. -/
def entryRole (analysis state : Dict) : String :=
  let role := lower (py.text (field analysis "entry_role"))
  if role = "" ∧ state ≠ [] then lower (py.text (field state "entry_role")) else role

def roleScore (role : String) : ℚ :=
  if role = "boundary" then weight .entryRoleBoundary
  else if role = "callback" then weight .entryRoleCallback
  else if role = "ipc_handler" then weight .entryRoleIpcHandler
  else if role = "dispatch_target" then weight .entryRoleDispatchTgt
  else 0

/-- A detail with a description that is not blank. -/
def described : PyJson → Bool
  | .dict d => py.text (field d "description") != ""
  | _ => false

/-- Whether there is a described detail for each taint; `len` raises for numbers. -/
def detailsComplete (analysis : Dict) : Except PyError Bool :=
  match field analysis "taint_details" with
  | .list details => do
    let n ← ((field analysis "taints").or (.list [])).len
    pure (details.length == n && decide (0 < details.length) && details.all (described py))
  | _ => .ok false

/-- `[A-Z]` in any case. -/
def isLetter (c : Char) : Bool := decide ('a' ≤ foldCase c) && decide (foldCase c ≤ 'z')

/-- One of the words is at the start of the text, in any case: what is left behind it. -/
def afterWord (words : List String) (text : List Char) : List (List Char) :=
  words.filterMap fun w => dropLiteral w.toList text

/-- `_MSG_PAT.search`. -/
def isMsgHandlerName (name : String) : Bool :=
  name.toList.tails.any fun text =>
    (afterWord ["proc","handle","process","onmsg"] text).any fun
      | [] => false
      | c :: rest => isLetter c && (rest.takeWhile (· ≠ '\n')).tails.any fun behind =>
          !(afterWord ["msg","request","req","event"] behind).isEmpty

def hasReceivedLog (analysis : Dict) : Bool :=
  ["received","recv","recvd","接收"].any (containsText (lower (said py analysis "entry_reason")))

/-- Nothing but the name of a parameter speaks for the entry. -/
def isLowEvidence (analysis state : Dict) : Bool :=
  !(field analysis "entry_source_lines").truthy && tagOf py analysis == "P" &&
    !isMsgHandlerName (said py state "name") && !hasReceivedLog py analysis

def chainScore (role : CallchainRole) : ℚ :=
  add (role.callersCount == 0 || decide (0 < role.callersOutsideModule)) .noModuleCallers +
    add role.isOnlyCalledByDispatcher .onlyByDispatcher +
    add (decide ((3 : ℤ) < role.callersCount - role.callersOutsideModule) &&
      !role.isOnlyCalledByDispatcher) .manyInternalCallers

/-- The sum of what the signals add. -/
def score (analysis state : Dict) (complete : Bool) (role : Option CallchainRole) : ℚ :=
  baseScore + add (tagOf py analysis == "A") .tagA +
    add (hasSourceLines analysis) .entrySourceLines + add (judgePassed py state) .r3JPassed +
    roleScore (entryRole py analysis state) + add complete .taintDetailsComplete +
    add (isMsgHandlerName (said py state "name")) .msgHandlerName +
    add (hasReceivedLog py analysis) .receivedLogEvidence +
    add (isLowEvidence py analysis state) .lowEvidence + (role.map chainScore).getD 0

/-- `compute_confidence`; an argument `None` for the state is the empty one. -/
def computeConfidence (analysis state : Dict) (role : Option CallchainRole) : Except PyError ℚ :=
  if analysis.isEmpty || !(field analysis "has_external_input").truthy then .ok 0
  else do
    let complete ← detailsComplete py analysis
    pure (clamp (roundCents (score py analysis state complete role)))

/-! ## More evidence -/

/-- The arguments of the second call differ from those of the first in one piece of evidence. -/
inductive MoreEvidence : Dict × Dict × Option CallchainRole →
    Dict × Dict × Option CallchainRole → Prop
  | judged {analysis state state' role} (others : ∀ k ≠ "r3_j_state", field state' k = field state k)
    (passed : judgePassed py state' = true) :
    MoreEvidence (analysis,state,role) (analysis,state',role)
  | located {analysis analysis' state role}
    (others : ∀ k ≠ "entry_source_lines", field analysis' k = field analysis k)
    (located : hasSourceLines analysis' = true) :
    MoreEvidence (analysis,state,role) (analysis',state,role)
  | active {analysis analysis' state role} (others : ∀ k ≠ "tag", field analysis' k = field analysis k)
    (passive : tagOf py analysis = "P") (active : tagOf py analysis' = "A") :
    MoreEvidence (analysis,state,role) (analysis',state,role)
  | external {analysis state} {role role' : CallchainRole}
    (callers : role'.callersCount = role.callersCount ∨
      role'.callersCount = role.callersCount + 1)
    (outside : role'.callersOutsideModule = role.callersOutsideModule + 1)
    (dispatcher : role'.isOnlyCalledByDispatcher = role.isOnlyCalledByDispatcher) :
    MoreEvidence (analysis,state,some role) (analysis,state,some role')

/-- What the score promises: there is one, in the unit interval, and more evidence does not
lower it. -/
def Sound (analysis state : Dict) (role : Option CallchainRole) : Prop :=
  ∃ x, computeConfidence py analysis state role = .ok x ∧ 0 ≤ x ∧ x ≤ 1 ∧
    ∀ analysis' state' role', MoreEvidence py (analysis,state,role) (analysis',state',role') →
      ∃ y, computeConfidence py analysis' state' role' = .ok y ∧ x ≤ y

/-- A number or `True` has no length. -/
def hasLength : PyJson → Bool
  | .bool b => !b
  | .int n => n == 0
  | .float x => x == .finite 0
  | _ => true

/-- The analyses whose taints are measured, if they are, with success. -/
def Measurable (analysis : Dict) : Prop :=
  (field analysis "has_external_input").truthy = true →
    (∃ details, field analysis "taint_details" = .list details) →
      hasLength (field analysis "taints") = true

section Measured

variable {py} {analysis analysis' state state' : Dict} {role role' : Option CallchainRole}

theorem len_isOk_iff (v : PyJson) : (∃ n, (v.or (.list [])).len = .ok n) ↔ hasLength v = true := by
  cases v with
  | null => exact iff_of_true ⟨0,rfl⟩ rfl
  | bool b => cases b with
    | false => exact iff_of_true ⟨0,rfl⟩ rfl
    | true => exact iff_of_false (fun ⟨_,h⟩ => by cases h) (by decide)
  | int n =>
    by_cases zero : n = 0
    · rw [zero]
      exact iff_of_true ⟨0,rfl⟩ rfl
    · simp [PyJson.or,truthy,hasLength,len,zero]
  | float x =>
    by_cases zero : x = .finite 0
    · rw [zero]
      exact iff_of_true ⟨0,rfl⟩ rfl
    · simp [PyJson.or,truthy,hasLength,len,zero]
  | str s =>
    refine iff_of_true ?_ rfl
    unfold PyJson.or
    split
    · exact ⟨_,rfl⟩
    · exact ⟨0,rfl⟩
  | list xs =>
    refine iff_of_true ?_ rfl
    unfold PyJson.or
    split
    · exact ⟨_,rfl⟩
    · exact ⟨0,rfl⟩
  | dict kvs =>
    refine iff_of_true ?_ rfl
    unfold PyJson.or
    split
    · exact ⟨_,rfl⟩
    · exact ⟨0,rfl⟩

theorem detailsComplete_isOk_iff (py : PyRuntime) : (∃ b, detailsComplete py analysis = .ok b) ↔
    ((∃ details, field analysis "taint_details" = .list details) →
      hasLength (field analysis "taints") = true) := by
  unfold detailsComplete
  cases details : field analysis "taint_details" with
  | list xs =>
    simp only [PyJson.list.injEq,exists_eq',forall_const]
    rw [← len_isOk_iff]
    constructor
    · rintro ⟨b,h⟩
      obtain ⟨n,hn,-⟩ := bind_eq_ok.mp h
      exact ⟨n,hn⟩
    · rintro ⟨n,hn⟩
      rw [hn]
      exact ⟨_,rfl⟩
  | _ => simp

theorem truthy_field_nil (k : String) : (field [] k).truthy = false := rfl

/-- The score of an analysis without external input, and of one with. -/
theorem compute_eq : computeConfidence py analysis state role =
    if (field analysis "has_external_input").truthy then
      (detailsComplete py analysis).map fun complete =>
        clamp (roundCents (score py analysis state complete role))
    else .ok 0 := by
  unfold computeConfidence
  cases analysis with
  | nil => rfl
  | cons p analysis =>
    cases (field (p :: analysis) "has_external_input").truthy <;> rfl

theorem compute_isOk_iff (py : PyRuntime) (analysis state : Dict) (role : Option CallchainRole) :
    (∃ x, computeConfidence py analysis state role = .ok x) ↔
    Measurable analysis := by
  rw [compute_eq,Measurable,← detailsComplete_isOk_iff py]
  split
  · rename_i input
    simp only [input,true_imp_iff]
    cases detailsComplete py analysis <;> simp [Except.map]
  · rename_i none
    exact iff_of_true ⟨0,rfl⟩ fun input => absurd input none

theorem compute_mem {x : ℚ} (h : computeConfidence py analysis state role = .ok x) :
    0 ≤ x ∧ x ≤ 1 := by
  rw [compute_eq] at h
  split at h
  · cases complete : detailsComplete py analysis with
    | error e => rw [complete] at h; cases h
    | ok b =>
      rw [complete] at h
      cases h
      exact clamp_mem _
  · cases h
    exact ⟨le_rfl,zero_le_one⟩

end Measured

section Monotone

variable {py} {analysis analysis' state state' : Dict} {role role' : Option CallchainRole}

theorem add_mono {b b' : Bool} {s : Signal} (positive : 0 ≤ weight s) (h : b = true → b' = true) :
    add b s ≤ add b' s := by
  cases b with
  | false => cases b' with
    | false => exact le_rfl
    | true => exact positive
  | true => rw [h rfl]

theorem add_anti {b b' : Bool} {s : Signal} (negative : weight s ≤ 0) (h : b' = true → b = true) :
    add b s ≤ add b' s := by
  cases b' with
  | false => cases b with
    | false => exact le_rfl
    | true => exact negative
  | true => rw [h rfl]

theorem said_congr {d d' : Dict} {k : String} (h : field d' k = field d k) :
    said py d' k = said py d k := by
  rw [said,said,h]

theorem lower_empty : lower "" = "" := by decide

theorem entryRole_eq : entryRole py analysis state =
    if lower (py.text (field analysis "entry_role")) = "" then
      lower (py.text (field state "entry_role"))
    else lower (py.text (field analysis "entry_role")) := by
  unfold entryRole
  cases state with
  | cons p state => simp
  | nil =>
    have none : py.text (field [] "entry_role") = "" := py.text_null
    rw [none,lower_empty]
    dsimp only
    split
    · rename_i h
      exact absurd rfl h.2
    · split
      · assumption
      · rfl

theorem chainScore_mono {r r' : CallchainRole}
    (callers : r'.callersCount = r.callersCount ∨ r'.callersCount = r.callersCount + 1)
    (outside : r'.callersOutsideModule = r.callersOutsideModule + 1)
    (dispatcher : r'.isOnlyCalledByDispatcher = r.isOnlyCalledByDispatcher) :
    chainScore r ≤ chainScore r' := by
  unfold chainScore
  rw [dispatcher,outside]
  have called : add (r.callersCount == 0 || decide (0 < r.callersOutsideModule)) .noModuleCallers ≤
      add (r'.callersCount == 0 || decide (0 < r.callersOutsideModule + 1)) .noModuleCallers := by
    refine add_mono (by norm_num [weight]) fun _ => ?_
    rw [decide_eq_true (Nat.succ_pos _),Bool.or_true]
  have inside : add (decide ((3 : ℤ) < r.callersCount - r.callersOutsideModule) &&
        !r.isOnlyCalledByDispatcher) .manyInternalCallers ≤
      add (decide ((3 : ℤ) < r'.callersCount - (r.callersOutsideModule + 1 : ℕ)) &&
        !r.isOnlyCalledByDispatcher) .manyInternalCallers := by
    refine add_anti (by norm_num [weight]) fun many => ?_
    rw [Bool.and_eq_true,decide_eq_true_iff] at many ⊢
    refine ⟨?_,many.2⟩
    have := many.1
    push_cast at this
    omega
  linarith

theorem score_mono {complete : Bool}
    (more : MoreEvidence py (analysis,state,role) (analysis',state',role')) :
    score py analysis state complete role ≤ score py analysis' state' complete role' := by
  cases more with
  | judged others passed =>
    have name : said py state' "name" = said py state "name" := said_congr (others _ (by decide))
    have roles : entryRole py analysis state' = entryRole py analysis state := by
      rw [entryRole_eq,entryRole_eq,others "entry_role" (by decide)]
    have judge : add (judgePassed py state) .r3JPassed ≤ add (judgePassed py state') .r3JPassed :=
      add_mono (by norm_num [weight]) fun _ => passed
    unfold score isLowEvidence
    rw [name,roles]
    linarith
  | located others located =>
    have tag : tagOf py analysis' = tagOf py analysis := by
      rw [tagOf,tagOf,others "tag" (by decide)]
    have roles : entryRole py analysis' state = entryRole py analysis state := by
      rw [entryRole,entryRole,others "entry_role" (by decide)]
    have log : hasReceivedLog py analysis' = hasReceivedLog py analysis := by
      rw [hasReceivedLog,hasReceivedLog,said_congr (others "entry_reason" (by decide))]
    have lines : add (hasSourceLines analysis) .entrySourceLines ≤
        add (hasSourceLines analysis') .entrySourceLines :=
      add_mono (by norm_num [weight]) fun _ => located
    have low : add (isLowEvidence py analysis state) .lowEvidence ≤
        add (isLowEvidence py analysis' state) .lowEvidence := by
      refine add_anti (by norm_num [weight]) fun low => ?_
      rw [isLowEvidence] at low
      unfold hasSourceLines at located
      split at located
      · rename_i lines eq
        simp [eq,truthy] at low
        simp [low] at located
      · cases located
    unfold score
    rw [tag,roles,log]
    linarith
  | active others passive active =>
    have lines : hasSourceLines analysis' = hasSourceLines analysis := by
      rw [hasSourceLines,hasSourceLines,others "entry_source_lines" (by decide)]
    have roles : entryRole py analysis' state = entryRole py analysis state := by
      rw [entryRole,entryRole,others "entry_role" (by decide)]
    have log : hasReceivedLog py analysis' = hasReceivedLog py analysis := by
      rw [hasReceivedLog,hasReceivedLog,said_congr (others "entry_reason" (by decide))]
    have tag : add (tagOf py analysis == "A") .tagA ≤ add (tagOf py analysis' == "A") .tagA :=
      add_mono (by norm_num [weight]) fun _ => by rw [active]; rfl
    have low : add (isLowEvidence py analysis state) .lowEvidence ≤
        add (isLowEvidence py analysis' state) .lowEvidence := by
      refine add_anti (by norm_num [weight]) fun low => ?_
      simp [isLowEvidence,active] at low
    unfold score
    rw [lines,roles,log]
    linarith
  | external callers outside dispatcher =>
    have chain := chainScore_mono callers outside dispatcher
    unfold score
    simp only [Option.map_some,Option.getD_some]
    linarith

/-- What decides whether there is a score is the same in both calls. -/
theorem detailsComplete_congr
    (more : MoreEvidence py (analysis,state,role) (analysis',state',role')) :
    field analysis' "has_external_input" = field analysis "has_external_input" ∧
      detailsComplete py analysis' = detailsComplete py analysis := by
  have same : ∀ k, k ≠ "has_external_input" → k ≠ "taint_details" → k ≠ "taints" →
      (∀ k' ≠ k, field analysis' k' = field analysis k') →
      field analysis' "has_external_input" = field analysis "has_external_input" ∧
        detailsComplete py analysis' = detailsComplete py analysis := by
    intro k input details taints others
    refine ⟨others _ input.symm,?_⟩
    rw [detailsComplete,detailsComplete,others _ details.symm,others _ taints.symm]
  cases more with
  | judged => exact ⟨rfl,rfl⟩
  | located others _ => exact same _ (by decide) (by decide) (by decide) others
  | active others _ _ => exact same _ (by decide) (by decide) (by decide) others
  | external => exact ⟨rfl,rfl⟩

theorem compute_mono (more : MoreEvidence py (analysis,state,role) (analysis',state',role'))
    {x : ℚ} (h : computeConfidence py analysis state role = .ok x) :
    ∃ y, computeConfidence py analysis' state' role' = .ok y ∧ x ≤ y := by
  obtain ⟨input,details⟩ := detailsComplete_congr more
  rw [compute_eq] at h ⊢
  rw [input,details]
  split at h
  · rename_i external
    rw [if_pos external]
    cases complete : detailsComplete py analysis with
    | error e => rw [complete] at h; cases h
    | ok b =>
      rw [complete] at h
      cases h
      exact ⟨_,rfl,clamp_mono (roundCents_mono (score_mono more))⟩
  · rename_i none
    rw [if_neg none]
    exact ⟨x,h,le_rfl⟩

end Monotone

theorem confidence_sound_iff (py : PyRuntime) (analysis state : Dict)
    (role : Option CallchainRole) : Sound py analysis state role ↔ Measurable analysis := by
  rw [← compute_isOk_iff py analysis state role]
  constructor
  · exact fun ⟨x,h,_⟩ => ⟨x,h⟩
  · rintro ⟨x,h⟩
    obtain ⟨low,high⟩ := compute_mem h
    exact ⟨x,h,low,high,fun _ _ _ more => compute_mono more h⟩

/-- Formats and numbers as far as the example needs them. -/
def plain : PyRuntime where
  repr := fun _ => ""
  dumps := fun _ => ""
  loads := fun _ => none
  floatOfInt := fun n => some n
  floatOfStr := fun _ => none
  round2 := roundCents

/-- One taint that is a number, with a list of details. -/
theorem number_of_taints_raises : ¬Sound plain
    [("has_external_input",.bool true),("taints",.int 1),("taint_details",.list [])] [] none := by
  rintro ⟨x,h,-⟩
  cases h

end Confidence
end EntryAnalyse
