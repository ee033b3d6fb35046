import EntryAnalyse.PyText
import Mathlib.Data.List.ReduceOption

/-! The token totals of the session files: what each line adds, and when a line that cannot be
read spoils what the others add. Costs are exact numbers. -/
namespace EntryAnalyse

namespace PyFloat

/-- `x + y`, exact on finite numbers. -/
def exactAdd : PyFloat → PyFloat → PyFloat
  | .nan,_ => .nan
  | _,.nan => .nan
  | .finite p,.finite q => .finite (p + q)
  | .finite _,y => y
  | x,.finite _ => x
  | .posInf,.posInf => .posInf
  | .negInf,.negInf => .negInf
  | _,_ => .nan

instance : Zero PyFloat := ⟨.finite 0⟩
instance : Add PyFloat := ⟨exactAdd⟩

theorem finite_add_finite (p q : ℚ) : (.finite p + .finite q : PyFloat) = .finite (p + q) := rfl

instance : AddCommMonoid PyFloat where
  add_assoc x y z := by
    cases x <;> cases y <;> cases z <;> first | rfl | simp only [finite_add_finite,add_assoc]
  zero_add x := by
    cases x with
    | finite q => exact congrArg finite (zero_add q)
    | _ => rfl
  add_zero x := by
    cases x with
    | finite q => exact congrArg finite (add_zero q)
    | _ => rfl
  add_comm x y := by
    cases x <;> cases y <;> first | rfl | simp only [finite_add_finite,add_comm]
  nsmul := nsmulRec

end PyFloat

namespace TokenTotals

open PyJson PyText

abbrev Dict := List (String × PyJson)

/-- `totals`. -/
@[ext]
structure Totals where
  input : ℤ := 0
  output : ℤ := 0
  cacheRead : ℤ := 0
  cacheWrite : ℤ := 0
  cost : PyFloat := 0

namespace Totals

instance : Zero Totals := ⟨{}⟩

instance : Add Totals := ⟨fun t u => {
  input := t.input + u.input
  output := t.output + u.output
  cacheRead := t.cacheRead + u.cacheRead
  cacheWrite := t.cacheWrite + u.cacheWrite
  cost := t.cost + u.cost }⟩

section
variable (t u : Totals)

@[simp] theorem zero_input : (0 : Totals).input = 0 := rfl
@[simp] theorem zero_output : (0 : Totals).output = 0 := rfl
@[simp] theorem zero_cacheRead : (0 : Totals).cacheRead = 0 := rfl
@[simp] theorem zero_cacheWrite : (0 : Totals).cacheWrite = 0 := rfl
@[simp] theorem zero_cost : (0 : Totals).cost = 0 := rfl
@[simp] theorem add_input : (t + u).input = t.input + u.input := rfl
@[simp] theorem add_output : (t + u).output = t.output + u.output := rfl
@[simp] theorem add_cacheRead : (t + u).cacheRead = t.cacheRead + u.cacheRead := rfl
@[simp] theorem add_cacheWrite : (t + u).cacheWrite = t.cacheWrite + u.cacheWrite := rfl
@[simp] theorem add_cost : (t + u).cost = t.cost + u.cost := rfl

end

instance : AddCommMonoid Totals where
  add_assoc t u v := by ext1 <;> simp [add_assoc]
  zero_add t := by ext1 <;> simp
  add_zero t := by ext1 <;> simp
  add_comm t u := by ext1 <;> simp [add_comm]
  nsmul := nsmulRec

end Totals

/-- The interpreter's number formats and `round(x, 6)`. -/
structure Runtime extends PyRuntime where
  /-- `int(s)`. -/
  intOfStr : String → Option ℤ
  round6 : ℚ → ℚ
  loads_empty : loads "" = none
  floatOfInt_zero : floatOfInt 0 = some 0
  round6_zero : round6 0 = 0

section
variable (rt : Runtime)

/-! ## The aggregation -/

/-- `int(v)`. A float loses its fraction. -/
def int : PyJson → Except PyError ℤ
  | .bool b => .ok (if b then 1 else 0)
  | .int i => .ok i
  | .float (.finite q) => .ok (if 0 ≤ q then ⌊q⌋ else ⌈q⌉)
  | .float .nan => .error .valueError
  | .float _ => .error .overflowError
  | .str s =>
    match rt.intOfStr s with
    | some i => .ok i
    | none => .error .valueError
  | _ => .error .typeError

/-- Only a dict has `get`. -/
def dict : PyJson → Except PyError Dict
  | .dict d => .ok d
  | _ => .error .attributeError

/-- `v == text`. -/
def isText : PyJson → String → Bool
  | .str s,text => s == text
  | _,_ => false

/-- `int(usage.get(key, 0) or 0)`. -/
def count (usage : Dict) (key : String) : Except PyError ℤ :=
  int rt ((PyDict.getD usage key (.int 0)).or (.int 0))

def cost (usage : Dict) : Except PyError PyFloat :=
  match (field usage "cost").or (.int 0) with
  | .dict cost => rt.float ((PyDict.getD cost "total" (.int 0)).or (.int 0))
  | cost => rt.float cost

/-- A statement that may add to the totals before it raises. -/
abbrev Adding := ExceptT PyError (StateM Totals)

/-- The five `+=`. -/
def addUsage (usage : Dict) : Adding Unit := do
  let input ← count rt usage "input"
  modify fun t => { t with input := t.input + input }
  let output ← count rt usage "output"
  modify fun t => { t with output := t.output + output }
  let cacheRead ← count rt usage "cacheRead"
  modify fun t => { t with cacheRead := t.cacheRead + cacheRead }
  let cacheWrite ← count rt usage "cacheWrite"
  modify fun t => { t with cacheWrite := t.cacheWrite + cacheWrite }
  let cost ← cost rt usage
  modify fun t => { t with cost := t.cost + cost }

/-- The usage record of a line, `none` when the loop goes on to the next line. -/
def usageIn (raw : String) : Except PyError (Option Dict) := do
  if strip raw = "" then return none
  match rt.loads (strip raw) with
  | none => return none
  | some obj =>
    let obj ← dict obj
    if isText (field obj "type") "message" then
      let message ← dict ((field obj "message").or (.dict []))
      let usage ← dict ((field message "usage").or (.dict []))
      return some usage
    else return none

def readLine (raw : String) : Adding Unit := do
  match ← usageIn rt raw with
  | none => return
  | some usage => addUsage rt usage

def readLines : List String → Adding Unit
  | [] => return
  | raw :: lines => do
    readLine rt raw
    readLines lines

/-- The totals after the lines. What they raise is only logged. -/
def afterLines (t : Totals) (lines : List String) : Totals := ((readLines rt lines).run.run t).2

/-- A file that cannot be read raises before it adds anything. -/
def readFile (t : Totals) : Option String → Totals
  | none => t
  | some text => afterLines rt t (splitlines text)

/-- The conversion of the returned values: `int` leaves a counter as it is. -/
def rounded (t : Totals) : Totals :=
  { t with cost :=
    match t.cost with
    | .finite q => .finite (rt.round6 q)
    | x => x }

/-- `_aggregate_session_tokens`. The files are in the order of `glob`; `none` stands for a path
that is not a directory. -/
def aggregate : Option (List (Option String)) → Totals
  | none => 0
  | some files => rounded rt (files.foldl (readFile rt) 0)

/-! ## What a line is worth -/

/-- The amounts of a usage record, when all of them are numbers. -/
def amounts (usage : Dict) : Except PyError Totals := do
  return {
    input := ← count rt usage "input"
    output := ← count rt usage "output"
    cacheRead := ← count rt usage "cacheRead"
    cacheWrite := ← count rt usage "cacheWrite"
    cost := ← cost rt usage }

def asDict : PyJson → Option Dict
  | .dict d => some d
  | _ => none

/-- The usage record of a message object. -/
def messageUsage (v : PyJson) : Option Dict := do
  let obj ← asDict v
  if isText (field obj "type") "message" then
    asDict (field (← asDict (field obj "message")) "usage")
  else none

/-- A line counts when it is a message object with a well formed usage record. -/
def contribution (raw : String) : Totals :=
  match (rt.loads (strip raw)).bind messageUsage with
  | some usage => (amounts rt usage).toOption.getD 0
  | none => 0

def sum (lines : List String) : Totals := (lines.map (contribution rt)).sum

/-- The texts of the files that can be read. -/
def texts (sessions : Option (List (Option String))) : List String :=
  (sessions.getD []).reduceOption

/-- The totals are the sums over all lines of all files, and each line adds its own
contribution. -/
structure Right (sessions : Option (List (Option String))) : Prop where
  totals : aggregate rt sessions =
    rounded rt ((texts sessions).map fun text => sum rt (splitlines text)).sum
  lines : ∀ text ∈ texts sessions, ∀ before raw behind,
    splitlines text = before ++ raw :: behind →
      afterLines rt 0 (before ++ [raw]) = afterLines rt 0 before + contribution rt raw

/-! ## Lines that raise -/

/-- The keys of the counters, in the order of their additions. -/
def counters : List String := ["input","output","cacheRead","cacheWrite"]

/-- The counters before the first one that is not a number. -/
def leading (usage : Dict) : List ℤ :=
  ((counters.map (count rt usage)).takeWhile Except.isOk).filterMap Except.toOption

/-- The line is read without an exception. -/
def Reads (raw : String) : Prop :=
  ∃ found, usageIn rt raw = .ok found ∧ ∀ usage ∈ found, ∃ a, amounts rt usage = .ok a

/-- A line that raises has only zeros before the bad value, and the lines behind it show nowhere
in the sum of those before it. -/
def Quiet (lines : List String) : Prop :=
  ∀ before raw behind, lines = before ++ raw :: behind → (∀ line ∈ before, Reads rt line) →
    ¬ Reads rt raw →
      (∀ usage, usageIn rt raw = .ok (some usage) → ∀ n ∈ leading rt usage, n = 0) ∧
        ∀ line ∈ behind, sum rt before + contribution rt line = sum rt before

end

section
variable {α β : Type} {rt : Runtime} {raw : String} {usage : Dict} {t : Totals}

/-- What a usage record that cannot be added leaves in the totals. -/
def left (rt : Runtime) (usage : Dict) : Totals where
  input := (leading rt usage).getD 0 0
  output := (leading rt usage).getD 1 0
  cacheRead := (leading rt usage).getD 2 0
  cacheWrite := (leading rt usage).getD 3 0

/-- A value that can raise, before more statements. -/
theorem bind_run (x : Except PyError α) (f : α → Adding β) :
    (do let v ← x; f v : Adding β).run.run t =
      match x with
      | .ok v => (f v).run.run t
      | .error e => (.error e,t) := by
  cases x <;> rfl

theorem modify_run (f : Totals → Totals) (next : Adding α) :
    (do modify f; next : Adding α).run.run t = next.run.run (f t) := rfl

/-- The five additions together, or the counters before the first that raises. -/
theorem addUsage_run : (addUsage rt usage).run.run t =
    match amounts rt usage with
    | .ok a => (.ok (),t + a)
    | .error e => (.error e,t + left rt usage) := by
  unfold addUsage amounts left leading counters
  simp only [List.map_cons,List.map_nil,bind_run,modify_run]
  cases count rt usage "input" with
  | error e => exact Prod.ext rfl (add_zero t).symm
  | ok input =>
    cases count rt usage "output" with
    | error e =>
      exact Prod.ext rfl (Totals.ext rfl (add_zero _).symm (add_zero _).symm (add_zero _).symm
        (add_zero _).symm)
    | ok output =>
      cases count rt usage "cacheRead" with
      | error e =>
        exact Prod.ext rfl (Totals.ext rfl rfl (add_zero _).symm (add_zero _).symm
          (add_zero _).symm)
      | ok cacheRead =>
        cases count rt usage "cacheWrite" with
        | error e => exact Prod.ext rfl (Totals.ext rfl rfl rfl (add_zero _).symm (add_zero _).symm)
        | ok cacheWrite =>
          cases cost rt usage with
          | error e => exact Prod.ext rfl (Totals.ext rfl rfl rfl rfl (add_zero _).symm)
          | ok cost => rfl

theorem amounts_nil : amounts rt [] = .ok 0 := by
  have hcost : cost rt [] = .ok 0 := by
    change rt.float (.int 0) = _
    unfold PyRuntime.float
    dsimp only
    rw [rt.floatOfInt_zero]
    rfl
  unfold amounts
  rw [hcost]
  rfl

/-- A value that is neither a dict nor false has no `get`. -/
theorem dict_or (v : PyJson) : (∃ d, asDict v = some d ∧ dict (v.or (.dict [])) = .ok d) ∨
    asDict v = none ∧ (dict (v.or (.dict [])) = .ok [] ∨
      dict (v.or (.dict [])) = .error .attributeError) := by
  cases v with
  | dict d =>
    refine .inl ⟨d,rfl,?_⟩
    cases d <;> rfl
  | _ =>
    refine .inr ⟨rfl,?_⟩
    unfold PyJson.or
    split <;> simp [dict]

/-- The record that the loop adds is the one of the message, or an empty one. -/
theorem contribution_eq : contribution rt raw =
    match usageIn rt raw with
    | .ok (some usage) => (amounts rt usage).toOption.getD 0
    | _ => 0 := by
  unfold contribution usageIn
  by_cases hblank : strip raw = ""
  · simp only [hblank,rt.loads_empty,if_true]
    rfl
  simp only [hblank,if_false]
  cases rt.loads (strip raw) with
  | none => rfl
  | some v =>
    cases v with
    | dict obj =>
      have hobj : dict (.dict obj) = .ok obj := rfl
      have hget : asDict (.dict obj) = some obj := rfl
      simp only [Option.bind_some,messageUsage,hobj,hget,bind,Except.bind]
      by_cases htype : isText (field obj "type") "message" = true
      · simp only [htype,if_true]
        rcases dict_or (field obj "message") with ⟨message,hm,hd⟩ | ⟨hm,hd | hd⟩
        · rw [hm,hd,Option.bind_some]
          rcases dict_or (field message "usage") with ⟨usage,hu,hd⟩ | ⟨hu,hd | hd⟩
          · rw [hu]
            simp only [hd]
            rfl
          · rw [hu]
            simp only [hd]
            exact (congrArg (Option.getD · 0) (congrArg Except.toOption amounts_nil)).symm
          · rw [hu]
            simp only [hd]
        · rw [hm,hd,Option.bind_none]
          exact (congrArg (Option.getD · 0) (congrArg Except.toOption amounts_nil)).symm
        · rw [hm,hd,Option.bind_none]
      · simp only [htype]
        rfl
    | _ => rfl

theorem readLine_reads (h : Reads rt raw) :
    (readLine rt raw).run.run t = (.ok (),t + contribution rt raw) := by
  obtain ⟨found,hfound,hamounts⟩ := h
  rw [contribution_eq]
  unfold readLine
  rw [bind_run,hfound]
  cases found with
  | none => exact Prod.ext rfl (add_zero t).symm
  | some usage =>
    obtain ⟨a,ha⟩ := hamounts usage rfl
    simp only [addUsage_run,ha]
    rfl

/-- What a line that raises leaves in the totals. -/
def leftBy (rt : Runtime) (raw : String) : Totals :=
  match usageIn rt raw with
  | .ok (some usage) => left rt usage
  | _ => 0

theorem readLine_raises (h : ¬ Reads rt raw) :
    ∃ e, (readLine rt raw).run.run t = (.error e,t + leftBy rt raw) := by
  unfold readLine leftBy
  rw [bind_run]
  cases hfound : usageIn rt raw with
  | error e => exact ⟨e,Prod.ext rfl (add_zero t).symm⟩
  | ok found =>
    cases found with
    | none => exact absurd ⟨none,hfound,nofun⟩ h
    | some usage =>
      cases ha : amounts rt usage with
      | error e => exact ⟨e,by simp only [addUsage_run,ha]⟩
      | ok a =>
        refine absurd ⟨some usage,hfound,fun u hu => ⟨a,?_⟩⟩ h
        rw [← Option.some.inj hu,ha]

theorem contribution_raises (h : ¬ Reads rt raw) : contribution rt raw = 0 := by
  rw [contribution_eq]
  cases hfound : usageIn rt raw with
  | error e => rfl
  | ok found =>
    cases found with
    | none => rfl
    | some usage =>
      cases ha : amounts rt usage with
      | error e => simp only [ha]; rfl
      | ok a =>
        refine absurd ⟨some usage,hfound,fun u hu => ⟨a,?_⟩⟩ h
        rw [← Option.some.inj hu,ha]

variable {lines before behind : List String}

theorem afterLines_cons : afterLines rt t (raw :: lines) =
    match (readLine rt raw).run.run t with
    | (.ok _,u) => afterLines rt u lines
    | (.error _,u) => u := by
  unfold afterLines
  rw [readLines,ExceptT.run_bind,StateT.run_bind]
  rcases (readLine rt raw).run.run t with ⟨_ | _,u⟩ <;> rfl

theorem afterLines_reads (h : ∀ line ∈ before, Reads rt line) :
    afterLines rt t (before ++ behind) = afterLines rt (t + sum rt before) behind := by
  induction before generalizing t with
  | nil => rw [sum,List.map_nil,List.sum_nil,add_zero,List.nil_append]
  | cons raw before ih =>
    obtain ⟨hraw,hbefore⟩ := List.forall_mem_cons.mp h
    rw [sum,List.map_cons,List.sum_cons,← add_assoc]
    refine Eq.trans ?_ (ih hbefore)
    rw [List.cons_append,afterLines_cons,readLine_reads hraw]

/-- Behind a line that raises nothing is read. -/
theorem afterLines_raises (h : ¬ Reads rt raw) :
    afterLines rt t (raw :: behind) = t + leftBy rt raw := by
  obtain ⟨e,he⟩ := @readLine_raises rt raw t h
  rw [afterLines_cons,he]

/-! ## Sums -/

theorem sum_append : sum rt (before ++ behind) = sum rt before + sum rt behind := by
  simp [sum]

theorem sum_cons : sum rt (raw :: behind) = contribution rt raw + sum rt behind := by
  simp [sum]

/-- Lines that show nowhere in a sum do not show together. -/
theorem add_sum (h : ∀ line ∈ behind, t + contribution rt line = t) :
    t + sum rt behind = t := by
  induction behind with
  | nil => simp [sum]
  | cons line behind ih =>
    obtain ⟨hline,hbehind⟩ := List.forall_mem_cons.mp h
    rw [sum_cons,← add_assoc,hline,ih hbehind]

theorem length_leading : (leading rt usage).length ≤ 4 := by
  unfold leading
  calc _ ≤ ((counters.map (count rt usage)).takeWhile Except.isOk).length :=
        List.length_filterMap_le ..
    _ ≤ (counters.map (count rt usage)).length := (List.takeWhile_sublist _).length_le

/-- The amounts left behind are the counters before the bad value. -/
theorem left_eq_zero_iff : left rt usage = 0 ↔ ∀ n ∈ leading rt usage, n = 0 := by
  constructor
  · intro h n hn
    obtain ⟨i,hi,rfl⟩ := List.mem_iff_getElem.mp hn
    have hget : (leading rt usage).getD i 0 = 0 := by
      have hlength := @length_leading rt usage
      rcases i with _ | _ | _ | _ | i
      · exact congrArg Totals.input h
      · exact congrArg Totals.output h
      · exact congrArg Totals.cacheRead h
      · exact congrArg Totals.cacheWrite h
      · omega
    rwa [List.getD_eq_getElem?_getD,List.getElem?_eq_getElem hi] at hget
  · intro h
    have hget (i : ℕ) : (leading rt usage).getD i 0 = 0 := by
      rw [List.getD_eq_getElem?_getD]
      cases hi : (leading rt usage)[i]? with
      | none => rfl
      | some n => exact h n (List.mem_of_getElem? hi)
    exact Totals.ext (hget 0) (hget 1) (hget 2) (hget 3) rfl

theorem leftBy_eq_zero_iff : leftBy rt raw = 0 ↔
    ∀ usage, usageIn rt raw = .ok (some usage) → ∀ n ∈ leading rt usage, n = 0 := by
  unfold leftBy
  split
  · rename_i usage husage
    rw [left_eq_zero_iff,husage]
    constructor
    · rintro h u hu
      cases hu
      exact h
    · exact fun h => h usage rfl
  · rename_i hnone
    exact ⟨fun _ usage h => absurd h (hnone usage),fun _ => rfl⟩

/-- No cost is left behind, so the counters of a sum show what is. -/
theorem add_leftBy_iff : t + leftBy rt raw = t ↔ leftBy rt raw = 0 := by
  constructor
  · intro h
    have hcost : (leftBy rt raw).cost = 0 := by
      unfold leftBy
      split <;> rfl
    exact Totals.ext (by simpa using congrArg Totals.input h)
      (by simpa using congrArg Totals.output h) (by simpa using congrArg Totals.cacheRead h)
      (by simpa using congrArg Totals.cacheWrite h) hcost
  · intro h
    rw [h,add_zero]

/-- Lines are all read, or one of them is the first that raises. -/
theorem reads_or_first (lines : List String) : (∀ line ∈ lines, Reads rt line) ∨
    ∃ before raw behind, lines = before ++ raw :: behind ∧ (∀ line ∈ before, Reads rt line) ∧
      ¬ Reads rt raw := by
  induction lines with
  | nil => exact .inl nofun
  | cons line lines ih =>
    by_cases hline : Reads rt line
    · rcases ih with hall | ⟨before,raw,behind,rfl,hbefore,hraw⟩
      · exact .inl (List.forall_mem_cons.mpr ⟨hline,hall⟩)
      · exact .inr ⟨line :: before,raw,behind,rfl,List.forall_mem_cons.mpr ⟨hline,hbefore⟩,hraw⟩
    · exact .inr ⟨[],line,lines,rfl,nofun,hline⟩

/-! ## When the totals are right -/

theorem afterLines_all (h : ∀ line ∈ lines, Reads rt line) :
    afterLines rt t lines = t + sum rt lines := by
  have hall := @afterLines_reads rt t lines [] h
  rwa [List.append_nil] at hall

theorem afterLines_first (h : ∀ line ∈ before, Reads rt line) (hraw : ¬ Reads rt raw) :
    afterLines rt t (before ++ raw :: behind) = t + sum rt before + leftBy rt raw := by
  rw [afterLines_reads h,afterLines_raises hraw]

/-- In a quiet file each line adds its contribution. -/
theorem Quiet.line_adds (h : Quiet rt lines) (hsplit : lines = before ++ raw :: behind) :
    afterLines rt 0 (before ++ [raw]) = afterLines rt 0 before + contribution rt raw := by
  rcases @reads_or_first rt before with hall | ⟨first,bad,mid,rfl,hfirst,hbad⟩
  · rw [afterLines_reads hall,afterLines_all hall,zero_add]
    by_cases hraw : Reads rt raw
    · rw [afterLines_all (List.forall_mem_singleton.mpr hraw)]
      simp [sum]
    · rw [afterLines_raises hraw,contribution_raises hraw,
        leftBy_eq_zero_iff.mpr (h before raw behind hsplit hall hraw).1]
  · have hquiet := h first bad (mid ++ raw :: behind) (by rw [hsplit]; simp) hfirst hbad
    have hleft : leftBy rt bad = 0 := leftBy_eq_zero_iff.mpr hquiet.1
    rw [List.append_assoc,List.cons_append,afterLines_first hfirst hbad,afterLines_first hfirst hbad,
      hleft,add_zero,zero_add]
    exact (hquiet.2 raw (by simp)).symm

theorem Quiet.sums (h : Quiet rt lines) : afterLines rt t lines = t + sum rt lines := by
  rcases @reads_or_first rt lines with hall | ⟨before,raw,behind,rfl,hbefore,hraw⟩
  · exact afterLines_all hall
  · obtain ⟨hleft,hbehind⟩ := h before raw behind rfl hbefore hraw
    rw [afterLines_first hbefore hraw,leftBy_eq_zero_iff.mpr hleft,add_zero,sum_append,sum_cons,
      contribution_raises hraw,zero_add,add_sum hbehind]

theorem quiet_of_line_adds (h : ∀ before raw behind, lines = before ++ raw :: behind →
    afterLines rt 0 (before ++ [raw]) = afterLines rt 0 before + contribution rt raw) :
    Quiet rt lines := by
  intro before raw behind hsplit hbefore hraw
  have hadds := h before raw behind hsplit
  rw [afterLines_first hbefore hraw,afterLines_all hbefore,contribution_raises hraw,zero_add,
    add_zero,add_leftBy_iff] at hadds
  refine ⟨leftBy_eq_zero_iff.mp hadds,fun line hline => ?_⟩
  obtain ⟨mid,rest,rfl⟩ := List.append_of_mem hline
  have hline := h (before ++ raw :: mid) line rest (by rw [hsplit]; simp)
  rw [List.append_assoc,List.cons_append,afterLines_first hbefore hraw,
    afterLines_first hbefore hraw,hadds,add_zero,zero_add] at hline
  exact hline.symm

theorem fold_readFile {files : List (Option String)}
    (h : ∀ text ∈ files.reduceOption, Quiet rt (splitlines text)) :
    files.foldl (readFile rt) t =
      t + (files.reduceOption.map fun text => sum rt (splitlines text)).sum := by
  induction files generalizing t with
  | nil => exact (add_zero t).symm
  | cons file files ih =>
    cases file with
    | none =>
      rw [List.reduceOption_cons_of_none] at h ⊢
      exact ih h
    | some text =>
      rw [List.reduceOption_cons_of_some] at h ⊢
      obtain ⟨htext,hfiles⟩ := List.forall_mem_cons.mp h
      rw [List.foldl_cons,ih hfiles,readFile,htext.sums,List.map_cons,List.sum_cons,add_assoc]

theorem rounded_zero : rounded rt 0 = 0 :=
  Totals.ext rfl rfl rfl rfl (congrArg PyFloat.finite rt.round6_zero)

/-- The totals ignore broken lines exactly when every file is quiet. -/
theorem totals_right_iff (rt : Runtime) (sessions : Option (List (Option String))) :
    Right rt sessions ↔ ∀ text ∈ texts sessions, Quiet rt (splitlines text) := by
  constructor
  · exact fun h text htext => quiet_of_line_adds (h.lines text htext)
  · intro h
    refine ⟨?_,fun text htext before raw behind => (h text htext).line_adds⟩
    cases sessions with
    | none => exact rounded_zero.symm
    | some files => exact congrArg (rounded rt) ((fold_readFile h).trans (zero_add _))

end

/-- A runtime that reads a list and a message of five input tokens. -/
def twoLines : Runtime where
  repr _ := ""
  dumps _ := ""
  loads s :=
    if s = "[]" then some (.list [])
    else if s =
      "\x7b\"type\": \"message\", \"message\": \x7b\"usage\": \x7b\"input\": 5\x7d\x7d\x7d" then
      some (.dict [("type",.str "message"),("message",.dict [("usage",.dict [("input",.int 5)])])])
    else none
  floatOfInt i := some i
  floatOfStr _ := none
  round2 q := q
  intOfStr _ := none
  round6 q := q
  loads_empty := rfl
  floatOfInt_zero := rfl
  round6_zero := rfl

/-- A list in a line of its own hides the message behind it. -/
theorem list_hides_message : ¬ Right twoLines (some [some
    "[]\n\x7b\"type\": \"message\", \"message\": \x7b\"usage\": \x7b\"input\": 5\x7d\x7d\x7d"]) := by
  intro h
  have htotals := congrArg Totals.input h.totals
  revert htotals
  decide
end TokenTotals
end EntryAnalyse
