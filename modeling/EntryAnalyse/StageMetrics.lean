import Mathlib.Algebra.BigOperators.Group.Finset.Basic
import Mathlib.Algebra.BigOperators.Group.Finset.Piecewise
import EntryAnalyse.FifoMatching
import EntryAnalyse.PyJson

/-! `_accumulate_stage_events`: the counters of the stages that are drawn from the events of a run.
Starts and ends of one agent are matched first in, first out. The time stamps are finite numbers. -/
namespace EntryAnalyse
namespace StageMetrics

open PyJson FifoMatching

inductive Phase
  | start | done | retry
  deriving DecidableEq

/-- `_STAGE_EVENT_MAP`. -/
def stageEventMap : List (String × String × String × Phase) :=
  [("r1_w_agent_start","r1","worker",.start),
    ("r1_w_agent_done","r1","worker",.done),
    ("r1_j_start","r1","judge",.start),
    ("r1_j_done","r1","judge",.done),
    ("r1_j_retry","r1","judge",.retry),
    ("r2_w_start","r2","worker",.start),
    ("r2_w_done","r2","worker",.done),
    ("r2_j_start","r2","judge",.start),
    ("r2_j_done","r2","judge",.done),
    ("r2_j_retry","r2","judge",.retry),
    ("r3_w_start","r3","worker",.start),
    ("r3_w_done","r3","worker",.done),
    ("r3_j_start","r3","judge",.start),
    ("r3_j_done","r3","judge",.done),
    ("r3_j_retry","r3","judge",.retry),
    ("r4_w_start","r4","worker",.start),
    ("r4_w_done","r4","worker",.done),
    ("r4_j_start","r4","judge",.start),
    ("r4_j_done","r4","judge",.done),
    ("r4_j_retry","r4","judge",.retry)]

/-- What is read of an event: `float(ts or 0.0)`, `str(type or "")` and its `data`. -/
structure Item where
  ts : ℚ
  type : String
  data : List (String × PyJson) := []

section Events

variable (py : PyRuntime)

/-- The text of the first of the fields that holds neither `None` nor the empty text. -/
def firstOf (keys : List String) (default : String) (data : List (String × PyJson)) : String :=
  match keys.find? fun k => match field data k with
    | .null => false
    | .str s => s ≠ ""
    | _ => true with
  | some k => py.str (field data k)
  | none => default

/-- `_stage_event_identity`. -/
def stageEventIdentity : List (String × PyJson) → String :=
  firstOf py ["func_hash","file_hash","attempt","function","file"] "__task__"

/-- `_event_session_path`. -/
def eventSessionPath : List (String × PyJson) → String :=
  firstOf py ["session_file","relative_path","path"] ""

/-- `_stage_status_from_event`. -/
def stageStatusFromEvent (stage role : String) (data : List (String × PyJson)) : String :=
  match if role = "judge" then field data "passed" else .null with
  | .bool passed => if passed then "passed" else "failed"
  | _ =>
    if stage = "r2" ∧ role = "worker" then "passed"
    else if (stage = "r3" ∨ stage = "r4") ∧ role = "worker" then "passed"
    else if stage = "r1" ∧ role = "worker" then "passed"
    else "completed"

/-- Stage, role and identity. -/
abbrev Key := String × String × String

/-- The four dictionaries. A bucket of durations is its count and its sum. -/
structure Totals where
  status : String × String → ℕ := fun _ => 0
  duration : String × String → ℕ × ℚ := fun _ => 0
  role : String × String → ℕ := fun _ => 0
  session : String → ℕ := fun _ => 0

def add {κ α : Type} [DecidableEq κ] [Add α] (f : κ → α) (k : κ) (x : α) : κ → α :=
  Function.update f k (f k + x)

/-- The state of the loop; `keys` are those of the dictionary `open_events`. -/
structure Scan where
  totals : Totals
  openEvents : Key → List ℚ := fun _ => []
  keys : List Key := []
  seen : List (String × String) := []

def Scan.touch (s : Scan) (key : Key) : Scan :=
  if key ∈ s.keys then s else { s with keys := s.keys ++ [key] }

def Scan.countSession (s : Scan) (stage path : String) : Scan :=
  if path ≠ "" ∧ ¬s.seen.contains (stage,path) then
    { s with
      seen := (stage,path) :: s.seen
      totals := { s.totals with session := add s.totals.session stage 1 } }
  else s

def Scan.countStart (s : Scan) (key : Key) (ts : ℚ) : Scan :=
  let s := s.touch key
  { s with
    totals := { s.totals with role := add s.totals.role (key.1,key.2.1) 1 }
    openEvents := Function.update s.openEvents key (s.openEvents key ++ [ts]) }

def Scan.countStatus (s : Scan) (stage name : String) (n : ℕ) : Scan :=
  { s with totals := { s.totals with status := add s.totals.status (stage,name) n } }

def Scan.countDone (s : Scan) (key : Key) (statusName : String) (ts : ℚ) : Scan :=
  let s := (s.countStatus key.1 statusName 1).touch key
  match s.openEvents key with
  | [] => s
  | started :: rest =>
    { s with
      openEvents := Function.update s.openEvents key rest
      totals := { s.totals with
        duration := add s.totals.duration (key.1,statusName) (1,max 0 (ts - started)) } }

/-- One round of the loop. -/
def scanItem (s : Scan) (item : Item) : Scan :=
  match stageEventMap.lookup item.type with
  | none => s
  | some (stage,role,phase) =>
    let key : Key := (stage,role,stageEventIdentity py item.data)
    let s := s.countSession stage (eventSessionPath py item.data)
    match phase with
    | .start => s.countStart key item.ts
    | .retry => s.countStatus stage "retry" 1
    | .done => s.countDone key (stageStatusFromEvent stage role item.data) item.ts

/-- `sorted(..., key=ts)`. -/
def ordered (items : List Item) : List Item := items.mergeSort fun a b => decide (a.ts ≤ b.ts)

/-- The loop that counts what is still open. -/
def countRunning (s : Scan) : Scan :=
  s.keys.foldl (fun s' key =>
    let pending := (s.openEvents key).length
    if 0 < pending then s'.countStatus key.1 "running" pending else s') s

/-- `_accumulate_stage_events`. -/
def accumulateStageEvents (totals : Totals) (items : List Item) : Totals :=
  (countRunning ((ordered items).foldl (scanItem py) { totals := totals })).totals

/-! ## The sequences of the agents -/

/-- What an event is for the agent `key`: a start, or an end with its status. -/
def mark (key : Key) (item : Item) : Option (Mark ℚ (ℚ × String)) :=
  match stageEventMap.lookup item.type with
  | none => none
  | some (stage,role,phase) =>
    if (stage,role,stageEventIdentity py item.data) = key then
      match phase with
      | .start => some (.start item.ts)
      | .done => some (.done (item.ts,stageStatusFromEvent stage role item.data))
      | .retry => none
    else none

def marks (key : Key) (items : List Item) : List (Mark ℚ (ℚ × String)) :=
  items.filterMap (mark py key)

/-- The agents that the events are about. -/
def agents (items : List Item) : Finset Key :=
  (items.filterMap fun item => (stageEventMap.lookup item.type).map fun x =>
    (x.1,x.2.1,stageEventIdentity py item.data)).toFinset

/-- The bucket of the durations that end with the status. -/
def bucket (pairs : List (ℚ × (ℚ × String))) (statusName : String) : ℕ × ℚ :=
  ((pairs.filter fun p => p.2.2 = statusName).length,
    ((pairs.filter fun p => p.2.2 = statusName).map fun p => p.2.1 - p.1).sum)

/-- The session files that the events of a stage name. -/
def sessions (stage : String) (items : List Item) : Finset String :=
  ((items.filter fun item => decide
      ((stageEventMap.lookup item.type).map (·.1) = some stage ∧
        eventSessionPath py item.data ≠ "")).map
    fun item => eventSessionPath py item.data).toFinset

def startsOf (stage : String) (items : List Item) : ℕ :=
  items.countP fun item => match stageEventMap.lookup item.type with
    | some (stage',_,.start) => stage' = stage
    | _ => false

end Events

section Scanning

variable {py : PyRuntime} {totals : Totals} {items l : List Item} {item : Item} {s : Scan}
  {stage statusName : String}

@[simp] theorem add_apply {κ α : Type} [DecidableEq κ] [AddMonoid α] (f : κ → α) (k k' : κ) (x : α) :
    add f k x k' = f k' + if k' = k then x else 0 := by
  by_cases h : k' = k
  · simp [add,h]
  · simp [add,h]

/-- A sum over the agents of a stage when the part of one agent changes. -/
theorem sum_stage {M : Type} [AddCommMonoid M] {K : Finset Key} {k : Key} (hk : k ∈ K)
    {f g : Key → M} {d : M} (h : ∀ x, g x = f x + if x = k then d else 0) :
    ∑ x ∈ K.filter (·.1 = stage), g x =
      ∑ x ∈ K.filter (·.1 = stage), f x + if stage = k.1 then d else 0 := by
  rw [Finset.sum_congr rfl fun x _ => h x,Finset.sum_add_distrib,Finset.sum_ite_eq']
  simp [hk,eq_comm]

/-! ### What the parts of one round change -/

@[simp] theorem countSession_openEvents (path : String) :
    (s.countSession stage path).openEvents = s.openEvents := by
  unfold Scan.countSession
  split <;> rfl

@[simp] theorem countSession_keys (path : String) : (s.countSession stage path).keys = s.keys := by
  unfold Scan.countSession
  split <;> rfl

@[simp] theorem countSession_status (path : String) :
    (s.countSession stage path).totals.status = s.totals.status := by
  unfold Scan.countSession
  split <;> rfl

@[simp] theorem countSession_duration (path : String) :
    (s.countSession stage path).totals.duration = s.totals.duration := by
  unfold Scan.countSession
  split <;> rfl

@[simp] theorem touch_openEvents (key : Key) : (s.touch key).openEvents = s.openEvents := by
  unfold Scan.touch
  split <;> rfl

@[simp] theorem touch_totals (key : Key) : (s.touch key).totals = s.totals := by
  unfold Scan.touch
  split <;> rfl

@[simp] theorem mem_touch {key k : Key} : k ∈ (s.touch key).keys ↔ k ∈ s.keys ∨ k = key := by
  unfold Scan.touch
  by_cases h : key ∈ s.keys
  · simp only [if_pos h]
    exact ⟨.inl,fun hk => hk.elim id fun e => e ▸ h⟩
  · simp [h]

theorem nodup_touch (key : Key) (h : s.keys.Nodup) : (s.touch key).keys.Nodup := by
  unfold Scan.touch
  split
  · exact h
  · next hk =>
    rw [← List.concat_eq_append]
    exact h.concat hk

theorem countDone_nil {key : Key} (h : s.openEvents key = []) (name : String) (ts : ℚ) :
    s.countDone key name ts = (s.countStatus key.1 name 1).touch key := by
  have h' : ((s.countStatus key.1 name 1).touch key).openEvents key = [] := by
    simpa [Scan.countStatus] using h
  simp only [Scan.countDone,h']

theorem countDone_cons {key : Key} {started : ℚ} {rest : List ℚ}
    (h : s.openEvents key = started :: rest) (name : String) (ts : ℚ) :
    s.countDone key name ts =
      let s' := (s.countStatus key.1 name 1).touch key
      { s' with
        openEvents := Function.update s'.openEvents key rest
        totals := { s'.totals with
          duration := add s'.totals.duration (key.1,name) (1,max 0 (ts - started)) } } := by
  have h' : ((s.countStatus key.1 name 1).touch key).openEvents key = started :: rest := by
    simpa [Scan.countStatus] using h
  simp only [Scan.countDone,h']

theorem stageStatusFromEvent_ne (stage role : String) (data : List (String × PyJson)) :
    stageStatusFromEvent stage role data ≠ "running" := by
  unfold stageStatusFromEvent
  split <;> split_ifs <;> decide

/-! ### The loop -/

@[simp] theorem marks_nil (key : Key) : marks py key [] = [] := rfl

theorem marks_concat (key : Key) (l : List Item) (item : Item) :
    marks py key (l ++ [item]) = marks py key l ++ (mark py key item).toList := by
  cases h : mark py key item <;> simp [marks,h]

theorem bucket_concat (pairs : List (ℚ × (ℚ × String))) (p : ℚ × (ℚ × String)) (name : String) :
    bucket (pairs ++ [p]) name =
      bucket pairs name + if name = p.2.2 then (1,p.2.1 - p.1) else 0 := by
  by_cases h : p.2.2 = name
  · simp [bucket,List.filter_append,h]
  · simp [bucket,List.filter_append,h,Ne.symm h]

/-- What holds of the loop after the events `l`, when it goes through events about `K`. -/
structure Scanned (py : PyRuntime) (totals : Totals) (K : Finset Key) (l : List Item)
    (s : Scan) : Prop where
  opened : ∀ key, s.openEvents key = (matching (marks py key l)).pending
  nodup : s.keys.Nodup
  known : ∀ key ∈ s.keys, key ∈ K
  touched : ∀ key, marks py key l ≠ [] → key ∈ s.keys
  duration : ∀ stage statusName, s.totals.duration (stage,statusName) =
    totals.duration (stage,statusName) +
      ∑ key ∈ K.filter (·.1 = stage), bucket (matching (marks py key l)).pairs statusName
  running : ∀ stage, s.totals.status (stage,"running") = totals.status (stage,"running")
  counted : ∀ stage, startsOf stage l =
    ∑ key ∈ K.filter (·.1 = stage), (starts (marks py key l)).length

theorem mark_time {key : Key} {m : Mark ℚ (ℚ × String)} (h : mark py key item = some m) :
    time id Prod.fst m = item.ts := by
  unfold mark at h
  split at h
  · cases h
  · split_ifs at h
    split at h <;> simp_all [time] <;> subst h <;> rfl

theorem marks_sorted (key : Key) (h : l.Pairwise fun a b => a.ts ≤ b.ts) :
    (marks py key l).Pairwise fun x y => time id Prod.fst x ≤ time id Prod.fst y := by
  refine List.Pairwise.filterMap _ ?_ h
  intro a b hab x hx y hy
  rw [mark_time hx,mark_time hy]
  exact hab

theorem scanned_init (K : Finset Key) : Scanned py totals K [] { totals := totals } where
  opened := by simp
  nodup := List.nodup_nil
  known := by simp
  touched := by simp
  duration := by simp [bucket]
  running := by simp
  counted := by simp [startsOf]

/-- The agent of an event of the stage and the role. -/
def Item.key (py : PyRuntime) (item : Item) (stage role : String) : Key :=
  (stage,role,stageEventIdentity py item.data)

variable {role : String}

theorem marks_start (h : stageEventMap.lookup item.type = some (stage,role,.start)) (key : Key) :
    marks py key (l ++ [item]) =
      marks py key l ++ if key = item.key py stage role then [.start item.ts] else [] := by
  rw [marks_concat]
  by_cases hk : item.key py stage role = key
  · simp [mark,h,← hk,Item.key]
  · have hk' : ¬ (stage,role,stageEventIdentity py item.data) = key := hk
    simp [mark,h,hk',Ne.symm hk]

theorem marks_done (h : stageEventMap.lookup item.type = some (stage,role,.done)) (key : Key) :
    marks py key (l ++ [item]) =
      marks py key l ++ if key = item.key py stage role
        then [.done (item.ts,stageStatusFromEvent stage role item.data)] else [] := by
  rw [marks_concat]
  by_cases hk : item.key py stage role = key
  · simp [mark,h,← hk,Item.key]
  · have hk' : ¬ (stage,role,stageEventIdentity py item.data) = key := hk
    simp [mark,h,hk',Ne.symm hk]

theorem marks_retry (h : stageEventMap.lookup item.type = some (stage,role,.retry)) (key : Key) :
    marks py key (l ++ [item]) = marks py key l := by
  rw [marks_concat]
  simp [mark,h]

theorem marks_unknown (h : stageEventMap.lookup item.type = none) (key : Key) :
    marks py key (l ++ [item]) = marks py key l := by
  rw [marks_concat]
  simp [mark,h]

theorem startsOf_concat (stage : String) (l : List Item) (item : Item) :
    startsOf stage (l ++ [item]) = startsOf stage l + startsOf stage [item] := by
  simp [startsOf]

variable {K : Finset Key}

/-- A round that neither starts nor ends anything. -/
theorem Scanned.pass {s' : Scan} (h : Scanned py totals K l s)
    (hmarks : ∀ key, marks py key (l ++ [item]) = marks py key l)
    (hstarts : ∀ stage, startsOf stage [item] = 0)
    (hopen : s'.openEvents = s.openEvents) (hkeys : s'.keys = s.keys)
    (hduration : s'.totals.duration = s.totals.duration)
    (hrunning : ∀ stage, s'.totals.status (stage,"running") = s.totals.status (stage,"running")) :
    Scanned py totals K (l ++ [item]) s' where
  opened key := by rw [hopen,hmarks,h.opened]
  nodup := hkeys ▸ h.nodup
  known := hkeys ▸ h.known
  touched key hk := by
    rw [hkeys]
    exact h.touched key (by rwa [hmarks] at hk)
  duration stage name := by
    rw [hduration,h.duration]
    simp only [hmarks]
  running stage := by rw [hrunning,h.running]
  counted stage := by
    rw [startsOf_concat,hstarts,h.counted,add_zero]
    simp only [hmarks]

theorem Scanned.start (h : Scanned py totals K l s)
    (hspec : stageEventMap.lookup item.type = some (stage,role,.start))
    (hK : item.key py stage role ∈ K) :
    Scanned py totals K (l ++ [item]) (s.countStart (item.key py stage role) item.ts) where
  opened key := by
    by_cases hk : key = item.key py stage role
    · subst hk
      simp [Scan.countStart,marks_start hspec,h.opened,feed]
    · simp [Scan.countStart,marks_start hspec,h.opened,hk]
  nodup := nodup_touch _ h.nodup
  known key hk := by
    rcases mem_touch.mp hk with hk | rfl
    · exact h.known key hk
    · exact hK
  touched key hk := by
    refine mem_touch.mpr ?_
    by_cases heq : key = item.key py stage role
    · exact .inr heq
    · rw [marks_start hspec,if_neg heq,List.append_nil] at hk
      exact .inl (h.touched key hk)
  duration stage' name := by
    have hpairs : ∀ key, (matching (marks py key (l ++ [item]))).pairs =
        (matching (marks py key l)).pairs := by
      intro key
      rw [marks_start hspec]
      split
      · simp [feed]
      · simp
    simpa [Scan.countStart,hpairs] using h.duration stage' name
  running stage' := by simpa [Scan.countStart] using h.running stage'
  counted stage' := by
    rw [startsOf_concat,h.counted,sum_stage hK
      (f := fun key => (starts (marks py key l)).length)
      (g := fun key => (starts (marks py key (l ++ [item]))).length) (d := 1)]
    · simp [startsOf,hspec,Item.key,eq_comm]
    · intro key
      rw [marks_start hspec]
      split <;> simp

theorem Scanned.done (h : Scanned py totals K l s)
    (hspec : stageEventMap.lookup item.type = some (stage,role,.done))
    (hK : item.key py stage role ∈ K)
    (hsorted : (l ++ [item]).Pairwise fun a b => a.ts ≤ b.ts) :
    Scanned py totals K (l ++ [item]) (s.countDone (item.key py stage role)
      (stageStatusFromEvent stage role item.data) item.ts) := by
  have hstarts : ∀ key, starts (marks py key (l ++ [item])) = starts (marks py key l) := by
    intro key
    rw [marks_done hspec]
    split <;> simp
  have hrunning := stageStatusFromEvent_ne stage role item.data
  have hcount : ∀ stage', startsOf stage' [item] = 0 := by simp [startsOf,hspec]
  have htouched : ∀ key, marks py key (l ++ [item]) ≠ [] →
      key ∈ s.keys ∨ key = item.key py stage role := by
    intro key hk
    by_cases heq : key = item.key py stage role
    · exact .inr heq
    · rw [marks_done hspec,if_neg heq,List.append_nil] at hk
      exact .inl (h.touched key hk)
  have hknown : ∀ key, key ∈ s.keys ∨ key = item.key py stage role → key ∈ K := by
    rintro key (hk | rfl)
    · exact h.known key hk
    · exact hK
  cases hopen : s.openEvents (item.key py stage role) with
  | nil =>
    have hfeed : ∀ key, matching (marks py key (l ++ [item])) = matching (marks py key l) := by
      intro key
      rw [marks_done hspec]
      split
      · next heq =>
        rw [heq,matching_concat,feed,← h.opened,hopen]
      · simp
    rw [countDone_nil hopen]
    exact {
      opened := fun key => by simpa [hfeed,Scan.countStatus] using h.opened key
      nodup := nodup_touch _ h.nodup
      known := fun key hk => hknown key (by simpa [Scan.countStatus] using hk)
      touched := fun key hk => mem_touch.mpr (htouched key hk)
      duration := fun stage' name => by
        simpa [hfeed,Scan.countStatus] using h.duration stage' name
      running := fun stage' => by
        simpa [Scan.countStatus,hrunning.symm] using h.running stage'
      counted := fun stage' => by
        rw [startsOf_concat,hcount,h.counted,add_zero]
        simp only [hstarts] }
  | cons started rest =>
    have hpending := (h.opened _).symm.trans hopen
    have hpairs : ∀ key, (matching (marks py key (l ++ [item]))).pairs =
        (matching (marks py key l)).pairs ++ if key = item.key py stage role
          then [(started,(item.ts,stageStatusFromEvent stage role item.data))] else [] := by
      intro key
      rw [marks_done hspec]
      by_cases heq : key = item.key py stage role
      · subst heq
        simp [feed,hpending]
      · simp [heq]
    have hle : started ≤ item.ts := by
      have := pairs_le (marks_sorted (item.key py stage role) hsorted)
        (started,(item.ts,stageStatusFromEvent stage role item.data))
        (by rw [hpairs,if_pos rfl]; simp)
      exact this
    rw [countDone_cons hopen]
    exact {
      opened := fun key => by
        by_cases heq : key = item.key py stage role
        · subst heq
          simp [marks_done hspec,feed,hpending]
        · simp [marks_done hspec,heq,h.opened,Scan.countStatus]
      nodup := nodup_touch _ h.nodup
      known := fun key hk => hknown key (by simpa [Scan.countStatus] using hk)
      touched := fun key hk => mem_touch.mpr (htouched key hk)
      duration := fun stage' name => by
        rw [sum_stage hK
          (f := fun key => bucket (matching (marks py key l)).pairs name)
          (d := if name = stageStatusFromEvent stage role item.data
            then (1,item.ts - started) else 0),← add_assoc,← h.duration]
        · simp only [add_apply,touch_totals,Scan.countStatus,max_eq_right (sub_nonneg.mpr hle),
            Prod.mk.injEq,ite_and]
        · intro key
          rw [hpairs]
          split
          · simp [bucket_concat]
          · simp
      running := fun stage' => by
        simpa [Scan.countStatus,hrunning.symm] using h.running stage'
      counted := fun stage' => by
        rw [startsOf_concat,hcount,h.counted,add_zero]
        simp only [hstarts] }

theorem Scanned.session (h : Scanned py totals K l s) (stage path : String) :
    Scanned py totals K l (s.countSession stage path) where
  opened := by simpa using h.opened
  nodup := by simpa using h.nodup
  known := by simpa using h.known
  touched := by simpa using h.touched
  duration := by simpa using h.duration
  running := by simpa using h.running
  counted := h.counted

theorem Scanned.step (h : Scanned py totals K l s)
    (hK : ∀ stage role phase, stageEventMap.lookup item.type = some (stage,role,phase) →
      item.key py stage role ∈ K)
    (hsorted : (l ++ [item]).Pairwise fun a b => a.ts ≤ b.ts) :
    Scanned py totals K (l ++ [item]) (scanItem py s item) := by
  cases hspec : stageEventMap.lookup item.type with
  | none =>
    simp only [scanItem,hspec]
    exact h.pass (marks_unknown hspec) (by simp [startsOf,hspec]) rfl rfl rfl fun _ => rfl
  | some spec =>
    obtain ⟨stage,role,phase⟩ := spec
    have hs := h.session stage (eventSessionPath py item.data)
    cases phase with
    | start =>
      simp only [scanItem,hspec]
      exact hs.start hspec (hK _ _ _ hspec)
    | retry =>
      simp only [scanItem,hspec]
      exact hs.pass (marks_retry hspec) (by simp [startsOf,hspec]) rfl rfl rfl
        (by simp [Scan.countStatus])
    | done =>
      simp only [scanItem,hspec]
      exact hs.done hspec (hK _ _ _ hspec) hsorted

theorem key_mem_agents (hitem : item ∈ items) {phase : Phase}
    (h : stageEventMap.lookup item.type = some (stage,role,phase)) :
    item.key py stage role ∈ agents py items := by
  rw [agents,List.mem_toFinset,List.mem_filterMap]
  exact ⟨item,hitem,by simp [h,Item.key]⟩

theorem scanned (hsub : ∀ item ∈ l, item ∈ items)
    (hsorted : l.Pairwise fun a b => a.ts ≤ b.ts) :
    Scanned py totals (agents py items) l (l.foldl (scanItem py) { totals := totals }) := by
  induction l using List.reverseRecOn with
  | nil => exact scanned_init _
  | append_singleton l item ih =>
    rw [List.foldl_concat]
    refine Scanned.step (ih (fun i hi => hsub i (by simp [hi])) (List.pairwise_append.mp hsorted).1)
      ?_ hsorted
    intro stage role phase hspec
    exact key_mem_agents (hsub item (by simp)) hspec

theorem sessions_concat (stage : String) (l : List Item) (item : Item) :
    sessions py stage (l ++ [item]) = sessions py stage l ∪ sessions py stage [item] := by
  simp [sessions]

@[simp] theorem countStart_seen (key : Key) (ts : ℚ) : (s.countStart key ts).seen = s.seen := by
  simp only [Scan.countStart,Scan.touch]
  split <;> rfl

@[simp] theorem countStart_session (key : Key) (ts : ℚ) :
    (s.countStart key ts).totals.session = s.totals.session := by
  simp only [Scan.countStart,Scan.touch]
  split <;> rfl

@[simp] theorem touch_seen (key : Key) : (s.touch key).seen = s.seen := by
  unfold Scan.touch
  split <;> rfl

@[simp] theorem countDone_seen (key : Key) (name : String) (ts : ℚ) :
    (s.countDone key name ts).seen = s.seen := by
  cases h : s.openEvents key with
  | nil => simp [countDone_nil h,Scan.countStatus]
  | cons a rest => simp [countDone_cons h,Scan.countStatus]

@[simp] theorem countDone_session (key : Key) (name : String) (ts : ℚ) :
    (s.countDone key name ts).totals.session = s.totals.session := by
  cases h : s.openEvents key with
  | nil => simp [countDone_nil h,Scan.countStatus]
  | cons a rest => simp [countDone_cons h,Scan.countStatus]

/-- The files seen so far are those of the events, and each is counted for its stage once. -/
structure Counted (py : PyRuntime) (totals : Totals) (l : List Item) (s : Scan) : Prop where
  seen : ∀ stage path, (stage,path) ∈ s.seen ↔ path ∈ sessions py stage l
  session : ∀ stage, s.totals.session stage = totals.session stage + (sessions py stage l).card

theorem counted_countSession (h : Counted py totals l s)
    (hspec : (stageEventMap.lookup item.type).map (·.1) = some stage) :
    Counted py totals (l ++ [item]) (s.countSession stage (eventSessionPath py item.data)) := by
  have hitem : ∀ stage', sessions py stage' [item] =
      if stage = stage' ∧ eventSessionPath py item.data ≠ ""
        then {eventSessionPath py item.data} else ∅ := by
    intro stage'
    by_cases hc : stage = stage' ∧ eventSessionPath py item.data ≠ ""
    · simp [sessions,hspec,hc]
    · have hno : ¬ ((stageEventMap.lookup item.type).map (·.1) = some stage' ∧
          eventSessionPath py item.data ≠ "") := by
        rwa [hspec,Option.some_inj]
      simp only [sessions,List.filter_singleton,hno,if_neg hc]
      simp
  unfold Scan.countSession
  simp only [List.contains_iff_mem]
  split_ifs with hnew
  · have hfresh : eventSessionPath py item.data ∉ sessions py stage l :=
      fun hin => hnew.2 ((h.seen _ _).mpr hin)
    constructor
    · intro stage' path
      rw [sessions_concat,hitem,Finset.mem_union,← h.seen]
      by_cases hstage : stage = stage'
      · simp [hstage,hnew.1,or_comm]
      · simp [hstage,Ne.symm hstage]
    · intro stage'
      simp only [sessions_concat,hitem,add_apply,h.session]
      by_cases hstage : stage' = stage
      · subst hstage
        rw [if_pos rfl,if_pos ⟨rfl,hnew.1⟩,Finset.union_comm,← Finset.insert_eq,
          Finset.card_insert_of_notMem hfresh,add_assoc]
      · simp [hstage,Ne.symm hstage]
  · have hsame : ∀ stage', sessions py stage' (l ++ [item]) = sessions py stage' l := by
      intro stage'
      rw [sessions_concat,hitem]
      split_ifs with hc
      · rw [Finset.union_eq_left,Finset.singleton_subset_iff,← h.seen,← hc.1]
        by_contra hin
        exact hnew ⟨hc.2,hin⟩
      · simp
    exact ⟨fun stage' path => by rw [hsame,h.seen],fun stage' => by rw [hsame,h.session]⟩

theorem counted_step (h : Counted py totals l s) :
    Counted py totals (l ++ [item]) (scanItem py s item) := by
  cases hspec : stageEventMap.lookup item.type with
  | none =>
    have hsame : ∀ stage, sessions py stage (l ++ [item]) = sessions py stage l := by
      intro stage
      rw [sessions_concat]
      simp [sessions,hspec]
    simp only [scanItem,hspec]
    exact ⟨fun stage path => by rw [hsame,h.seen],fun stage => by rw [hsame,h.session]⟩
  | some spec =>
    obtain ⟨stage,role,phase⟩ := spec
    have hstage : (stageEventMap.lookup item.type).map (·.1) = some stage := by rw [hspec]; rfl
    have hs := counted_countSession h hstage
    cases phase with
    | start =>
      simp only [scanItem,hspec]
      exact ⟨by simpa using hs.seen,by simpa using hs.session⟩
    | retry =>
      simp only [scanItem,hspec]
      exact ⟨hs.seen,hs.session⟩
    | done =>
      simp only [scanItem,hspec]
      exact ⟨by simpa using hs.seen,by simpa using hs.session⟩

theorem counted (l : List Item) :
    Counted py totals l (l.foldl (scanItem py) { totals := totals }) := by
  induction l using List.reverseRecOn with
  | nil => exact ⟨by simp [sessions],by simp [sessions]⟩
  | append_singleton l item ih =>
    rw [List.foldl_concat]
    exact counted_step ih

/-! ### What is still open -/

theorem countRunning_fold (s s' : Scan) (keys : List Key) :
    let r := keys.foldl (fun s' key =>
      let pending := (s.openEvents key).length
      if 0 < pending then s'.countStatus key.1 "running" pending else s') s'
    r.totals.duration = s'.totals.duration ∧ r.totals.session = s'.totals.session ∧
      ∀ stage, r.totals.status (stage,"running") = s'.totals.status (stage,"running") +
        (keys.map fun key => if key.1 = stage then (s.openEvents key).length else 0).sum := by
  induction keys generalizing s' with
  | nil => simp
  | cons key keys ih =>
    simp only [List.foldl_cons,List.map_cons,List.sum_cons]
    by_cases h : 0 < (s.openEvents key).length
    · obtain ⟨h₁,h₂,h₃⟩ := ih (s'.countStatus key.1 "running" (s.openEvents key).length)
      simp only [if_pos h]
      refine ⟨h₁,h₂,fun stage => ?_⟩
      rw [h₃,← add_assoc]
      simp [Scan.countStatus,eq_comm]
    · obtain ⟨h₁,h₂,h₃⟩ := ih s'
      simp only [if_neg h]
      refine ⟨h₁,h₂,fun stage => ?_⟩
      rw [h₃,Nat.eq_zero_of_not_pos h]
      simp

theorem sum_open (h : Scanned py totals K l s) (stage : String) :
    (s.keys.map fun key => if key.1 = stage then (s.openEvents key).length else 0).sum =
      ∑ key ∈ K.filter (·.1 = stage), (matching (marks py key l)).pending.length := by
  rw [← List.sum_toFinset _ h.nodup,Finset.sum_filter]
  have hsub : s.keys.toFinset ⊆ K := fun key hk => h.known key (List.mem_toFinset.mp hk)
  rw [Finset.sum_subset hsub]
  · exact Finset.sum_congr rfl fun key _ => by rw [h.opened]
  · intro key _ hkey
    have hnil : marks py key l = [] :=
      not_not.mp fun hne => hkey (List.mem_toFinset.mpr (h.touched key hne))
    simp [h.opened,hnil]

theorem startsOf_ordered (stage : String) (items : List Item) :
    startsOf stage (ordered items) = startsOf stage items :=
  (List.mergeSort_perm _ _).countP_eq _

theorem agents_ordered (items : List Item) : agents py (ordered items) = agents py items := by
  ext key
  simp [agents,ordered]

theorem sessions_ordered (stage : String) (items : List Item) :
    sessions py stage (ordered items) = sessions py stage items := by
  ext path
  simp [sessions,ordered]

theorem ordered_sorted (items : List Item) :
    (ordered items).Pairwise fun a b => a.ts ≤ b.ts := by
  have h := @List.pairwise_mergeSort Item (fun a b => decide (a.ts ≤ b.ts))
    (fun a b c hab hbc => by simp at *; exact hab.trans hbc)
    (fun a b => by simpa using le_total a.ts b.ts) items
  exact h.imp (by simp)

/-- What a start is counted as once it has ended. -/
def endings : Finset String := {"passed","failed","completed"}

theorem stageStatusFromEvent_mem (stage role : String) (data : List (String × PyJson)) :
    stageStatusFromEvent stage role data ∈ endings := by
  unfold stageStatusFromEvent
  split <;> split_ifs <;> decide

theorem mem_ends {key : Key} {e : ℚ × String} (h : e ∈ ends (marks py key l)) : e.2 ∈ endings := by
  obtain ⟨m,hm,hme⟩ := List.mem_filterMap.mp h
  obtain ⟨item,-,hitem⟩ := List.mem_filterMap.mp hm
  unfold mark at hitem
  split at hitem
  · cases hitem
  · split_ifs at hitem
    split at hitem
    · cases hitem
      cases hme
    · cases hitem
      cases hme
      exact stageStatusFromEvent_mem _ _ _
    · cases hitem

theorem sum_bucket (pairs : List (ℚ × (ℚ × String))) (h : ∀ p ∈ pairs, p.2.2 ∈ endings) :
    ∑ name ∈ endings, (bucket pairs name).1 = pairs.length := by
  induction pairs using List.reverseRecOn with
  | nil => simp [bucket]
  | append_singleton pairs p ih =>
    have hsum : ∀ name, (bucket (pairs ++ [p]) name).1 =
        (bucket pairs name).1 + if name = p.2.2 then 1 else 0 := by
      intro name
      rw [bucket_concat]
      split <;> simp
    simp only [hsum]
    rw [Finset.sum_add_distrib,ih fun q hq => h q (by simp [hq]),Finset.sum_ite_eq',
      if_pos (h p (by simp))]
    simp

theorem pairs_ending {key : Key} :
    ∀ p ∈ (matching (marks py key l)).pairs, p.2.2 ∈ endings := fun _ hp =>
  mem_ends ((pairs_snd _).subset (List.mem_map_of_mem hp))

theorem length_starts (key : Key) (l : List Item) :
    (starts (marks py key l)).length =
      ∑ name ∈ endings, (bucket (matching (marks py key l)).pairs name).1 +
        (matching (marks py key l)).pending.length := by
  rw [sum_bucket _ pairs_ending,← pairs_fst,List.length_append,List.length_map]

theorem bucket_nonneg {pairs : List (ℚ × (ℚ × String))} (h : ∀ p ∈ pairs, p.1 ≤ p.2.1)
    (name : String) : 0 ≤ (bucket pairs name).2 := by
  refine List.sum_nonneg ?_
  intro d hd
  obtain ⟨p,hp,rfl⟩ := List.mem_map.mp hd
  exact sub_nonneg.mpr (h p (List.mem_of_mem_filter hp))

variable (py totals items)

/-- What the scan of a run's events adds for a stage. Durations are those of the starts and ends that
are matched first in, first out, and none is negative. Still running is, for every agent, the largest
surplus of starts over ends in a last part of its events. Every start counts once, as one of the
durations or as still running, and every session file counts once. -/
theorem accumulateStageEvents_counts (stage : String) :
    let after := accumulateStageEvents py totals items
    let ofStage := (agents py items).filter (·.1 = stage)
    let matched := fun key => matching (marks py key (ordered items))
    (∀ name, after.duration (stage,name) = totals.duration (stage,name) +
        ∑ key ∈ ofStage, bucket (matched key).pairs name) ∧
      (∀ name, (totals.duration (stage,name)).2 ≤ (after.duration (stage,name)).2) ∧
      (∃ running : Key → ℕ,
        (∀ key, IsGreatest {n : ℤ | ∃ last, last <:+ marks py key (ordered items) ∧
          surplus last = n} (running key)) ∧
        after.status (stage,"running") =
          totals.status (stage,"running") + ∑ key ∈ ofStage, running key) ∧
      ∑ name ∈ endings, (after.duration (stage,name)).1 + after.status (stage,"running") =
        ∑ name ∈ endings, (totals.duration (stage,name)).1 + totals.status (stage,"running") +
          startsOf stage items ∧
      after.session stage = totals.session stage + (sessions py stage items).card := by
  intro after ofStage matched
  have hscan : Scanned py totals (agents py (ordered items)) (ordered items)
      ((ordered items).foldl (scanItem py) { totals := totals }) :=
    scanned (fun _ h => h) (ordered_sorted items)
  rw [agents_ordered] at hscan
  set s := (ordered items).foldl (scanItem py) { totals := totals } with hs
  obtain ⟨hdur,hses,hrun⟩ := countRunning_fold s s s.keys
  have hduration : ∀ name, after.duration (stage,name) = totals.duration (stage,name) +
      ∑ key ∈ ofStage, bucket (matched key).pairs name := by
    intro name
    exact (congrFun hdur _).trans (hscan.duration stage name)
  have hrunning : after.status (stage,"running") = totals.status (stage,"running") +
      ∑ key ∈ ofStage, (matched key).pending.length := by
    exact (hrun stage).trans (by rw [hscan.running,sum_open hscan])
  refine ⟨hduration,fun name => ?_,
    ⟨fun key => (matched key).pending.length,fun key => ?_,hrunning⟩,?_,?_⟩
  · rw [hduration,Prod.snd_add,Prod.snd_sum]
    refine le_add_of_nonneg_right (Finset.sum_nonneg fun key _ => bucket_nonneg ?_ name)
    exact pairs_le (marks_sorted key (ordered_sorted items))
  · obtain ⟨hle,last,hlast,heq⟩ := pending_length (marks py key (ordered items))
    exact ⟨⟨last,hlast,heq⟩,fun n ⟨last,hlast,heq⟩ => heq ▸ hle last hlast⟩
  · have hstarts := (hscan.counted stage).symm
    rw [startsOf_ordered] at hstarts
    simp only [length_starts,Finset.sum_add_distrib] at hstarts
    rw [Finset.sum_comm] at hstarts
    rw [hrunning,← hstarts]
    simp only [hduration,Prod.fst_add,Prod.fst_sum,Finset.sum_add_distrib]
    simp only [ofStage,matched]
    omega
  · refine (congrFun hses _).trans ?_
    rw [(counted (ordered items)).session,sessions_ordered]

end Scanning

end StageMetrics
end EntryAnalyse
