import EntryAnalyse.KeyedTable
import EntryAnalyse.PyJson
import EntryAnalyse.Runs
import Mathlib.Data.List.Sort

/-! Calls of `create_task` for one item of a parent stage. Each call queries for a task that it
may reuse, and inserts one when there is none; other calls query and insert in between. -/
namespace EntryAnalyse
namespace TaskDedup

open Runs

/-- The columns of a task row that the deduplication reads. -/
structure ParentRow where
  id : ℕ
  taskId : String
  projectId : String
  isDeleted : Bool
  status : String
  parentTaskId : Option String
  parentStageName : Option String
  parentStageItemId : Option String
  parentStageItemKey : Option String
  createdAt : ℤ
  deriving DecidableEq

/-- The arguments of `create_task` that name the parent. -/
structure CreateCall where
  projectId : String
  parentTaskId : Option String
  parentStageName : Option String
  parentStageItemId : Option String
  parentStageItemKey : Option String

/-- The item of a stage, by its id, or by its key when no id is given. -/
inductive StageItem
  | id (s : String)
  | key (s : String)
  deriving DecidableEq

structure Identity where
  projectId : String
  parentTaskId : String
  parentStageName : String
  item : StageItem
  deriving DecidableEq

/-- `str(v or "").strip()`. -/
def normalized (v : Option String) : String := strip (v.getD "")

/-- What the call looks for, if it names a parent. -/
def CreateCall.identity (c : CreateCall) : Option Identity :=
  let task := normalized c.parentTaskId
  let stage := normalized c.parentStageName
  let id := normalized c.parentStageItemId
  let key := normalized c.parentStageItemKey
  if task ≠ "" ∧ stage ≠ "" ∧ (id ≠ "" ∨ key ≠ "") then
    some ⟨c.projectId,task,stage,if id ≠ "" then .id id else .key key⟩
  else none

/-- `_PARENT_REUSABLE_TASK_STATUSES`. -/
def reusableStatuses : List String := ["pending","running","passed","success"]

/-- The row is a task of the identity. -/
def Identity.isOf (k : Identity) (r : ParentRow) : Bool :=
  r.projectId == k.projectId && r.parentTaskId == some k.parentTaskId &&
    r.parentStageName == some k.parentStageName &&
    match k.item with
    | .id s => r.parentStageItemId == some s
    | .key s => r.parentStageItemKey == some s

def Identity.reusable (k : Identity) (r : ParentRow) : Bool :=
  k.isOf r && !r.isDeleted && reusableStatuses.contains r.status

/-- `created_at` descending, then `id` descending. -/
def newerFirst (a b : ParentRow) : Prop :=
  b.createdAt < a.createdAt ∨ (a.createdAt = b.createdAt ∧ b.id ≤ a.id)

instance (a b : ParentRow) : Decidable (newerFirst a b) :=
  inferInstanceAs (Decidable (_ ∨ _ ∧ _))

def reusableQuery (rows : List ParentRow) (k : Identity) : Option ParentRow :=
  ((rows.filter k.reusable).insertionSort newerFirst).head?

/-- The row that a call adds. The columns keep the arguments as they were given. -/
def CreateCall.newRow (c : CreateCall) (id : ℕ) (taskId : String) (now : ℤ) : ParentRow :=
  ⟨id,taskId,c.projectId,false,"pending",c.parentTaskId,c.parentStageName,c.parentStageItemId,
    c.parentStageItemKey,now⟩

/-- Where a call is: before its query, between its query without a result and its insert, or
behind its return. -/
inductive CallPhase
  | start
  | creating
  | returned (taskId : String)
  deriving DecidableEq

/-- `task_id` is unique. -/
structure DedupState where
  rows : KeyedTable ParentRow.taskId
  phases : List CallPhase

/-- The steps of the calls, and changes by others to tasks of other identities. -/
inductive DedupAct
  | query (i : ℕ)
  | insert (i : ℕ) (id : ℕ) (taskId : String) (now : ℤ)
  | other (rows : KeyedTable ParentRow.taskId)

def DedupState.setPhase (s : DedupState) (i : ℕ) (p : CallPhase) : DedupState :=
  { s with phases := s.phases.set i p }

def runQuery (c : CreateCall) (s : DedupState) (i : ℕ) : DedupState :=
  match c.identity.bind (reusableQuery s.rows.rows) with
  | some r => s.setPhase i (.returned r.taskId)
  | none => s.setPhase i .creating

/-- One step of the calls `calls` for the identity `k`; the generated id is new. -/
def step (calls : List CreateCall) (k : Identity) (s : DedupState) :
    DedupAct → Option DedupState
  | .query i =>
    match calls[i]? with
    | some c => if s.phases[i]? = some .start then some (runQuery c s i) else none
    | none => none
  | .insert i id taskId now =>
    match calls[i]? with
    | some c =>
      if s.phases[i]? = some .creating ∧ taskId ∉ s.rows.keys ∧ ∀ r ∈ s.rows.rows, r.id < id then
        some { rows := s.rows.insertOrIgnore (c.newRow id taskId now)
               phases := s.phases.set i (.returned taskId) }
      else none
    | none => none
  | .other rows =>
    if rows.rows.filter k.isOf = s.rows.rows.filter k.isOf then some { s with rows := rows }
    else none

/-- The task that a step inserts. -/
def inserts : DedupAct → Option String
  | .insert _ _ taskId _ => some taskId
  | _ => none

/-- The tasks that the calls have created. -/
def created (tr : List (Event DedupState DedupAct)) : List String :=
  tr.filterMap fun e => inserts e.act

/-- The call gives its identity without white space at the ends. -/
def trimmed (k : Identity) (c : CreateCall) : Bool :=
  c.parentTaskId == some k.parentTaskId && c.parentStageName == some k.parentStageName &&
    match k.item with
    | .id s => c.parentStageItemId == some s
    | .key s => c.parentStageItemKey == some s

/-- No call queries without a result while another one is between query and insert, and a call
that inserts is trimmed. -/
def apart (calls : List CreateCall) (k : Identity) (e : Event DedupState DedupAct) : Bool :=
  match e.act with
  | .query _ => (reusableQuery e.pre.rows.rows k).isSome || !e.pre.phases.contains .creating
  | .insert i .. => (calls[i]?).all (trimmed k)
  | .other _ => true

section Query

variable {rows rows' : List ParentRow} {k : Identity}

theorem reusableQuery_eq_none_iff : reusableQuery rows k = none ↔ rows.filter k.reusable = [] := by
  unfold reusableQuery
  rw [List.head?_eq_none_iff]
  constructor
  · intro h
    have hperm := List.perm_insertionSort newerFirst (rows.filter k.reusable)
    rw [h] at hperm
    exact hperm.symm.eq_nil
  · intro h
    rw [h]
    rfl

theorem mem_of_reusableQuery {r : ParentRow} (h : reusableQuery rows k = some r) :
    r ∈ rows.filter k.reusable := by
  have hmem := List.mem_of_head? h
  exact (List.mem_insertionSort newerFirst).mp hmem

/-- Tasks of other identities do not matter. -/
theorem reusableQuery_congr (h : rows'.filter k.isOf = rows.filter k.isOf) :
    reusableQuery rows' k = reusableQuery rows k := by
  have hfilter : ∀ l : List ParentRow, l.filter k.reusable =
      (l.filter k.isOf).filter (fun r => !r.isDeleted && reusableStatuses.contains r.status) := by
    intro l
    rw [List.filter_filter]
    refine List.filter_congr fun r _ => ?_
    unfold Identity.reusable
    rw [Bool.and_assoc,Bool.and_comm]
  unfold reusableQuery
  rw [hfilter rows',h,← hfilter]

theorem reusableQuery_singleton {r : ParentRow} (hnone : reusableQuery rows k = none)
    (hr : k.reusable r = true) : reusableQuery (rows ++ [r]) k = some r := by
  rw [reusableQuery_eq_none_iff] at hnone
  unfold reusableQuery
  rw [List.filter_append,hnone,List.filter_cons_of_pos hr]
  rfl

end Query

/-- The calls have created at most one task, none if there was one to reuse, and all that have
returned have returned the same task. -/
def SharesTask (k : Identity) (s : DedupState) (made : List String) (u : DedupState) : Prop :=
  made.length ≤ 1 ∧ ((∃ r ∈ s.rows.rows, k.reusable r = true) → made = []) ∧
    ∀ a b, .returned a ∈ u.phases → .returned b ∈ u.phases → a = b

/-- As long as nothing is found, nothing has been created or returned and one call at most is
about to create; what is found has been returned by all, and no call is about to create. -/
structure Shared (k : Identity) (s : DedupState) (made : List String) (t : DedupState) :
    Prop where
  missing : reusableQuery t.rows.rows k = none →
    made = [] ∧ (∀ a, .returned a ∉ t.phases) ∧ t.phases.count .creating ≤ 1
  found : ∀ r, reusableQuery t.rows.rows k = some r →
    made.length ≤ 1 ∧ .creating ∉ t.phases ∧ ∀ a, .returned a ∈ t.phases → a = r.taskId
  before : reusableQuery s.rows.rows k ≠ none →
    made = [] ∧ reusableQuery t.rows.rows k ≠ none

section Steps

variable {calls : List CreateCall} {k : Identity} {s t v : DedupState}
  {made : List String} {i : ℕ} {c : CreateCall}

theorem Shared.sharesTask (h : Shared k s made t) : SharesTask k s made t := by
  cases hquery : reusableQuery t.rows.rows k with
  | none =>
    obtain ⟨hcreated,hreturned,-⟩ := h.missing hquery
    refine ⟨by simp [hcreated],fun _ => hcreated,?_⟩
    intro a b ha
    exact absurd ha (hreturned a)
  | some r =>
    obtain ⟨hlen,-,hreturned⟩ := h.found r hquery
    refine ⟨hlen,?_,?_⟩
    · rintro ⟨x,hx,hreusable⟩
      refine (h.before ?_).1
      rw [ne_eq,reusableQuery_eq_none_iff]
      exact List.ne_nil_of_mem (List.mem_filter.mpr ⟨hx,hreusable⟩)
    · intro a b ha hb
      rw [hreturned a ha,hreturned b hb]

/-- A call looks for a task. -/
theorem Shared.query (h : Shared k s made t) (hc : c.identity = some k)
    (hstart : t.phases[i]? = some .start)
    (hapart : ((reusableQuery t.rows.rows k).isSome || !t.phases.contains .creating) = true) :
    Shared k s made (runQuery c t i) := by
  have hlt : i < t.phases.length := (List.getElem?_eq_some_iff.mp hstart).1
  cases hquery : reusableQuery t.rows.rows k with
  | some r =>
    have hpost : runQuery c t i = t.setPhase i (.returned r.taskId) := by
      unfold runQuery
      rw [hc,Option.bind_some,hquery]
    obtain ⟨hlen,hnocreate,hreturned⟩ := h.found r hquery
    rw [hpost]
    refine ⟨fun hnone => ?_,fun r' hr' => ?_,h.before⟩
    · rw [DedupState.setPhase,hquery] at hnone
      cases hnone
    · rw [DedupState.setPhase,hquery] at hr'
      cases hr'
      refine ⟨hlen,fun hmem => ?_,fun a ha => ?_⟩
      · rcases List.mem_or_eq_of_mem_set hmem with hold | hnew
        · exact hnocreate hold
        · cases hnew
      · rcases List.mem_or_eq_of_mem_set ha with hold | hnew
        · exact hreturned a hold
        · exact CallPhase.returned.inj hnew
  | none =>
    have hpost : runQuery c t i = t.setPhase i .creating := by
      unfold runQuery
      rw [hc,Option.bind_some,hquery]
    obtain ⟨hnil,hreturned,-⟩ := h.missing hquery
    have hnocreate : .creating ∉ t.phases := by
      rw [hquery,Option.isSome_none,Bool.false_or,Bool.not_eq_true'] at hapart
      exact fun hmem => Bool.false_ne_true (hapart.symm.trans (List.contains_iff_mem.mpr hmem))
    rw [hpost]
    refine ⟨fun _ => ⟨hnil,fun a ha => ?_,?_⟩,fun r hr => ?_,h.before⟩
    · rcases List.mem_or_eq_of_mem_set ha with hold | hnew
      · exact hreturned a hold
      · cases hnew
    · have hzero : t.phases.count .creating = 0 := List.count_eq_zero.mpr hnocreate
      rw [DedupState.setPhase,List.count_set hlt,hzero]
      simp
    · rw [DedupState.setPhase,hquery] at hr
      cases hr

/-- The row that an insert adds is a task of the identity. -/
theorem newRow_reusable {id : ℕ} {taskId : String} {now : ℤ} (hc : c.identity = some k)
    (hraw : trimmed k c = true) : k.reusable (c.newRow id taskId now) = true := by
  have hproject : c.projectId = k.projectId := by
    obtain ⟨-,heq⟩ := guarded hc
    rw [← heq]
  unfold trimmed at hraw
  unfold Identity.reusable Identity.isOf CreateCall.newRow
  simp only [hproject,BEq.rfl,Bool.true_and,hraw]
  decide

/-- A call that found nothing inserts its task. -/
theorem Shared.insert {id : ℕ} {taskId : String} {now : ℤ} (h : Shared k s made t)
    (hphase : t.phases[i]? = some .creating) (hnew : taskId ∉ t.rows.keys)
    (hreusable : k.reusable (c.newRow id taskId now) = true)
    (hv : v = { rows := t.rows.insertOrIgnore (c.newRow id taskId now)
                phases := t.phases.set i (.returned taskId) }) :
    Shared k s (taskId :: made) v := by
  obtain ⟨hlt,hat⟩ := List.getElem?_eq_some_iff.mp hphase
  have hmem : .creating ∈ t.phases := by
    rw [← hat]
    exact List.getElem_mem hlt
  have hnone : reusableQuery t.rows.rows k = none := by
    cases hquery : reusableQuery t.rows.rows k with
    | none => rfl
    | some r => exact absurd hmem (h.found r hquery).2.1
  obtain ⟨hnil,hreturned,hcount⟩ := h.missing hnone
  have hrows : (t.rows.insertOrIgnore (c.newRow id taskId now)).rows =
      t.rows.rows ++ [c.newRow id taskId now] :=
    KeyedTable.rows_insertOrIgnore_of_not_mem hnew
  have hquery : reusableQuery v.rows.rows k = some (c.newRow id taskId now) := by
    rw [hv,hrows]
    exact reusableQuery_singleton hnone hreusable
  refine ⟨fun hmiss => ?_,fun r hr => ?_,fun hbefore => absurd hnone (h.before hbefore).2⟩
  · rw [hquery] at hmiss
    cases hmiss
  · rw [hquery] at hr
    cases hr
    refine ⟨by simp [hnil],?_,fun a ha => ?_⟩
    · rw [hv,← List.count_eq_zero]
      dsimp only
      rw [List.count_set hlt,hat]
      simp
      omega
    · rw [hv] at ha
      rcases List.mem_or_eq_of_mem_set ha with hold | heq
      · exact absurd hold (hreturned a)
      · exact CallPhase.returned.inj heq

/-- Changes to other tasks leave everything as it is. -/
theorem Shared.other {rows : KeyedTable ParentRow.taskId} (h : Shared k s made t)
    (hrows : rows.rows.filter k.isOf = t.rows.rows.filter k.isOf)
    (hv : v = { t with rows := rows }) : Shared k s made v := by
  have hquery : reusableQuery v.rows.rows k = reusableQuery t.rows.rows k := by
    rw [hv]
    exact reusableQuery_congr hrows
  have hphases : v.phases = t.phases := by rw [hv]
  constructor
  · rw [hquery,hphases]
    exact h.missing
  · rw [hquery,hphases]
    exact h.found
  · rw [hquery]
    exact h.before

/-- One step that keeps the calls apart. -/
theorem shared_step {a : DedupAct} {tr : List (Event DedupState DedupAct)}
    (hcalls : ∀ c ∈ calls, c.identity = some k) (h : Shared k s (created tr) t)
    (hapart : apart calls k ⟨t,a,v⟩ = true) (hs : step calls k t a = some v) :
    Shared k s (created (⟨t,a,v⟩ :: tr)) v := by
  cases a with
  | query i =>
    dsimp only [step] at hs
    cases hc : calls[i]? with
    | none =>
      rw [hc] at hs
      cases hs
    | some c =>
      rw [hc] at hs
      obtain ⟨hstart,rfl⟩ := guarded hs
      exact h.query (hcalls c (List.mem_of_getElem? hc)) hstart hapart
  | insert i id taskId now =>
    dsimp only [step] at hs
    cases hc : calls[i]? with
    | none =>
      rw [hc] at hs
      cases hs
    | some c =>
      rw [hc] at hs
      obtain ⟨⟨hphase,hnew,-⟩,hv⟩ := guarded hs
      have htrimmed : trimmed k c = true := by
        dsimp only [apart] at hapart
        rw [hc] at hapart
        exact hapart
      exact h.insert hphase hnew
        (newRow_reusable (hcalls c (List.mem_of_getElem? hc)) htrimmed) hv.symm
  | other rows =>
    obtain ⟨hrows,hv⟩ := guarded hs
    exact h.other hrows hv.symm

theorem shared_start (hstart : ∀ p ∈ s.phases, p = .start) : Shared k s [] s := by
  have hnot : ∀ p, p ≠ .start → p ∉ s.phases := fun p hne hp => hne (hstart p hp)
  have hreturned : ∀ a, .returned a ∉ s.phases := fun a => hnot _ (by simp)
  have hcreating : .creating ∉ s.phases := hnot _ (by simp)
  constructor
  · intro _
    refine ⟨rfl,hreturned,?_⟩
    rw [List.count_eq_zero.mpr hcreating]
    exact Nat.zero_le 1
  · intro r _
    exact ⟨Nat.zero_le 1,hcreating,fun a ha => absurd ha (hreturned a)⟩
  · exact fun h => ⟨rfl,h⟩

end Steps

/-- Calls for one item of a parent stage share their task in every run in which no two of them
are between query and insert at the same time. -/
theorem calls_share_task {calls : List CreateCall} {k : Identity} {s u : DedupState}
    {tr : List (Event DedupState DedupAct)} (hcalls : ∀ c ∈ calls, c.identity = some k)
    (hstart : ∀ p ∈ s.phases, p = .start) (hrun : Run (step calls k) s tr u)
    (hapart : Along (fun _ e => apart calls k e = true) tr) : SharesTask k s (created tr) u := by
  have hshared : Shared k s (created tr) u := by
    refine hrun.invariant (J := fun tr t => Shared k s (created tr) t) hapart (shared_start hstart) ?_
    intro tr t a v hj ha hs
    exact shared_step hcalls hj ha hs
  exact hshared.sharesTask

/-- A query without a result while another call is about to create leads to two tasks. -/
theorem overlap_creates_two {calls : List CreateCall} {k : Identity} {t : DedupState} {i j : ℕ}
    {c c' : CreateCall} (hi : calls[i]? = some c) (hj : calls[j]? = some c')
    (hc : c.identity = some k) (hstart : t.phases[i]? = some .start)
    (hcreating : t.phases[j]? = some .creating) (hnone : reusableQuery t.rows.rows k = none)
    {a b : String} (ha : a ∉ t.rows.keys) (hb : b ∉ t.rows.keys) (hab : a ≠ b) :
    ∃ tr u, Run (step calls k) t tr u ∧ ¬SharesTask k t (created tr) u := by
  obtain ⟨n,hn⟩ : ∃ n, ∀ r ∈ t.rows.rows, r.id < n := by
    refine ⟨(t.rows.rows.map ParentRow.id).sum + 1,fun r hr => ?_⟩
    have hle := List.single_le_sum (fun _ _ => Nat.zero_le _) r.id
      (List.mem_map.mpr ⟨r,hr,rfl⟩)
    omega
  have hne : i ≠ j := by
    rintro rfl
    rw [hstart] at hcreating
    cases hcreating
  have hlt : i < t.phases.length := (List.getElem?_eq_some_iff.mp hstart).1
  let t₁ := t.setPhase i .creating
  let t₂ : DedupState := ⟨t.rows.insertOrIgnore (c'.newRow n b 0),t₁.phases.set j (.returned b)⟩
  let t₃ : DedupState :=
    ⟨t₂.rows.insertOrIgnore (c.newRow (n + 1) a 0),t₂.phases.set i (.returned a)⟩
  have hquery : step calls k t (.query i) = some t₁ := by
    have hrun : runQuery c t i = t₁ := by
      unfold runQuery
      rw [hc,Option.bind_some,hnone]
    simp only [step,hi,if_pos hstart,hrun]
  have hfirst : step calls k t₁ (.insert j n b 0) = some t₂ := by
    have hphase : t₁.phases[j]? = some .creating := by
      rw [← hcreating]
      exact List.getElem?_set_ne hne
    simp only [step,hj]
    exact if_pos ⟨hphase,hb,hn⟩
  have hsecond : step calls k t₂ (.insert i (n + 1) a 0) = some t₃ := by
    have hphase : t₂.phases[i]? = some .creating := by
      have hother : t₂.phases[i]? = t₁.phases[i]? := List.getElem?_set_ne hne.symm
      rw [hother]
      exact List.getElem?_set_self hlt
    have hfree : a ∉ t₂.rows.keys := by
      rw [KeyedTable.mem_keys_insertOrIgnore]
      rintro (heq | hmem)
      · exact hab heq
      · exact ha hmem
    have hids : ∀ r ∈ t₂.rows.rows, r.id < n + 1 := by
      intro r hr
      rcases KeyedTable.mem_rows_insertOrIgnore hr with hold | rfl
      · have hlow := hn r hold
        omega
      · exact Nat.lt_succ_self n
    simp only [step,hi]
    exact if_pos ⟨hphase,hfree,hids⟩
  refine ⟨_,t₃,.next (.next (.next .refl hquery) hfirst) hsecond,?_⟩
  rintro ⟨hlen,-⟩
  exact absurd hlen (by simp [created,inserts])

/-! ## Two calls -/

/-- A parent asks for the analysis of its item. -/
def itemCall : CreateCall :=
  ⟨"p1",some "parent-1",some "entry_analysis",some "item-1",some "module-a"⟩

def itemIdentity : Identity := ⟨"p1","parent-1","entry_analysis",.id "item-1"⟩

/-- Two calls on a database without tasks. -/
def twoCalls : DedupState := ⟨.empty,[.start,.start]⟩

theorem second_call_reuses :
    ∃ tr u, Run (step [itemCall,itemCall] itemIdentity) twoCalls tr u ∧
      u.phases = [.returned "eat_1",.returned "eat_1"] ∧
      SharesTask itemIdentity twoCalls (created tr) u := by
  obtain ⟨tr,u,hrun,hp⟩ := exists_run_of_replay (step [itemCall,itemCall] itemIdentity) twoCalls
    [.query 0,.insert 0 1 "eat_1" 10,.query 1]
    (p := fun tr (u : DedupState) =>
      decide (Along (fun _ e => apart [itemCall,itemCall] itemIdentity e = true) tr) &&
        decide (u.phases = [.returned "eat_1",.returned "eat_1"])) (by decide +kernel)
  rw [Bool.and_eq_true,decide_eq_true_iff,decide_eq_true_iff] at hp
  exact ⟨tr,u,hrun,hp.2,calls_share_task (by decide) (by decide) hrun hp.1⟩

/-- Both calls query before either inserts, and each one gets a task of its own. -/
theorem concurrent_calls_create_two :
    ∃ tr u, Run (step [itemCall,itemCall] itemIdentity) twoCalls tr u ∧
      u.phases = [.returned "eat_1",.returned "eat_2"] ∧ created tr = ["eat_2","eat_1"] ∧
      ¬SharesTask itemIdentity twoCalls (created tr) u := by
  obtain ⟨tr,u,hrun,hp⟩ := exists_run_of_replay (step [itemCall,itemCall] itemIdentity) twoCalls
    [.query 0,.query 1,.insert 0 1 "eat_1" 10,.insert 1 2 "eat_2" 11]
    (p := fun tr (u : DedupState) => decide (created tr = ["eat_2","eat_1"]) &&
        decide (u.phases = [.returned "eat_1",.returned "eat_2"])) (by decide +kernel)
  rw [Bool.and_eq_true,decide_eq_true_iff,decide_eq_true_iff] at hp
  refine ⟨tr,u,hrun,hp.2,hp.1,?_⟩
  rintro ⟨hlen,-⟩
  rw [hp.1] at hlen
  exact absurd hlen (by decide)

end TaskDedup
end EntryAnalyse
