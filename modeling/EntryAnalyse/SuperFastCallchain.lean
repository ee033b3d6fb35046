import EntryAnalyse.StageQueueRuns

/-! The call-chain thread beside the stage queues of the super-fast engine. The thread first
polls until it sees the first queue non-empty, then polls the counter of the first stage, builds
the call chain and sets the event that the processor of the last stage waits for. -/
namespace EntryAnalyse
namespace SuperFastCallchain

open Runs StageQueue

variable {α : Type}

/-- The stages of `_run_stage_queue`: r1, api_filter, phase1, r3, r4. -/
def stageCfgs (r1_w slot af_batch body_batch : ℤ) : List StageCfg :=
  [stageOf r1_w 1,stageOf slot af_batch,stageOf slot body_batch,stageOf slot body_batch,
    stageOf slot 1]

/-- Where `_cc_thread` stands: in the loop on the queue, in the loop on the counter, at the
build, or through. -/
inductive CcThread
  | awaitItems
  | awaitDone
  | build
  | finished
  deriving DecidableEq

structure Sys (α : Type) where
  sqp : StageQueue.Sys α
  cc : CcThread := .awaitItems
  ccDone : Bool := false

inductive Act (α : Type)
  | pipeline (act : StageQueue.Act α)
  | cc
  deriving DecidableEq

def init (cfgs : List StageCfg) (file_hash_paths : List α) : Sys α :=
  { sqp := StageQueue.init cfgs file_hash_paths }

/-- One poll of `_cc_thread`, or its build with the event at the end. The build may fail; the
exception is logged. -/
def ccStep (s : Sys α) : Option (Sys α) :=
  match s.cc with
  | .awaitItems =>
    match s.sqp.stages[0]? with
    | none => none
    | some st =>
      if st.queue = [] ∧ s.sqp.cancel = false then some s else some { s with cc := .awaitDone }
  | .awaitDone =>
    match s.sqp.stages[0]? with
    | none => none
    | some st =>
      if s.sqp.cancel = true ∨ s.sqp.total ≤ st.done then some { s with cc := .build } else some s
  | .build => some { s with cc := .finished, ccDone := true }
  | .finished => none

/-- The R1 processor returns a list in every case; the R4 processor returns only after the
event is set. -/
def allowed (ccDone : Bool) : StageQueue.Act α → Bool
  | .worker 0 _ .raises => false
  | .worker 4 _ (.returns _) => ccDone
  | .worker 4 _ .raises => ccDone
  | _ => true

def step (s : Sys α) : Act α → Option (Sys α)
  | .pipeline a =>
    if allowed s.ccDone a then (StageQueue.step s.sqp a).map fun t => { s with sqp := t } else none
  | .cc => ccStep s

/-! ## Progress of the thread -/

/-- All R1 items are done. -/
def R1Done (s : Sys α) : Prop :=
  ∃ st : StageState α, s.sqp.stages[0]? = some st ∧ s.sqp.total ≤ st.done

/-- A worker of the last stage waits for the event. -/
def R4Waits (s : Sys α) : Prop :=
  s.ccDone = false ∧ ∃ st : StageState α, s.sqp.stages[4]? = some st ∧
    ∃ batch x, .calling batch x ∈ st.workers

/-- The event can still be set without a cancel. -/
def CanProceed (s : Sys α) : Prop :=
  ∃ tr u, Run step s tr u ∧ (∀ e ∈ tr, e.act ≠ .pipeline .cancel) ∧ u.ccDone = true

/-- The thread sets the event by steps of its own. -/
def WillProceed (s : Sys α) : Prop :=
  ∃ tr u, Run step s tr u ∧ (∀ e ∈ tr, e.act = .cc) ∧ u.ccDone = true

structure StartLaw (s : Sys α) : Prop where
  leaves : R1Done s → WillProceed s
  notStranded : R4Waits s → CanProceed s

/-- This step takes the last entry of the first queue. -/
def Empties (e : Event (Sys α) (Act α)) : Prop :=
  ∃ st st' : StageState α, e.pre.sqp.stages[0]? = some st ∧ st.queue ≠ [] ∧
    e.post.sqp.stages[0]? = some st' ∧ st'.queue = []

/-- The first queue is not emptied before the thread has seen it non-empty. -/
def SeenNonEmpty (e : Event (Sys α) (Act α)) : Prop :=
  Empties e → e.pre.cc ≠ .awaitItems ∨ e.pre.sqp.cancel = true

section Thread

variable {s u : Sys α} {st : StageState α}

theorem willProceed_of_build (h : s.cc = .build) : WillProceed s := by
  have hs : step s .cc = some { s with cc := .finished, ccDone := true } := by
    simp only [step,ccStep,h]
  refine ⟨_,_,.next .refl hs,?_,rfl⟩
  intro e he
  rw [List.mem_singleton.mp he]

theorem WillProceed.step (hs : step s .cc = some u) (h : WillProceed u) : WillProceed s := by
  obtain ⟨tr,v,hr,hw,hd⟩ := h
  refine ⟨_,v,(Run.next .refl hs).trans hr,?_,hd⟩
  intro e he
  rcases List.mem_append.mp he with he | he
  · exact hw e he
  · rw [List.mem_singleton.mp he]

theorem willProceed_of_awaitDone (h : s.cc = .awaitDone) (hst : s.sqp.stages[0]? = some st)
    (hd : s.sqp.cancel = true ∨ s.sqp.total ≤ st.done) : WillProceed s := by
  have hs : SuperFastCallchain.step s .cc = some { s with cc := .build } := by
    simp only [SuperFastCallchain.step,ccStep,h,hst,hd,if_true]
  exact .step hs (willProceed_of_build rfl)

/-- Where the thread stands decides whether it can go on by itself. -/
theorem willProceed (hst : s.sqp.stages[0]? = some st)
    (hf : s.cc = .finished → s.ccDone = true)
    (hi : s.cc = .awaitItems → st.queue ≠ [] ∨ s.sqp.cancel = true)
    (hd : s.sqp.cancel = true ∨ s.sqp.total ≤ st.done) : WillProceed s := by
  cases hc : s.cc with
  | awaitItems =>
    have hne : ¬(st.queue = [] ∧ s.sqp.cancel = false) := by
      rintro ⟨hq,hcan⟩
      rcases hi hc with h | h
      · exact h hq
      · rw [hcan] at h
        cases h
    have hs : step s .cc = some { s with cc := .awaitDone } := by
      simp only [step,ccStep,hc,hst,hne,if_false]
    exact .step hs (willProceed_of_awaitDone rfl hst hd)
  | awaitDone => exact willProceed_of_awaitDone hc hst hd
  | build => exact willProceed_of_build hc
  | finished => exact ⟨[],s,.refl,fun _ he => absurd he List.not_mem_nil,hf hc⟩

theorem WillProceed.canProceed (h : WillProceed s) : CanProceed s := by
  obtain ⟨tr,u,hr,hw,hd⟩ := h
  refine ⟨tr,u,hr,fun e he => ?_,hd⟩
  rw [hw e he]
  exact nofun

end Thread

/-! ## The queues under the thread -/

/-- Before the workers run, the first queue holds what was put into it and nobody has moved. -/
def Untouched (s : StageQueue.Sys α) : Prop :=
  s.main.started = false → ∀ (i : ℕ) (st : StageState α), s.stages[i]? = some st →
    st.queue = st.items.map some ∧ ∀ x ∈ st.workers, x = .idle

section Queues

variable {s u : StageQueue.Sys α} {a : StageQueue.Act α}

theorem untouched_init (cfgs : List StageCfg) (files : List α) :
    Untouched (StageQueue.init cfgs files) := by
  intro _ i st hst
  rw [StageQueue.init,List.getElem?_map,Option.map_eq_some_iff] at hst
  obtain ⟨cfg,-,rfl⟩ := hst
  exact ⟨rfl,fun x hx => List.eq_of_mem_replicate hx⟩

theorem untouched_step (hs : s.stages ≠ []) (hu : Untouched s) (h : StageQueue.step s a = some u) :
    Untouched u := by
  intro hstart i st hst
  rcases step_cases h with ⟨-,h⟩ | ⟨-,rfl⟩ | ⟨j,w,b,x,x',out,-,hs',-,-,rfl⟩
  · rcases mainStep_cases h with ⟨e,rest,hm,rfl⟩ | ⟨j,k,-,rfl⟩ | ⟨-,-,-,hu' | hnil⟩
    · obtain ⟨y,hy,rfl⟩ := modify_push hst
      obtain ⟨hq,hw⟩ := hu (by rw [hm]; rfl) i y hy
      by_cases hi : 0 = i
      · rw [if_pos hi]
        refine ⟨?_,hw⟩
        show y.queue ++ [some e] = (y.items ++ [e]).map some
        rw [hq,List.map_append]
        rfl
      · rw [if_neg hi]
        exact ⟨hq,hw⟩
    · cases hstart
    · rw [hstart] at hu'
      cases hu'
    · exact absurd hnil hs
  · exact hu hstart i st hst
  · have hst' : s.main.started = false := hstart
    rw [hs'] at hst'
    cases hst'

/-- The first stage loses no item unless one of its calls raises. -/
theorem failed_step (h : StageQueue.step s a = some u) (ha : ∀ w, a ≠ .worker 0 w .raises)
    (hf : ∀ {st : StageState α}, s.stages[0]? = some st → st.failed = 0) {st : StageState α}
    (hst : u.stages[0]? = some st) : st.failed = 0 := by
  rcases step_cases h with ⟨-,h⟩ | ⟨-,rfl⟩ | ⟨j,w,b,x,x',out,rfl,-,hx,hstep,rfl⟩
  · rcases mainStep_cases h with ⟨e,rest,-,rfl⟩ | ⟨j,k,-,rfl⟩ | ⟨hs,-,-,-⟩
    · obtain ⟨y,hy,rfl⟩ := modify_push hst
      have h0 := hf hy
      rw [if_pos rfl]
      exact h0
    · obtain ⟨y,hy,rfl⟩ := modify_push hst
      exact hf hy
    · rw [hs] at hst
      exact hf hst
  · exact hf hst
  · rcases stages_worker hx hst with ⟨hj,rfl⟩ | ⟨hj,-⟩ | ⟨-,-,hy⟩
    · subst hj
      have hb : b ≠ .raises := fun hb => ha w (by rw [hb])
      rw [stageStep_failed_eq hstep hb]
      exact hf hx
    · omega
    · exact hf hy

/-- The step with which the workers start touches no queue. -/
theorem starting_step (hs : s.main.started = false) (hu : u.main.started = true)
    (h : StageQueue.step s a = some u) : u.stages = s.stages := by
  rcases step_cases h with ⟨-,h⟩ | ⟨-,rfl⟩ | ⟨j,w,b,x,x',out,-,hs',-,-,rfl⟩
  · rcases mainStep_cases h with ⟨e,rest,-,rfl⟩ | ⟨j,k,hm,-⟩ | ⟨hst,-,-,-⟩
    · cases hu
    · rw [hm] at hs
      cases hs
    · exact hst
  · rfl
  · rw [hs'] at hs
    cases hs

end Queues

/-! ## Runs -/

structure Inv (files : List α) (s : Sys α) : Prop where
  base : StageQueue.Inv files s.sqp
  untouched : Untouched s.sqp
  nonempty : s.sqp.stages ≠ []
  noLoss : ∀ {st : StageState α}, s.sqp.stages[0]? = some st → st.failed = 0
  finished : s.cc = .finished → s.ccDone = true
  seen : s.cc = .awaitItems → s.sqp.cancel = false → s.sqp.main.started = true →
    ∀ {st : StageState α}, s.sqp.stages[0]? = some st → st.queue ≠ []

section Runs

variable {files : List α} {s u : Sys α}

theorem inv_init {cfgs : List StageCfg} (hcfgs : cfgs ≠ []) (files : List α) :
    Inv files (init cfgs files) where
  base := StageQueue.inv_init cfgs files
  untouched := untouched_init cfgs files
  nonempty := by simpa [init,StageQueue.init] using hcfgs
  noLoss := fun {st} hst => by
    rw [init,StageQueue.init,List.getElem?_map,Option.map_eq_some_iff] at hst
    obtain ⟨cfg,-,rfl⟩ := hst
    rfl
  finished := fun h => by cases h
  seen := fun _ _ h => by cases h

theorem ccStep_cases (h : ccStep s = some u) : u.sqp = s.sqp ∧
    (u.cc = .awaitItems → s.cc = .awaitItems) ∧
    (u.cc = .finished → u.ccDone = true) := by
  unfold ccStep at h
  split at h
  · rename_i hcc
    split at h
    · cases h
    · split at h <;> cases h
      · exact ⟨rfl,fun h => h,fun h => by rw [hcc] at h; cases h⟩
      · exact ⟨rfl,nofun,nofun⟩
  · rename_i hcc
    split at h
    · cases h
    · split at h <;> cases h
      · exact ⟨rfl,nofun,nofun⟩
      · exact ⟨rfl,fun h => h,fun h => by rw [hcc] at h; cases h⟩
  · cases h
    exact ⟨rfl,nofun,fun _ => rfl⟩
  · cases h

theorem step_keeps (hfiles : files ≠ []) (hi : Inv files s) {a : Act α} (h : step s a = some u)
    (hseen : SeenNonEmpty ⟨s,a,u⟩) : Inv files u := by
  cases a with
  | cc =>
    obtain ⟨hsqp,hcc,hfin⟩ := ccStep_cases h
    exact {
      base := by rw [hsqp]; exact hi.base
      untouched := by rw [hsqp]; exact hi.untouched
      nonempty := by rw [hsqp]; exact hi.nonempty
      noLoss := by rw [hsqp]; exact hi.noLoss
      finished := hfin
      seen := by
        rw [hsqp]
        exact fun h => hi.seen (hcc h) }
  | pipeline a =>
    simp only [step] at h
    split at h
    · rename_i hallowed
      rw [Option.map_eq_some_iff] at h
      obtain ⟨t,ht,rfl⟩ := h
      have hbase := StageQueue.step_keeps hi.base ht
      obtain ⟨hlen,-,hcancel⟩ := step_frame ht
      exact {
        base := hbase
        untouched := untouched_step hi.nonempty hi.untouched ht
        nonempty := by
          intro hnil
          have hl : t.stages.length = 0 := by rw [hnil]; rfl
          exact hi.nonempty (List.length_eq_zero_iff.mp (hlen.symm.trans hl))
        noLoss := fun hst => failed_step ht (fun w hw => by rw [hw] at hallowed; cases hallowed)
          hi.noLoss hst
        finished := hi.finished
        seen := by
          intro hcc hcan hstart st hst
          have hcan' : s.sqp.cancel = false := by
            by_contra hne
            rw [hcancel (by simpa using hne)] at hcan
            cases hcan
          obtain ⟨x,hx⟩ : ∃ x, s.sqp.stages[0]? = some x := by
            have hpos : 0 < s.sqp.stages.length := List.length_pos_of_ne_nil hi.nonempty
            exact ⟨_,List.getElem?_eq_getElem hpos⟩
          by_cases hs : s.sqp.main.started = true
          · -- the step does not empty the queue, so it is not empty afterwards
            intro hq
            rcases hseen ⟨x,st,hx,hi.seen hcc hcan' hs hx,hst,hq⟩ with h | h
            · exact h hcc
            · rw [hcan'] at h
              cases h
          · -- the workers start with every initial item in the queue
            have hs' : s.sqp.main.started = false := by simpa using hs
            have hst' : t.stages = s.sqp.stages := starting_step hs' hstart ht
            have hitems := hbase.conserves.entered hst hstart
            have hqueue := (hi.untouched hs' 0 st (by rw [← hst']; exact hst)).1
            rw [hqueue,hitems]
            simpa using hfiles }
    · cases h

theorem run_keeps (hfiles : files ≠ []) {tr : List (Event (Sys α) (Act α))} (hi : Inv files s)
    (h : Run step s tr u) (hp : ∀ e ∈ tr, SeenNonEmpty e) : Inv files u :=
  h.invariant (P := fun _ e => SeenNonEmpty e) (J := fun _ u => Inv files u)
    (along_forall.mpr hp) hi fun _ _ _ _ hj hq hs => step_keeps hfiles hj hs hq

/-- What the R1 workers do without a failure is a run beside the thread. -/
theorem lift_run {tr : List (Event (StageQueue.Sys α) (StageQueue.Act α))} {t : StageQueue.Sys α}
    (h : Run StageQueue.step s.sqp tr t)
    (hw : ∀ e ∈ tr, ∃ w a, e.act = .worker 0 w a ∧ a ≠ .raises) :
    ∃ tr', Run step s tr' { s with sqp := t } ∧ ∀ e ∈ tr', e.act ≠ .pipeline .cancel := by
  induction h with
  | refl => exact ⟨[],.refl,fun _ he => absurd he List.not_mem_nil⟩
  | @next tr x a v _ hs ih =>
    obtain ⟨tr',hr,hc⟩ := ih fun e he => hw e (List.mem_cons_of_mem _ he)
    obtain ⟨w,b,rfl,hb⟩ := hw ⟨x,a,v⟩ List.mem_cons_self
    have hallowed : allowed s.ccDone (.worker 0 w b) = true := by
      cases b <;> first | rfl | exact absurd rfl hb
    have hone : step { s with sqp := x } (.pipeline (.worker 0 w b)) =
        some { s with sqp := v } := by
      simp only [step,hallowed,if_true,hs,Option.map_some]
    refine ⟨_,.next hr hone,fun e he => ?_⟩
    rcases List.mem_cons.mp he with rfl | he
    · exact nofun
    · exact hc e he

theorem CanProceed.trans {tr : List (Event (Sys α) (Act α))} (hr : Run step s tr u)
    (hc : ∀ e ∈ tr, e.act ≠ .pipeline .cancel) (h : CanProceed u) : CanProceed s := by
  obtain ⟨tr',v,hr',hc',hd⟩ := h
  refine ⟨_,v,hr.trans hr',fun e he => ?_,hd⟩
  rcases List.mem_append.mp he with he | he
  · exact hc' e he
  · exact hc e he

/-- Once the thread is past its first loop, the R1 workers can finish and the thread with them. -/
theorem Inv.canProceed (hi : Inv files s) (hs : s.sqp.main.started = true)
    (hcc : s.cc ≠ .awaitItems) (hc : s.sqp.cancel = false) (hstop : s.sqp.stop = false) :
    CanProceed s := by
  have hpos : 0 < s.sqp.stages.length := List.length_pos_of_ne_nil hi.nonempty
  obtain ⟨x,hx⟩ : ∃ x, s.sqp.stages[0]? = some x := ⟨_,List.getElem?_eq_getElem hpos⟩
  obtain ⟨tr,t,x',hr,hw,hm,-,ht,hd,-,hf⟩ := hi.base.drain hs (by rw [hc,hstop]; rfl) hx
  obtain ⟨tr',hr',hcan⟩ := lift_run hr hw
  have hdone := (StageQueue.run_keeps hi.base hr).all_done (by rw [hm]; exact hs) ht
    (Drained.complete hd) (hf.trans (hi.noLoss hx))
  exact .trans hr' hcan
    (willProceed (s := { s with sqp := t }) ht hi.finished (fun h => absurd h hcc)
      (.inr hdone)).canProceed

/-- Nothing is done before the workers run. -/
theorem Inv.started_of_done (hfiles : files ≠ []) (hi : Inv files s) {st : StageState α}
    (hst : s.sqp.stages[0]? = some st) (hd : s.sqp.total ≤ st.done) :
    s.sqp.main.started = true := by
  by_contra hs
  obtain ⟨hq,-⟩ := hi.untouched (by simpa using hs) 0 st hst
  have hqueued : st.queued.length = st.items.length := by
    rw [StageState.queued,hq]
    simp
  have hcount := (hi.base.stages hst).counted
  have htotal := hi.base.total
  have hpos : 0 < files.length := List.length_pos_of_ne_nil hfiles
  omega

/-- A step of the thread leaves the queues as they are. -/
theorem seenNonEmpty_cc (h : step s .cc = some u) : SeenNonEmpty ⟨s,.cc,u⟩ := by
  rintro ⟨st,st',hst,hne,hst',hq⟩
  have hsqp := (ccStep_cases h).1
  have heq : u.sqp.stages[0]? = some st := by
    rw [hsqp]
    exact hst
  rw [heq] at hst'
  cases hst'
  exact absurd hq hne

theorem Inv.startLaw (hfiles : files ≠ []) (hi : Inv files s) : StartLaw s := by
  have hleaves : ∀ {st : StageState α}, s.sqp.stages[0]? = some st →
      s.sqp.main.started = true → s.sqp.cancel = true ∨ s.sqp.total ≤ st.done →
      WillProceed s := by
    intro st hst hs hd
    refine willProceed hst hi.finished (fun hcc => ?_) hd
    by_cases hc : s.sqp.cancel = true
    · exact .inr hc
    · exact .inl (hi.seen hcc (by simpa using hc) hs hst)
  have hpos : 0 < s.sqp.stages.length := List.length_pos_of_ne_nil hi.nonempty
  obtain ⟨st,hst⟩ : ∃ x, s.sqp.stages[0]? = some x := ⟨_,List.getElem?_eq_getElem hpos⟩
  constructor
  · rintro ⟨st,hst,hd⟩
    exact hleaves hst (hi.started_of_done hfiles hst hd) (.inr hd)
  · rintro ⟨-,st₄,hst₄,batch,x,hmem⟩
    have hs : s.sqp.main.started = true := by
      by_contra hs
      have hidle := (hi.untouched (by simpa using hs) 4 st₄ hst₄).2 _ hmem
      cases hidle
    by_cases hc : s.sqp.cancel = true
    · exact (hleaves hst hs (.inl hc)).canProceed
    · have hc' : s.sqp.cancel = false := by simpa using hc
      by_cases hstop : s.sqp.stop = true
      · have hm := hi.base.stop hstop
        have hcomp : st.Complete := hi.base.complete hst (by rw [hm]; exact hpos)
        exact (hleaves hst hs
          (.inr (hi.base.all_done hs hst hcomp (hi.noLoss hst)))).canProceed
      · have hstop' : s.sqp.stop = false := by simpa using hstop
        by_cases hcc : s.cc = .awaitItems
        · have hne : ¬(st.queue = [] ∧ s.sqp.cancel = false) :=
            fun h => hi.seen hcc hc' hs hst h.1
          have hone : step s .cc = some { s with cc := .awaitDone } := by
            simp only [step,ccStep,hcc,hst,hne,if_false]
          have hi' := step_keeps hfiles hi hone (seenNonEmpty_cc hone)
          refine .trans (.next .refl hone) (fun e he => ?_) (hi'.canProceed hs nofun hc' hstop')
          rw [List.mem_singleton.mp he]
          exact nofun
        · exact hi.canProceed hs hcc hc' hstop'

end Runs

/-- In every run over a non-empty list of files in which the R1 workers do not empty their
queue before the thread has seen it non-empty, the thread can always go on. -/
theorem seen_queue_keeps_startLaw {r1_w slot af_batch body_batch : ℤ} {files : List α}
    {tr : List (Event (Sys α) (Act α))} {u : Sys α}
    (h : Run step (init (stageCfgs r1_w slot af_batch body_batch) files) tr u)
    (hfiles : files ≠ []) (hseen : ∀ e ∈ tr, SeenNonEmpty e) : StartLaw u :=
  (run_keeps hfiles (inv_init (List.cons_ne_nil _ _) files) h hseen).startLaw hfiles

/-- The workers start and R1 finishes its only file, which has one function. -/
def r1Turn : List (StageQueue.Act ℕ) :=
  [.main,.worker 0 0 .test,.worker 0 0 .get,.worker 0 0 .call,.worker 0 0 (.returns [1]),
    .worker 0 0 .put,.worker 0 0 .count]

/-- A batch stage takes the function and passes it on. -/
def batchTurn (i : ℕ) : List (StageQueue.Act ℕ) :=
  [.worker i 0 .test,.worker i 0 .get,.worker i 0 .deadline,.worker i 0 .call,
    .worker i 0 (.returns [1]),.worker i 0 .put]

/-- One file, polled before its R1 worker takes it: the R1 item gets done. -/
def seenQueue : List (Act ℕ) := [.pipeline .main,.cc] ++ r1Turn.map .pipeline

/-- The poll that sees the file lets the thread set the event. -/
theorem polled_queue_proceeds : ∃ tr u, Run step (init (stageCfgs 8 1 300 20) [0]) tr u ∧
    R1Done u ∧ StartLaw u := by
  obtain ⟨tr,u,hr,hp⟩ := exists_run_of_replay step (init (stageCfgs 8 1 300 20) [0]) seenQueue
    (p := fun tr (u : Sys ℕ) => u.sqp.stages[0]?.any (fun st => decide (u.sqp.total ≤ st.done)) &&
      tr.all fun e => e.pre.cc != .awaitItems ||
        !(e.post.sqp.stages[0]?.any fun st => st.queue == []))
    (by decide +kernel)
  simp only [Bool.and_eq_true,Option.any_eq_true,decide_eq_true_eq,List.all_eq_true,
    Bool.or_eq_true,bne_iff_ne,ne_eq,Bool.not_eq_true'] at hp
  obtain ⟨⟨st,hst,hd⟩,hall⟩ := hp
  refine ⟨tr,u,hr,⟨st,hst,hd⟩,seen_queue_keeps_startLaw hr (List.cons_ne_nil _ _) ?_⟩
  rintro e he ⟨x,x',-,-,hx',hq⟩
  rcases hall e he with h | h
  · exact .inl h
  · rw [hx',Option.any_some,hq] at h
    cases h

/-! ## A queue that is emptied unseen -/

/-- The thread is in its first loop and the queue will stay empty. -/
def Stranded (s : Sys α) : Prop :=
  s.cc = .awaitItems ∧ s.ccDone = false ∧ s.sqp.cancel = false ∧ s.sqp.main.started = true ∧
    ∃ st : StageState α, s.sqp.stages[0]? = some st ∧ st.queue = []

section Stranded

variable {s u : Sys α}

theorem stranded_step {a : Act α} (hs : Stranded s) (ha : a ≠ .pipeline .cancel)
    (h : step s a = some u) : Stranded u := by
  obtain ⟨hcc,hcd,hc,hstart,st,hst,hq⟩ := hs
  cases a with
  | cc =>
    simp only [step,ccStep,hcc,hst,hq,hc,and_self,if_true,Option.some.injEq] at h
    subst h
    exact ⟨hcc,hcd,hc,hstart,st,hst,hq⟩
  | pipeline a =>
    simp only [step] at h
    split at h
    · rw [Option.map_eq_some_iff] at h
      obtain ⟨t,ht,rfl⟩ := h
      refine ⟨hcc,hcd,?_⟩
      rcases step_cases ht with ⟨-,ht⟩ | ⟨rfl,-⟩ | ⟨j,w,b,x,x',out,-,-,hx,hstep,rfl⟩
      · rcases mainStep_cases ht with ⟨e,rest,hm,-⟩ | ⟨j,k,-,rfl⟩ | ⟨hstages,-,hcan,hm | hnil⟩
        · rw [hm] at hstart
          cases hstart
        · refine ⟨hc,rfl,st,?_,hq⟩
          rw [List.getElem?_modify,hst]
          rfl
        · exact ⟨hcan.trans hc,hm,st,by rw [hstages]; exact hst,hq⟩
        · rw [hnil] at hst
          cases hst
      · exact absurd rfl ha
      · refine ⟨hc,hstart,?_⟩
        have hlt : j < s.sqp.stages.length := (List.getElem?_eq_some_iff.mp hx).1
        by_cases hj : j = 0
        · subst hj
          rw [hst] at hx
          cases hx
          refine ⟨x',?_,stageStep_queue hstep hq⟩
          show (feed (s.sqp.stages.set 0 x') 1 out)[0]? = some x'
          rw [feed_eq_modify,List.getElem?_modify,List.getElem?_set_self hlt]
          rfl
        · refine ⟨st,?_,hq⟩
          show (feed (s.sqp.stages.set j x') (j+1) out)[0]? = some st
          rw [feed_eq_modify,List.getElem?_modify,List.getElem?_set_ne hj,hst]
          rfl
    · cases h

/-- Short of a cancel the event is never set again. -/
theorem Stranded.not_canProceed (hs : Stranded s) : ¬CanProceed s := by
  rintro ⟨tr,u,hr,hc,hd⟩
  have hu : Stranded u := hr.invariant (P := fun _ e => e.act ≠ .pipeline .cancel)
    (J := fun _ u => Stranded u) (along_forall.mpr hc) hs
    fun _ _ _ _ hj ha h => stranded_step hj ha h
  rw [hu.2.1] at hd
  cases hd

end Stranded

/-- The processor of the last stage is called with the function. -/
def r4Turn : List (StageQueue.Act ℕ) :=
  [.worker 4 0 .test,.worker 4 0 .get,.worker 4 0 .call]

/-- One file, one function: every stage works before the thread's first poll. -/
def unseenQueue : List (Act ℕ) :=
  .pipeline .main :: (r1Turn ++ [1,2,3].flatMap batchTurn ++ r4Turn).map .pipeline

/-- The R1 item is done and an R4 worker waits, but the thread polls an empty queue for ever. -/
theorem queue_emptied_unseen : ∃ tr u, Run step (init (stageCfgs 8 1 300 20) [0]) tr u ∧
    R1Done u ∧ R4Waits u ∧ ¬CanProceed u ∧ ¬StartLaw u := by
  obtain ⟨tr,u,hr,hp⟩ := exists_run_of_replay step (init (stageCfgs 8 1 300 20) [0]) unseenQueue
    (p := fun _ (u : Sys ℕ) => u.cc == .awaitItems && !u.ccDone && !u.sqp.cancel && u.sqp.main.started &&
      u.sqp.stages[0]?.any (fun (st : StageState ℕ) =>
        st.queue == [] && decide (u.sqp.total ≤ st.done)) &&
      u.sqp.stages[4]?.any (fun (st : StageState ℕ) => decide (.calling [1] false ∈ st.workers)))
    (by decide +kernel)
  simp only [Bool.and_eq_true,beq_iff_eq,Bool.not_eq_true',Option.any_eq_true,
    decide_eq_true_eq] at hp
  obtain ⟨⟨⟨⟨⟨hcc,hcd⟩,hc⟩,hs⟩,st,hst,hq,hd⟩,st₄,hst₄,hmem⟩ := hp
  have hno : ¬CanProceed u := Stranded.not_canProceed ⟨hcc,hcd,hc,hs,st,hst,hq⟩
  have hdone : R1Done u := ⟨st,hst,hd⟩
  exact ⟨tr,u,hr,hdone,⟨hcd,st₄,hst₄,[1],false,hmem⟩,hno,
    fun hlaw => hno (hlaw.leaves hdone).canProceed⟩

end SuperFastCallchain
end EntryAnalyse
