import EntryAnalyse.Runs

/-! The pipeline of stage queues. A stage has a queue and a fixed number of worker threads;
a worker takes an item, or a batch of items, hands it to the stage's processor and puts the
results into the next stage's queue. `run` feeds the first queue, starts the workers and
waits for one stage after the other, ending each with one `None` for every worker of the
next stage. Every step between two shared accesses is its own step here. The lists that
record what entered a queue and what was handed to a processor are kept beside the state. -/
namespace EntryAnalyse
namespace StageQueue

variable {α : Type}

/-- A stage as its constructor leaves it: at least one worker and batches of at least one. -/
structure StageCfg where
  workerCount : ℕ
  batchSize : ℕ
  workerCount_pos : 0 < workerCount
  batchSize_pos : 0 < batchSize

/-- `Stage.__init__`. -/
def stageOf (workerCount batchSize : ℤ) : StageCfg where
  workerCount := (max 1 workerCount).toNat
  batchSize := (max 1 batchSize).toNat
  workerCount_pos := by omega
  batchSize_pos := by omega

/-- Where a worker stands in `_worker`. The Boolean is `_should_exit`. -/
inductive Worker (α : Type)
  | idle
  | getting
  | sentinel
  | collecting (batch : List α)
  | batchSentinel (batch : List α)
  | ready (batch : List α) (shouldExit : Bool)
  | calling (batch : List α) (shouldExit : Bool)
  | putting (batch results : List α) (shouldExit : Bool)
  | finishing (left : ℕ) (shouldExit : Bool)
  | exited
  deriving DecidableEq

/-- A stage while the pipeline runs. `unfinished` is the counter behind `Queue.join`; the
fields from `items` on are a record of what happened and decide nothing. -/
structure StageState (α : Type) where
  cfg : StageCfg
  workers : List (Worker α)
  queue : List (Option α) := []
  unfinished : ℕ := 0
  done : ℕ := 0
  items : List α := []
  ends : ℕ := 0
  taken : ℕ := 0
  calls : List (List α) := []
  failed : ℕ := 0
  returned : List α := []
  sent : List α := []

def StageState.start (cfg : StageCfg) : StageState α :=
  { cfg := cfg, workers := List.replicate cfg.workerCount .idle }

/-- `Queue.put`; `none` is the end marker. -/
def StageState.push (st : StageState α) : Option α → StageState α
  | some e => { st with
      queue := st.queue ++ [some e], unfinished := st.unfinished + 1, items := st.items ++ [e] }
  | none => { st with
      queue := st.queue ++ [none], unfinished := st.unfinished + 1, ends := st.ends + 1 }

/-- `Queue.task_done`. -/
def StageState.taskDone (st : StageState α) : StageState α :=
  { st with unfinished := st.unfinished - 1 }

inductive WorkerAct (α : Type)
  | test
  | get
  | deadline
  | taskDone
  | call
  | returns (results : List α)
  | raises
  | put
  | count
  | loop
  deriving DecidableEq

/-- One step of `_worker`: the stage, the worker, and what it puts into the next queue. With a
batch size of 1 an item goes to the processor at once, otherwise `collecting` fills the batch
until it is full, the deadline has passed or an end marker is met. -/
def workerStep (cancelled hasNext : Bool) (st : StageState α) :
    Worker α → WorkerAct α → Option (StageState α × Worker α × Option α)
  | .idle, .test => some (st,if cancelled then .exited else .getting,none)
  | .getting, .get =>
    match st.queue with
    | [] => some (st,.idle,none)
    | none :: q => some ({ st with queue := q, taken := st.taken + 1 },.sentinel,none)
    | some e :: q =>
      some ({ st with queue := q },
        if 1 < st.cfg.batchSize then .collecting [e] else .ready [e] false,none)
  | .sentinel, .taskDone => some (st.taskDone,.exited,none)
  | .collecting batch, .get =>
    if batch.length < st.cfg.batchSize then
      match st.queue with
      | [] => some (st,.collecting batch,none)
      | none :: q => some ({ st with queue := q, taken := st.taken + 1 },.batchSentinel batch,none)
      | some e :: q => some ({ st with queue := q },.collecting (batch ++ [e]),none)
    else none
  | .collecting batch, .deadline => some (st,.ready batch false,none)
  | .batchSentinel batch, .taskDone => some (st.taskDone,.ready batch true,none)
  | .ready batch x, .call => some ({ st with calls := st.calls ++ [batch] },.calling batch x,none)
  | .calling batch x, .returns results =>
    some ({ st with returned := st.returned ++ results },
      .putting batch (if hasNext then results else []) x,none)
  -- the exception is logged; `_done` is not increased
  | .calling batch x, .raises =>
    some ({ st with failed := st.failed + batch.length },.finishing batch.length x,none)
  | .putting batch (r :: results) x, .put =>
    some ({ st with sent := st.sent ++ [r] },.putting batch results x,some r)
  | .putting batch [] x, .count =>
    some ({ st with done := st.done + batch.length },.finishing batch.length x,none)
  | .finishing (n+1) x, .taskDone => some (st.taskDone,.finishing n x,none)
  | .finishing 0 x, .loop => some (st,if x then .exited else .idle,none)
  | _, _ => none

def stageStep (cancelled hasNext : Bool) (st : StageState α) (w : ℕ) (a : WorkerAct α) :
    Option (StageState α × Option α) :=
  match st.workers[w]? with
  | none => none
  | some x => (workerStep cancelled hasNext st x a).map
      fun r => ({ r.1 with workers := st.workers.set w r.2.1 },r.2.2)

/-- Where the thread of `run` stands. -/
inductive Main (α : Type)
  | filling (rest : List α)
  | waiting (idx : ℕ)
  | sentinels (idx left : ℕ)
  | returned
  | raised
  deriving DecidableEq

structure Sys (α : Type) where
  stages : List (StageState α)
  total : ℕ
  main : Main α
  cancel : Bool := false
  stop : Bool := false

inductive Act (α : Type)
  | main
  | worker (stage worker : ℕ) (act : WorkerAct α)
  | cancel
  deriving DecidableEq

def init (cfgs : List StageCfg) (initialItems : List α) : Sys α :=
  { stages := cfgs.map .start, total := initialItems.length, main := .filling initialItems }

def feed (stages : List (StageState α)) (j : ℕ) : Option α → List (StageState α)
  | none => stages
  | some r => stages.modify j (·.push (some r))

/-- How many `None` stage `i` sends on: one for each worker of the stage after it. -/
def markers (stages : List (StageState α)) (i : ℕ) : ℕ :=
  match stages[i+1]? with
  | none => 0
  | some st => st.cfg.workerCount

/-- One step of `run`. The first stage is awaited through its counter, the later ones through
`Queue.join`, which blocks. -/
def mainStep (s : Sys α) : Option (Sys α) :=
  match s.main with
  | .filling (e :: rest) =>
    if s.stages = [] then some { s with main := .raised }
    else some { s with stages := s.stages.modify 0 (·.push (some e)), main := .filling rest }
  | .filling [] => some { s with main := .waiting 0 }
  | .waiting i =>
    match s.stages[i]? with
    | none => some { s with stop := true, main := .returned }
    | some st =>
      if i = 0 then
        if s.total ≤ st.done then some { s with main := .sentinels i (markers s.stages i) }
        else some s
      else if st.unfinished = 0 then some { s with main := .sentinels i (markers s.stages i) }
      else none
  | .sentinels i (k+1) =>
    some { s with stages := s.stages.modify (i+1) (·.push none), main := .sentinels i k }
  | .sentinels i 0 => some { s with main := .waiting (i+1) }
  | .returned => none
  | .raised => none

/-- The worker threads run once the initial items are queued. -/
def Main.started : Main α → Bool
  | .filling _ => false
  | .raised => false
  | _ => true

def step (s : Sys α) : Act α → Option (Sys α)
  | .main => mainStep s
  | .cancel => some { s with cancel := true }
  | .worker i w a =>
    if s.main.started then
      match s.stages[i]? with
      | none => none
      | some st =>
        (stageStep (s.cancel || s.stop) (i + 1 < s.stages.length) st w a).map
          fun r => { s with stages := feed (s.stages.set i r.1) (i+1) r.2 }
    else none

/-! ## What a worker's step does -/

/-- The cases of `workerStep`. -/
inductive WorkerMove (cancelled hasNext : Bool) (st : StageState α) :
    Worker α → StageState α → Worker α → Option α → Prop
  | test : WorkerMove cancelled hasNext st .idle st (if cancelled then .exited else .getting) none
  | empty (h : st.queue = []) : WorkerMove cancelled hasNext st .getting st .idle none
  | getEnd {q} (h : st.queue = none :: q) : WorkerMove cancelled hasNext st .getting
      { st with queue := q, taken := st.taken + 1 } .sentinel none
  | getItem {e q} (h : st.queue = some e :: q) : WorkerMove cancelled hasNext st .getting
      { st with queue := q } (if 1 < st.cfg.batchSize then .collecting [e] else .ready [e] false)
      none
  | exit : WorkerMove cancelled hasNext st .sentinel st.taskDone .exited none
  | collectNothing {batch} (h : st.queue = []) :
      WorkerMove cancelled hasNext st (.collecting batch) st (.collecting batch) none
  | collectEnd {batch q} (h : st.queue = none :: q) :
      WorkerMove cancelled hasNext st (.collecting batch)
        { st with queue := q, taken := st.taken + 1 } (.batchSentinel batch) none
  | collectItem {batch e q} (h : st.queue = some e :: q) :
      WorkerMove cancelled hasNext st (.collecting batch) { st with queue := q }
        (.collecting (batch ++ [e])) none
  | deadline {batch} :
      WorkerMove cancelled hasNext st (.collecting batch) st (.ready batch false) none
  | batchEnd {batch} :
      WorkerMove cancelled hasNext st (.batchSentinel batch) st.taskDone (.ready batch true) none
  | call {batch x} : WorkerMove cancelled hasNext st (.ready batch x)
      { st with calls := st.calls ++ [batch] } (.calling batch x) none
  | returns {batch x} (results : List α) : WorkerMove cancelled hasNext st (.calling batch x)
      { st with returned := st.returned ++ results }
      (.putting batch (if hasNext then results else []) x) none
  | raises {batch x} : WorkerMove cancelled hasNext st (.calling batch x)
      { st with failed := st.failed + batch.length } (.finishing batch.length x) none
  | put {batch r results x} : WorkerMove cancelled hasNext st (.putting batch (r :: results) x)
      { st with sent := st.sent ++ [r] } (.putting batch results x) (some r)
  | count {batch x} : WorkerMove cancelled hasNext st (.putting batch [] x)
      { st with done := st.done + batch.length } (.finishing batch.length x) none
  | taskDone {n x} : WorkerMove cancelled hasNext st (.finishing (n+1) x) st.taskDone
      (.finishing n x) none
  | loop {x} : WorkerMove cancelled hasNext st (.finishing 0 x) st
      (if x then .exited else .idle) none

theorem workerStep_move {cancelled hasNext : Bool} {st st' : StageState α} {x x' : Worker α}
    {a : WorkerAct α} {out : Option α}
    (h : workerStep cancelled hasNext st x a = some (st',x',out)) :
    WorkerMove cancelled hasNext st x st' x' out := by
  cases x with
  | idle =>
    cases a <;> simp only [workerStep,Option.some.injEq,Prod.mk.injEq,reduceCtorEq] at h
    obtain ⟨rfl,rfl,rfl⟩ := h
    exact .test
  | getting =>
    cases a <;> simp only [workerStep,reduceCtorEq] at h
    split at h <;> simp only [Option.some.injEq,Prod.mk.injEq] at h <;> obtain ⟨rfl,rfl,rfl⟩ := h
    · exact .empty ‹_›
    · exact .getEnd ‹_›
    · exact .getItem ‹_›
  | sentinel =>
    cases a <;> simp only [workerStep,Option.some.injEq,Prod.mk.injEq,reduceCtorEq] at h
    obtain ⟨rfl,rfl,rfl⟩ := h
    exact .exit
  | collecting batch =>
    cases a <;> simp only [workerStep,reduceCtorEq] at h
    · split at h
      · split at h <;> simp only [Option.some.injEq,Prod.mk.injEq] at h <;>
          obtain ⟨rfl,rfl,rfl⟩ := h
        · exact .collectNothing ‹_›
        · exact .collectEnd ‹_›
        · exact .collectItem ‹_›
      · cases h
    · simp only [Option.some.injEq,Prod.mk.injEq] at h
      obtain ⟨rfl,rfl,rfl⟩ := h
      exact .deadline
  | batchSentinel batch =>
    cases a <;> simp only [workerStep,Option.some.injEq,Prod.mk.injEq,reduceCtorEq] at h
    obtain ⟨rfl,rfl,rfl⟩ := h
    exact .batchEnd
  | ready batch x =>
    cases a <;> simp only [workerStep,Option.some.injEq,Prod.mk.injEq,reduceCtorEq] at h
    obtain ⟨rfl,rfl,rfl⟩ := h
    exact .call
  | calling batch x =>
    cases a <;> simp only [workerStep,Option.some.injEq,Prod.mk.injEq,reduceCtorEq] at h <;>
      obtain ⟨rfl,rfl,rfl⟩ := h
    · exact .returns _
    · exact .raises
  | putting batch results x =>
    cases results <;> cases a <;>
      simp only [workerStep,Option.some.injEq,Prod.mk.injEq,reduceCtorEq] at h <;>
      obtain ⟨rfl,rfl,rfl⟩ := h
    · exact .count
    · exact .put
  | finishing n x =>
    cases n <;> cases a <;>
      simp only [workerStep,Option.some.injEq,Prod.mk.injEq,reduceCtorEq] at h <;>
      obtain ⟨rfl,rfl,rfl⟩ := h
    · exact .loop
    · exact .taskDone
  | exited => cases a <;> cases h

/-- A stage's step is one worker's; the other workers `rest` are as they were. -/
theorem stageStep_move {cancelled hasNext : Bool} {st st' : StageState α} {w : ℕ}
    {a : WorkerAct α} {out : Option α} (h : stageStep cancelled hasNext st w a = some (st',out)) :
    ∃ x x' sv rest, WorkerMove cancelled hasNext st x sv x' out ∧
      st.workers.Perm (x :: rest) ∧ (st.workers.set w x').Perm (x' :: rest) ∧
      st' = { sv with workers := st.workers.set w x' } := by
  unfold stageStep at h
  cases hw : st.workers[w]? with
  | none => simp [hw] at h
  | some x =>
    simp only [hw,Option.map_eq_some_iff,Prod.mk.injEq] at h
    obtain ⟨⟨sv,x',out'⟩,hstep,rfl,rfl⟩ := h
    obtain ⟨hlt,rfl⟩ := List.getElem?_eq_some_iff.mp hw
    refine ⟨_,x',sv,st.workers.eraseIdx w,workerStep_move hstep,?_,?_,rfl⟩
    · exact (List.getElem_cons_eraseIdx_perm hlt).symm
    · exact List.set_perm_cons_eraseIdx hlt x'

/-! ## What the workers of a stage hold -/

theorem filterMap_none (q : List (Option α)) : (none :: q).filterMap id = q.filterMap id := rfl

theorem filterMap_some (e : α) (q : List (Option α)) :
    (some e :: q).filterMap id = e :: q.filterMap id := rfl

namespace Worker

/-- Items taken from the queue and not handed to the processor yet. -/
def held : Worker α → List α
  | .collecting batch | .batchSentinel batch | .ready batch _ => batch
  | _ => []

/-- Results that are still to be put into the next queue. -/
def unsent : Worker α → List α
  | .putting _ results _ => results
  | _ => []

/-- Calls of `task_done` a worker still has to make. -/
def owes : Worker α → ℕ
  | .sentinel => 1
  | .batchSentinel batch => batch.length + 1
  | .collecting batch | .ready batch _ | .calling batch _ | .putting batch _ _ => batch.length
  | .finishing n _ => n
  | .idle | .getting | .exited => 0

/-- Items in a worker's hands whose call has neither been counted nor failed. -/
def inHand : Worker α → ℕ
  | .collecting batch | .batchSentinel batch | .ready batch _ | .calling batch _
  | .putting batch _ _ => batch.length
  | _ => 0

/-- The worker has met an end marker, or has left. -/
def gone : Worker α → Bool
  | .sentinel | .batchSentinel _ | .exited => true
  | .ready _ x | .calling _ x | .putting _ _ x | .finishing _ x => x
  | .idle | .getting | .collecting _ => false

/-- A batch in a worker's hands is not empty. -/
def Formed : Worker α → Prop
  | .collecting batch | .batchSentinel batch | .ready batch _ | .calling batch _
  | .putting batch _ _ => batch ≠ []
  | _ => True

theorem inHand_le_owes (x : Worker α) : x.inHand ≤ x.owes := by
  cases x <;> simp [inHand,owes]

theorem held_eq_nil {x : Worker α} (h : x.inHand = 0) : x.held = [] := by
  cases x <;> simp_all [inHand,held]

theorem unsent_eq_nil {x : Worker α} (hf : x.Formed) (h : x.inHand = 0) : x.unsent = [] := by
  cases x <;> simp_all [inHand,unsent,Formed]

end Worker

namespace StageState

def queued (st : StageState α) : List α := st.queue.filterMap id

def held (st : StageState α) : List α := st.workers.flatMap Worker.held

def unsent (st : StageState α) : List α := st.workers.flatMap Worker.unsent

def owes (st : StageState α) : ℕ := (st.workers.map Worker.owes).sum

def inHand (st : StageState α) : ℕ := (st.workers.map Worker.inHand).sum

end StageState

/-- What holds of each stage in every state. -/
structure StageInv (cancelled hasNext : Bool) (st : StageState α) : Prop where
  handed : (st.items : Multiset α) = st.queued + st.held + st.calls.flatten
  forwarded : hasNext = true → (st.returned : Multiset α) = st.sent + st.unsent
  account : st.unfinished = st.queue.length + st.owes
  counted : st.items.length = st.done + st.failed + st.queued.length + st.inHand
  shape : st.queue = st.queued.map some ++ List.replicate (st.ends - st.taken) none
  taken_le : st.taken ≤ st.ends
  drained : 0 < st.taken → st.queued = []
  gone : cancelled = false → st.workers.countP Worker.gone = st.taken
  formed : ∀ x ∈ st.workers, x.Formed
  crew : st.workers.length = st.cfg.workerCount

section Moves

variable {cancelled hasNext : Bool} {st sv : StageState α} {x x' : Worker α} {out : Option α}

theorem WorkerMove.cfg_eq (h : WorkerMove cancelled hasNext st x sv x' out) :
    sv.cfg = st.cfg ∧ sv.items = st.items ∧ sv.ends = st.ends := by
  cases h <;> exact ⟨rfl,rfl,rfl⟩

theorem WorkerMove.sent (h : WorkerMove cancelled hasNext st x sv x' out) :
    sv.sent = st.sent ++ out.toList := by
  cases h <;> first | rfl | exact (List.append_nil _).symm

/-- The items in the queue and the items in one worker's hands, taken together, change only
when the processor is called. -/
theorem WorkerMove.handed (h : WorkerMove cancelled hasNext st x sv x' out) (r : Multiset α)
    (hi : (st.items : Multiset α) = st.queued + (x.held + r) + st.calls.flatten) :
    (sv.items : Multiset α) = sv.queued + (x'.held + r) + sv.calls.flatten := by
  have hitems : sv.items = st.items := h.cfg_eq.2.1
  rw [hitems,hi]
  cases h with
  | test => split <;> rfl
  | getEnd hq | collectEnd hq =>
    simp only [StageState.queued,hq,filterMap_none]
    rfl
  | @getItem e q hq =>
    have hx : (if 1 < st.cfg.batchSize then Worker.collecting [e] else .ready [e] false).held =
        [e] := by split <;> rfl
    rw [hx]
    simp only [StageState.queued,hq,filterMap_some,Worker.held]
    rw [← Multiset.cons_coe,Multiset.coe_nil,← Multiset.singleton_add,Multiset.coe_singleton]
    abel
  | @collectItem batch e q hq =>
    simp only [StageState.queued,hq,filterMap_some,Worker.held]
    rw [← Multiset.cons_coe,← Multiset.coe_add,← Multiset.singleton_add,Multiset.coe_singleton]
    abel
  | @call batch x =>
    simp only [StageState.queued,Worker.held,List.flatten_append,List.flatten_singleton]
    rw [← Multiset.coe_add,Multiset.coe_nil]
    abel
  | loop => split <;> rfl
  | _ => rfl

/-- What the calls returned is still with the worker or already in the next queue. -/
theorem WorkerMove.forwarded (h : WorkerMove cancelled true st x sv x' out) (r : Multiset α)
    (hi : (st.returned : Multiset α) = st.sent + (x.unsent + r)) :
    (sv.returned : Multiset α) = sv.sent + (x'.unsent + r) := by
  cases h with
  | test | loop =>
    rw [hi]
    split <;> rfl
  | getItem =>
    rw [hi]
    split <;> rfl
  | returns results =>
    simp only [Worker.unsent,if_true] at hi ⊢
    rw [← Multiset.coe_add,hi,Multiset.coe_nil]
    abel
  | @put batch e results x =>
    simp only [Worker.unsent] at hi ⊢
    rw [hi,← Multiset.cons_coe,← Multiset.coe_add,← Multiset.singleton_add,
      Multiset.coe_singleton]
    abel
  | _ => exact hi

theorem WorkerMove.account (h : WorkerMove cancelled hasNext st x sv x' out) (r : ℕ)
    (hi : st.unfinished = st.queue.length + (x.owes + r)) :
    sv.unfinished = sv.queue.length + (x'.owes + r) := by
  cases h with
  | test | loop =>
    rw [hi]
    split <;> rfl
  | getItem hq =>
    rw [hq] at hi
    split <;> simp only [Worker.owes,List.length_cons,List.length_nil] at hi ⊢ <;> omega
  | empty hq | collectNothing hq => exact hi
  | getEnd hq | collectEnd hq =>
    rw [hq] at hi
    simp only [Worker.owes,List.length_cons] at hi ⊢
    omega
  | collectItem hq =>
    rw [hq] at hi
    simp only [Worker.owes,List.length_cons,List.length_append,List.length_nil] at hi ⊢
    omega
  | exit | batchEnd | taskDone =>
    simp only [Worker.owes,StageState.taskDone] at hi ⊢
    omega
  | _ => exact hi

theorem WorkerMove.counted (h : WorkerMove cancelled hasNext st x sv x' out) (r : ℕ)
    (hi : st.items.length = st.done + st.failed + st.queued.length + (x.inHand + r)) :
    sv.items.length = sv.done + sv.failed + sv.queued.length + (x'.inHand + r) := by
  have hitems : sv.items = st.items := h.cfg_eq.2.1
  rw [hitems,hi]
  cases h with
  | test | loop => split <;> rfl
  | getItem hq =>
    simp only [StageState.queued,hq,filterMap_some]
    split <;> simp only [Worker.inHand,List.length_cons,List.length_nil] <;> omega
  | getEnd hq | collectEnd hq =>
    simp only [StageState.queued,hq,filterMap_none]
    rfl
  | collectItem hq =>
    simp only [StageState.queued,hq,filterMap_some,Worker.inHand,
      List.length_cons,List.length_append,List.length_nil]
    omega
  | raises | count =>
    simp only [StageState.queued,Worker.inHand]
    omega
  | _ => rfl

/-- Only a worker that takes an end marker, or is cancelled, goes. -/
theorem WorkerMove.gone (h : WorkerMove false hasNext st x sv x' out) :
    x'.gone.toNat + st.taken = x.gone.toNat + sv.taken := by
  cases h with
  | getItem => split <;> rfl
  | @loop b => cases b <;> rfl
  | getEnd | collectEnd =>
    simp only [Worker.gone,Bool.toNat_true,Bool.toNat_false]
    omega
  | _ => rfl

theorem WorkerMove.formed (h : WorkerMove cancelled hasNext st x sv x' out) (hf : x.Formed) :
    x'.Formed := by
  cases h with
  | test | loop => split <;> trivial
  | getItem => split <;> exact List.cons_ne_nil _ _
  | collectItem => exact List.append_ne_nil_of_right_ne_nil _ (List.cons_ne_nil _ _)
  | raises | count | exit | empty | getEnd | taskDone => trivial
  | _ => exact hf

/-- End markers stay behind the items: a worker that meets one has left no item behind. -/
theorem WorkerMove.shape (h : WorkerMove cancelled hasNext st x sv x' out)
    (hs : st.queue = st.queued.map some ++ List.replicate (st.ends - st.taken) none)
    (hle : st.taken ≤ st.ends) (hd : 0 < st.taken → st.queued = []) :
    sv.queue = sv.queued.map some ++ List.replicate (sv.ends - sv.taken) none ∧
      sv.taken ≤ sv.ends ∧ (0 < sv.taken → sv.queued = []) := by
  cases h with
  | @getEnd q hq | @collectEnd batch q hq =>
    cases hqd : st.queued with
    | cons e l => rw [hq,hqd] at hs; cases hs
    | nil =>
      have hq' : q.filterMap id = [] := by
        rw [← hqd,StageState.queued,hq,filterMap_none]
      rw [hq,hqd,List.map_nil,List.nil_append] at hs
      obtain ⟨m,hm⟩ : ∃ m, st.ends - st.taken = m + 1 := by
        cases hm : st.ends - st.taken with
        | zero => rw [hm] at hs; cases hs
        | succ m => exact ⟨m,rfl⟩
      rw [hm,List.replicate_succ,List.cons.injEq] at hs
      refine ⟨?_,?_,fun _ => hq'⟩
      · have hsub : st.ends - (st.taken + 1) = m := by omega
        simp only [StageState.queued,hq',List.map_nil,List.nil_append,hsub]
        exact hs.2
      · show st.taken + 1 ≤ st.ends
        omega
  | @getItem e q hq | @collectItem batch e q hq =>
    have hqd : st.queued = e :: q.filterMap id := by
      rw [StageState.queued,hq,filterMap_some]
    rw [hq,hqd,List.map_cons,List.cons_append,List.cons.injEq] at hs
    refine ⟨hs.2,hle,fun ht => ?_⟩
    have hnil := hd ht
    rw [hqd] at hnil
    cases hnil
  | _ => exact ⟨hs,hle,hd⟩

/-- A worker without items that finds none in the queue gets none and sends none. -/
theorem WorkerMove.complete (h : WorkerMove cancelled hasNext st x sv x' out) (hf : x.Formed)
    (hx : x.inHand = 0) (hq : st.queued = []) :
    out = none ∧ x'.inHand = 0 ∧ sv.queued = [] := by
  cases h with
  | test | loop =>
    refine ⟨rfl,?_,hq⟩
    split <;> rfl
  | @getEnd q hq' =>
    rw [StageState.queued,hq',filterMap_none] at hq
    exact ⟨rfl,rfl,hq⟩
  | getItem hq' =>
    rw [StageState.queued,hq',filterMap_some] at hq
    cases hq
  | empty | exit | taskDone => exact ⟨rfl,rfl,hq⟩
  | _ => exact absurd (List.length_eq_zero_iff.mp hx) hf

end Moves

/-! ## A stage as a whole -/

section Stage

variable {cancelled hasNext : Bool} {st st' : StageState α} {w : ℕ} {a : WorkerAct α}
  {out : Option α}

theorem start_flatMap (cfg : StageCfg) (f : Worker α → List α) (hf : f .idle = []) :
    (StageState.start cfg : StageState α).workers.flatMap f = [] := by
  rw [List.flatMap_eq_nil_iff]
  intro x hx
  rw [List.eq_of_mem_replicate hx,hf]

theorem stageInv_start (cfg : StageCfg) : StageInv (α := α) cancelled hasNext (.start cfg) where
  handed := by
    rw [StageState.held,start_flatMap cfg Worker.held rfl]
    rfl
  forwarded _ := by
    rw [StageState.unsent,start_flatMap cfg Worker.unsent rfl]
    rfl
  account := by simp [StageState.start,StageState.owes,Worker.owes]
  counted := by simp [StageState.start,StageState.queued,StageState.inHand,Worker.inHand]
  shape := rfl
  taken_le := le_refl _
  drained h := absurd h (lt_irrefl 0)
  gone _ := by simp [StageState.start,List.countP_replicate,Worker.gone]
  formed x hx := by
    rw [List.eq_of_mem_replicate hx]
    trivial
  crew := List.length_replicate

theorem stageStep_keeps (h : stageStep cancelled hasNext st w a = some (st',out))
    (hi : StageInv cancelled hasNext st) : StageInv cancelled hasNext st' := by
  obtain ⟨x,x',sv,rest,hmove,hp,hp',rfl⟩ := stageStep_move h
  obtain ⟨hcfg,hitems,hends⟩ := hmove.cfg_eq
  have hshape := hmove.shape hi.shape hi.taken_le hi.drained
  have hflat : ∀ (f : Worker α → List α),
      (st.workers.flatMap f : Multiset α) = f x + (rest.flatMap f : Multiset α) := by
    intro f
    rw [Multiset.coe_add]
    exact Multiset.coe_eq_coe.mpr (hp.flatMap_right f)
  have hflat' : ∀ (f : Worker α → List α),
      ((st.workers.set w x').flatMap f : Multiset α) = f x' + (rest.flatMap f : Multiset α) := by
    intro f
    rw [Multiset.coe_add]
    exact Multiset.coe_eq_coe.mpr (hp'.flatMap_right f)
  have hsum : ∀ (f : Worker α → ℕ), (st.workers.map f).sum = f x + (rest.map f).sum :=
    fun f => (hp.map f).sum_eq
  have hsum' : ∀ (f : Worker α → ℕ),
      ((st.workers.set w x').map f).sum = f x' + (rest.map f).sum := fun f => (hp'.map f).sum_eq
  exact {
    handed := by
      have hh := hi.handed
      rw [StageState.held,hflat] at hh
      simp only [StageState.held,hflat']
      exact hmove.handed _ hh
    forwarded := by
      intro hn
      subst hn
      have hf := hi.forwarded rfl
      rw [StageState.unsent,hflat] at hf
      simp only [StageState.unsent,hflat']
      exact hmove.forwarded _ hf
    account := by
      have ha := hi.account
      rw [StageState.owes,hsum] at ha
      simp only [StageState.owes,hsum']
      exact hmove.account _ ha
    counted := by
      have hc := hi.counted
      rw [StageState.inHand,hsum] at hc
      simp only [StageState.inHand,hsum']
      exact hmove.counted _ hc
    shape := hshape.1
    taken_le := hshape.2.1
    drained := hshape.2.2
    gone := by
      intro hc
      subst hc
      have hg := hi.gone rfl
      have hm := hmove.gone
      rw [hp.countP_eq,List.countP_cons] at hg
      show (st.workers.set w x').countP Worker.gone = sv.taken
      rw [hp'.countP_eq,List.countP_cons]
      cases hx : x.gone <;> cases hx' : x'.gone <;> simp [hx,hx'] at hg hm ⊢ <;> omega
    formed := by
      have hfx : x.Formed := hi.formed x (hp.mem_iff.mpr List.mem_cons_self)
      intro y hy
      rcases List.mem_cons.mp (hp'.mem_iff.mp hy) with rfl | hy
      · exact hmove.formed hfx
      · exact hi.formed y (hp.mem_iff.mpr (List.mem_cons_of_mem _ hy))
    crew := by
      show (st.workers.set w x').length = sv.cfg.workerCount
      rw [List.length_set,hcfg]
      exact hi.crew }

theorem stageInv_pushItem {e : α} (hi : StageInv cancelled hasNext st) (h0 : st.ends = 0) :
    StageInv cancelled hasNext (st.push (some e)) := by
  have ht : st.taken = 0 := by
    have := hi.taken_le
    omega
  have hq : (st.push (some e)).queued = st.queued ++ [e] := by
    simp [StageState.queued,StageState.push]
  have hqueue : st.queue = st.queued.map some := by
    have hs := hi.shape
    rw [h0,Nat.zero_sub,List.replicate_zero,List.append_nil] at hs
    exact hs
  exact { hi with
    handed := by
      rw [hq]
      show ((st.items ++ [e] : List α) : Multiset α) = _ + st.held + st.calls.flatten
      rw [← Multiset.coe_add,hi.handed,← Multiset.coe_add]
      abel
    account := by
      have ha := hi.account
      show st.unfinished + 1 = (st.queue ++ [some e]).length + st.owes
      rw [List.length_append,List.length_singleton]
      omega
    counted := by
      have hc := hi.counted
      rw [hq]
      show (st.items ++ [e]).length = st.done + st.failed + _ + st.inHand
      rw [List.length_append,List.length_append,List.length_singleton]
      omega
    shape := by
      rw [hq]
      show st.queue ++ [some e] = _ ++ List.replicate (st.ends - st.taken) none
      rw [h0,Nat.zero_sub,List.replicate_zero,List.append_nil,List.map_append,← hqueue]
      rfl
    drained := fun h => absurd h (by
      show ¬0 < st.taken
      omega) }

theorem stageInv_pushEnd (hi : StageInv cancelled hasNext st) :
    StageInv cancelled hasNext (st.push none) := by
  have hq : (st.push none).queued = st.queued := by
    simp [StageState.queued,StageState.push]
  exact { hi with
    handed := by
      rw [hq]
      exact hi.handed
    account := by
      have ha := hi.account
      show st.unfinished + 1 = (st.queue ++ [none]).length + st.owes
      rw [List.length_append,List.length_singleton]
      omega
    counted := by
      rw [hq]
      exact hi.counted
    shape := by
      have hle := hi.taken_le
      have hsub : st.ends + 1 - st.taken = (st.ends - st.taken) + 1 := by omega
      rw [hq]
      show st.queue ++ [none] = _ ++ List.replicate (st.ends + 1 - st.taken) none
      rw [hsub,List.replicate_succ',← List.append_assoc,← hi.shape]
    taken_le := Nat.le_succ_of_le hi.taken_le
    drained := by
      rw [hq]
      exact hi.drained }

theorem StageInv.of_cancel (hi : StageInv cancelled hasNext st) : StageInv true hasNext st :=
  { hi with gone := fun h => by cases h }

/-- No item is left in the queue or in the hands of a worker. -/
def StageState.Complete (st : StageState α) : Prop := st.queued = [] ∧ st.inHand = 0

theorem StageInv.held_eq_nil (h : st.inHand = 0) : st.held = [] := by
  rw [StageState.held,List.flatMap_eq_nil_iff]
  intro x hx
  exact Worker.held_eq_nil ((List.sum_eq_zero_iff.mp h) _ (List.mem_map_of_mem hx))

theorem StageInv.unsent_eq_nil (hi : StageInv cancelled hasNext st) (h : st.inHand = 0) :
    st.unsent = [] := by
  rw [StageState.unsent,List.flatMap_eq_nil_iff]
  intro x hx
  exact Worker.unsent_eq_nil (hi.formed x hx)
    ((List.sum_eq_zero_iff.mp h) _ (List.mem_map_of_mem hx))

theorem StageInv.items_eq_calls (hi : StageInv cancelled hasNext st) (h : st.Complete) :
    (st.items : Multiset α) = st.calls.flatten := by
  rw [hi.handed,h.1,StageInv.held_eq_nil h.2]
  simp

/-- The counter of the first stage tells that it is complete. -/
theorem StageInv.complete_of_done (hi : StageInv cancelled hasNext st)
    (h : st.items.length ≤ st.done) : st.Complete := by
  have hc := hi.counted
  have hlen : st.queued.length = 0 := by omega
  exact ⟨List.length_eq_zero_iff.mp hlen,by omega⟩

theorem inHand_le_owes (st : StageState α) : st.inHand ≤ st.owes :=
  List.sum_le_sum fun x _ => x.inHand_le_owes

/-- So does `Queue.join`. -/
theorem StageInv.complete_of_join (hi : StageInv cancelled hasNext st) (h : st.unfinished = 0) :
    st.Complete := by
  have ha := hi.account
  have hq : st.queue = [] := List.length_eq_zero_iff.mp (by omega)
  refine ⟨by rw [StageState.queued,hq]; rfl,?_⟩
  have := inHand_le_owes st
  omega

/-- A complete stage sends nothing on and stays complete under the steps of its workers. -/
theorem stageStep_complete (h : stageStep cancelled hasNext st w a = some (st',out))
    (hi : StageInv cancelled hasNext st) (hc : st.Complete) : out = none ∧ st'.Complete := by
  obtain ⟨x,x',sv,rest,hmove,hp,hp',rfl⟩ := stageStep_move h
  have hmem : x ∈ st.workers := hp.mem_iff.mpr List.mem_cons_self
  have hsum : st.inHand = x.inHand + (rest.map Worker.inHand).sum :=
    (hp.map Worker.inHand).sum_eq
  have hsum' : ((st.workers.set w x').map Worker.inHand).sum =
      x'.inHand + (rest.map Worker.inHand).sum := (hp'.map Worker.inHand).sum_eq
  have h0 := hc.2
  obtain ⟨hout,hx',hq⟩ := hmove.complete (hi.formed x hmem) (by omega) hc.1
  refine ⟨hout,hq,?_⟩
  show ((st.workers.set w x').map Worker.inHand).sum = 0
  omega

end Stage

/-! ## A stage can always be emptied

Workers that are not cancelled lose a unit of `cost` with each step they take towards an
empty queue, and one of them can take such a step while the stage is not `Drained`. -/

namespace Worker

def cost : Worker α → ℕ
  | .idle | .sentinel => 1
  | .collecting batch => batch.length + 7
  | .batchSentinel batch => batch.length + 8
  | .ready batch _ => batch.length + 6
  | .calling batch _ => batch.length + 5
  | .putting batch results _ => batch.length + results.length + 4
  | .finishing n _ => n + 2
  | .getting | .exited => 0

/-- Out of the loop, or in `get`. -/
def Waits (x : Worker α) : Prop := x = .getting ∨ x = .exited

instance [DecidableEq α] (x : Worker α) : Decidable x.Waits :=
  inferInstanceAs (Decidable (_ ∨ _))

end Worker

namespace StageState

def cost (st : StageState α) : ℕ := 10 * st.queue.length + (st.workers.map Worker.cost).sum

def Drained (st : StageState α) : Prop := st.queue = [] ∧ ∀ x ∈ st.workers, x.Waits

end StageState

section Drain

variable {hasNext : Bool} {st : StageState α}

/-- A worker that is neither out nor in `get` has a step that asks nothing of the queue. -/
theorem busy_step (hasNext : Bool) (st : StageState α) {x : Worker α} (h : ¬x.Waits) :
    ∃ a sv x' out, workerStep false hasNext st x a = some (sv,x',out) ∧
      (sv.queue = st.queue ∧ a ≠ .raises) ∧ x'.cost < x.cost := by
  cases x with
  | idle => exact ⟨.test,st,.getting,none,rfl,⟨rfl,nofun⟩,Nat.zero_lt_one⟩
  | getting => exact absurd (.inl rfl) h
  | sentinel => exact ⟨.taskDone,_,_,_,rfl,⟨rfl,nofun⟩,Nat.zero_lt_one⟩
  | collecting batch => exact ⟨.deadline,_,_,_,rfl,⟨rfl,nofun⟩,Nat.lt_succ_self _⟩
  | batchSentinel batch =>
    refine ⟨.taskDone,_,_,_,rfl,⟨rfl,nofun⟩,?_⟩
    show batch.length + 6 < batch.length + 8
    omega
  | ready batch x => exact ⟨.call,_,_,_,rfl,⟨rfl,nofun⟩,Nat.lt_succ_self _⟩
  | calling batch x =>
    refine ⟨.returns [],_,_,_,rfl,⟨rfl,nofun⟩,?_⟩
    have hnil : (if hasNext then ([] : List α) else []) = [] := by split <;> rfl
    rw [hnil]
    exact Nat.lt_succ_self _
  | putting batch results x =>
    cases results with
    | nil =>
      refine ⟨.count,_,_,_,rfl,⟨rfl,nofun⟩,?_⟩
      show batch.length + 2 < batch.length + 0 + 4
      omega
    | cons r results =>
      refine ⟨.put,_,_,_,rfl,⟨rfl,nofun⟩,?_⟩
      show batch.length + results.length + 4 < batch.length + (results.length + 1) + 4
      omega
  | finishing n x =>
    cases n with
    | zero =>
      refine ⟨.loop,_,_,_,rfl,⟨rfl,nofun⟩,?_⟩
      cases x
      · show 1 < 2
        omega
      · show 0 < 2
        omega
    | succ n => exact ⟨.taskDone,_,_,_,rfl,⟨rfl,nofun⟩,Nat.lt_succ_self _⟩
  | exited => exact absurd (.inr rfl) h

/-- A worker in `get` has one when there is something to take. -/
theorem get_step (hasNext : Bool) (h : st.queue ≠ []) :
    ∃ sv x' out, workerStep false hasNext st .getting .get = some (sv,x',out) ∧
      10 * sv.queue.length + x'.cost < 10 * st.queue.length := by
  cases hq : st.queue with
  | nil => exact absurd hq h
  | cons e q =>
    cases e with
    | none =>
      refine ⟨{ st with queue := q, taken := st.taken + 1 },.sentinel,none,?_,?_⟩
      · simp only [workerStep,hq]
      · show 10 * q.length + 1 < 10 * (q.length + 1)
        omega
    | some e =>
      refine ⟨{ st with queue := q },
        if 1 < st.cfg.batchSize then .collecting [e] else .ready [e] false,none,?_,?_⟩
      · simp only [workerStep,hq]
      · have hcost : (if 1 < st.cfg.batchSize then Worker.collecting [e]
            else .ready [e] false).cost ≤ 8 := by
          split
          · exact le_refl 8
          · show 7 ≤ 8
            omega
        show 10 * q.length + _ < 10 * (q.length + 1)
        omega

/-- Fewer workers have gone than there are while anything is queued. -/
theorem StageInv.exists_getting (hi : StageInv false hasNext st)
    (hends : st.ends ≤ st.cfg.workerCount) (hq : st.queue ≠ [])
    (hw : ∀ x ∈ st.workers, x.Waits) : .getting ∈ st.workers := by
  have hlt : st.taken < st.workers.length := by
    rw [hi.crew]
    by_cases ht : 0 < st.taken
    · have hs := hi.shape
      rw [hi.drained ht,List.map_nil,List.nil_append] at hs
      have hne : st.ends - st.taken ≠ 0 := by
        intro h0
        rw [h0,List.replicate_zero] at hs
        exact hq hs
      omega
    · have := st.cfg.workerCount_pos
      omega
  by_contra hno
  have hall : ∀ x ∈ st.workers, x.gone = true := by
    intro x hx
    rcases hw x hx with rfl | rfl
    · exact absurd hx hno
    · rfl
  have hcount := List.countP_eq_length.mpr hall
  have := hi.gone rfl
  omega

theorem StageInv.drain_step (hi : StageInv false hasNext st)
    (hends : st.ends ≤ st.cfg.workerCount) (hd : ¬st.Drained) :
    ∃ w a st' out, stageStep false hasNext st w a = some (st',out) ∧ a ≠ .raises ∧
      st'.cost < st.cost := by
  -- a worker `x` at `w` whose step lowers the cost of queue and worker lowers the stage's
  have key : ∀ {w : ℕ} {x : Worker α} {a sv x' out}, st.workers[w]? = some x →
      workerStep false hasNext st x a = some (sv,x',out) → a ≠ .raises →
      10 * sv.queue.length + x'.cost < 10 * st.queue.length + x.cost →
      ∃ w a st' out, stageStep false hasNext st w a = some (st',out) ∧ a ≠ .raises ∧
        st'.cost < st.cost := by
    intro w x a sv x' out hw hstep hf hlt
    obtain ⟨hb,rfl⟩ := List.getElem?_eq_some_iff.mp hw
    refine ⟨w,a,{ sv with workers := st.workers.set w x' },out,?_,hf,?_⟩
    · simp only [stageStep,hw,hstep,Option.map_some]
    · have hp := ((List.getElem_cons_eraseIdx_perm hb).map Worker.cost).sum_eq
      have hp' := ((List.set_perm_cons_eraseIdx hb x').map Worker.cost).sum_eq
      rw [List.map_cons,List.sum_cons] at hp hp'
      show 10 * sv.queue.length + ((st.workers.set w x').map Worker.cost).sum <
        10 * st.queue.length + (st.workers.map Worker.cost).sum
      omega
  by_cases hw : ∀ x ∈ st.workers, x.Waits
  · have hq : st.queue ≠ [] := fun hq => hd ⟨hq,hw⟩
    obtain ⟨w,hget⟩ := List.mem_iff_getElem?.mp (hi.exists_getting hends hq hw)
    obtain ⟨sv,x',out,hstep,hlt⟩ := get_step hasNext hq
    exact key hget hstep nofun hlt
  · push Not at hw
    obtain ⟨x,hx,hbusy⟩ := hw
    obtain ⟨w,hget⟩ := List.mem_iff_getElem?.mp hx
    obtain ⟨a,sv,x',out,hstep,⟨hqueue,hf⟩,hlt⟩ := busy_step hasNext st hbusy
    refine key hget hstep hf ?_
    rw [hqueue]
    omega

/-- The steps of one stage's workers when none is cancelled and no call raises. -/
def stageRun (hasNext : Bool) (st : StageState α) : ℕ × WorkerAct α → Option (StageState α)
  | (_,.raises) => none
  | (w,a) => (stageStep false hasNext st w a).map Prod.fst

theorem stageRun_eq_some {st' : StageState α} {w : ℕ} {a : WorkerAct α} :
    stageRun hasNext st (w,a) = some st' ↔
      a ≠ .raises ∧ ∃ out, stageStep false hasNext st w a = some (st',out) := by
  cases a <;> simp [stageRun]

theorem stageStep_frame {cancelled : Bool} {st' : StageState α} {w : ℕ} {a : WorkerAct α}
    {out : Option α} (h : stageStep cancelled hasNext st w a = some (st',out)) :
    st'.cfg = st.cfg ∧ st'.items = st.items ∧ st'.ends = st.ends := by
  obtain ⟨x,x',sv,rest,hmove,-,-,rfl⟩ := stageStep_move h
  exact hmove.cfg_eq

theorem stageStep_failed {cancelled : Bool} {st' : StageState α} {w : ℕ} {a : WorkerAct α}
    {out : Option α} (h : stageStep cancelled hasNext st w a = some (st',out)) :
    st.failed ≤ st'.failed := by
  obtain ⟨x,x',sv,rest,hmove,-,-,rfl⟩ := stageStep_move h
  cases hmove with
  | raises => exact Nat.le_add_right _ _
  | _ => exact le_refl _

/-- The workers of a stage put nothing into its own queue. -/
theorem stageStep_queue {cancelled : Bool} {st' : StageState α} {w : ℕ} {a : WorkerAct α}
    {out : Option α} (h : stageStep cancelled hasNext st w a = some (st',out))
    (hq : st.queue = []) : st'.queue = [] := by
  obtain ⟨x,x',sv,rest,hmove,-,-,rfl⟩ := stageStep_move h
  cases hmove with
  | getEnd hq' | getItem hq' | collectEnd hq' | collectItem hq' =>
    rw [hq] at hq'
    cases hq'
  | _ => exact hq

/-- Only a call that raises loses items. -/
theorem stageStep_failed_eq {cancelled : Bool} {st' : StageState α} {w : ℕ} {a : WorkerAct α}
    {out : Option α} (h : stageStep cancelled hasNext st w a = some (st',out))
    (ha : a ≠ .raises) : st'.failed = st.failed := by
  unfold stageStep at h
  split at h
  · cases h
  · rw [Option.map_eq_some_iff] at h
    obtain ⟨⟨sv,x',out'⟩,hstep,heq⟩ := h
    cases heq
    cases workerStep_move hstep with
    | raises => cases a <;> simp [workerStep] at hstep ha
    | _ => rfl

theorem stageStep_sent {cancelled : Bool} {st' : StageState α} {w : ℕ} {a : WorkerAct α}
    {out : Option α} (h : stageStep cancelled hasNext st w a = some (st',out)) :
    st'.sent = st.sent ++ out.toList := by
  obtain ⟨x,x',sv,rest,hmove,-,-,rfl⟩ := stageStep_move h
  exact hmove.sent

theorem StageInv.drains (hi : StageInv false hasNext st) (hends : st.ends ≤ st.cfg.workerCount) :
    ∃ tr st', Runs.Run (stageRun hasNext) st tr st' ∧ st'.Drained := by
  induction hn : st.cost using Nat.strong_induction_on generalizing st with
  | _ n ih =>
    subst hn
    by_cases hd : st.Drained
    · exact ⟨[],st,.refl,hd⟩
    · obtain ⟨w,a,sv,out,hstep,ha,hlt⟩ := hi.drain_step hends hd
      obtain ⟨hcfg,-,hend⟩ := stageStep_frame hstep
      have hends' : sv.ends ≤ sv.cfg.workerCount := by
        rw [hcfg,hend]
        exact hends
      obtain ⟨tr,st',hr,hd'⟩ := ih sv.cost hlt (stageStep_keeps hstep hi) hends' rfl
      have hfirst : stageRun hasNext st (w,a) = some sv := stageRun_eq_some.mpr ⟨ha,out,hstep⟩
      exact ⟨tr ++ [_],st',(Runs.Run.next .refl hfirst).trans hr,hd'⟩

theorem Drained.owes_eq_zero (h : st.Drained) : st.owes = 0 := by
  refine List.sum_eq_zero_iff.mpr fun n hn => ?_
  obtain ⟨x,hx,rfl⟩ := List.mem_map.mp hn
  rcases h.2 x hx with rfl | rfl <;> rfl

theorem Drained.complete (h : st.Drained) : st.Complete := by
  refine ⟨by rw [StageState.queued,h.1]; rfl,?_⟩
  have := inHand_le_owes st
  have := Drained.owes_eq_zero h
  omega

end Drain

end StageQueue
end EntryAnalyse
