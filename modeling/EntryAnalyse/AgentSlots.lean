import EntryAnalyse.HeapQueue
import EntryAnalyse.Runs

/-! `AgentProcessSlotManager` of app/agent_slots.py. A state is the manager together with all
calls of `acquire` made so far; a step is one critical section of one of them, a callback, the
closing of an event loop, or time passing. Calls are numbered from 0 in the order in which
they draw their sequence number; the wait statistics are left out. -/
namespace EntryAnalyse
namespace AgentSlots

/-- Where a call of `acquire` is: about to report that it waits, suspended in the wait,
returned with a lease that the caller has not released, or finished. -/
inductive Phase
  | notifying | waiting | holding | over
  deriving DecidableEq, Repr

/-- A call of `acquire` with its `AgentSlotTicket` and its `AgentSlotLease`. `registered` says
whether the lease is in `_leases`. -/
structure Call (P : Type) where
  priority : P
  loop : ℕ
  onEvent : Bool
  phase : Phase
  awarded : Bool := false
  cancelled : Bool := false
  registered : Bool := false
  pid : Option ℕ := none
  acquiredAt : ℤ := 0
  deriving DecidableEq, Repr

namespace Call

variable {P : Type}

/-- The acquire has neither returned nor raised. -/
def acquiring (c : Call P) : Bool := decide (c.phase = .notifying ∨ c.phase = .waiting)

/-- The lease is held by the caller and not yet released, forcibly or otherwise. -/
def held (c : Call P) : Bool := decide (c.phase = .holding) && c.registered

/-- A slot was awarded to the ticket, and its acquire has yet to return or hand it on. -/
def pending (c : Call P) : Bool := c.acquiring && c.awarded

/-- `ticket.awarded = True` and `_wake_ticket`; a closed loop marks the ticket cancelled. -/
def award (closed : List ℕ) (c : Call P) : Call P :=
  { c with awarded := true, cancelled := c.cancelled || decide (c.loop ∈ closed) }

/-- The acquire has raised; `cancel` also marks the ticket. -/
def raised (c : Call P) : Call P := { c with phase := .over }
def cancel (c : Call P) : Call P := { c with phase := .over, cancelled := true }

/-- The lease leaves `_leases`; `finish` is its release by the caller. -/
def unregister (c : Call P) : Call P := { c with registered := false }
def finish (c : Call P) : Call P := { c with phase := .over, registered := false }

@[simp] theorem acquiring_award (closed : List ℕ) (c : Call P) :
    (c.award closed).acquiring = c.acquiring := rfl
@[simp] theorem awarded_award (closed : List ℕ) (c : Call P) :
    (c.award closed).awarded = true := rfl

/-- The tests of `force_release_orphaned`; `alive` tells which processes exist. -/
def orphaned (alive : ℕ → Bool) (age now : ℤ) (c : Call P) : Bool :=
  c.registered && match c.pid with
    | some pid => !alive pid
    | none => decide (now - c.acquiredAt > age)

end Call

/-- `AGENT_PROCESS_LIMIT_DEFAULT` and `AGENT_PROCESS_LIMIT_LIMIT`. -/
def limitDefault : ℕ := 8
def limitLimit : ℕ := 128

/-- `normalize_agent_process_limit`; `none` is a value that `int` rejects. -/
def normalizeAgentProcessLimit : Option ℤ → ℕ
  | none => limitDefault
  | some candidate => if candidate < 1 then 1 else min candidate.toNat limitLimit

/-! ### Tickets in the heap -/

section Queued

variable {P : Type} {R : Call P → Prop}

/-- A ticket that may be in the heap under the priority `p`: neither awarded nor cancelled. -/
def Queued (R : Call P → Prop) (calls : List (Call P)) (e : P ×ₗ ℕ) : Prop :=
  ∃ c, calls[(ofLex e).2]? = some c ∧ c.priority = (ofLex e).1 ∧ c.awarded = false ∧
    c.cancelled = false ∧ R c

/-- A change of one call keeps a ticket queued, if it does so for that call. -/
theorem Queued.modify {calls : List (Call P)} {e : P ×ₗ ℕ} {i : ℕ} {f : Call P → Call P}
    (h : Queued R calls e)
    (hf : (ofLex e).2 = i → ∀ c, c.awarded = false → c.cancelled = false → R c →
      (f c).priority = c.priority ∧ (f c).awarded = false ∧ (f c).cancelled = false ∧ R (f c)) :
    Queued R (calls.modify i f) e := by
  obtain ⟨c,hc,hp,ha,hcan,hr⟩ := h
  by_cases hi : (ofLex e).2 = i
  · obtain ⟨hp',ha',hcan',hr'⟩ := hf hi c ha hcan hr
    exact ⟨f c,by simp [← hi,hc],hp'.trans hp,ha',hcan',hr'⟩
  · exact ⟨c,by rw [List.getElem?_modify_ne _ _ (Ne.symm hi),hc],hp,ha,hcan,hr⟩

/-- A new call does not touch the tickets in the heap. -/
theorem Queued.append {calls : List (Call P)} {e : P ×ₗ ℕ} (h : Queued R calls e) (c : Call P) :
    Queued R (calls ++ [c]) e := by
  obtain ⟨d,hd,hrest⟩ := h
  exact ⟨d,List.getElem?_append_left (List.getElem?_eq_some_iff.mp hd).1 ▸ hd,hrest⟩

theorem Queued.number_lt {calls : List (Call P)} {e : P ×ₗ ℕ} (h : Queued R calls e) :
    (ofLex e).2 < calls.length := by
  obtain ⟨c,hc,-⟩ := h
  exact (List.getElem?_eq_some_iff.mp hc).1

/-- Two entries of one call are the same entry. -/
theorem Queued.eq_of_number {calls : List (Call P)} {e e' : P ×ₗ ℕ} (h : Queued R calls e)
    (h' : Queued R calls e') (hn : (ofLex e).2 = (ofLex e').2) : e = e' := by
  obtain ⟨c,hc,hp,-⟩ := h
  obtain ⟨c',hc',hp',-⟩ := h'
  rw [hn,hc'] at hc
  cases hc
  exact ofLex.injective (Prod.ext (hp.symm.trans hp') hn)

end Queued

/-! ### The manager -/

structure Manager (P : Type) [LinearOrder P] where
  capacity : ℕ
  inUse : ℕ := 0
  /-- Heap entries: the priority and the number of the call. -/
  waiters : HeapQueue (P ×ₗ ℕ) := .empty
  calls : List (Call P) := []
  /-- The event loops that have been closed. -/
  closed : List ℕ := []
  now : ℤ := 0

variable {P : Type} [LinearOrder P]

/-- `__init__`. -/
def init (capacity : ℤ) : Manager P where
  capacity := (max 1 capacity).toNat

namespace Manager

/-- Ticket attributes of a call by its number. -/
def cancelledAt (m : Manager P) (i : ℕ) : Bool := (m.calls[i]?).any (·.cancelled)
def awardedAt (m : Manager P) (i : ℕ) : Bool := (m.calls[i]?).any (·.awarded)

def modify (m : Manager P) (i : ℕ) (f : Call P → Call P) : Manager P :=
  { m with calls := m.calls.modify i f }

/-- `_award_next_waiter`. -/
def awardNextWaiter (m : Manager P) : Manager P × Bool :=
  match m.waiters.popLive fun e => m.cancelledAt (ofLex e).2 with
  | none => ({ m with waiters := .empty },false)
  | some (e,rest) => ({ m with waiters := rest }.modify (ofLex e).2 (Call.award m.closed),true)

/-- `if not self._award_next_waiter(): self._in_use = max(0, self._in_use - 1)`. -/
def handOver (m : Manager P) : Manager P :=
  match m.awardNextWaiter with
  | (m',true) => m'
  | (m',false) => { m' with inUse := m'.inUse - 1 }

/-- The loop of `set_capacity`, which awards at most `n` new slots. -/
def fill : ℕ → Manager P → Manager P
  | 0, m => m
  | n+1, m =>
    match m.awardNextWaiter with
    | (m',true) => fill n { m' with inUse := m'.inUse + 1 }
    | (m',false) => m'

def setCapacity (m : Manager P) (capacity : Option ℤ) : Manager P :=
  let c := normalizeAgentProcessLimit capacity
  fill (c - m.inUse) { m with capacity := c }

/-- The first critical section of `acquire`. -/
def acquire (m : Manager P) (priority : P) (loop : ℕ) (onEvent : Bool) : Manager P :=
  if m.inUse < m.capacity then
    { m with
      inUse := m.inUse + 1
      calls := m.calls ++
        [{ priority, loop, onEvent, phase := .holding, registered := true, acquiredAt := m.now }] }
  else
    { m with
      waiters := m.waiters.push (toLex (priority,m.calls.length))
      calls := m.calls ++
        [{ priority, loop, onEvent, phase := if onEvent then .notifying else .waiting }] }

/-- The critical section of either cancel path of `acquire`. -/
def cancelWait (m : Manager P) (i : ℕ) (c : Call P) : Manager P :=
  if c.awarded then (m.modify i Call.raised).handOver
  else
    { m.modify i Call.cancel with
      waiters := m.waiters.keep fun e => decide ((ofLex e).2 ≠ i) }

/-- The last critical section of `acquire`. If the callback raises, the lease has been entered
into `_leases` but is not returned. -/
def checkWait (m : Manager P) (i : ℕ) (c : Call P) (raises : Bool) : Manager P :=
  if c.cancelled then m.modify i Call.raised
  else if c.awarded then
    m.modify i fun c =>
      { c with
        phase := if c.onEvent && raises then .over else .holding
        registered := true
        acquiredAt := m.now }
  else m

/-- `lease.release()` of a lease that was not released before, and `release`. -/
def release (m : Manager P) (i : ℕ) : Manager P :=
  let m' := m.modify i Call.finish
  if m'.inUse > m'.capacity then { m' with inUse := m'.inUse - 1 } else m'.handOver

/-- The leases that `force_release_orphaned` finds dead. -/
def orphans (m : Manager P) (alive : ℕ → Bool) (age : ℤ) : List ℕ :=
  (List.range m.calls.length).filter fun i => (m.calls[i]?).any (·.orphaned alive age m.now)

/-- One iteration of the last loop of `force_release_orphaned`. -/
def forceRelease (m : Manager P) (i : ℕ) : Manager P :=
  (m.modify i Call.unregister).handOver

def forceReleaseOrphaned (m : Manager P) (alive : ℕ → Bool) (age : ℤ) : Manager P :=
  (m.orphans alive age).foldl forceRelease m

/-- The call `i`, if it is in the given phase and its loop can run it. -/
def running (m : Manager P) (i : ℕ) (phase : Phase) : Option (Call P) :=
  (m.calls[i]?).filter fun c => decide (c.phase = phase ∧ c.loop ∉ m.closed)

end Manager

/-- The steps. `interrupted` is the cancellation of the waiting task, `cancelEvent` the wake-up
by a set `cancel_event`; `raises` says that the callback raises. -/
inductive Act (P : Type)
  | acquire (priority : P) (loop : ℕ) (onEvent : Bool)
  | waitStarted (i : ℕ) (raises : Bool)
  | interrupted (i : ℕ)
  | cancelEvent (i : ℕ)
  | wake (i : ℕ) (raises : Bool)
  | release (i : ℕ)
  | bindPid (i pid : ℕ)
  | setCapacity (capacity : Option ℤ)
  | forceReleaseOrphaned (alive : ℕ → Bool) (age : ℤ)
  | closeLoop (loop : ℕ)
  | tick (d : ℕ)

def step (m : Manager P) : Act P → Option (Manager P)
  | .acquire priority loop onEvent =>
    if loop ∈ m.closed then none else some (m.acquire priority loop onEvent)
  | .waitStarted i raises =>
    -- a callback that raises ends the call with its ticket still in the heap
    (m.running i .notifying).map fun _ =>
      m.modify i fun c => { c with phase := if raises then .over else .waiting }
  | .interrupted i => (m.running i .waiting).map (m.cancelWait i)
  | .cancelEvent i => (m.running i .waiting).map (m.cancelWait i)
  | .wake i raises => (m.running i .waiting).map fun c => m.checkWait i c raises
  | .release i =>
    ((m.calls[i]?).filter fun c => decide (c.phase = .holding)).map fun _ => m.release i
  | .bindPid i pid =>
    ((m.calls[i]?).filter fun c => decide (c.phase = .holding)).map fun _ =>
      m.modify i fun c => { c with pid := if pid = 0 then none else some pid }
  | .setCapacity capacity => some (m.setCapacity capacity)
  | .forceReleaseOrphaned alive age => some (m.forceReleaseOrphaned alive age)
  | .closeLoop loop => some { m with closed := loop :: m.closed }
  | .tick d => some { m with now := m.now + d }

/-! ### The heap -/

/-- The heap holds each waiting ticket once, under its own priority, and `R` of its call. -/
structure HeapOk (R : Call P → Prop) (m : Manager P) : Prop where
  nodup : m.waiters.items.Nodup
  queued : ∀ e ∈ m.waiters.items, Queued R m.calls e

section Heap

variable {R : Call P → Prop} {m : Manager P}

@[simp] theorem modify_inUse (i : ℕ) (f : Call P → Call P) : (m.modify i f).inUse = m.inUse := rfl
@[simp] theorem modify_capacity (i : ℕ) (f : Call P → Call P) :
    (m.modify i f).capacity = m.capacity := rfl
@[simp] theorem modify_waiters (i : ℕ) (f : Call P → Call P) :
    (m.modify i f).waiters = m.waiters := rfl
@[simp] theorem modify_calls (i : ℕ) (f : Call P → Call P) :
    (m.modify i f).calls = m.calls.modify i f := rfl

theorem running_eq_some {i : ℕ} {ph : Phase} {c : Call P} (h : m.running i ph = some c) :
    m.calls[i]? = some c ∧ c.phase = ph ∧ c.loop ∉ m.closed := by
  simpa [Manager.running,Option.filter_eq_some_iff] using h

theorem Queued.not_cancelled {e : P ×ₗ ℕ} (h : Queued R m.calls e) :
    m.cancelledAt (ofLex e).2 = false := by
  obtain ⟨c,hc,-,-,hcan,-⟩ := h
  simp [Manager.cancelledAt,hc,hcan]

theorem HeapOk.modify {i : ℕ} {f : Call P → Call P} (h : HeapOk R m)
    (hf : ∀ c, c.awarded = false → c.cancelled = false → R c →
      (f c).priority = c.priority ∧ (f c).awarded = false ∧ (f c).cancelled = false ∧ R (f c)) :
    HeapOk R (m.modify i f) :=
  ⟨h.nodup,fun e he => (h.queued e he).modify fun _ => hf⟩

/-- A change of a call whose ticket is not in the heap is of no concern to the heap. -/
theorem HeapOk.modify_outside {i : ℕ} {f : Call P → Call P} (h : HeapOk R m)
    (hi : ∀ e ∈ m.waiters.items, (ofLex e).2 ≠ i) : HeapOk R (m.modify i f) :=
  ⟨h.nodup,fun e he => (h.queued e he).modify fun hn => absurd hn (hi e he)⟩

/-- An awarded ticket is not in the heap. -/
theorem HeapOk.awarded_outside {i : ℕ} {c : Call P} (h : HeapOk R m) (hc : m.calls[i]? = some c)
    (ha : c.awarded = true) : ∀ e ∈ m.waiters.items, (ofLex e).2 ≠ i := by
  rintro e he rfl
  obtain ⟨d,hd,-,hda,-⟩ := h.queued e he
  rw [hc] at hd
  cases hd
  rw [ha] at hda
  cases hda

/-- `_award_next_waiter` finds the heap empty and changes nothing, or awards the first entry. -/
theorem HeapOk.award_cases (h : HeapOk R m) :
    m.waiters.items = [] ∧ m.awardNextWaiter = (m,false) ∨
      ∃ e rest, m.waiters.items = e :: rest.items ∧ m.awardNextWaiter =
        ({ m with waiters := rest }.modify (ofLex e).2 (Call.award m.closed),true) := by
  have hlive := m.waiters.popLive_cases (fun e => m.cancelledAt (ofLex e).2)
    fun e he => (h.queued e he).not_cancelled
  rcases hlive with ⟨hnil,hpop⟩ | ⟨e,rest,hcons,hpop⟩
  · refine .inl ⟨hnil,?_⟩
    have hq : m.waiters = .empty := HeapQueue.ext (by simpa using hnil)
    simp [Manager.awardNextWaiter,hpop,← hq]
  · exact .inr ⟨e,rest,hcons,by simp [Manager.awardNextWaiter,hpop]⟩

theorem HeapOk.award {e : P ×ₗ ℕ} {rest : HeapQueue (P ×ₗ ℕ)} (h : HeapOk R m)
    (hcons : m.waiters.items = e :: rest.items) :
    HeapOk R ({ m with waiters := rest }.modify (ofLex e).2 (Call.award m.closed)) := by
  have hnd := h.nodup
  rw [hcons,List.nodup_cons] at hnd
  have hrest : HeapOk R { m with waiters := rest } :=
    ⟨hnd.2,fun e' he' => h.queued e' (by simp [hcons,he'])⟩
  refine hrest.modify_outside fun e' he' hn => ?_
  have hsame := (h.queued e' (by simp [hcons,he'])).eq_of_number (h.queued e (by simp [hcons])) hn
  exact hnd.1 (hsame ▸ he')

theorem HeapOk.handOver (h : HeapOk R m) : HeapOk R m.handOver := by
  rcases h.award_cases with ⟨-,ha⟩ | ⟨e,rest,hcons,ha⟩
  · simp only [Manager.handOver,ha]
    exact ⟨h.nodup,h.queued⟩
  · simp only [Manager.handOver,ha]
    exact h.award hcons

theorem HeapOk.acquire (h : HeapOk R m) (priority : P) (loop : ℕ) (onEvent : Bool)
    (hr : ∀ ph, (ph = .notifying ∨ ph = .waiting) →
      R { priority, loop, onEvent, phase := ph }) :
    HeapOk R (m.acquire priority loop onEvent) := by
  unfold Manager.acquire
  split
  · exact ⟨h.nodup,fun e he => (h.queued e he).append _⟩
  · refine ⟨HeapQueue.nodup_push h.nodup ?_,fun e he => ?_⟩
    · intro hmem
      have hlt := (h.queued _ hmem).number_lt
      simp at hlt
    · rcases HeapQueue.mem_push.mp he with rfl | he
      · refine ⟨_,by simp; rfl,rfl,rfl,rfl,hr _ ?_⟩
        cases onEvent <;> simp
      · exact (h.queued e he).append _

/-- Taking a ticket out of the heap before its call is changed. -/
theorem HeapOk.remove {i : ℕ} {f : Call P → Call P} (h : HeapOk R m) :
    HeapOk R { m.modify i f with waiters := m.waiters.keep fun e => decide ((ofLex e).2 ≠ i) } := by
  refine ⟨h.nodup.filter _,fun e he => ?_⟩
  obtain ⟨hmem,hne⟩ := List.mem_filter.mp he
  exact (h.queued e hmem).modify fun hn => absurd hn (by simpa using hne)

theorem HeapOk.forceRelease (h : HeapOk R m) (i : ℕ)
    (hr : ∀ c, R c → R c.unregister) : HeapOk R (m.forceRelease i) :=
  have hmod : HeapOk R (m.modify i Call.unregister) :=
    h.modify fun c ha hc hrc => ⟨rfl,ha,hc,hr c hrc⟩
  hmod.handOver

end Heap

end AgentSlots
end EntryAnalyse
