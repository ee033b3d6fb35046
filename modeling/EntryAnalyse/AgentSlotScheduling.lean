import EntryAnalyse.AgentSlots

/-! The scheduling law of the slot manager. Whatever a step awards is a prefix of the waiting
tickets in the order of priority and sequence, and no slot stays free while a ticket waits. The
third part of the law, no grant above the capacity, is kept by `release` and `set_capacity`
but not by the cancel paths and the forced release. -/
namespace EntryAnalyse
namespace AgentSlots

open Runs

variable {P : Type} [LinearOrder P]

/-- The calls whose tickets a step awards. -/
def granted (m m' : Manager P) : List ℕ :=
  (List.range m'.calls.length).filter fun i => !m.awardedAt i && m'.awardedAt i

/-- A ticket that is awarded was waiting uncancelled, and precedes every uncancelled ticket
that goes on waiting. -/
def GrantsLeast (m m' : Manager P) : Prop :=
  ∀ i ∈ granted m m', ∃ e ∈ m.waiters.items, (ofLex e).2 = i ∧ m.cancelledAt i = false ∧
    ∀ e' ∈ m'.waiters.items, m'.cancelledAt (ofLex e').2 = false → e ≤ e'

/-- With a slot free, no uncancelled ticket waits. -/
def Conserving (m : Manager P) : Prop :=
  m.inUse < m.capacity → ∀ e ∈ m.waiters.items, m.cancelledAt (ofLex e).2 = true

/-- Above the capacity then in force, nothing is awarded. -/
def WithinCapacity (m m' : Manager P) : Prop := m'.capacity < m.inUse → granted m m' = []

/-- The scheduling law for a step from `m` to `m'`. -/
def Law (m m' : Manager P) : Prop := GrantsLeast m m' ∧ Conserving m' ∧ WithinCapacity m m'

instance (m m' : Manager P) : Decidable (GrantsLeast m m') :=
  inferInstanceAs (Decidable (∀ i ∈ granted m m', ∃ e ∈ m.waiters.items, _))
instance (m : Manager P) : Decidable (Conserving m) := inferInstanceAs (Decidable (_ → _))
instance (m m' : Manager P) : Decidable (WithinCapacity m m') :=
  inferInstanceAs (Decidable (_ → _))
instance (m m' : Manager P) : Decidable (Law m m') := inferInstanceAs (Decidable (_ ∧ _))

/-- More slots are in use than the capacity allows, and an uncancelled ticket waits. -/
def overfull (m : Manager P) : Bool :=
  decide (m.capacity < m.inUse) && m.waiters.items.any fun e => !m.cancelledAt (ofLex e).2

/-- The condition on a step: while the manager is overfull, no call whose ticket was awarded
gives up, and no lease is released by force. -/
def shrinkSafe (m : Manager P) : Act P → Bool
  | .interrupted i | .cancelEvent i => !(overfull m && m.awardedAt i)
  | .forceReleaseOrphaned alive age => !(overfull m && !(m.orphans alive age).isEmpty)
  | _ => true

/-- The first `k` waiting tickets, and no others, are awarded on the way from `m` to `m'`. -/
structure Awards (k : ℕ) (m m' : Manager P) : Prop where
  heap : m'.waiters.items = m.waiters.items.drop k
  awarded : ∀ i, m'.awardedAt i =
    (m.awardedAt i || (m.waiters.items.take k).any fun e => decide ((ofLex e).2 = i))
  capacity : m'.capacity = m.capacity

/-- The heap of a manager, with nothing assumed of the calls beyond their tickets. -/
abbrev Heap (m : Manager P) : Prop := HeapOk (fun _ => True) m

variable {m m' m'' : Manager P}

theorem Awards.trans {j k : ℕ} (h : Awards j m m') (h' : Awards k m' m'') :
    Awards (j + k) m m'' where
  heap := by rw [h'.heap,h.heap,List.drop_drop]
  awarded i := by rw [h'.awarded,h.awarded,h.heap,List.take_add,List.any_append,Bool.or_assoc]
  capacity := h'.capacity.trans h.capacity

/-- A change of one call that leaves its ticket's mark alone awards nothing. -/
theorem awards_modify (i : ℕ) {f : Call P → Call P} (hf : ∀ c, (f c).awarded = c.awarded) :
    Awards 0 m (m.modify i f) where
  heap := rfl
  awarded j := by
    simp only [Manager.awardedAt,modify_calls,List.getElem?_modify]
    cases m.calls[j]? with
    | none => simp
    | some c => split <;> simp [hf]
  capacity := rfl

theorem Heap.awards_next (h : Heap m) : m.waiters.items = [] ∧ m.awardNextWaiter = (m,false) ∨
    ∃ n, m.awardNextWaiter = (n,true) ∧ Heap n ∧ Awards 1 m n ∧ n.inUse = m.inUse := by
  rcases h.award_cases with hnil | ⟨e,rest,hcons,ha⟩
  · exact .inl hnil
  · refine .inr ⟨_,ha,h.award hcons,⟨by simp [hcons],fun i => ?_,rfl⟩,rfl⟩
    obtain ⟨c,hc,-⟩ := h.queued e (by simp [hcons])
    simp only [Manager.awardedAt,modify_calls,List.getElem?_modify,hcons,List.take_succ_cons,
      List.take_zero,List.any_cons,List.any_nil,Bool.or_false]
    by_cases hi : (ofLex e).2 = i
    · simp [← hi,hc]
    · simp [hi]

theorem awards_handOver (h : Heap m) : Awards 1 m m.handOver := by
  rcases h.awards_next with ⟨hnil,ha⟩ | ⟨n,ha,-,hone,-⟩ <;> simp only [Manager.handOver,ha]
  · exact ⟨by simp [hnil],fun i => by simp [hnil,Manager.awardedAt],rfl⟩
  · exact hone

theorem awards_forceRelease (h : Heap m) (i : ℕ) : Awards 1 m (m.forceRelease i) := by
  have hmod : Heap (m.modify i Call.unregister) :=
    h.modify fun c ha hc hr => ⟨rfl,ha,hc,hr⟩
  have hfirst : Awards 0 m (m.modify i Call.unregister) := awards_modify i fun _ => rfl
  have hall := hfirst.trans (awards_handOver hmod)
  rwa [Nat.zero_add] at hall

theorem awards_forceRelease_all (h : Heap m) (l : List ℕ) :
    Awards l.length m (l.foldl Manager.forceRelease m) := by
  induction l generalizing m with
  | nil => exact ⟨rfl,fun i => by simp,rfl⟩
  | cons i l ih =>
    have hall := (awards_forceRelease h i).trans (ih (h.forceRelease i fun _ hr => hr))
    rwa [Nat.add_comm] at hall

/-- Awarding `n` new slots at most awards that many tickets, as far as there are any. -/
theorem awards_fill (h : Heap m) (n : ℕ) : Awards n m (Manager.fill n m) := by
  induction n generalizing m with
  | zero => exact ⟨rfl,fun i => by simp [Manager.fill],rfl⟩
  | succ n ih =>
    rcases h.awards_next with ⟨hnil,ha⟩ | ⟨k,ha,hheap,hone,-⟩ <;> simp only [Manager.fill,ha]
    · exact ⟨by simp [hnil],fun i => by simp [hnil],rfl⟩
    · have hnext : Heap { k with inUse := k.inUse + 1 } := ⟨hheap.nodup,hheap.queued⟩
      have hstart : Awards 1 m { k with inUse := k.inUse + 1 } :=
        ⟨hone.heap,hone.awarded,hone.capacity⟩
      have hall := hstart.trans (ih hnext)
      rwa [Nat.add_comm] at hall

/-! ### What is awarded -/

/-- The first two parts of the invariant: the heap, and no free slot beside a waiting ticket. -/
structure Busy (m : Manager P) : Prop where
  heap : Heap m
  full : m.inUse < m.capacity → m.waiters.items = []

theorem Busy.conserving (h : Busy m) : Conserving m := by
  intro hfree e he
  rw [h.full hfree] at he
  cases he

theorem overfull_iff (h : Heap m) :
    overfull m = true ↔ m.capacity < m.inUse ∧ m.waiters.items ≠ [] := by
  simp only [overfull,Bool.and_eq_true,decide_eq_true_eq,List.any_eq_true]
  refine and_congr_right fun _ => ⟨fun ⟨e,he,_⟩ => List.ne_nil_of_mem he,fun hne => ?_⟩
  obtain ⟨e,he⟩ := List.exists_mem_of_ne_nil _ hne
  exact ⟨e,he,by simp [(h.queued e he).not_cancelled]⟩

theorem Heap.not_awarded (h : Heap m) {e : P ×ₗ ℕ} (he : e ∈ m.waiters.items) :
    m.awardedAt (ofLex e).2 = false := by
  obtain ⟨c,hc,-,ha,-⟩ := h.queued e he
  simp [Manager.awardedAt,hc,ha]

theorem mem_granted {i : ℕ} :
    i ∈ granted m m' ↔ m.awardedAt i = false ∧ m'.awardedAt i = true := by
  simp only [granted,List.mem_filter,List.mem_range,Bool.and_eq_true,Bool.not_eq_true']
  refine ⟨fun h => h.2,fun h => ⟨?_,h⟩⟩
  by_contra hlen
  have hnone : m'.calls[i]? = none := List.getElem?_eq_none (not_lt.mp hlen)
  simp [Manager.awardedAt,hnone] at h

/-- The tickets awarded are the first `k` of the heap. -/
theorem Awards.mem_granted {k : ℕ} (ha : Awards k m m') (h : Heap m) {i : ℕ} :
    i ∈ granted m m' ↔ ∃ e ∈ m.waiters.items.take k, (ofLex e).2 = i := by
  rw [AgentSlots.mem_granted,ha.awarded]
  constructor
  · rintro ⟨hno,hyes⟩
    simpa [hno] using hyes
  · rintro ⟨e,he,rfl⟩
    refine ⟨h.not_awarded (List.mem_of_mem_take he),?_⟩
    simp only [Bool.or_eq_true,List.any_eq_true,decide_eq_true_eq]
    exact .inr ⟨e,he,rfl⟩

theorem Awards.granted_eq_nil_iff {k : ℕ} (ha : Awards k m m') (h : Heap m) :
    granted m m' = [] ↔ m.waiters.items.take k = [] := by
  simp only [List.eq_nil_iff_forall_not_mem,ha.mem_granted h]
  exact ⟨fun hno e he => hno _ ⟨e,he,rfl⟩,fun hno i ⟨e,he,_⟩ => hno e he⟩

theorem Awards.grantsLeast {k : ℕ} (ha : Awards k m m') (h : Heap m) : GrantsLeast m m' := by
  intro i hi
  obtain ⟨e,he,rfl⟩ := (ha.mem_granted h).mp hi
  have hmem := List.mem_of_mem_take he
  refine ⟨e,hmem,rfl,(h.queued e hmem).not_cancelled,fun e' he' _ => ?_⟩
  rw [ha.heap] at he'
  have hs := m.waiters.sorted
  rw [← List.take_append_drop k m.waiters.items,List.pairwise_append] at hs
  exact hs.2.2 e he e' he'

/-- A step that marks no ticket awards nothing. -/
theorem granted_of_same (h : ∀ i, m'.awardedAt i = m.awardedAt i) : granted m m' = [] := by
  refine List.eq_nil_iff_forall_not_mem.mpr fun i hi => ?_
  obtain ⟨hno,hyes⟩ := AgentSlots.mem_granted.mp hi
  rw [h i,hno] at hyes
  cases hyes

/-! ### No slot stays free -/

theorem Busy.handOver (h : Busy m) : Busy m.handOver := by
  refine ⟨h.heap.handOver,fun hfree => ?_⟩
  rcases h.heap.awards_next with ⟨hnil,ha⟩ | ⟨n,ha,-,hone,hin⟩ <;>
    simp only [Manager.handOver,ha] at hfree ⊢
  · exact hnil
  · rw [hin,hone.capacity] at hfree
    rw [hone.heap,h.full hfree]
    rfl

theorem Busy.modify {i : ℕ} {f : Call P → Call P} (h : Busy m) (hh : Heap (m.modify i f)) :
    Busy (m.modify i f) := ⟨hh,h.full⟩

theorem Busy.forceRelease (h : Busy m) (i : ℕ) : Busy (m.forceRelease i) := by
  have hmod : Heap (m.modify i Call.unregister) :=
    h.heap.modify fun c ha hc hr => ⟨rfl,ha,hc,hr⟩
  exact (h.modify hmod).handOver

theorem Busy.forceRelease_all (h : Busy m) (l : List ℕ) :
    Busy (l.foldl Manager.forceRelease m) := by
  induction l generalizing m with
  | nil => exact h
  | cons i l ih => exact ih (h.forceRelease i)

/-- Filling ends with no slot free or no ticket waiting. -/
theorem busy_fill {n : ℕ} (h : Heap m) (hn : m.capacity ≤ m.inUse + n) :
    Busy (Manager.fill n m) := by
  induction n generalizing m with
  | zero => exact ⟨h,fun hfree => absurd hfree (by simp only [Manager.fill]; omega)⟩
  | succ n ih =>
    rcases h.awards_next with ⟨hnil,ha⟩ | ⟨k,ha,hheap,hone,hin⟩ <;> simp only [Manager.fill,ha]
    · exact ⟨h,fun _ => hnil⟩
    · have hnext : Heap { k with inUse := k.inUse + 1 } := ⟨hheap.nodup,hheap.queued⟩
      refine ih hnext ?_
      simp only [hone.capacity,hin]
      omega

theorem Busy.acquire {priority : P} {loop : ℕ} {onEvent : Bool} (h : Busy m) :
    Busy (m.acquire priority loop onEvent) := by
  refine ⟨h.heap.acquire _ _ _ fun _ _ => trivial,fun hfree => ?_⟩
  by_cases hcap : m.inUse < m.capacity <;>
    simp only [Manager.acquire,hcap,if_true,if_false] at hfree ⊢
  · exact h.full hcap

/-! ### The law, step by step -/

theorem law_of_quiet (h : Busy m') (hq : granted m m' = []) : Law m m' :=
  ⟨by simp [GrantsLeast,hq],h.conserving,fun _ => hq⟩

/-- For a step that awards tickets the law amounts to its third part. -/
theorem Awards.law_iff {k : ℕ} (ha : Awards k m m') (h : Busy m) (h' : Busy m') :
    Law m m' ↔ (overfull m = true → k = 0) := by
  have hnil : m.waiters.items.take k = [] ↔ (m.waiters.items ≠ [] → k = 0) := by
    rw [List.take_eq_nil_iff]
    tauto
  have hlaw : Law m m' ↔ WithinCapacity m m' :=
    ⟨fun hl => hl.2.2,fun hw => ⟨ha.grantsLeast h.heap,h'.conserving,hw⟩⟩
  rw [hlaw,WithinCapacity,ha.granted_eq_nil_iff h.heap,ha.capacity,hnil,overfull_iff h.heap]
  tauto

theorem awardedAt_acquire {priority : P} {loop : ℕ} {onEvent : Bool} (i : ℕ) :
    (m.acquire priority loop onEvent).awardedAt i = m.awardedAt i := by
  have hnew : ∀ c : Call P, c.awarded = false →
      ((m.calls ++ [c])[i]?).any (·.awarded) = (m.calls[i]?).any (·.awarded) := by
    intro c hc
    rcases lt_trichotomy i m.calls.length with hi | hi | hi
    · rw [List.getElem?_append_left hi]
    · subst hi
      simp [hc]
    · rw [List.getElem?_eq_none (by simp; omega),List.getElem?_eq_none (by omega)]
  unfold Manager.acquire
  split <;> exact hnew _ rfl

/-- A step that only changes one call, and not its ticket. -/
theorem modify_law {i : ℕ} {f : Call P → Call P} {a : Act P} (h : Busy m)
    (hf : ∀ c, (f c).priority = c.priority ∧ (f c).awarded = c.awarded ∧
      (f c).cancelled = c.cancelled) (hsafe : shrinkSafe m a = true) :
    Busy (m.modify i f) ∧ (Law m (m.modify i f) ↔ shrinkSafe m a = true) := by
  have hheap : Heap (m.modify i f) := h.heap.modify fun c ha hc hr =>
    ⟨(hf c).1,(hf c).2.1.trans ha,(hf c).2.2.trans hc,hr⟩
  have hno : Awards 0 m (m.modify i f) := awards_modify i fun c => (hf c).2.1
  have hquiet := (hno.granted_eq_nil_iff h.heap).mpr rfl
  exact ⟨h.modify hheap,iff_of_true (law_of_quiet (h.modify hheap) hquiet) hsafe⟩

/-- Handing over after a change of one call that leaves its ticket's mark alone. -/
theorem awards_modify_handOver {i : ℕ} {f : Call P → Call P} (hm : Heap (m.modify i f))
    (hf : ∀ c, (f c).awarded = c.awarded) : Awards 1 m (m.modify i f).handOver := by
  have hfirst : Awards 0 m (m.modify i f) := awards_modify i hf
  have hall := hfirst.trans (awards_handOver hm)
  rwa [Nat.zero_add] at hall

theorem cancelWait_law {i : ℕ} {c : Call P} (h : Busy m) (hc : m.calls[i]? = some c) :
    Busy (m.cancelWait i c) ∧
      (Law m (m.cancelWait i c) ↔ (!(overfull m && m.awardedAt i)) = true) := by
  have hmark : m.awardedAt i = c.awarded := by simp [Manager.awardedAt,hc]
  rw [hmark]
  unfold Manager.cancelWait
  split
  · rename_i ha
    have hheap : Heap (m.modify i Call.raised) :=
      h.heap.modify fun c ha hc hr => ⟨rfl,ha,hc,hr⟩
    have hbusy := (h.modify hheap).handOver
    have hone := awards_modify_handOver hheap fun _ => rfl
    refine ⟨hbusy,?_⟩
    rw [hone.law_iff h hbusy]
    simp [ha]
  · rename_i ha
    have hbusy : Busy { m.modify i Call.cancel with
        waiters := m.waiters.keep fun e => decide ((ofLex e).2 ≠ i) } :=
      ⟨h.heap.remove,fun hfree => by simp [h.full hfree]⟩
    refine ⟨hbusy,iff_of_true (law_of_quiet hbusy (granted_of_same fun j => ?_)) (by simp [ha])⟩
    have hno : Awards 0 m (m.modify i Call.cancel) := awards_modify i fun _ => rfl
    have hsame : (m.modify i Call.cancel).awardedAt j = m.awardedAt j := by simp [hno.awarded]
    exact hsame

theorem release_law (h : Busy m) (i : ℕ) : Busy (m.release i) ∧ Law m (m.release i) := by
  have hheap : Heap (m.modify i Call.finish) :=
    h.heap.modify fun c ha hc hr => ⟨rfl,ha,hc,hr⟩
  by_cases hover : m.inUse > m.capacity <;>
    simp only [Manager.release,modify_inUse,modify_capacity,hover,if_true,if_false]
  · -- a retired slot leaves at least as many in use as the capacity allows
    have hbusy : Busy { m.modify i Call.finish with inUse := m.inUse - 1 } :=
      ⟨⟨hheap.nodup,hheap.queued⟩,fun hfree => by simp only [modify_capacity] at hfree; omega⟩
    have hno : Awards 0 m (m.modify i Call.finish) := awards_modify i fun _ => rfl
    have hq : granted m { m.modify i Call.finish with inUse := m.inUse - 1 } = [] :=
      (hno.granted_eq_nil_iff h.heap).mpr rfl
    exact ⟨hbusy,law_of_quiet hbusy hq⟩
  · have hbusy := (h.modify hheap).handOver
    have hone := awards_modify_handOver hheap fun _ => rfl
    refine ⟨hbusy,(hone.law_iff h hbusy).mpr fun ho => ?_⟩
    exact absurd ((overfull_iff h.heap).mp ho).1 hover

theorem setCapacity_law (h : Busy m) (capacity : Option ℤ) :
    Busy (m.setCapacity capacity) ∧ Law m (m.setCapacity capacity) := by
  have hheap : Heap { m with capacity := normalizeAgentProcessLimit capacity } :=
    ⟨h.heap.nodup,h.heap.queued⟩
  have hbusy : Busy (m.setCapacity capacity) := busy_fill hheap (by simp only; omega)
  have hawards := awards_fill hheap (normalizeAgentProcessLimit capacity - m.inUse)
  refine ⟨hbusy,hawards.grantsLeast hheap,hbusy.conserving,fun hover => ?_⟩
  have hcap : (m.setCapacity capacity).capacity = normalizeAgentProcessLimit capacity :=
    hawards.capacity
  have hzero : normalizeAgentProcessLimit capacity - m.inUse = 0 := by omega
  refine (hawards.granted_eq_nil_iff hheap).mpr ?_
  rw [hzero]
  rfl

/-- One step: the heap and the work conservation hold on, and the law is kept exactly under
the condition. -/
theorem step_law {a : Act P} (h : Busy m) (hs : step m a = some m') :
    Busy m' ∧ (Law m m' ↔ shrinkSafe m a = true) := by
  cases a with
  | acquire p l o =>
    simp only [step] at hs
    split at hs <;> cases hs
    have hq : granted m (m.acquire p l o) = [] := granted_of_same fun i => awardedAt_acquire i
    exact ⟨h.acquire,iff_of_true (law_of_quiet h.acquire hq) rfl⟩
  | waitStarted i raises =>
    obtain ⟨c,-,rfl⟩ := Option.map_eq_some_iff.mp hs
    exact modify_law h (fun _ => ⟨rfl,rfl,rfl⟩) rfl
  | interrupted i =>
    obtain ⟨c,hrun,rfl⟩ := Option.map_eq_some_iff.mp hs
    exact cancelWait_law h (running_eq_some hrun).1
  | cancelEvent i =>
    obtain ⟨c,hrun,rfl⟩ := Option.map_eq_some_iff.mp hs
    exact cancelWait_law h (running_eq_some hrun).1
  | wake i raises =>
    obtain ⟨c,-,rfl⟩ := Option.map_eq_some_iff.mp hs
    unfold Manager.checkWait
    split
    · exact modify_law h (fun _ => ⟨rfl,rfl,rfl⟩) rfl
    · split
      · exact modify_law h (fun _ => ⟨rfl,rfl,rfl⟩) rfl
      · exact ⟨h,iff_of_true (law_of_quiet h (granted_of_same fun _ => rfl)) rfl⟩
  | release i =>
    obtain ⟨c,-,rfl⟩ := Option.map_eq_some_iff.mp hs
    obtain ⟨hb,hl⟩ := release_law h i
    exact ⟨hb,iff_of_true hl rfl⟩
  | bindPid i pid =>
    obtain ⟨c,-,rfl⟩ := Option.map_eq_some_iff.mp hs
    exact modify_law h (fun _ => ⟨rfl,rfl,rfl⟩) rfl
  | setCapacity capacity =>
    cases hs
    obtain ⟨hb,hl⟩ := setCapacity_law h capacity
    exact ⟨hb,iff_of_true hl rfl⟩
  | forceReleaseOrphaned alive age =>
    cases hs
    have hbusy := h.forceRelease_all (m.orphans alive age)
    have hawards := awards_forceRelease_all h.heap (m.orphans alive age)
    refine ⟨hbusy,?_⟩
    rw [Manager.forceReleaseOrphaned,hawards.law_iff h hbusy]
    simp only [shrinkSafe,List.length_eq_zero_iff]
    cases overfull m <;> simp
  | closeLoop loop =>
    cases hs
    have hb : Busy { m with closed := loop :: m.closed } := ⟨⟨h.heap.nodup,h.heap.queued⟩,h.full⟩
    exact ⟨hb,iff_of_true (law_of_quiet hb (granted_of_same fun _ => rfl)) rfl⟩
  | tick d =>
    cases hs
    have hb : Busy { m with now := m.now + d } := ⟨⟨h.heap.nodup,h.heap.queued⟩,h.full⟩
    exact ⟨hb,iff_of_true (law_of_quiet hb (granted_of_same fun _ => rfl)) rfl⟩

theorem busy_init (capacity : ℤ) : Busy (init capacity : Manager P) :=
  ⟨⟨.nil,by simp [init]⟩,fun _ => rfl⟩

/-- In every run, all steps keep the scheduling law exactly if each of them meets the
condition. -/
theorem law_iff_shrink_safe {capacity : ℤ} {tr : List (Event (Manager P) (Act P))}
    (h : Run step (init capacity) tr m) :
    Along (fun _ e => Law e.pre e.post) tr ↔
      Along (fun _ e => shrinkSafe e.pre e.act = true) tr :=
  h.along_congr (J := fun _ m => Busy m) (busy_init capacity)
    (fun _ _ _ _ hj hs => (step_law hj hs).1) (fun _ _ _ _ hj hs => (step_law hj hs).2)

/-- A shrink from two slots to one, after which one lease is retired before the next grant. -/
theorem shrink_before_grant : ∃ tr m, Run step (init 2 : Manager ℕ) tr m ∧
    m.inUse = 1 ∧ m.calls.map Call.awarded = [false,false,true] ∧
    Along (fun _ e => Law e.pre e.post) tr := by
  obtain ⟨tr,m,h,hp⟩ := exists_run_of_replay step (init 2 : Manager ℕ)
    [.acquire 6 0 false,.acquire 6 0 false,.acquire 5 0 false,.setCapacity (some 1),
      .release 0,.release 1]
    (p := fun tr m => decide (Along (fun _ e => shrinkSafe e.pre e.act = true) tr) &&
      decide (m.inUse = 1) && decide (m.calls.map Call.awarded = [false,false,true])) (by decide)
  simp only [Bool.and_eq_true,decide_eq_true_eq] at hp
  exact ⟨tr,m,h,hp.1.2,hp.2,(law_iff_shrink_safe h).mpr hp.1.1⟩

/-- A ticket is awarded, the capacity shrinks to one, and the awarded call is cancelled: its
slot goes to the next waiter although two slots are in use. -/
theorem cancel_grants_over_capacity : ∃ tr m, Run step (init 2 : Manager ℕ) tr m ∧
    m.capacity = 1 ∧ m.inUse = 2 ∧ m.calls.map Call.awarded = [false,false,true,true] ∧
    ¬ Along (fun _ e => Law e.pre e.post) tr := by
  obtain ⟨tr,m,h,hp⟩ := exists_run_of_replay step (init 2 : Manager ℕ)
    [.acquire 6 0 false,.acquire 6 0 false,.acquire 5 0 false,.acquire 5 0 false,
      .release 0,.setCapacity (some 1),.interrupted 2]
    (p := fun tr m => decide (m.capacity = 1) && decide (m.inUse = 2) &&
      decide (m.calls.map Call.awarded = [false,false,true,true]) &&
      !decide (Along (fun _ e => Law e.pre e.post) tr)) (by decide)
  simp only [Bool.and_eq_true,Bool.not_eq_true',decide_eq_true_eq,decide_eq_false_iff_not] at hp
  obtain ⟨⟨⟨hc,hi⟩,ha⟩,hnot⟩ := hp
  exact ⟨tr,m,h,hc,hi,ha,hnot⟩

end AgentSlots
end EntryAnalyse
