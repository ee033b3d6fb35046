import EntryAnalyse.AgentSlots

/-! Slot accounting. Every exit of a call adjusts `_in_use` exactly once, by a hand-over or by
a decrement, so the counter is the number of leases held plus the number of awarded tickets
under way. Three things break it: a callback that raises, the release of a lease that was
released by force, and the closing of a loop under a waiting call. -/
namespace EntryAnalyse
namespace AgentSlots

open Runs

/-- Changing one entry of a list moves the count by that entry's share. -/
theorem countP_modify {α : Type} (p : α → Bool) (f : α → α) {l : List α} {i : ℕ} {c : α}
    (h : l[i]? = some c) :
    (l.modify i f).countP p + (p c).toNat = l.countP p + (p (f c)).toNat := by
  induction l generalizing i with
  | nil => simp at h
  | cons d l ih =>
    cases i with
    | zero =>
      obtain rfl : d = c := by simpa using h
      cases hd : p d <;> cases hf : p (f d) <;> simp [hd,hf]
    | succ i =>
      have htail := ih (by simpa using h)
      simp only [List.modify_succ_cons,List.countP_cons]
      omega

section Calls

variable {P : Type}

/-- The call occupies a slot. -/
def Call.occupies (c : Call P) : Bool := c.held || c.pending

theorem Call.countP_occupies (l : List (Call P)) :
    l.countP Call.occupies = l.countP Call.held + l.countP Call.pending := by
  induction l with
  | nil => rfl
  | cons c l ih =>
    have hdisjoint : c.held = true → c.pending = false := by
      simp only [Call.held,Call.pending,Call.acquiring,Bool.and_eq_true,decide_eq_true_eq]
      rintro ⟨hp,-⟩
      simp [hp]
    cases hh : c.held with
    | true => simp [Call.occupies,hh,hdisjoint hh,ih]; omega
    | false => cases hp : c.pending <;> simp [Call.occupies,hh,hp,ih]; omega

/-- What holds of every call: only a lease in the caller's hands is registered, and a call
that is still acquiring can go on. -/
structure CallOk (closed : List ℕ) (c : Call P) : Prop where
  registered : c.registered = true → c.phase = .holding
  loopOpen : c.acquiring = true → c.loop ∉ closed ∧ c.cancelled = false

def CallsOk (closed : List ℕ) (calls : List (Call P)) : Prop :=
  ∀ (i : ℕ) c, calls[i]? = some c → CallOk closed c

theorem CallsOk.modify {calls : List (Call P)} {closed : List ℕ} {i : ℕ} {f : Call P → Call P}
    (h : CallsOk closed calls) (hf : ∀ c, calls[i]? = some c → CallOk closed (f c)) :
    CallsOk closed (calls.modify i f) := by
  intro j c hj
  by_cases hij : i = j
  · subst hij
    obtain ⟨d,hd,rfl⟩ : ∃ d, calls[i]? = some d ∧ f d = c := by simpa using hj
    exact hf d hd
  · rw [List.getElem?_modify_ne _ _ hij] at hj
    exact h j c hj

theorem CallsOk.append {calls : List (Call P)} {closed : List ℕ} {d : Call P}
    (h : CallsOk closed calls) (hd : CallOk closed d) : CallsOk closed (calls ++ [d]) := by
  intro j c hj
  rcases List.mem_append.mp (List.mem_of_getElem? hj) with hc | hc
  · obtain ⟨i,hi⟩ := List.mem_iff_getElem?.mp hc
    exact h i c hi
  · rw [List.mem_singleton.mp hc]
    exact hd

/-- A call that is over neither waits nor holds. -/
theorem callOk_over {closed : List ℕ} {c : Call P} (hp : c.phase = .over)
    (hr : c.registered = false) : CallOk closed c :=
  ⟨fun h => by simp [hr] at h,fun h => by simp [Call.acquiring,hp] at h⟩

theorem occupies_over {c : Call P} (hp : c.phase = .over) : c.occupies = false := by
  simp [Call.occupies,Call.held,Call.pending,Call.acquiring,hp]

end Calls

variable {P : Type} [LinearOrder P]

/-- `_in_use` counts the leases held and the awarded tickets under way, and each of the latter
can still be picked up. -/
def Accounted (m : Manager P) : Prop :=
  m.inUse = m.calls.countP Call.held + m.calls.countP Call.pending ∧
    ∀ c ∈ m.calls, c.pending = true → c.loop ∉ m.closed

instance (m : Manager P) : Decidable (Accounted m) := inferInstanceAs (Decidable (_ ∧ _))

/-- The condition on a step: the callbacks for the start and the successful end of a wait do
not raise, no lease is released after a forced release, and no loop is closed while it runs a
call. -/
def slotSafe (m : Manager P) : Act P → Bool
  | .waitStarted _ raises => !raises
  | .wake i raises => !(raises && (m.calls[i]?).any fun c => c.onEvent && c.awarded)
  | .release i => (m.calls[i]?).any (·.registered)
  | .closeLoop loop => m.calls.all fun c => !(c.acquiring && decide (c.loop = loop))
  | _ => true

/-- The number of slots in use according to the calls. -/
def occupied (m : Manager P) : ℕ := m.calls.countP Call.occupies

theorem occupied_modify {m : Manager P} {i : ℕ} {c : Call P} (f : Call P → Call P)
    (h : m.calls[i]? = some c) :
    occupied (m.modify i f) + c.occupies.toNat = occupied m + (f c).occupies.toNat :=
  countP_modify _ f h

/-- The invariant apart from the counter. -/
structure Sound (m : Manager P) : Prop where
  heap : HeapOk (fun c => c.acquiring = true) m
  calls : CallsOk m.closed m.calls

variable {m m' : Manager P}

/-- A call that is not acquiring has no ticket in the heap. -/
theorem Sound.outside {i : ℕ} {c : Call P} (h : Sound m) (hc : m.calls[i]? = some c)
    (ha : c.acquiring = false) : ∀ e ∈ m.waiters.items, (ofLex e).2 ≠ i := by
  rintro e he rfl
  obtain ⟨d,hd,-,-,-,hr⟩ := h.heap.queued e he
  rw [hc] at hd
  cases hd
  rw [ha] at hr
  cases hr

/-- An award turns a waiting ticket into one slot more in use. -/
theorem Sound.award {e : P ×ₗ ℕ} {rest : HeapQueue (P ×ₗ ℕ)} (h : Sound m)
    (hcons : m.waiters.items = e :: rest.items) :
    Sound ({ m with waiters := rest }.modify (ofLex e).2 (Call.award m.closed)) ∧
      occupied ({ m with waiters := rest }.modify (ofLex e).2 (Call.award m.closed)) =
        occupied m + 1 := by
  obtain ⟨c,hc,-,ha,hcan,hacq⟩ := h.heap.queued e (by simp [hcons])
  have hok := h.calls _ c hc
  obtain ⟨hopen,-⟩ := hok.loopOpen hacq
  refine ⟨⟨h.heap.award hcons,h.calls.modify ?_⟩,?_⟩
  · intro d hd
    rw [hc] at hd
    cases hd
    exact ⟨hok.registered,fun _ => ⟨hopen,by simp [Call.award,hcan,hopen]⟩⟩
  · have hcount := countP_modify Call.occupies (Call.award m.closed) hc
    have hheld : c.held = false := by
      simp only [Call.acquiring,decide_eq_true_eq] at hacq
      rcases hacq with hp | hp <;> simp [Call.held,hp]
    have hbefore : c.occupies = false := by simp [Call.occupies,Call.pending,ha,hheld]
    have hafter : (Call.award m.closed c).occupies = true := by
      simp [Call.occupies,Call.pending,hacq]
    rw [hbefore,hafter] at hcount
    simpa [occupied] using hcount

/-- The invariant with `k` slots counted beyond those occupied, which a step has in hand. -/
structure Owing (k : ℕ) (m : Manager P) : Prop where
  sound : Sound m
  balance : m.inUse = occupied m + k

/-- Handing over, or giving back, settles one slot in hand. -/
theorem Owing.handOver (h : Owing 1 m) : Owing 0 m.handOver := by
  rcases h.sound.heap.award_cases with ⟨-,ha⟩ | ⟨e,rest,hcons,ha⟩ <;>
    simp only [Manager.handOver,ha]
  · refine ⟨⟨⟨h.sound.heap.nodup,h.sound.heap.queued⟩,h.sound.calls⟩,?_⟩
    have hb := h.balance
    simp only [occupied] at hb ⊢
    omega
  · obtain ⟨hs,hocc⟩ := h.sound.award hcons
    exact ⟨hs,by rw [hocc]; exact h.balance⟩

theorem Owing.fill (h : Owing 0 m) (n : ℕ) : Owing 0 (Manager.fill n m) := by
  induction n generalizing m with
  | zero => exact h
  | succ n ih =>
    rcases h.sound.heap.award_cases with ⟨-,ha⟩ | ⟨e,rest,hcons,ha⟩ <;> simp only [Manager.fill,ha]
    · exact h
    · obtain ⟨hs,hocc⟩ := h.sound.award hcons
      refine ih ⟨⟨⟨hs.heap.nodup,hs.heap.queued⟩,hs.calls⟩,?_⟩
      have hb := h.balance
      simp only [occupied,modify_inUse] at hb hocc ⊢
      omega

/-- Giving up the slot of one call leaves one slot in hand. -/
theorem Owing.giveUp {i : ℕ} {c : Call P} {f : Call P → Call P} (h : Owing 0 m)
    (hc : m.calls[i]? = some c) (hbefore : c.occupies = true) (hafter : (f c).occupies = false)
    (hheap : HeapOk (fun c => c.acquiring = true) (m.modify i f))
    (hok : CallOk m.closed (f c)) : Owing 1 (m.modify i f) := by
  refine ⟨⟨hheap,h.sound.calls.modify fun d hd => ?_⟩,?_⟩
  · rw [hc] at hd
    cases hd
    exact hok
  · have hcount := occupied_modify f hc
    have hb := h.balance
    rw [hbefore,hafter] at hcount
    simp only [Bool.toNat_true,Bool.toNat_false,modify_inUse] at hcount ⊢
    omega

/-- A change of one call that neither takes nor frees a slot. -/
theorem Owing.keep {i : ℕ} {c : Call P} {f : Call P → Call P} (h : Owing 0 m)
    (hc : m.calls[i]? = some c) (hsame : (f c).occupies = c.occupies)
    (hheap : HeapOk (fun c => c.acquiring = true) (m.modify i f))
    (hok : CallOk m.closed (f c)) : Owing 0 (m.modify i f) := by
  refine ⟨⟨hheap,h.sound.calls.modify fun d hd => ?_⟩,?_⟩
  · rw [hc] at hd
    cases hd
    exact hok
  · have hcount := occupied_modify f hc
    have hb := h.balance
    rw [hsame] at hcount
    simp only [modify_inUse]
    omega

theorem Owing.acquire {priority : P} {loop : ℕ} {onEvent : Bool} (h : Owing 0 m)
    (hl : loop ∉ m.closed) : Owing 0 (m.acquire priority loop onEvent) := by
  have hb := h.balance
  have hheap := h.sound.heap.acquire priority loop onEvent
    fun ph hp => by simpa [Call.acquiring] using hp
  by_cases hcap : m.inUse < m.capacity <;>
    simp only [Manager.acquire,hcap,if_true,if_false] at hheap ⊢
  · refine ⟨⟨hheap,h.sound.calls.append ⟨fun _ => rfl,fun ha => ?_⟩⟩,?_⟩
    · simp [Call.acquiring] at ha
    · simp [occupied,Call.occupies,Call.held] at hb ⊢
      omega
  · refine ⟨⟨hheap,h.sound.calls.append ⟨fun hr => ?_,fun _ => ⟨hl,rfl⟩⟩⟩,?_⟩
    · cases hr
    · simpa [occupied,Call.occupies,Call.held,Call.pending] using hb

theorem Owing.cancelWait {i : ℕ} {c : Call P} (h : Owing 0 m)
    (hc : m.calls[i]? = some c) (hp : c.phase = .waiting) : Owing 0 (m.cancelWait i c) := by
  have hreg : c.registered = false := by
    cases hr : c.registered with
    | false => rfl
    | true => rw [(h.sound.calls i c hc).registered hr] at hp; cases hp
  unfold Manager.cancelWait
  split
  · rename_i ha
    refine Owing.handOver (h.giveUp hc ?_ (occupies_over rfl) ?_ (callOk_over rfl hreg))
    · simp [Call.occupies,Call.pending,Call.acquiring,hp,ha]
    · exact h.sound.heap.modify_outside (h.sound.heap.awarded_outside hc ha)
  · rename_i ha
    refine ⟨⟨h.sound.heap.remove,h.sound.calls.modify fun d hd => ?_⟩,?_⟩
    · rw [hc] at hd
      cases hd
      exact callOk_over rfl hreg
    · have hcount := occupied_modify Call.cancel hc
      have hbefore : c.occupies = false := by
        simp [Call.occupies,Call.held,Call.pending,hp,ha]
      rw [hbefore,occupies_over rfl] at hcount
      have hb := h.balance
      simp only [occupied,modify_calls,modify_inUse] at hcount hb ⊢
      omega

theorem Owing.checkWait {i : ℕ} {c : Call P} {raises : Bool} (h : Owing 0 m)
    (hc : m.calls[i]? = some c) (hp : c.phase = .waiting)
    (hr : slotSafe m (.wake i raises) = true) : Owing 0 (m.checkWait i c raises) := by
  have hacq : c.acquiring = true := by simp [Call.acquiring,hp]
  have hcan := ((h.sound.calls i c hc).loopOpen hacq).2
  unfold Manager.checkWait
  simp only [hcan,Bool.false_eq_true,if_false]
  split
  · rename_i ha
    have hquiet : (c.onEvent && raises) = false := by
      cases raises with
      | false => simp
      | true => simpa [slotSafe,hc,ha] using hr
    refine h.keep hc ?_ ?_ ⟨fun _ => by simp [hquiet],fun hx => ?_⟩
    · simp [Call.occupies,Call.held,Call.pending,hacq,ha,hquiet]
    · exact h.sound.heap.modify_outside (h.sound.heap.awarded_outside hc ha)
    · simp [Call.acquiring,hquiet] at hx
  · exact h

theorem Owing.release {i : ℕ} {c : Call P} (h : Owing 0 m) (hc : m.calls[i]? = some c)
    (hp : c.phase = .holding) (hr : c.registered = true) : Owing 0 (m.release i) := by
  have hacq : c.acquiring = false := by simp [Call.acquiring,hp]
  have hone := h.giveUp hc (f := Call.finish)
    (by simp [Call.occupies,Call.held,hp,hr]) (occupies_over rfl)
    (h.sound.heap.modify_outside (h.sound.outside hc hacq)) (callOk_over rfl rfl)
  unfold Manager.release
  simp only
  split
  · refine ⟨⟨⟨hone.sound.heap.nodup,hone.sound.heap.queued⟩,hone.sound.calls⟩,?_⟩
    have hb := hone.balance
    simp only [occupied] at hb ⊢
    omega
  · exact hone.handOver

/-- The call's lease is in `_leases`. -/
def registeredAt (m : Manager P) (i : ℕ) : Bool := (m.calls[i]?).any (·.registered)

theorem registeredAt_handOver (h : HeapOk (fun c => c.acquiring = true) m) (i : ℕ) :
    registeredAt m.handOver i = registeredAt m i := by
  rcases h.award_cases with ⟨-,ha⟩ | ⟨e,rest,hcons,ha⟩ <;> simp only [Manager.handOver,ha]
  · rfl
  · simp only [registeredAt,modify_calls,List.getElem?_modify]
    cases m.calls[i]? with
    | none => rfl
    | some c => split <;> rfl

/-- A registered lease is in the caller's hands, so a forced release frees its slot. -/
theorem Owing.forceRelease {i : ℕ} (h : Owing 0 m) (hr : registeredAt m i = true) :
    Owing 0 (m.forceRelease i) := by
  cases hc : m.calls[i]? with
  | none => simp [registeredAt,hc] at hr
  | some c =>
    have hreg : c.registered = true := by simpa [registeredAt,hc] using hr
    have hp := (h.sound.calls i c hc).registered hreg
    have hacq : c.acquiring = false := by simp [Call.acquiring,hp]
    refine Owing.handOver (h.giveUp hc ?_ ?_ ?_ ⟨fun hx => ?_,fun hx => ?_⟩)
    · simp [Call.occupies,Call.held,hp,hreg]
    · simp [Call.occupies,Call.held,Call.pending,Call.acquiring,Call.unregister,hp]
    · exact h.sound.heap.modify_outside (h.sound.outside hc hacq)
    · cases hx
    · simp [Call.acquiring,Call.unregister,hp] at hx

theorem Owing.forceRelease_all {l : List ℕ} (h : Owing 0 m) (hnd : l.Nodup)
    (hr : ∀ i ∈ l, registeredAt m i = true) : Owing 0 (l.foldl Manager.forceRelease m) := by
  induction l generalizing m with
  | nil => exact h
  | cons i l ih =>
    obtain ⟨hi,hnd⟩ := List.nodup_cons.mp hnd
    have hone := h.forceRelease (hr i (by simp))
    refine ih hone hnd fun j hj => ?_
    have hne : i ≠ j := fun hij => hi (hij ▸ hj)
    have hheap : HeapOk (fun c => c.acquiring = true) (m.modify i Call.unregister) :=
      h.sound.heap.modify fun c ha hc hacq => ⟨rfl,ha,hc,hacq⟩
    rw [Manager.forceRelease,registeredAt_handOver hheap]
    simpa [registeredAt,List.getElem?_modify_ne _ _ hne] using hr j (by simp [hj])

theorem registered_of_orphan {alive : ℕ → Bool} {age : ℤ} {i : ℕ}
    (h : i ∈ m.orphans alive age) : registeredAt m i = true := by
  have hany := (List.mem_filter.mp h).2
  cases hc : m.calls[i]? with
  | none => simp [hc] at hany
  | some c =>
    simp only [hc,Option.any_some,Call.orphaned,Bool.and_eq_true] at hany
    simpa [registeredAt,hc] using hany.1

/-- One step of the manager. -/
theorem Owing.step {a : Act P} (hs : AgentSlots.step m a = some m') (h : Owing 0 m)
    (hsafe : slotSafe m a = true) : Owing 0 m' := by
  cases a with
  | acquire p l o =>
    simp only [AgentSlots.step] at hs
    split at hs <;> cases hs
    rename_i hl
    exact h.acquire hl
  | waitStarted i raises =>
    obtain ⟨c,hrun,rfl⟩ := Option.map_eq_some_iff.mp hs
    obtain ⟨hc,hp,hl⟩ := running_eq_some hrun
    obtain rfl : raises = false := by simpa [slotSafe] using hsafe
    have hok := h.sound.calls i c hc
    have hacq : c.acquiring = true := by simp [Call.acquiring,hp]
    refine h.keep hc ?_ ?_ ⟨fun hr => ?_,fun _ => hok.loopOpen hacq⟩
    · simp [Call.occupies,Call.held,Call.pending,Call.acquiring,hp]
    · exact h.sound.heap.modify fun d ha hcan _ => ⟨rfl,ha,hcan,by simp [Call.acquiring]⟩
    · rw [hok.registered hr] at hp
      cases hp
  | interrupted i =>
    obtain ⟨c,hrun,rfl⟩ := Option.map_eq_some_iff.mp hs
    obtain ⟨hc,hp,-⟩ := running_eq_some hrun
    exact h.cancelWait hc hp
  | cancelEvent i =>
    obtain ⟨c,hrun,rfl⟩ := Option.map_eq_some_iff.mp hs
    obtain ⟨hc,hp,-⟩ := running_eq_some hrun
    exact h.cancelWait hc hp
  | wake i raises =>
    obtain ⟨c,hrun,rfl⟩ := Option.map_eq_some_iff.mp hs
    obtain ⟨hc,hp,-⟩ := running_eq_some hrun
    exact h.checkWait hc hp hsafe
  | release i =>
    obtain ⟨c,hrun,rfl⟩ := Option.map_eq_some_iff.mp hs
    obtain ⟨hc,hp⟩ := Option.filter_eq_some_iff.mp hrun
    exact h.release hc (by simpa using hp) (by simpa [slotSafe,hc] using hsafe)
  | bindPid i pid =>
    obtain ⟨c,hrun,rfl⟩ := Option.map_eq_some_iff.mp hs
    obtain ⟨hc,hp⟩ := Option.filter_eq_some_iff.mp hrun
    have hok := h.sound.calls i c hc
    exact h.keep hc rfl (h.sound.heap.modify fun d ha hcan hr => ⟨rfl,ha,hcan,hr⟩)
      ⟨hok.registered,hok.loopOpen⟩
  | setCapacity capacity =>
    cases hs
    have hcap : Owing 0 { m with capacity := normalizeAgentProcessLimit capacity } :=
      ⟨⟨⟨h.sound.heap.nodup,h.sound.heap.queued⟩,h.sound.calls⟩,h.balance⟩
    exact hcap.fill _
  | forceReleaseOrphaned alive age =>
    cases hs
    exact h.forceRelease_all (List.nodup_range.filter _) fun i hi => registered_of_orphan hi
  | closeLoop loop =>
    cases hs
    refine ⟨⟨⟨h.sound.heap.nodup,h.sound.heap.queued⟩,fun i c hc => ?_⟩,h.balance⟩
    have hok := h.sound.calls i c hc
    refine ⟨hok.registered,fun hacq => ?_⟩
    have hother : c.loop ≠ loop := by
      have hall := List.all_eq_true.mp hsafe c (List.mem_of_getElem? hc)
      simpa [hacq] using hall
    obtain ⟨hopen,hcan⟩ := hok.loopOpen hacq
    exact ⟨by simp [hopen,hother],hcan⟩
  | tick d =>
    cases hs
    exact ⟨⟨⟨h.sound.heap.nodup,h.sound.heap.queued⟩,h.sound.calls⟩,h.balance⟩

theorem Owing.accounted (h : Owing 0 m) : Accounted m := by
  refine ⟨by simpa [occupied,Call.countP_occupies] using h.balance,fun c hc hpend => ?_⟩
  obtain ⟨i,hi⟩ := List.mem_iff_getElem?.mp hc
  simp only [Call.pending,Bool.and_eq_true] at hpend
  exact ((h.sound.calls i c hi).loopOpen hpend.1).1

theorem owing_init (capacity : ℤ) : Owing 0 (init capacity : Manager P) :=
  ⟨⟨⟨.nil,by simp [init]⟩,by simp [CallsOk,init]⟩,rfl⟩

/-- In every run whose steps all meet the condition, the slots are accounted for in the state
reached. -/
theorem slots_accounted {capacity : ℤ} {tr : List (Event (Manager P) (Act P))}
    (h : Run AgentSlots.step (init capacity) tr m)
    (hc : Along (fun _ e => slotSafe e.pre e.act = true) tr) : Accounted m := by
  have hinv := h.invariant hc (J := fun _ m => Owing 0 m) (owing_init capacity)
    (fun tr t a v hj hp hs => hj.step hs hp)
  exact hinv.accounted

/-- A slot handed from one call to the next. -/
theorem handed_over_accounted : ∃ tr m, Run AgentSlots.step (init 1 : Manager ℕ) tr m ∧
    m.inUse = 1 ∧ m.calls.map Call.held = [false,true] ∧ Accounted m := by
  obtain ⟨tr,m,h,hp⟩ := exists_run_of_replay AgentSlots.step (init 1 : Manager ℕ)
    [.acquire 6 0 false,.acquire 5 0 true,.waitStarted 1 false,.release 0,.wake 1 false]
    (p := fun tr m => decide (Along (fun _ e => slotSafe e.pre e.act = true) tr) &&
      decide (m.inUse = 1) && decide (m.calls.map Call.held = [false,true])) (by decide)
  simp only [Bool.and_eq_true,decide_eq_true_eq] at hp
  exact ⟨tr,m,h,hp.1.2,hp.2,slots_accounted h hp.1.1⟩

/-- A lease without a pid is released by force after more than an hour; when its holder
releases it as well, the slot of the next call is freed under it. -/
theorem forced_release_freed_twice : ∃ tr m, Run AgentSlots.step (init 1 : Manager ℕ) tr m ∧
    m.inUse = 0 ∧ m.calls.countP Call.held = 1 ∧ ¬ Accounted m := by
  obtain ⟨tr,m,h,hp⟩ := exists_run_of_replay AgentSlots.step (init 1 : Manager ℕ)
    [.acquire 6 0 false,.tick 3700,.forceReleaseOrphaned (fun _ => true) 3600,
      .acquire 6 0 false,.release 0]
    (p := fun _ m => decide (m.inUse = 0) && decide (m.calls.countP Call.held = 1) &&
      !decide (Accounted m)) (by decide)
  simp only [Bool.and_eq_true,Bool.not_eq_true',decide_eq_true_eq,decide_eq_false_iff_not] at hp
  exact ⟨tr,m,h,hp.1.1,hp.1.2,hp.2⟩

end AgentSlots
end EntryAnalyse
