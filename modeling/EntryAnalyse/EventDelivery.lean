import Mathlib.Data.List.TakeWhile
import EntryAnalyse.EventStreams

/-! What the client of a stream gets: every event that was handed out before the result was set, but
for those a full queue refused and those a loop passed over because another stream had gone. -/
namespace EntryAnalyse
namespace EventStreams

open Runs IndexLoop

section Put

variable (m : Stream) (x : Item)

@[simp] theorem putNowait_phase : (m.putNowait x).phase = m.phase := by
  simp only [Stream.putNowait]; split <;> rfl

@[simp] theorem putNowait_replayed : (m.putNowait x).replayed = m.replayed := by
  simp only [Stream.putNowait]; split <;> rfl

@[simp] theorem putNowait_got : (m.putNowait x).got = m.got := by
  simp only [Stream.putNowait]; split <;> rfl

theorem putNowait_queue : (m.putNowait x).queue =
    if m.queue.length < maxsize then m.queue ++ [x] else m.queue := by
  simp only [Stream.putNowait]; split <;> rfl

theorem putNowait_offered : (m.putNowait x).offered =
    if m.queue.length < maxsize then m.offered ++ [x] else m.offered := by
  simp only [Stream.offered,putNowait_got,putNowait_queue]
  split <;> simp

variable {m x}

theorem mem_offered_putNowait {y : Item} (h : y ∈ (m.putNowait x).offered) :
    y ∈ m.offered ∨ y = x := by
  rw [putNowait_offered] at h
  split at h
  · simpa using h
  · exact .inl h

end Put

/-- What holds of stream `n` between any two steps. -/
structure Fits (s : Sys) (n : ℕ) (m : Stream) : Prop where
  fresh : s.opened ≤ n → m = {}
  registered : n < s.opened → m.phase ≠ .ended → m.phase ≠ .closed → n ∈ s.queues
  bounded : m.replayed ≤ s.emitted
  waiting : s.result = false → Item.done ∉ m.offered
  told : .done ∈ m.got →
    (m.phase = .closing ∨ m.phase = .ended) ∧ ∃ l, m.got = l ++ [.done] ∧ Item.done ∉ l

/-- What holds of the entry. -/
structure Shape (s : Sys) : Prop where
  nodup : s.queues.Nodup
  opened : ∀ n ∈ s.queues, n < s.opened
  place : ∀ j, s.emitted ≤ j → s.handing j = none
  ending : s.ending ≠ none → s.result = true
  streams : ∀ n, Fits s n (s.streams n)

theorem fits_fresh {s : Sys} {n : ℕ} (h : n < s.opened → n ∈ s.queues) : Fits s n {} where
  fresh _ := rfl
  registered hn _ _ := h hn
  bounded := by simp
  waiting := by simp [Stream.offered]
  told := by simp

theorem shape_init : Shape {} where
  nodup := by simp
  opened := by simp
  place := by simp
  ending := by simp
  streams _ := fits_fresh (by simp)

section Shape

variable {s v : Sys} {n : ℕ} {m : Stream}

theorem Shape.set (hs : Shape s) (hm : Fits s n m) : Shape (s.set n m) where
  nodup := hs.nodup
  opened := hs.opened
  place := hs.place
  ending := hs.ending
  streams := by
    have hall := (Function.forall_update_iff s.streams fun k m' => Fits s k m').mpr
      ⟨hm,fun k _ => hs.streams k⟩
    exact fun k => { hall k with }

/-- Taking the queue of a stream that is over. -/
theorem Shape.remove (hs : Shape s)
    (hn : (s.streams n).phase = .ended ∨ (s.streams n).phase = .closed) :
    Shape (s.remove n) where
  nodup := hs.nodup.erase n
  opened k hk := hs.opened k (List.mem_of_mem_erase hk)
  place := hs.place
  ending := hs.ending
  streams k := by
    refine { hs.streams k with registered := ?_ }
    intro hk hended hclosed
    have hne : k ≠ n := by
      rintro rfl
      rcases hn with hn | hn
      · exact hended hn
      · exact hclosed hn
    exact (List.mem_erase_of_ne hne).mpr ((hs.streams k).registered hk hended hclosed)

theorem Shape.lt_opened (hs : Shape s) {i : ℕ} (h : s.queues[i]? = some n) : n < s.opened :=
  hs.opened n (List.mem_of_getElem? h)

theorem Fits.put (h : Fits s n m) {x : Item} (hn : n < s.opened)
    (hx : x = .done → s.result = true) : Fits s n (m.putNowait x) where
  fresh hlt := by omega
  registered := by simpa using h.registered
  bounded := by simpa using h.bounded
  waiting hr hdone := by
    rcases mem_offered_putNowait hdone with hdone | hdone
    · exact h.waiting hr hdone
    · simp [hx hdone.symm] at hr
  told := by simpa using h.told

/-- Before its end, a stream has not told it. -/
theorem Fits.not_told (h : Fits s n m) (hc : m.phase ≠ .closing) (he : m.phase ≠ .ended) :
    Item.done ∉ m.got := by
  intro hdone
  rcases (h.told hdone).1 with hphase | hphase
  · exact hc hphase
  · exact he hphase

/-- An open stream only changes its phase. -/
theorem Fits.phase (h : Fits s n m) (hn : n < s.opened) (hq : n ∈ s.queues) {p : Phase}
    (hp : .done ∈ m.got → p = .closing ∨ p = .ended) : Fits s n { m with phase := p } where
  fresh hlt := by omega
  registered _ _ _ := hq
  bounded := h.bounded
  waiting := h.waiting
  told hdone := ⟨hp hdone,(h.told hdone).2⟩

theorem Fits.tell (h : Fits s n m) (hn : n < s.opened) (hq : n ∈ s.queues)
    (hdone : Item.done ∉ m.got) {p : Phase} (hp : p = .closing ∨ p = .ended) {queue : List Item}
    (hr : s.result = true) :
    Fits s n { m with phase := p, queue := queue, got := m.got ++ [.done] } where
  fresh hlt := by omega
  registered _ _ _ := hq
  bounded := h.bounded
  waiting hf := by simp [hr] at hf
  told _ := ⟨hp,m.got,rfl,hdone⟩

theorem Fits.take (h : Fits s n m) (hn : n < s.opened) (hlive : m.phase = .live) {j : ℕ}
    {queue : List Item} (hq : m.queue = .event j :: queue) :
    Fits s n { m with queue := queue, got := m.got ++ [.event j] } where
  fresh hlt := by omega
  registered := h.registered
  bounded := h.bounded
  waiting hr := by
    have := h.waiting hr
    simpa [Stream.offered,hq] using this
  told hdone := by
    have := h.not_told (by simp [hlive]) (by simp [hlive])
    simp [this] at hdone

theorem Shape.step {a : Act} (hs : Shape s) (h : Does s a v) : Shape v := by
  have open_mem {k : ℕ} (hk : k < s.opened) (he : (s.streams k).phase ≠ .ended)
      (hc : (s.streams k).phase ≠ .closed) : k ∈ s.queues := (hs.streams k).registered hk he hc
  cases h with
  | check h => exact { hs with streams := fun k => { hs.streams k with } }
  | emit h =>
    refine { hs with place := ?_, streams := fun k => { hs.streams k with bounded := ?_ } }
    · intro j hj
      simp only [Function.update_apply] at hj ⊢
      split
      · omega
      · exact hs.place j (by omega)
    · exact (hs.streams k).bounded.trans (Nat.le_succ _)
  | @put j i n h hn =>
    have hset := hs.set ((hs.streams n).put (hs.lt_opened hn) fun hx : Item.event j = .done => by simp at hx)
    refine { hset with place := ?_, streams := fun k => { hset.streams k with } }
    intro k hk
    have hne : k ≠ j := by
      rintro rfl
      simp [hs.place k hk] at h
    simpa [Function.update_of_ne hne] using hs.place k hk
  | @handed j i h hn =>
    refine { hs with place := ?_, streams := fun k => { hs.streams k with } }
    intro k hk
    simp only [Function.update_apply]
    split
    · rfl
    · exact hs.place k hk
  | finish he h =>
    exact { hs with
      ending := by simp
      streams := fun k => { hs.streams k with waiting := by simp } }
  | @putDone i n h hn =>
    have hr : s.result = true := hs.ending (by simp [h])
    have hset := hs.set ((hs.streams n).put (hs.lt_opened hn) fun _ : Item.done = .done => hr)
    exact { hset with ending := fun _ => hr, streams := fun k => { hset.streams k with } }
  | finished h hn => exact { hs with ending := by simp, streams := fun k => { hs.streams k with } }
  | forget he h => exact { hs with streams := fun k => { hs.streams k with } }
  | subscribe he h =>
    have hnew : s.opened ∉ s.queues := fun hmem => absurd (hs.opened _ hmem) (by omega)
    refine ⟨?_,?_,hs.place,hs.ending,fun k => ?_⟩
    · simpa [List.nodup_append,hs.nodup] using fun k hk => ne_of_mem_of_not_mem hk hnew
    · intro k hk
      rcases List.mem_append.mp hk with hk | hk
      · exact Nat.lt_succ_of_lt (hs.opened k hk)
      · simp_all
    · by_cases hk : k = s.opened
      · subst hk
        simpa using fits_fresh (by simp)
      · have := hs.streams k
        simp only [Function.update_of_ne hk]
        refine { this with fresh := fun hlt => this.fresh (Nat.le_of_succ_le hlt), registered := ?_ }
        intro hlt hended hclosed
        exact List.mem_append_left _ (this.registered
          (Nat.lt_of_le_of_ne (Nat.le_of_lt_succ hlt) hk) hended hclosed)
  | @replay n he hn h hlt =>
    refine hs.set { hs.streams n with fresh := fun _ => by omega, bounded := hlt }
  | @stop n he hn h hlt hr =>
    exact hs.set ((hs.streams n).tell hn (open_mem hn (by simp [h]) (by simp [h]))
      ((hs.streams n).not_told (by simp [h]) (by simp [h])) (.inr rfl) hr)
  | @goLive n he hn h hlt hr =>
    exact hs.set ((hs.streams n).phase hn (open_mem hn (by simp [h]) (by simp [h])) fun hdone =>
      absurd hdone ((hs.streams n).not_told (by simp [h]) (by simp [h])))
  | @take n j queue he hn h hq => exact hs.set ((hs.streams n).take hn h hq)
  | @takeDone n queue he hn h hq =>
    have hr : s.result = true := by
      by_contra hf
      exact (hs.streams n).waiting (by simpa using hf) (by simp [Stream.offered,hq])
    exact hs.set ((hs.streams n).tell hn (open_mem hn (by simp [h]) (by simp [h]))
      ((hs.streams n).not_told (by simp [h]) (by simp [h])) (.inl rfl) hr)
  | @close n he hn h =>
    refine (hs.set ((hs.streams n).phase hn (open_mem hn (by simp [h]) (by simp [h]))
      fun _ => .inr rfl)).remove ?_
    simp [Sys.set]
  | @leaveReplay n he hn h =>
    exact hs.set ((hs.streams n).phase hn (open_mem hn (by simp [h]) (by simp [h])) fun hdone =>
      absurd hdone ((hs.streams n).not_told (by simp [h]) (by simp [h])))
  | @leaveLive n he hn h =>
    refine (hs.set ((hs.streams n).phase hn (open_mem hn (by simp [h]) (by simp [h])) fun hdone =>
      absurd hdone ((hs.streams n).not_told (by simp [h]) (by simp [h])))).remove ?_
    simp [Sys.set]
  | @leaveClosing n he hn h =>
    refine (hs.set ((hs.streams n).phase hn (open_mem hn (by simp [h]) (by simp [h]))
      fun _ => .inr rfl)).remove ?_
    simp [Sys.set]

end Shape

/-! ### The steps seen from one stream and one event -/

/-- The loop of event `j` has still to come to stream `n`. -/
def Ahead (s : Sys) (n j : ℕ) : Prop := ∃ i, s.handing j = some i ∧ n ∈ s.queues.drop i

/-- The loop of event `j` comes to stream `n`. -/
def Visits (s : Sys) (a : Act) (n j : ℕ) : Prop :=
  a = .hand j ∧ ∃ i, s.handing j = some i ∧ s.queues[i]? = some n

/-- A step that costs stream `n` the event `j`: its queue is full, or the loop passes over it because
the queue of another stream is taken out in front of it. -/
inductive Drops (n j : ℕ) (e : Event Sys Act) : Prop
  | full (h : Visits e.pre e.act n j) (hq : maxsize ≤ (e.pre.streams n).queue.length)
  | skipped {i m : ℕ} (h : e.pre.handing j = some i) (hm : removed e.pre e.act = some m)
    (hskip : Skips e.pre.queues m i n)

theorem mem_drop_of_place {l : List ℕ} {i n : ℕ} (h : l[i]? = some n) : n ∈ l.drop i := by
  simp [drop_of_place h]

theorem Visits.ahead {s : Sys} {a : Act} {n j : ℕ} (h : Visits s a n j) : Ahead s n j := by
  obtain ⟨-,i,hi,hn⟩ := h
  exact ⟨i,hi,mem_drop_of_place hn⟩

theorem Drops.ahead {e : Event Sys Act} {n j : ℕ} (h : Drops n j e) : Ahead e.pre n j := by
  cases h with
  | full h _ => exact h.ahead
  | skipped h _ hskip => exact ⟨_,h,mem_drop_of_place hskip.2⟩

/-- What a step can make of stream `n`. -/
inductive Changes (s v : Sys) (a : Act) (n : ℕ) : Stream → Prop
  | same : Changes s v a n (s.streams n)
  | put {x : Item} (h : (x = .done ∧ a = .handDone) ∨ ∃ j, x = .event j ∧ Visits s a n j) :
    Changes s v a n ((s.streams n).putNowait x)
  | replay (h : (s.streams n).phase = .replaying) :
    Changes s v a n { s.streams n with replayed := (s.streams n).replayed + 1 }
  | stop (hphase : (s.streams n).phase = .replaying) (h : v.emitted ≤ (s.streams n).replayed) :
    Changes s v a n { s.streams n with phase := .ended, got := (s.streams n).got ++ [.done] }
  | goLive (h : v.emitted ≤ (s.streams n).replayed) (hr : s.result = false) :
    Changes s v a n { s.streams n with phase := .live }
  | take {j : ℕ} {queue : List Item} (h : (s.streams n).phase = .live)
    (hq : (s.streams n).queue = .event j :: queue) :
    Changes s v a n { s.streams n with queue := queue, got := (s.streams n).got ++ [.event j] }
  | takeDone {queue : List Item} (h : (s.streams n).phase = .live)
    (hq : (s.streams n).queue = .done :: queue) :
    Changes s v a n { s.streams n with
      phase := .closing, queue := queue, got := (s.streams n).got ++ [.done] }
  | quit {p : Phase} (h : p = .ended ∨ p = .closed) :
    Changes s v a n { s.streams n with phase := p }

section Seen

variable {s v : Sys} {a : Act} {n j : ℕ}

theorem changes_set {k : ℕ} {m : Stream} (h : n = k → Changes s v a n m) :
    Changes s v a n ((s.set k m).streams n) := by
  by_cases hk : n = k
  · subst hk
    simpa [Sys.set] using h rfl
  · simpa [Sys.set,Function.update_of_ne hk] using .same

theorem changes (hs : Shape s) (h : Does s a v) : Changes s v a n (v.streams n) := by
  cases h with
  | check _ | emit _ | handed _ _ | finish _ _ | finished _ _ | forget _ _ => exact .same
  | @put j i k h hn =>
    apply changes_set
    rintro rfl
    exact .put (.inr ⟨j,rfl,rfl,i,h,hn⟩)
  | putDone h hn =>
    apply changes_set
    rintro rfl
    exact .put (.inl ⟨rfl,rfl⟩)
  | subscribe he h =>
    apply changes_set
    rintro rfl
    rw [← (hs.streams s.opened).fresh le_rfl]
    exact .same
  | replay _ _ h _ =>
    apply changes_set
    rintro rfl
    exact .replay h
  | stop _ _ h hlt _ =>
    apply changes_set
    rintro rfl
    exact .stop h hlt
  | goLive _ _ _ hlt hr =>
    apply changes_set
    rintro rfl
    exact .goLive hlt hr
  | take _ _ h hq =>
    apply changes_set
    rintro rfl
    exact .take h hq
  | takeDone _ _ h hq =>
    apply changes_set
    rintro rfl
    exact .takeDone h hq
  | close _ _ _ | leaveClosing _ _ _ =>
    apply changes_set
    rintro rfl
    exact .quit (.inl rfl)
  | leaveReplay _ _ _ | leaveLive _ _ _ =>
    apply changes_set
    rintro rfl
    exact .quit (.inr rfl)

theorem offered_take {m : Stream} {x : Item} {queue : List Item} (p : Phase)
    (h : m.queue = x :: queue) :
    ({ m with phase := p, queue := queue, got := m.got ++ [x] } : Stream).offered = m.offered := by
  simp [Stream.offered,h]

/-- An event comes through a queue when its loop finds room there. -/
theorem count_step (h : Changes s v a n (v.streams n)) :
    (v.streams n).offered.count (.event j) = (s.streams n).offered.count (.event j) ∨
      (v.streams n).offered.count (.event j) = (s.streams n).offered.count (.event j) + 1 ∧
        Visits s a n j ∧ (s.streams n).queue.length < maxsize := by
  generalize v.streams n = m at h
  cases h with
  | same | replay _ | goLive _ _ | quit _ => exact .inl rfl
  | put h =>
    rw [putNowait_offered]
    split
    · rename_i hlt
      rcases h with ⟨rfl,-⟩ | ⟨k,rfl,hvisit⟩
      · exact .inl (by simp)
      · by_cases hk : k = j
        · subst hk
          exact .inr ⟨by simp,hvisit,hlt⟩
        · exact .inl (by simp [hk])
    · exact .inl rfl
  | stop _ _ => exact .inl (by simp [Stream.offered])
  | take _ hq => exact .inl (congrArg _ (offered_take _ hq))
  | takeDone _ hq => exact .inl (congrArg _ (offered_take _ hq))

theorem mem_step (h : Changes s v a n (v.streams n)) (hv : .event j ∈ (v.streams n).offered) :
    .event j ∈ (s.streams n).offered ∨
      Visits s a n j ∧ (s.streams n).queue.length < maxsize := by
  rcases count_step (j := j) h with hcount | ⟨-,hvisit⟩
  · exact .inl (List.count_pos_iff.mp (hcount ▸ List.count_pos_iff.mpr hv))
  · exact .inr hvisit

theorem mem_of_mem (h : Changes s v a n (v.streams n)) (hv : .event j ∈ (s.streams n).offered) :
    .event j ∈ (v.streams n).offered := by
  have hpos := List.count_pos_iff.mpr hv
  apply List.count_pos_iff.mp
  rcases count_step (j := j) h with hcount | ⟨hcount,-⟩
  all_goals omega

theorem visit_step (h : Does s a v) (hv : Visits s a n j) :
    .event j ∈ (v.streams n).offered ∨ Drops n j ⟨s,a,v⟩ := by
  obtain ⟨rfl,i,hi,hn⟩ := hv
  cases h with
  | put h hk =>
    obtain rfl := Option.some.inj (hi.symm.trans h)
    obtain rfl := Option.some.inj (hn.symm.trans hk)
    simp only [Function.update_self,putNowait_offered]
    split
    · exact .inl (by simp)
    · exact .inr (.full ⟨rfl,_,hi,hn⟩ (by simp_all))
  | handed h hk =>
    obtain rfl := Option.some.inj (hi.symm.trans h)
    simp [hn] at hk

/-- A stream that reads from its queue did so before the step, or has replayed all there is. -/
theorem live_step (h : Changes s v a n (v.streams n)) (hv : (v.streams n).phase = .live) :
    (s.streams n).phase = .live ∧ (v.streams n).replayed = (s.streams n).replayed ∧
        (s.streams n).offered <+: (v.streams n).offered ∨
      v.emitted ≤ (v.streams n).replayed ∧ s.result = false := by
  generalize v.streams n = m at h hv
  cases h with
  | same => exact .inl ⟨hv,rfl,List.prefix_rfl⟩
  | put h =>
    refine .inl ⟨by simpa using hv,by simp,?_⟩
    rw [putNowait_offered]
    split
    · exact List.prefix_append _ _
    · exact List.prefix_rfl
  | replay h => simp [h] at hv
  | stop _ _ | takeDone _ _ => cases hv
  | goLive h hr => exact .inr ⟨h,hr⟩
  | take h hq => exact .inl ⟨h,rfl,(offered_take _ hq).symm ▸ List.prefix_rfl⟩
  | quit h => rcases h with rfl | rfl <;> cases hv

/-- A stream that has told its client the end did so before the step, or has replayed all there is, or
has just read the end from its queue. -/
theorem told_step (h : Changes s v a n (v.streams n)) (hs : Shape s)
    (hv : .done ∈ (v.streams n).got) :
    (.done ∈ (s.streams n).got ∧ (v.streams n).got = (s.streams n).got ∧
        (v.streams n).replayed = (s.streams n).replayed) ∨
      v.emitted ≤ (v.streams n).replayed ∨
      (s.streams n).phase = .live ∧ (v.streams n).replayed = (s.streams n).replayed ∧
        (v.streams n).got = (s.streams n).got ++ [.done] ∧
        ∃ queue, (s.streams n).queue = .done :: queue := by
  have told := (hs.streams n).told
  generalize v.streams n = m at h hv
  cases h with
  | same | goLive _ _ | quit _ => exact .inl ⟨hv,rfl,rfl⟩
  | put h => exact .inl ⟨by simpa using hv,by simp,by simp⟩
  | replay h => simpa [h] using told hv
  | stop _ h => exact .inr (.inl h)
  | take h hq => 
    have := told (by simpa using hv)
    simp [h] at this
  | takeDone h hq => exact .inr (.inr ⟨h,rfl,rfl,_,hq⟩)

/-- What a step can make of the loop of event `j`. -/
inductive Turns (s v : Sys) (a : Act) (j : ℕ) : Prop
  | same (hq : v.queues = s.queues) (ho : v.opened = s.opened) (he : v.emitted = s.emitted)
    (hh : v.handing j = s.handing j) (ha : a ≠ .hand j) (hr : removed s a = none)
  | emit (hq : v.queues = s.queues) (ho : v.opened = s.opened) (he : v.emitted = s.emitted + 1)
    (hh : v.handing j = if j = s.emitted then some 0 else s.handing j) (ha : a = .emit)
  | hand {i : ℕ} (hq : v.queues = s.queues) (ho : v.opened = s.opened) (he : v.emitted = s.emitted)
    (hi : s.handing j = some i)
    (hh : v.handing j = if s.queues[i]? = none then none else some (i + 1)) (ha : a = .hand j)
  | subscribe (hq : v.queues = s.queues ++ [s.opened]) (ho : v.opened = s.opened + 1)
    (he : v.emitted = s.emitted) (hh : v.handing j = s.handing j) (ha : a = .subscribe)
  | remove {m : ℕ} (hm : removed s a = some m) (hmem : m ∈ s.queues)
    (hlive : (v.streams m).phase ≠ .live)
    (hq : v.queues = s.queues.erase m) (ho : v.opened = s.opened) (he : v.emitted = s.emitted)
    (hh : v.handing j = s.handing j) (ha : a ≠ .hand j)

theorem turns (hs : Shape s) (h : Does s a v) : Turns s v a j := by
  have open_mem {k : ℕ} (hk : k < s.opened) (he : (s.streams k).phase ≠ .ended)
      (hc : (s.streams k).phase ≠ .closed) : k ∈ s.queues := (hs.streams k).registered hk he hc
  cases h with
  | check _ | finish _ _ | putDone _ _ | finished _ _ | forget _ _ =>
    exact .same rfl rfl rfl rfl (by simp) rfl
  | emit _ => exact .emit rfl rfl rfl (by simp [Function.update_apply]) rfl
  | @put k i n h hn =>
    by_cases hk : j = k
    · subst hk
      exact .hand rfl rfl rfl h (by simp [hn]) rfl
    · exact .same rfl rfl rfl (by simp [Function.update_of_ne hk]) (by simpa using Ne.symm hk) rfl
  | @handed k i h hn =>
    by_cases hk : j = k
    · subst hk
      exact .hand rfl rfl rfl h (by simp [hn]) rfl
    · exact .same rfl rfl rfl (by simp [Function.update_of_ne hk]) (by simpa using Ne.symm hk) rfl
  | subscribe _ _ => exact .subscribe rfl rfl rfl rfl rfl
  | replay _ _ h _ | stop _ _ h _ _ | goLive _ _ h _ _ | take _ _ h _ | takeDone _ _ h _ 
  | leaveReplay _ _ h =>
    exact .same rfl rfl rfl rfl (by simp) (by simp [removed,h])
  | close _ hn h | leaveLive _ hn h | leaveClosing _ hn h =>
    exact .remove (by simp [removed,h]) (open_mem hn (by simp [h]) (by simp [h]))
      (by simp [Sys.remove,Sys.set]) rfl rfl rfl rfl (by simp)

theorem Ahead.lt (h : Ahead s n j) (hs : Shape s) : j < s.emitted ∧ n < s.opened := by
  obtain ⟨i,hi,hn⟩ := h
  refine ⟨?_,hs.opened n (List.mem_of_mem_drop hn)⟩
  by_contra hj
  simp [hs.place j (by omega)] at hi

theorem not_drops (hv : ¬Visits s a n j)
    (hr : ∀ i m, s.handing j = some i → removed s a = some m → ¬Skips s.queues m i n) :
    ¬Drops n j ⟨s,a,v⟩ := by
  intro hd
  cases hd with
  | full h _ => exact hv h
  | skipped h hm hskip => exact hr _ _ h hm hskip

/-- The loop that has still to come to a stream has not come to it in the step. -/
theorem ahead_back (hs : Shape s) (h : Turns s v a j) (hv : Ahead v n j) :
    (s.emitted ≤ j ∨ s.opened ≤ n ∨ Ahead s n j) ∧
      ¬Visits s a n j ∧ ¬Drops n j ⟨s,a,v⟩ := by
  obtain ⟨i,hi,hn⟩ := hv
  cases h with
  | same hq ho he hh ha hr =>
    rw [hh] at hi
    rw [hq] at hn
    have hvisit : ¬Visits s a n j := fun h => ha h.1
    exact ⟨.inr (.inr ⟨i,hi,hn⟩),hvisit,not_drops hvisit (by simp [hr])⟩
  | emit hq ho he hh ha =>
    subst ha
    have hvisit : ¬Visits s .emit n j := fun h => by cases h.1
    refine ⟨?_,hvisit,not_drops hvisit (by simp [removed])⟩
    rw [hh] at hi
    split at hi
    · exact .inl (by omega)
    · exact .inr (.inr ⟨i,hi,hq ▸ hn⟩)
  | @hand i' hq ho he hi' hh ha =>
    subst ha
    rw [hh] at hi
    split at hi
    · cases hi
    · obtain rfl := Option.some.inj hi
      rw [hq] at hn
      have hvisit : ¬Visits s (.hand j) n j := by
        rintro ⟨-,i'',hi'',hplace⟩
        obtain rfl := Option.some.inj (hi'.symm.trans hi'')
        exact not_mem_drop_of_place hs.nodup hplace hn
      refine ⟨.inr (.inr ⟨i',hi',?_⟩),hvisit,not_drops hvisit (by simp [removed])⟩
      rw [← List.drop_drop] at hn
      exact List.mem_of_mem_drop hn
  | subscribe hq ho he hh ha =>
    subst ha
    have hvisit : ¬Visits s .subscribe n j := fun h => by cases h.1
    refine ⟨?_,hvisit,not_drops hvisit (by simp [removed])⟩
    rw [hh] at hi
    rw [hq] at hn
    rcases mem_drop_append hn with hn | rfl
    · exact .inr (.inr ⟨i,hi,hn⟩)
    · exact .inr (.inl le_rfl)
  | @remove m hm hmem hlive hq ho he hh ha =>
    rw [hh] at hi
    rw [hq,mem_drop_erase_iff hs.nodup hmem] at hn
    have hvisit : ¬Visits s a n j := fun h => ha h.1
    refine ⟨.inr (.inr ⟨i,hi,hn.1⟩),hvisit,not_drops hvisit ?_⟩
    intro i' m' hi' hm'
    obtain rfl := Option.some.inj (hi.symm.trans hi')
    obtain rfl := Option.some.inj (hm.symm.trans hm')
    exact hn.2.2

theorem ahead_forth (hs : Shape s) (h : Turns s v a j) (ha : Ahead s n j) :
    Ahead v n j ∨ Visits s a n j ∨ Drops n j ⟨s,a,v⟩ ∨ (v.streams n).phase ≠ .live := by
  have hlt := (ha.lt hs).1
  obtain ⟨i,hi,hn⟩ := ha
  cases h with
  | same hq ho he hh ha hr => exact .inl ⟨i,hh ▸ hi,hq ▸ hn⟩
  | emit hq ho he hh ha => exact .inl ⟨i,by rw [hh,if_neg (by omega),hi],hq ▸ hn⟩
  | @hand i' hq ho he hi' hh ha =>
    obtain rfl := Option.some.inj (hi.symm.trans hi')
    cases hplace : s.queues[i]? with
    | none =>
      rw [drop_of_end hplace] at hn
      cases hn
    | some k =>
      rw [drop_of_place hplace] at hn
      rcases List.mem_cons.mp hn with rfl | hn
      · exact .inr (.inl ⟨ha,i,hi,hplace⟩)
      · exact .inl ⟨i + 1,by simp [hh,hplace],hq ▸ hn⟩
  | subscribe hq ho he hh ha => exact .inl ⟨i,hh ▸ hi,hq ▸ mem_drop_append_of_mem hn⟩
  | @remove m hm hmem hlive hq ho he hh ha =>
    by_cases hne : n = m
    · exact .inr (.inr (.inr (hne ▸ hlive)))
    · by_cases hskip : Skips s.queues m i n
      · exact .inr (.inr (.inl (.skipped hi hm hskip)))
      · exact .inl ⟨i,hh ▸ hi,hq ▸ (mem_drop_erase_iff hs.nodup hmem).mpr ⟨hn,hne,hskip⟩⟩

end Seen

/-! ### Runs -/

/-- The stream has been denied the event. -/
def Missed (tr : List (Event Sys Act)) (n j : ℕ) : Prop := ∃ e ∈ tr, Drops n j e

/-- The loop of event `j` had ended when the result was set. -/
def HandedOut (tr : List (Event Sys Act)) (j : ℕ) : Prop :=
  ∃ e ∈ tr, e.act = .finish ∧ j < e.pre.emitted ∧ e.pre.handing j = none

instance (tr : List (Event Sys Act)) (j : ℕ) : Decidable (HandedOut tr j) :=
  inferInstanceAs (Decidable (∃ e ∈ tr, e.act = .finish ∧ j < e.pre.emitted ∧ e.pre.handing j = none))

/-- Event `j` has still to come to stream `n`. -/
def Fresh (s : Sys) (n j : ℕ) : Prop := s.emitted ≤ j ∨ s.opened ≤ n ∨ Ahead s n j

/-- What holds of stream `n` and event `j` along a run. -/
structure Track (tr : List (Event Sys Act)) (s : Sys) (n j : ℕ) : Prop where
  fresh : Fresh s n j → .event j ∉ (s.streams n).offered ∧ ¬Missed tr n j
  once : (s.streams n).offered.count (.event j) ≤ 1
  missed : Missed tr n j → .event j ∉ (s.streams n).offered
  covered : (s.streams n).phase = .live → j < s.emitted →
    j < (s.streams n).replayed ∨ .event j ∈ (s.streams n).offered ∨ Missed tr n j ∨ Ahead s n j
  result : HandedOut tr j → s.result = true ∧ j < s.emitted
  early : HandedOut tr j → (s.streams n).phase = .live →
    j < (s.streams n).replayed ∨ Missed tr n j ∨
      .event j ∈ (s.streams n).offered.takeWhile (· ≠ .done)
  told : HandedOut tr j → .done ∈ (s.streams n).got →
    j < (s.streams n).replayed ∨ Missed tr n j ∨ .event j ∈ (s.streams n).got

theorem track_init (n j : ℕ) : Track [] {} n j where
  fresh _ := by simp [Missed,Stream.offered]
  once := by simp [Stream.offered]
  missed h := by simp [Missed] at h
  covered h := by simp at h
  result h := by simp [HandedOut] at h
  early h := by simp [HandedOut] at h
  told h := by simp [HandedOut] at h

@[simp] theorem missed_cons {e : Event Sys Act} {tr : List (Event Sys Act)} {n j : ℕ} :
    Missed (e :: tr) n j ↔ Drops n j e ∨ Missed tr n j := by
  simp [Missed]

theorem handedOut_cons {s v : Sys} {a : Act} {tr : List (Event Sys Act)} {j : ℕ} :
    HandedOut (⟨s,a,v⟩ :: tr) j ↔
      (a = .finish ∧ j < s.emitted ∧ s.handing j = none) ∨ HandedOut tr j := by
  simp [HandedOut]

section Track

variable {s v : Sys} {a : Act} {n j : ℕ} {tr : List (Event Sys Act)}

theorem Turns.mono (h : Turns s v a j) : s.emitted ≤ v.emitted ∧ s.opened ≤ v.opened := by
  cases h <;> omega

theorem fresh_back (hs : Shape s) (h : Turns s v a j) (hv : Fresh v n j) :
    Fresh s n j ∧ ¬Visits s a n j ∧ ¬Drops n j ⟨s,a,v⟩ := by
  by_cases ha : Ahead v n j
  · exact ahead_back hs h ha
  · have hle := h.mono
    have hlt : s.emitted ≤ j ∨ s.opened ≤ n := by
      rcases hv with hv | hv | hv
      · exact .inl (hle.1.trans hv)
      · exact .inr (hle.2.trans hv)
      · exact absurd hv ha
    have hnot : ¬Ahead s n j := fun hahead => by
      have := hahead.lt hs
      omega
    refine ⟨?_,fun hvisit => hnot hvisit.ahead,fun hd => hnot hd.ahead⟩
    exact hlt.elim .inl fun hn => .inr (.inl hn)

theorem mem_takeWhile_of_extends {l l' : List Item} {x : Item} (h : l <+: l')
    (hx : x ∈ l.takeWhile (· ≠ .done)) : x ∈ l'.takeWhile (· ≠ .done) := by
  obtain ⟨r,rfl⟩ := h
  rw [List.takeWhile_append]
  split
  · exact List.mem_append_left _ ((List.takeWhile_sublist _).subset hx)
  · exact hx

theorem covered_step (ht : Track tr s n j) (hs : Shape s) (hv : Shape v) (h : Does s a v)
    (hlive : (v.streams n).phase = .live) (hj : j < v.emitted) :
    j < (v.streams n).replayed ∨ .event j ∈ (v.streams n).offered ∨
      Missed (⟨s,a,v⟩ :: tr) n j ∨ Ahead v n j := by
  have hchanges : Changes s v a n (v.streams n) := changes hs h
  have hturns : Turns s v a j := turns hs h
  rcases live_step hchanges hlive with ⟨hlive',hreplayed,hextends⟩ | ⟨hreplayed,-⟩
  · by_cases hjs : j < s.emitted
    · rcases ht.covered hlive' hjs with hcov | hcov | hcov | hcov
      · exact .inl (hreplayed ▸ hcov)
      · exact .inr (.inl (mem_of_mem hchanges hcov))
      · exact .inr (.inr (.inl (missed_cons.mpr (.inr hcov))))
      · rcases ahead_forth hs hturns hcov with hahead | hvisit | hdrop | hphase
        · exact .inr (.inr (.inr hahead))
        · rcases visit_step h hvisit with hmem | hdrop
          · exact .inr (.inl hmem)
          · exact .inr (.inr (.inl (missed_cons.mpr (.inl hdrop))))
        · exact .inr (.inr (.inl (missed_cons.mpr (.inl hdrop))))
        · exact absurd hlive hphase
    · -- The event is new: its loop is at the first place.
      refine .inr (.inr (.inr ?_))
      have hn : n < v.opened := by
        by_contra hn
        simp [(hv.streams n).fresh (by omega)] at hlive
      cases hturns with
      | emit hq ho he hh ha =>
        exact ⟨0,by rw [hh,if_pos (by omega)],by
          simpa using (hv.streams n).registered hn (by simp [hlive]) (by simp [hlive])⟩
      | same _ _ he _ _ _ | hand _ _ he _ _ _ | subscribe _ _ he _ _ | remove _ _ _ _ _ he _ _ => omega
  · exact .inl (by omega)

theorem result_step (ht : Track tr s n j) (hs : Shape s) (h : Does s a v)
    (hout : HandedOut (⟨s,a,v⟩ :: tr) j) : v.result = true ∧ j < v.emitted := by
  have hle := (turns (j := j) hs h).mono.1
  rcases handedOut_cons.mp hout with ⟨rfl,hj,-⟩ | hout
  · cases h with
    | finish he hr => exact ⟨rfl,hj⟩
  · obtain ⟨hr,hj⟩ := ht.result hout
    refine ⟨?_,by omega⟩
    cases h with
    | finish _ _ => rfl
    | _ => exact hr

theorem early_step (ht : Track tr s n j) (hs : Shape s) (hv : Shape v) (h : Does s a v)
    (hout : HandedOut (⟨s,a,v⟩ :: tr) j) (hlive : (v.streams n).phase = .live) :
    j < (v.streams n).replayed ∨ Missed (⟨s,a,v⟩ :: tr) n j ∨
      .event j ∈ (v.streams n).offered.takeWhile (· ≠ .done) := by
  have hchanges : Changes s v a n (v.streams n) := changes hs h
  rcases handedOut_cons.mp hout with ⟨rfl,hj,hnone⟩ | hout
  · cases h with
    | finish he hr =>
      -- The end is in no queue yet.
      have hall : (s.streams n).offered.takeWhile (· ≠ .done) = (s.streams n).offered := by
        rw [List.takeWhile_eq_self_iff]
        intro x hx
        simpa using ne_of_mem_of_not_mem hx ((hs.streams n).waiting hr)
      rcases ht.covered hlive hj with hcov | hcov | hcov | ⟨i,hi,-⟩
      · exact .inl hcov
      · exact .inr (.inr (by rwa [hall]))
      · exact .inr (.inl (missed_cons.mpr (.inr hcov)))
      · simp [hnone] at hi
  · rcases live_step hchanges hlive with ⟨hlive',hreplayed,hextends⟩ | ⟨-,hr⟩
    · rcases ht.early hout hlive' with hearly | hearly | hearly
      · exact .inl (hreplayed ▸ hearly)
      · exact .inr (.inl (missed_cons.mpr (.inr hearly)))
      · exact .inr (.inr (mem_takeWhile_of_extends hextends hearly))
    · simp [(ht.result hout).1] at hr

theorem over_step (ht : Track tr s n j) (hs : Shape s) (h : Does s a v)
    (hout : HandedOut (⟨s,a,v⟩ :: tr) j) (htold : .done ∈ (v.streams n).got) :
    j < (v.streams n).replayed ∨ Missed (⟨s,a,v⟩ :: tr) n j ∨ .event j ∈ (v.streams n).got := by
  have hchanges : Changes s v a n (v.streams n) := changes hs h
  have hj := (result_step ht hs h hout).2
  rcases told_step hchanges hs htold with ⟨htold',hgot,hreplayed⟩ | hreplayed |
    ⟨hlive,hreplayed,hgot,queue,hq⟩
  · rcases handedOut_cons.mp hout with ⟨rfl,-,-⟩ | hout
    · cases h with
      | finish he hr =>
        exact absurd (List.mem_append_left _ htold') ((hs.streams n).waiting hr)
    · rcases ht.told hout htold' with hover | hover | hover
      · exact .inl (hreplayed ▸ hover)
      · exact .inr (.inl (missed_cons.mpr (.inr hover)))
      · exact .inr (.inr (hgot ▸ hover))
  · exact .inl (by omega)
  · have hdone : Item.done ∈ (s.streams n).offered := by simp [Stream.offered,hq]
    rcases handedOut_cons.mp hout with ⟨rfl,-,-⟩ | hout
    · cases h with
      | finish he hr => exact absurd hdone ((hs.streams n).waiting hr)
    · rcases ht.early hout hlive with hearly | hearly | hearly
      · exact .inl (hreplayed ▸ hearly)
      · exact .inr (.inl (missed_cons.mpr (.inr hearly)))
      · -- What stands before the end has been read.
        have hnot := (hs.streams n).not_told (by simp [hlive]) (by simp [hlive])
        rw [Stream.offered,hq,List.takeWhile_append_of_pos fun x hx => by
          simpa using ne_of_mem_of_not_mem hx hnot] at hearly
        refine .inr (.inr ?_)
        rw [hgot]
        exact List.mem_append_left _ (by simpa using hearly)

theorem Track.step (ht : Track tr s n j) (hs : Shape s) (hv : Shape v) (h : Does s a v) :
    Track (⟨s,a,v⟩ :: tr) v n j := by
  have hturns : Turns s v a j := turns hs h
  have hchanges : Changes s v a n (v.streams n) := changes hs h
  have hcount := count_step (j := j) hchanges
  -- The loop has still to come to the stream, so nothing has come of it yet.
  have still (hahead : Ahead s n j) := ht.fresh (.inr (.inr hahead))
  refine ⟨?_,?_,?_,?_,?_,?_,?_⟩
  · intro hfresh
    obtain ⟨hfresh,hvisit,hdrop⟩ := fresh_back hs hturns hfresh
    obtain ⟨hnot,hmissed⟩ := ht.fresh hfresh
    refine ⟨fun hmem => ?_,by simp [hdrop,hmissed]⟩
    rcases mem_step hchanges hmem with hmem | ⟨hvisit',-⟩
    · exact hnot hmem
    · exact hvisit hvisit'
  · rcases hcount with hcount | ⟨hcount,hvisit,-⟩
    · exact hcount ▸ ht.once
    · have := List.count_eq_zero.mpr (still hvisit.ahead).1
      omega
  · intro hmissed hmem
    rw [missed_cons] at hmissed
    rcases mem_step hchanges hmem with hmem | ⟨hvisit,hlt⟩
    · rcases hmissed with hdrop | hmissed
      · exact (still hdrop.ahead).1 hmem
      · exact ht.missed hmissed hmem
    · rcases hmissed with hdrop | hmissed
      · cases hdrop with
        | full _ hq => exact absurd hlt (Nat.not_lt.mpr hq)
        | skipped _ hm _ => simp [hvisit.1,removed] at hm
      · exact (still hvisit.ahead).2 hmissed
  · exact covered_step ht hs hv h
  · exact result_step ht hs h
  · exact early_step ht hs hv h
  · exact over_step ht hs h

end Track

theorem track {tr : List (Event Sys Act)} {u : Sys} (h : Run step {} tr u) (n j : ℕ) :
    Shape u ∧ Track tr u n j := by
  apply h.invariant (along_forall.mpr fun _ _ => trivial) ⟨shape_init,track_init n j⟩
  rintro tr s a v ⟨hs,ht⟩ - hstep
  have hd := does_of_step hstep
  exact ⟨hs.step hd,ht.step hs (hs.step hd) hd⟩

/-- A client that has got the end has got every event that was handed out before the result, except
those that its stream neither replayed nor could take. -/
theorem delivered_iff {tr : List (Event Sys Act)} {u : Sys} (h : Run step {} tr u) {n j : ℕ}
    (hdone : .done ∈ (u.streams n).got) (hj : HandedOut tr j) :
    .event j ∈ (u.streams n).delivered ↔ j < (u.streams n).replayed ∨ ¬Missed tr n j := by
  have ht := (track h n j).2
  simp only [Stream.delivered,List.mem_append,List.mem_map,List.mem_range,Item.event.injEq,
    exists_eq_right]
  constructor
  · rintro (hlt | hgot)
    · exact .inl hlt
    · exact .inr fun hmissed => ht.missed hmissed (List.mem_append_left _ hgot)
  · rintro (hlt | hmissed)
    · exact .inl hlt
    · rcases ht.told hj hdone with hlt | hmissed' | hgot
      · exact .inl hlt
      · exact absurd hmissed' hmissed
      · exact .inr hgot

/-- The client of stream 0 goes while event 0 is handed out: stream 1 is passed over. -/
theorem delivered_iff_passed : ∃ tr u, Run step {} tr u ∧ .done ∈ (u.streams 1).got ∧
    HandedOut tr 0 ∧ Missed tr 1 0 ∧ Item.event 0 ∉ (u.streams 1).delivered := by
  obtain ⟨tr,u,hr,hp⟩ := exists_run_of_replay step {}
    [.subscribe,.subscribe,.next 0,.next 1,.check,.emit,.hand 0,.leave 0,.hand 0,.finish,
      .handDone,.handDone,.next 1]
    (p := fun tr u => decide (.done ∈ (u.streams 1).got ∧ HandedOut tr 0 ∧
      Item.event 0 ∉ (u.streams 1).delivered))
    (by decide)
  obtain ⟨hdone,hout,hnot⟩ := of_decide_eq_true hp
  refine ⟨tr,u,hr,hdone,hout,?_,hnot⟩
  by_contra hmissed
  exact hnot ((delivered_iff hr hdone hout).mpr (.inr hmissed))

theorem count_replayed (k j : ℕ) :
    ((List.range k).map Item.event).count (.event j) = if j < k then 1 else 0 := by
  induction k with
  | zero => simp
  | succ k ih =>
    rw [List.range_succ,List.map_append,List.count_append,ih]
    by_cases hk : j = k
    · subst hk
      simp
    · simp [Ne.symm hk,show j < k + 1 ↔ j < k by omega]

/-- A client gets an event at most twice, once from the replay and once from the queue, only events that
were emitted, and the end at most once and last. -/
theorem delivered_count {tr : List (Event Sys Act)} {u : Sys} (h : Run step {} tr u) (n j : ℕ) :
    (u.streams n).delivered.count (.event j) =
        (if j < (u.streams n).replayed then 1 else 0) +
          (if .event j ∈ (u.streams n).got then 1 else 0) ∧
      (.event j ∈ (u.streams n).delivered → j < u.emitted) ∧
      (.done ∈ (u.streams n).delivered →
        ∃ l, (u.streams n).delivered = l ++ [.done] ∧ Item.done ∉ l) := by
  obtain ⟨hs,ht⟩ := track h n j
  have hfits := hs.streams n
  have hold : Item.done ∉ (List.range (u.streams n).replayed).map Item.event := by simp
  refine ⟨?_,?_,?_⟩
  · rw [Stream.delivered,List.count_append,count_replayed]
    congr 1
    have hle : (u.streams n).got.count (.event j) ≤ 1 := by
      have := ht.once
      rw [Stream.offered,List.count_append] at this
      omega
    split
    · have := List.count_pos_iff.mpr ‹_›
      omega
    · exact List.count_eq_zero.mpr ‹_›
  · intro hmem
    by_contra hj
    rcases List.mem_append.mp hmem with hmem | hmem
    · have := hfits.bounded
      simp at hmem
      omega
    · exact (ht.fresh (.inl (by omega))).1 (List.mem_append_left _ hmem)
  · intro hdone
    obtain ⟨-,l,hl,hnot⟩ := hfits.told ((List.mem_append.mp hdone).resolve_left hold)
    exact ⟨_ ++ l,by rw [Stream.delivered,hl,List.append_assoc],by simp [hnot]⟩

/-- An event handed out between the subscription and the replay comes twice. -/
theorem delivered_count_twice : ∃ tr u, Run step {} tr u ∧
    (u.streams 0).delivered.count (.event 0) = 2 := by
  obtain ⟨tr,u,hr,hp⟩ := exists_run_of_replay step {}
    [.subscribe,.check,.emit,.hand 0,.hand 0,.next 0,.next 0,.next 0]
    (p := fun _ u => decide (0 < (u.streams 0).replayed ∧ Item.event 0 ∈ (u.streams 0).got))
    (by decide)
  obtain ⟨hreplayed,hgot⟩ := of_decide_eq_true hp
  refine ⟨tr,u,hr,?_⟩
  rw [(delivered_count hr 0 0).1,if_pos hreplayed,if_pos hgot]

end EventStreams
end EntryAnalyse
