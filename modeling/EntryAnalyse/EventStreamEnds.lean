import EntryAnalyse.EventDelivery

/-! When a stream ends: the message that ends the streams is put into each queue once, and a queue that
is full at that time refuses it. -/
namespace EntryAnalyse
namespace EventStreams

open Runs IndexLoop

/-- The loop that hands out the end comes to stream `n` when its queue is full. -/
def Refuses (n : ℕ) (e : Event Sys Act) : Prop :=
  e.act = .handDone ∧ e.pre.ending.bind (e.pre.queues[·]?) = some n ∧
    maxsize ≤ (e.pre.streams n).queue.length

def EndRefused (tr : List (Event Sys Act)) (n : ℕ) : Prop := ∃ e ∈ tr, Refuses n e

instance (n : ℕ) (e : Event Sys Act) : Decidable (Refuses n e) :=
  inferInstanceAs (Decidable (_ ∧ _ ∧ _))

instance (tr : List (Event Sys Act)) (n : ℕ) : Decidable (EndRefused tr n) :=
  inferInstanceAs (Decidable (∃ e ∈ tr, Refuses n e))

/-- The loop that hands out the end has still to come to stream `n`. -/
def EndAhead (s : Sys) (n : ℕ) : Prop :=
  s.result = false ∨ ∃ i, s.ending = some i ∧ n ∈ s.queues.drop i

/-- What holds of the end and stream `n` along a run. -/
structure Ends (tr : List (Event Sys Act)) (s : Sys) (n : ℕ) : Prop where
  ahead : EndAhead s n → .done ∉ (s.streams n).queue ∧ ¬EndRefused tr n
  refused : EndRefused tr n → .done ∉ (s.streams n).queue
  queued : (s.streams n).phase = .live →
    .done ∈ (s.streams n).queue ∨ EndRefused tr n ∨ EndAhead s n

theorem ends_init (n : ℕ) : Ends [] {} n where
  ahead _ := by simp [EndRefused]
  refused h := by simp [EndRefused] at h
  queued h := by simp at h

@[simp] theorem endRefused_cons {e : Event Sys Act} {tr : List (Event Sys Act)} {n : ℕ} :
    EndRefused (e :: tr) n ↔ Refuses n e ∨ EndRefused tr n := by
  simp [EndRefused]

section Ends

variable {s v : Sys} {a : Act} {n : ℕ} {tr : List (Event Sys Act)}

/-- While the end is handed out, the event loop does nothing else. -/
theorem endAhead_step (h : Does s a v) (hd : a ≠ .handDone) (hf : a ≠ .finish) :
    EndAhead v n ↔ EndAhead s n := by
  cases h with
  | check _ | emit _ | put _ _ | handed _ _ => exact Iff.rfl
  | finish _ _ => exact absurd rfl hf
  | putDone _ _ | finished _ _ => exact absurd rfl hd
  | _ => simp_all [EndAhead,Sys.set,Sys.remove]

theorem done_step (h : Changes s v a n (v.streams n)) (ha : a ≠ .handDone) :
    (.done ∈ (v.streams n).queue → .done ∈ (s.streams n).queue) ∧
      ((v.streams n).phase = .live → s.result = false ∨ (s.streams n).phase = .live ∧
        (.done ∈ (s.streams n).queue → .done ∈ (v.streams n).queue)) := by
  generalize v.streams n = m at h
  cases h with
  | same => exact ⟨id,fun hv => .inr ⟨hv,id⟩⟩
  | put h =>
    rcases h with ⟨-,h⟩ | ⟨j,rfl,-⟩
    · exact absurd h ha
    · rw [putNowait_queue]
      split <;> exact ⟨by simp,fun hv => .inr ⟨by simpa using hv,by simp_all⟩⟩
  | replay h => exact ⟨id,by simp [h]⟩
  | stop _ _ => exact ⟨id,by simp⟩
  | goLive _ hr => exact ⟨id,fun _ => .inl hr⟩
  | take h hq => simp [h,hq]
  | takeDone _ hq => simp [hq]
  | quit h => rcases h with rfl | rfl <;> simp

/-- A step keeps what holds of the end when it refuses nothing and leaves the end where it was. -/
theorem Ends.quiet (hn : Ends tr s n) (hr : ¬Refuses n ⟨s,a,v⟩)
    (hback : .done ∈ (v.streams n).queue → .done ∈ (s.streams n).queue)
    (hlive : (v.streams n).phase = .live → s.result = false ∨ (s.streams n).phase = .live ∧
      (.done ∈ (s.streams n).queue → .done ∈ (v.streams n).queue))
    (hf : EndAhead v n → EndAhead s n)
    (hb : (v.streams n).phase = .live → EndAhead s n → EndAhead v n) :
    Ends (⟨s,a,v⟩ :: tr) v n := by
  have hcons : EndRefused (⟨s,a,v⟩ :: tr) n ↔ EndRefused tr n := by simp [hr]
  refine ⟨fun h => ?_,fun h => ?_,fun h => ?_⟩
  · rw [hcons]
    exact ⟨fun hmem => (hn.ahead (hf h)).1 (hback hmem),(hn.ahead (hf h)).2⟩
  · exact fun hmem => hn.refused (hcons.mp h) (hback hmem)
  · rw [hcons]
    rcases hlive h with hfalse | ⟨hlive',hkeep⟩
    · exact .inr (.inr (hb h (.inl hfalse)))
    · rcases hn.queued hlive' with hq | hq | hq
      · exact .inl (hkeep hq)
      · exact .inr (.inl hq)
      · exact .inr (.inr (hb h hq))

/-- The end comes to the stream itself. -/
theorem Ends.visited (hn : Ends tr s n) (hs : Shape s) {i : ℕ} (h : s.ending = some i)
    (hplace : s.queues[i]? = some n)
    (hv : v = { s with
      ending := some (i + 1)
      streams := Function.update s.streams n ((s.streams n).putNowait .done) }) :
    Ends (⟨s,.handDone,v⟩ :: tr) v n := by
  obtain ⟨hnot,hold⟩ := hn.ahead (.inr ⟨i,h,mem_drop_of_place hplace⟩)
  have hgone : ¬EndAhead v n := by
    rintro (hr | ⟨k,hk,hmem⟩)
    · simp [hv,hs.ending (by simp [h])] at hr
    · subst hv
      obtain rfl := Option.some.inj hk
      exact not_mem_drop_of_place hs.nodup hplace hmem
  have hqueue : (v.streams n).queue =
      if (s.streams n).queue.length < maxsize then (s.streams n).queue ++ [.done]
      else (s.streams n).queue := by
    simp [hv,putNowait_queue]
  by_cases hlt : (s.streams n).queue.length < maxsize
  · rw [if_pos hlt] at hqueue
    have hr : ¬EndRefused (⟨s,.handDone,v⟩ :: tr) n := by
      simp [hold,Refuses,hlt]
    exact ⟨fun ha => absurd ha hgone,fun hre => absurd hre hr,fun _ => .inl (by simp [hqueue])⟩
  · rw [if_neg hlt] at hqueue
    have hr : EndRefused (⟨s,.handDone,v⟩ :: tr) n := by
      simp [Refuses,h,hplace,not_lt.mp hlt]
    exact ⟨fun ha => absurd ha hgone,fun _ => by rwa [hqueue],fun _ => .inr (.inl hr)⟩

theorem Ends.step (hn : Ends tr s n) (hs : Shape s) (h : Does s a v) :
    Ends (⟨s,a,v⟩ :: tr) v n := by
  have hchanges : Changes s v a n (v.streams n) := changes hs h
  by_cases hd : a = .handDone
  · subst hd
    cases h with
    | @putDone i k h hk =>
      by_cases hne : n = k
      · subst hne
        exact hn.visited hs h hk rfl
      · have hsame : Function.update s.streams k ((s.streams k).putNowait .done) n = s.streams n :=
          Function.update_of_ne hne _ _
        refine hn.quiet ?_ ?_ ?_ ?_ ?_
        · simp [Refuses,h,hk,Ne.symm hne]
        · simp [hsame]
        · exact fun hlive => .inr ⟨by simpa [hsame] using hlive,by simp [hsame]⟩
        · rintro (hr | ⟨i',hi,hmem⟩)
          · exact .inl hr
          · obtain rfl := Option.some.inj hi
            refine .inr ⟨i,h,?_⟩
            rw [drop_of_place hk]
            exact List.mem_cons_of_mem _ hmem
        · rintro - (hr | ⟨i',hi,hmem⟩)
          · exact .inl hr
          · obtain rfl := Option.some.inj (h.symm.trans hi)
            rw [drop_of_place hk] at hmem
            exact .inr ⟨i + 1,rfl,(List.mem_cons.mp hmem).resolve_left hne⟩
    | @finished i h hk =>
      refine hn.quiet (by simp [Refuses,h,hk]) id (fun hlive => .inr ⟨hlive,id⟩) ?_ ?_
      · rintro (hr | ⟨i',hi,-⟩)
        · exact .inl hr
        · cases hi
      · rintro - (hr | ⟨i',hi,hmem⟩)
        · exact .inl hr
        · obtain rfl := Option.some.inj (h.symm.trans hi)
          simp [drop_of_end hk] at hmem
  · obtain ⟨hback,hlive⟩ := done_step hchanges hd
    refine hn.quiet (fun hr => hd hr.1) hback hlive ?_ ?_
    all_goals by_cases hf : a = .finish
    · subst hf
      cases h with
      | finish he hr => exact fun _ => .inl hr
    · exact (endAhead_step h hd hf).mp
    · subst hf
      cases h with
      | finish he hr =>
        intro hlive _
        have hphase : (s.streams n).phase = .live := hlive
        have hn : n < s.opened := by
          by_contra hlt
          simp [(hs.streams n).fresh (by omega)] at hphase
        exact .inr ⟨0,rfl,by
          simpa using (hs.streams n).registered hn (by simp [hphase]) (by simp [hphase])⟩
    · exact fun _ => (endAhead_step h hd hf).mpr

end Ends

theorem ends {tr : List (Event Sys Act)} {u : Sys} (h : Run step {} tr u) (n : ℕ) :
    Shape u ∧ Ends tr u n := by
  apply h.invariant (along_forall.mpr fun _ _ => trivial) ⟨shape_init,ends_init n⟩
  rintro tr s a v ⟨hs,hn⟩ - hstep
  have hd := does_of_step hstep
  exact ⟨hs.step hd,hn.step hs hd⟩

/-! ### What is left of a stream once the end has been handed out -/

/-- The stream reads its queue up to the end. -/
theorem reads_end (queue : List Item) (hdone : .done ∈ queue) {s : Sys} {n : ℕ}
    (he : s.ending = none) (hn : n < s.opened) (hlive : (s.streams n).phase = .live)
    (hq : (s.streams n).queue = queue) :
    ∃ tr w, Run step s tr w ∧ .done ∈ (w.streams n).got := by
  induction queue generalizing s with
  | nil => cases hdone
  | cons x queue ih =>
    cases x with
    | done =>
      let m := s.streams n
      let w := s.set n { m with phase := .closing, queue := queue, got := m.got ++ [.done] }
      have hstep : step s (.next n) = some w := by
        simp [step,next,he,hn,hlive,hq,w,m]
      exact ⟨_,w,.next .refl hstep,by simp [w,Sys.set]⟩
    | event j =>
      let m := s.streams n
      let w := s.set n { m with queue := queue, got := m.got ++ [.event j] }
      have hstep : step s (.next n) = some w := by
        simp [step,next,he,hn,hlive,hq,w,m]
      obtain ⟨tr,w',hrun,hgot⟩ := ih (s := w) (by simpa using hdone) he hn
        (by simpa [w,Sys.set] using hlive) (by simp [w,Sys.set])
      exact ⟨_,w',Run.trans (.next .refl hstep) hrun,hgot⟩

/-- Without the end in its queue, a live stream goes on until its client leaves. -/
structure Endless (s : Sys) (n : ℕ) : Prop where
  result : s.result = true
  ending : s.ending = none
  queue : .done ∉ (s.streams n).queue
  got : Item.done ∉ (s.streams n).got
  phase : (s.streams n).phase ≠ .replaying

theorem settled {s v : Sys} {a : Act} (h : Does s a v) (hr : s.result = true)
    (he : s.ending = none) : v.result = true ∧ v.ending = none ∧ a ≠ .handDone := by
  cases h <;> simp_all [Sys.set,Sys.remove]

theorem Endless.step {s v : Sys} {a : Act} {n : ℕ} (hn : Endless s n) (hs : Shape s)
    (h : Does s a v) : Endless v n := by
  obtain ⟨hr,he,ha⟩ := settled h hn.result hn.ending
  have hchanges : Changes s v a n (v.streams n) := changes hs h
  have hqueue : .done ∉ (v.streams n).queue := fun hv =>
    hn.queue ((done_step hchanges ha).1 hv)
  refine ⟨hr,he,hqueue,?_,?_⟩
  all_goals generalize v.streams n = m at hchanges
  · cases hchanges with
    | same | replay _ | goLive _ _ | quit _ => exact hn.got
    | put _ => simpa using hn.got
    | stop h _ => exact absurd h hn.phase
    | take _ _ => simpa using hn.got
    | takeDone _ hq => exact absurd (by simp [hq]) hn.queue
  · cases hchanges with
    | same | replay _ | take _ _ => exact hn.phase
    | put _ => simpa using hn.phase
    | stop _ _ | goLive _ _ | takeDone _ _ => simp
    | quit h => rcases h with rfl | rfl <;> simp

theorem endless_run {s u : Sys} {tr : List (Event Sys Act)} {n : ℕ} (h : Run step s tr u)
    (hn : Endless s n) (hs : Shape s) : Shape u ∧ Endless u n := by
  apply h.invariant (along_forall.mpr fun _ _ => trivial) ⟨hs,hn⟩
  rintro tr t a v ⟨ht,hn⟩ - hstep
  have hd := does_of_step hstep
  exact ⟨ht.step hd,hn.step ht hd⟩

/-- Once the end has been handed out, a stream that reads from its queue can still come to its end
exactly when its queue was not full at that time. -/
theorem can_end_iff {tr : List (Event Sys Act)} {u : Sys} (h : Run step {} tr u) {n : ℕ}
    (hlive : (u.streams n).phase = .live) (hr : u.result = true) (he : u.ending = none) :
    (∃ tr' w, Run step u tr' w ∧ .done ∈ (w.streams n).got) ↔ ¬EndRefused tr n := by
  obtain ⟨hs,hn⟩ := ends h n
  constructor
  · rintro ⟨tr',w,hrun,hgot⟩ hrefused
    have hnot := (hs.streams n).not_told (by simp [hlive]) (by simp [hlive])
    have hendless : Endless u n := ⟨hr,he,hn.refused hrefused,hnot,by simp [hlive]⟩
    exact (endless_run hrun hendless hs).2.got hgot
  · intro hrefused
    have hopen : n < u.opened := by
      by_contra hlt
      simp [(hs.streams n).fresh (by omega)] at hlive
    rcases hn.queued hlive with hq | hq | hq
    · exact reads_end _ hq he hopen hlive rfl
    · exact absurd hq hrefused
    · rcases hq with hfalse | ⟨i,hi,-⟩
      · simp [hr] at hfalse
      · simp [he] at hi

theorem can_end_iff_taken : ∃ tr u, Run step {} tr u ∧ ¬EndRefused tr 0 ∧
    ∃ tr' w, Run step u tr' w ∧ .done ∈ (w.streams 0).got := by
  obtain ⟨tr,u,hrun,hp⟩ := exists_run_of_replay step {}
    [.subscribe,.next 0,.check,.emit,.hand 0,.hand 0,.finish,.handDone,.handDone]
    (p := fun tr u => decide ((u.streams 0).phase = .live ∧ u.result = true ∧ u.ending = none ∧
      ¬EndRefused tr 0))
    (by decide)
  obtain ⟨hlive,hr,he,hnot⟩ := of_decide_eq_true hp
  exact ⟨tr,u,hrun,hnot,(can_end_iff hrun hlive hr he).mpr hnot⟩

end EventStreams
end EntryAnalyse
