import EntryAnalyse.StageQueue

/-! Whole runs of the stage queue pipeline. Every item put into a stage's queue is in the
queue, in the hands of one worker or in exactly one call, and the results of the calls are
the items of the next stage. End markers are met when a stage's items have all been taken.
While no call of the first stage fails and nothing is cancelled, what `run` waits for can
still come about. -/
namespace EntryAnalyse
namespace StageQueue

open Runs

variable {α : Type}

/-! ## The state between two steps -/

/-- How many stages `run` has found complete. -/
def Main.reached (n : ℕ) : Main α → ℕ
  | .filling _ | .raised => 0
  | .waiting i => i
  | .sentinels i _ => i + 1
  | .returned => n

/-- Initial items that are not queued yet. -/
def Main.rest : Main α → List α
  | .filling rest => rest
  | _ => []

structure Inv (initialItems : List α) (s : Sys α) : Prop where
  stages : ∀ {i : ℕ} {st : StageState α}, s.stages[i]? = some st →
    StageInv (s.cancel || s.stop) (i + 1 < s.stages.length) st
  linked : ∀ {i : ℕ} {st st' : StageState α}, s.stages[i]? = some st → s.stages[i+1]? = some st' → st'.items = st.sent
  complete : ∀ {i : ℕ} {st : StageState α}, s.stages[i]? = some st → i < s.main.reached s.stages.length → st.Complete
  fresh : ∀ {i : ℕ} {st : StageState α}, s.stages[i]? = some st → i = 0 ∨ s.main.reached s.stages.length < i →
    st.ends = 0
  ends_le : ∀ {i : ℕ} {st : StageState α}, s.stages[i]? = some st → st.ends ≤ st.cfg.workerCount
  left : ∀ {i k : ℕ} {st : StageState α}, s.main = .sentinels i k → s.stages[i+1]? = some st →
    st.ends + k = st.cfg.workerCount
  first : ∀ {st : StageState α}, s.stages[0]? = some st → st.items ++ s.main.rest = initialItems
  total : s.total = initialItems.length
  stop : s.stop = true → s.main = .returned

theorem inv_init (cfgs : List StageCfg) (initialItems : List α) :
    Inv initialItems (init cfgs initialItems) := by
  have hstart : ∀ {i : ℕ} {st : StageState α}, (init cfgs initialItems).stages[i]? = some st →
      ∃ cfg, st = StageState.start cfg := by
    intro i st h
    rw [init,List.getElem?_map,Option.map_eq_some_iff] at h
    obtain ⟨cfg,-,rfl⟩ := h
    exact ⟨cfg,rfl⟩
  exact {
    stages := fun h => by
      obtain ⟨cfg,rfl⟩ := hstart h
      exact stageInv_start cfg
    linked := fun h h' => by
      obtain ⟨cfg,rfl⟩ := hstart h
      obtain ⟨cfg',rfl⟩ := hstart h'
      rfl
    complete := fun _ hlt => absurd hlt (Nat.not_lt_zero _)
    fresh := fun h _ => by
      obtain ⟨cfg,rfl⟩ := hstart h
      rfl
    ends_le := fun h => by
      obtain ⟨cfg,rfl⟩ := hstart h
      exact Nat.zero_le _
    left := fun h => by cases h
    first := fun h => by
      obtain ⟨cfg,rfl⟩ := hstart h
      rfl
    total := rfl
    stop := fun h => by cases h }

/-- A stage after something, or nothing, was put into its queue. -/
def StageState.receive (st : StageState α) : Option α → StageState α
  | none => st
  | some r => st.push (some r)

theorem receive_ends (st : StageState α) (out : Option α) : (st.receive out).ends = st.ends := by
  cases out <;> rfl

theorem receive_cfg (st : StageState α) (out : Option α) : (st.receive out).cfg = st.cfg := by
  cases out <;> rfl

theorem receive_items (st : StageState α) (out : Option α) :
    (st.receive out).items = st.items ++ out.toList := by
  cases out
  · exact (List.append_nil _).symm
  · rfl

theorem receive_sent (st : StageState α) (out : Option α) : (st.receive out).sent = st.sent := by
  cases out <;> rfl

theorem feed_eq_modify (stages : List (StageState α)) (j : ℕ) (out : Option α) :
    feed stages j out = stages.modify j (·.receive out) := by
  cases out with
  | none => exact (List.modify_id j stages).symm
  | some r => rfl

section Steps

variable {s u : Sys α} {initialItems : List α}

/-- What became of each stage in a step of a worker of stage `i`. -/
theorem stages_worker {i j : ℕ} {st st' x : StageState α} {out : Option α}
    (hi : s.stages[i]? = some st)
    (h : (feed (s.stages.set i st') (i+1) out)[j]? = some x) :
    (j = i ∧ x = st') ∨ (j = i + 1 ∧ ∃ y, s.stages[j]? = some y ∧ x = y.receive out) ∨
      (j ≠ i ∧ j ≠ i + 1 ∧ s.stages[j]? = some x) := by
  rw [feed_eq_modify,List.getElem?_modify,List.getElem?_set] at h
  have hlt : i < s.stages.length := (List.getElem?_eq_some_iff.mp hi).1
  by_cases hj : j = i
  · subst hj
    simp only [Nat.succ_ne_self,if_false,if_true,hlt,Option.map_eq_map,Option.map_some,
      Option.some.injEq] at h
    exact .inl ⟨rfl,h.symm⟩
  · rw [if_neg (Ne.symm hj)] at h
    by_cases hj' : i + 1 = j
    · subst hj'
      simp only [if_true,Option.map_eq_map,Option.map_eq_some_iff] at h
      obtain ⟨y,hy,rfl⟩ := h
      exact .inr (.inl ⟨rfl,y,hy,rfl⟩)
    · simp only [hj',if_false,Option.map_eq_map,Option.map_id'] at h
      exact .inr (.inr ⟨hj,Ne.symm hj',h⟩)

theorem Inv.worker (hi : Inv initialItems s) {i w : ℕ} {a : WorkerAct α} {st st' : StageState α}
    {out : Option α} (hst : s.stages[i]? = some st)
    (h : stageStep (s.cancel || s.stop) (i + 1 < s.stages.length) st w a = some (st',out)) :
    Inv initialItems { s with stages := feed (s.stages.set i st') (i+1) out } := by
  have hlen : (feed (s.stages.set i st') (i+1) out).length = s.stages.length := by
    rw [feed_eq_modify,List.length_modify,List.length_set]
  obtain ⟨hcfg,hitems,hends⟩ := stageStep_frame h
  have hsent := stageStep_sent h
  -- a stage that sends something on is not complete
  have hquiet : i < s.main.reached s.stages.length → out = none ∧ st'.Complete := fun hr =>
    stageStep_complete h (hi.stages hst) (hi.complete hst hr)
  have hnext : ∀ {y}, s.stages[i+1]? = some y → y.receive out = y ∨ y.ends = 0 := by
    intro y hy
    by_cases hr : i < s.main.reached s.stages.length
    · rw [(hquiet hr).1]
      exact .inl rfl
    · exact .inr (hi.fresh hy (.inr (by omega)))
  have hstep : ∀ {j x}, (feed (s.stages.set i st') (i+1) out)[j]? = some x →
      (j = i ∧ x = st') ∨ (j = i + 1 ∧ ∃ y, s.stages[j]? = some y ∧ x = y.receive out) ∨
        (j ≠ i ∧ j ≠ i + 1 ∧ s.stages[j]? = some x) := stages_worker hst
  exact {
    stages := by
      intro j x hx
      show StageInv (s.cancel || s.stop) (j + 1 < List.length _) x
      rw [hlen]
      rcases hstep hx with ⟨rfl,rfl⟩ | ⟨rfl,y,hy,rfl⟩ | ⟨-,-,hx⟩
      · exact stageStep_keeps h (hi.stages hst)
      · rcases hnext hy with heq | h0
        · rw [heq]
          exact hi.stages hy
        · cases out with
          | none => exact hi.stages hy
          | some r => exact stageInv_pushItem (hi.stages hy) h0
      · exact hi.stages hx
    linked := by
      intro j x x' hx hx'
      rcases hstep hx with ⟨rfl,rfl⟩ | ⟨rfl,y,hy,rfl⟩ | ⟨hj,hj',hy⟩
      · rcases hstep hx' with ⟨hj,-⟩ | ⟨-,y,hy,rfl⟩ | ⟨-,hj,-⟩
        · omega
        · rw [receive_items,hi.linked hst hy,hsent]
        · exact absurd rfl hj
      · rcases hstep hx' with ⟨hj,-⟩ | ⟨hj,-⟩ | ⟨-,-,hx'⟩
        · omega
        · omega
        · rw [receive_sent]
          exact hi.linked hy hx'
      · rcases hstep hx' with ⟨hji,hxe⟩ | ⟨hji,-⟩ | ⟨-,-,hx'⟩
        · subst hji
          rw [hxe,hitems]
          exact hi.linked hy hst
        · omega
        · exact hi.linked hy hx'
    complete := by
      intro j x hx hr
      rw [hlen] at hr
      rcases hstep hx with ⟨rfl,rfl⟩ | ⟨rfl,y,hy,rfl⟩ | ⟨-,-,hx⟩
      · exact (hquiet hr).2
      · have hi' : i < s.main.reached s.stages.length := by
          have hr' : i + 1 < s.main.reached s.stages.length := hr
          omega
        rw [(hquiet hi').1]
        exact hi.complete hy hr
      · exact hi.complete hx hr
    fresh := by
      intro j x hx hr
      rw [hlen] at hr
      rcases hstep hx with ⟨rfl,rfl⟩ | ⟨rfl,y,hy,rfl⟩ | ⟨-,-,hx⟩
      · rw [hends]
        exact hi.fresh hst hr
      · rw [receive_ends]
        exact hi.fresh hy hr
      · exact hi.fresh hx hr
    ends_le := by
      intro j x hx
      rcases hstep hx with ⟨rfl,rfl⟩ | ⟨rfl,y,hy,rfl⟩ | ⟨-,-,hx⟩
      · rw [hends,hcfg]
        exact hi.ends_le hst
      · rw [receive_ends,receive_cfg]
        exact hi.ends_le hy
      · exact hi.ends_le hx
    left := by
      intro j k x hm hx
      rcases hstep hx with ⟨hj,rfl⟩ | ⟨-,y,hy,rfl⟩ | ⟨-,-,hx⟩
      · subst hj
        rw [hends,hcfg]
        exact hi.left hm hst
      · rw [receive_ends,receive_cfg]
        exact hi.left hm hy
      · exact hi.left hm hx
    first := by
      intro x hx
      rcases hstep hx with ⟨hj,rfl⟩ | ⟨hj,-⟩ | ⟨-,-,hx⟩
      · subst hj
        rw [hitems]
        exact hi.first hst
      · omega
      · exact hi.first hx
    total := hi.total
    stop := hi.stop }

/-! ## The steps of `run` -/

theorem Inv.cancelled (hi : Inv initialItems s) : Inv initialItems { s with cancel := true } :=
  { hi with stages := fun h => (hi.stages h).of_cancel }

/-- `run` goes on to `m` and touches no queue. -/
theorem Inv.goOn (hi : Inv initialItems s) (m : Main α) (b : Bool)
    (hb : b = true → m = .returned) (hsb : s.stop = true → b = true)
    (hrest : m.rest = s.main.rest)
    (hle : ∀ {i}, i < s.stages.length → m.reached s.stages.length < i →
      s.main.reached s.stages.length < i)
    (hc : ∀ {i st}, s.stages[i]? = some st → i < m.reached s.stages.length → st.Complete)
    (hl : ∀ {i k st}, m = .sentinels i k → s.stages[i+1]? = some st →
      st.ends + k = st.cfg.workerCount) :
    Inv initialItems { s with stop := b, main := m } :=
  { hi with
    stages := fun {i st} hst => by
      have h := hi.stages hst
      by_cases hs : s.stop = true
      · have h1 : (s.cancel || b) = (s.cancel || s.stop) := by rw [hsb hs,hs]
        show StageInv (s.cancel || b) _ st
        rw [h1]
        exact h
      · show StageInv (s.cancel || b) _ st
        cases hcb : (s.cancel || b) with
        | true => exact h.of_cancel
        | false =>
          have hcs : (s.cancel || s.stop) = false := by
            simp only [Bool.or_eq_false_iff] at hcb ⊢
            exact ⟨hcb.1,by simpa using hs⟩
          rw [hcs] at h
          exact h
    complete := hc
    fresh := fun {i st} hst hr =>
      hi.fresh hst (hr.imp_right (hle (List.getElem?_eq_some_iff.mp hst).1))
    left := hl
    first := fun hst => by
      show _ ++ m.rest = initialItems
      rw [hrest]
      exact hi.first hst
    stop := hb }

theorem modify_push {stages : List (StageState α)} {i j : ℕ} {e : Option α} {x : StageState α}
    (h : (stages.modify i (·.push e))[j]? = some x) :
    ∃ y, stages[j]? = some y ∧ x = if i = j then y.push e else y := by
  rw [List.getElem?_modify,Option.map_eq_map,Option.map_eq_some_iff] at h
  obtain ⟨y,hy,rfl⟩ := h
  exact ⟨y,hy,rfl⟩

theorem Inv.fill (hi : Inv initialItems s) {e : α} {rest : List α}
    (hm : s.main = .filling (e :: rest)) :
    Inv initialItems
      { s with stages := s.stages.modify 0 (·.push (some e)), main := .filling rest } := by
  have hr : s.main.reached s.stages.length = 0 := by rw [hm]; rfl
  have h0 : ∀ {j : ℕ} {y : StageState α}, s.stages[j]? = some y → y.ends = 0 := by
    intro j y hy
    refine hi.fresh hy ?_
    omega
  exact {
    stages := by
      intro j x hx
      obtain ⟨y,hy,rfl⟩ := modify_push hx
      show StageInv (s.cancel || s.stop) (j + 1 < (s.stages.modify 0 _).length) _
      rw [List.length_modify]
      split
      · exact stageInv_pushItem (hi.stages hy) (h0 hy)
      · exact hi.stages hy
    linked := by
      intro j x x' hx hx'
      obtain ⟨y,hy,rfl⟩ := modify_push hx
      obtain ⟨y',hy',rfl⟩ := modify_push hx'
      have h := hi.linked hy hy'
      split <;> exact h
    complete := fun _ hlt => absurd hlt (Nat.not_lt_zero _)
    fresh := by
      intro j x hx _
      obtain ⟨y,hy,rfl⟩ := modify_push hx
      have h := h0 hy
      split <;> exact h
    ends_le := by
      intro j x hx
      obtain ⟨y,hy,rfl⟩ := modify_push hx
      have h := hi.ends_le hy
      split <;> exact h
    left := fun h => by cases h
    first := by
      intro x hx
      obtain ⟨y,hy,rfl⟩ := modify_push hx
      have h := hi.first hy
      rw [hm] at h
      rw [if_pos rfl]
      show (y.items ++ [e]) ++ rest = initialItems
      rw [List.append_assoc]
      exact h
    total := hi.total
    stop := fun h => by
      have := hi.stop h
      rw [hm] at this
      cases this }

theorem Inv.mark (hi : Inv initialItems s) {i k : ℕ} (hm : s.main = .sentinels i (k+1)) :
    Inv initialItems
      { s with stages := s.stages.modify (i+1) (·.push none), main := .sentinels i k } := by
  have hr : s.main.reached s.stages.length = i + 1 := by rw [hm]; rfl
  exact {
    stages := by
      intro j x hx
      obtain ⟨y,hy,rfl⟩ := modify_push hx
      show StageInv (s.cancel || s.stop) (j + 1 < (s.stages.modify (i+1) _).length) _
      rw [List.length_modify]
      split
      · exact stageInv_pushEnd (hi.stages hy)
      · exact hi.stages hy
    linked := by
      intro j x x' hx hx'
      obtain ⟨y,hy,rfl⟩ := modify_push hx
      obtain ⟨y',hy',rfl⟩ := modify_push hx'
      have h := hi.linked hy hy'
      split <;> split <;> exact h
    complete := by
      intro j x hx hlt
      obtain ⟨y,hy,rfl⟩ := modify_push hx
      have hlt' : j < i + 1 := hlt
      rw [if_neg (by omega)]
      exact hi.complete hy (by omega)
    fresh := by
      intro j x hx hj
      obtain ⟨y,hy,rfl⟩ := modify_push hx
      have hj' : j = 0 ∨ i + 1 < j := hj
      rw [if_neg (by omega)]
      exact hi.fresh hy (by omega)
    ends_le := by
      intro j x hx
      obtain ⟨y,hy,rfl⟩ := modify_push hx
      by_cases hj : i + 1 = j
      · subst hj
        rw [if_pos rfl]
        have h := hi.left hm hy
        show y.ends + 1 ≤ y.cfg.workerCount
        omega
      · rw [if_neg hj]
        exact hi.ends_le hy
    left := by
      intro j k' x hmain hx
      cases hmain
      obtain ⟨y,hy,rfl⟩ := modify_push hx
      have h := hi.left hm hy
      rw [if_pos rfl]
      show y.ends + 1 + k = y.cfg.workerCount
      omega
    first := by
      intro x hx
      obtain ⟨y,hy,rfl⟩ := modify_push hx
      have h := hi.first hy
      rw [hm] at h
      exact h
    total := hi.total
    stop := fun h => by
      have := hi.stop h
      rw [hm] at this
      cases this }

theorem Inv.not_stopped (hi : Inv initialItems s) (h : s.main ≠ .returned) : s.stop ≠ true :=
  fun hs => h (hi.stop hs)

theorem Inv.raise (hi : Inv initialItems s) (hs : s.stages = [])
    (hm : s.main ≠ .returned) : Inv initialItems { s with main := .raised } := by
  have hno : ∀ {i : ℕ} {st : StageState α}, s.stages[i]? ≠ some st := by
    intro i st h
    rw [hs] at h
    cases h
  exact { hi with
    complete := fun h => absurd h hno
    fresh := fun h => absurd h hno
    left := fun h => by cases h
    first := fun h => absurd h hno
    stop := fun h => absurd h (hi.not_stopped hm) }

/-- `run` has found stage `i` complete and now ends the stage after it. -/
theorem Inv.pass (hi : Inv initialItems s) {i : ℕ} {st : StageState α}
    (hm : s.main = .waiting i) (hst : s.stages[i]? = some st) (hc : st.Complete) :
    Inv initialItems { s with main := .sentinels i (markers s.stages i) } := by
  have hns := hi.not_stopped (by rw [hm]; exact fun h => by cases h)
  have hr : s.main.reached s.stages.length = i := by rw [hm]; rfl
  refine hi.goOn _ s.stop (fun h => absurd h hns) (fun h => h) (by rw [hm]; rfl) ?_ ?_ ?_
  · intro j _ hlt
    have hlt' : i + 1 < j := hlt
    omega
  · intro j x hx hlt
    by_cases hj : j = i
    · subst hj
      rw [hst,Option.some.injEq] at hx
      rw [← hx]
      exact hc
    · have hlt' : j < i + 1 := hlt
      exact hi.complete hx (by omega)
  · intro j k x hmain hx
    cases hmain
    have hends := hi.fresh hx (.inr (by omega))
    rw [hends,markers,hx,Nat.zero_add]

theorem mainStep_keeps (hi : Inv initialItems s) (h : mainStep s = some u) :
    Inv initialItems u := by
  cases hm : s.main with
  | filling rest =>
    have hne : s.main ≠ .returned := by rw [hm]; exact fun h => by cases h
    cases rest with
    | nil =>
      simp only [mainStep,hm,Option.some.injEq] at h
      subst h
      exact hi.goOn _ s.stop (fun h => absurd h (hi.not_stopped hne)) (fun h => h)
        (by rw [hm]; rfl) (by rw [hm]; exact fun _ h => h) (fun _ h => absurd h (Nat.not_lt_zero _))
        (fun h => by cases h)
    | cons e rest =>
      by_cases hs : s.stages = []
      · simp only [mainStep,hm,hs,if_true,Option.some.injEq] at h
        subst h
        have hraise := hi.raise hs hne
        rw [hs] at hraise
        exact hraise
      · simp only [mainStep,hm,hs,if_false,Option.some.injEq] at h
        subst h
        exact hi.fill hm
  | waiting i =>
    have hr : s.main.reached s.stages.length = i := by rw [hm]; rfl
    cases hst : s.stages[i]? with
    | none =>
      simp only [mainStep,hm,hst,Option.some.injEq] at h
      subst h
      have hlen : s.stages.length ≤ i := List.getElem?_eq_none_iff.mp hst
      refine hi.goOn .returned true (fun _ => rfl) (fun _ => rfl) (by rw [hm]; rfl) ?_ ?_ ?_
      · intro j hj hlt
        have hlt' : s.stages.length < j := hlt
        omega
      · intro j x hx _
        have hj := (List.getElem?_eq_some_iff.mp hx).1
        exact hi.complete hx (by omega)
      · intro j k x hmain
        cases hmain
    | some st =>
      have hinv := hi.stages hst
      simp only [mainStep,hm,hst] at h
      by_cases hi0 : i = 0
      · subst hi0
        by_cases ht : s.total ≤ st.done
        · simp only [ht,if_true,Option.some.injEq] at h
          subst h
          have hlen : st.items.length ≤ st.done := by
            have hf := congrArg List.length (hi.first hst)
            rw [List.length_append] at hf
            have := hi.total
            omega
          exact hi.pass hm hst (hinv.complete_of_done hlen)
        · simp only [ht,if_true,if_false,Option.some.injEq] at h
          rw [← h]
          exact hi
      · by_cases hu : st.unfinished = 0
        · simp only [hi0,hu,if_true,if_false,Option.some.injEq] at h
          subst h
          exact hi.pass hm hst (hinv.complete_of_join hu)
        · simp only [hi0,hu,if_false,reduceCtorEq] at h
  | sentinels i k =>
    cases k with
    | zero =>
      simp only [mainStep,hm,Option.some.injEq] at h
      subst h
      have hns := hi.not_stopped (by rw [hm]; exact fun h => by cases h)
      have hr : s.main.reached s.stages.length = i + 1 := by rw [hm]; rfl
      refine hi.goOn (.waiting (i+1)) s.stop (fun h => absurd h hns) (fun h => h)
        (by rw [hm]; rfl) (by rw [hr]; exact fun _ h => h) (fun {j x} hx hlt => ?_)
        (fun h => by cases h)
      have hlt' : j < i + 1 := hlt
      exact hi.complete hx (by omega)
    | succ k =>
      simp only [mainStep,hm,Option.some.injEq] at h
      subst h
      exact hi.mark hm
  | returned => simp [mainStep,hm] at h
  | raised => simp [mainStep,hm] at h

/-- The cases of `mainStep`: it fills the first queue, ends a stage, or touches no queue and
then, unless there is no stage, the workers run. -/
theorem mainStep_cases (h : mainStep s = some u) :
    (∃ e rest, s.main = .filling (e :: rest) ∧ u = { s with
      stages := s.stages.modify 0 (·.push (some e)), main := .filling rest }) ∨
    (∃ i k, s.main = .sentinels i (k+1) ∧ u = { s with
      stages := s.stages.modify (i+1) (·.push none), main := .sentinels i k }) ∨
    (u.stages = s.stages ∧ u.total = s.total ∧ u.cancel = s.cancel ∧
      (u.main.started = true ∨ s.stages = [])) := by
  cases hm : s.main with
  | filling rest =>
    cases rest with
    | nil =>
      simp only [mainStep,hm,Option.some.injEq] at h
      subst h
      exact .inr (.inr ⟨rfl,rfl,rfl,.inl rfl⟩)
    | cons e rest =>
      by_cases hs : s.stages = []
      · simp only [mainStep,hm,hs,if_true,Option.some.injEq] at h
        subst h
        exact .inr (.inr ⟨hs.symm,rfl,rfl,.inr hs⟩)
      · simp only [mainStep,hm,hs,if_false,Option.some.injEq] at h
        exact .inl ⟨e,rest,rfl,h.symm⟩
  | waiting i =>
    have hstart : s.main.started = true := by rw [hm]; rfl
    cases hst : s.stages[i]? with
    | none =>
      simp only [mainStep,hm,hst,Option.some.injEq] at h
      subst h
      exact .inr (.inr ⟨rfl,rfl,rfl,.inl rfl⟩)
    | some st =>
      simp only [mainStep,hm,hst] at h
      split at h
      · split at h <;> simp only [Option.some.injEq] at h <;> subst h
        · exact .inr (.inr ⟨rfl,rfl,rfl,.inl rfl⟩)
        · exact .inr (.inr ⟨rfl,rfl,rfl,.inl hstart⟩)
      · split at h
        · simp only [Option.some.injEq] at h
          subst h
          exact .inr (.inr ⟨rfl,rfl,rfl,.inl rfl⟩)
        · cases h
  | sentinels i k =>
    cases k with
    | zero =>
      simp only [mainStep,hm,Option.some.injEq] at h
      subst h
      exact .inr (.inr ⟨rfl,rfl,rfl,.inl rfl⟩)
    | succ k =>
      simp only [mainStep,hm,Option.some.injEq] at h
      exact .inr (.inl ⟨i,k,rfl,h.symm⟩)
  | returned => simp [mainStep,hm] at h
  | raised => simp [mainStep,hm] at h

/-- The cases of `step`, with the stage of a worker's step. -/
theorem step_cases {a : Act α} (h : step s a = some u) :
    (a = .main ∧ mainStep s = some u) ∨ (a = .cancel ∧ u = { s with cancel := true }) ∨
    (∃ i w b st st' out, a = .worker i w b ∧ s.main.started = true ∧ s.stages[i]? = some st ∧
      stageStep (s.cancel || s.stop) (i + 1 < s.stages.length) st w b = some (st',out) ∧
      u = { s with stages := feed (s.stages.set i st') (i+1) out }) := by
  cases a with
  | main => exact .inl ⟨rfl,h⟩
  | cancel =>
    simp only [step,Option.some.injEq] at h
    exact .inr (.inl ⟨rfl,h.symm⟩)
  | worker i w b =>
    simp only [step] at h
    split at h
    · rename_i hs
      split at h
      · cases h
      · rename_i st hst
        rw [Option.map_eq_some_iff] at h
        obtain ⟨⟨st',out⟩,hstep,rfl⟩ := h
        exact .inr (.inr ⟨i,w,b,st,st',out,rfl,hs,hst,hstep,rfl⟩)
    · cases h

theorem step_keeps (hi : Inv initialItems s) {a : Act α} (h : step s a = some u) :
    Inv initialItems u := by
  rcases step_cases h with ⟨-,h⟩ | ⟨-,rfl⟩ | ⟨i,w,b,st,st',out,-,-,hst,hstep,rfl⟩
  · exact mainStep_keeps hi h
  · exact hi.cancelled
  · exact hi.worker hst hstep

theorem step_frame {a : Act α} (h : step s a = some u) :
    u.stages.length = s.stages.length ∧ u.total = s.total ∧
      (s.cancel = true → u.cancel = true) := by
  rcases step_cases h with ⟨-,h⟩ | ⟨-,rfl⟩ | ⟨i,w,b,st,st',out,-,-,-,-,rfl⟩
  · rcases mainStep_cases h with ⟨e,rest,-,rfl⟩ | ⟨i,k,-,rfl⟩ | ⟨hs,ht,hc,-⟩
    · exact ⟨List.length_modify _ _ _,rfl,fun hc => hc⟩
    · exact ⟨List.length_modify _ _ _,rfl,fun hc => hc⟩
    · rw [hs,ht,hc]
      exact ⟨rfl,rfl,fun hc => hc⟩
  · exact ⟨rfl,rfl,fun _ => rfl⟩
  · refine ⟨?_,rfl,fun hc => hc⟩
    show (feed (s.stages.set i st') (i+1) out).length = _
    rw [feed_eq_modify,List.length_modify,List.length_set]

/-- Every state of every run meets the invariant. -/
theorem run_keeps {tr : List (Event (Sys α) (Act α))} (hi : Inv initialItems s)
    (h : Run step s tr u) : Inv initialItems u :=
  h.invariant (J := fun _ u => Inv initialItems u) (along_forall.mpr fun _ _ => trivial) hi
    fun _ _ _ _ hj _ hs => step_keeps hj hs

/-- Only steps of worker threads. -/
def WorkersOnly (tr : List (Event (Sys α) (Act α))) : Prop :=
  ∀ e ∈ tr, ∃ i w a, e.act = .worker i w a

/-- What the workers of stage `i` can do by themselves is a run of the pipeline. -/
theorem lift_stageRun {i : ℕ} {st st' : StageState α}
    {tr : List (Event (StageState α) (ℕ × WorkerAct α))}
    (hstart : s.main.started = true) (hc : (s.cancel || s.stop) = false)
    (hst : s.stages[i]? = some st)
    (h : Run (stageRun (decide (i + 1 < s.stages.length))) st tr st') :
    ∃ tr' u, Run step s tr' u ∧ (∀ e ∈ tr', ∃ w a, e.act = .worker i w a ∧ a ≠ .raises) ∧
      u.main = s.main ∧ u.total = s.total ∧ (u.cancel || u.stop) = false ∧
      u.stages.length = s.stages.length ∧ u.stages[i]? = some st' := by
  induction h with
  | refl => exact ⟨[],s,.refl,fun _ he => absurd he List.not_mem_nil,rfl,rfl,hc,rfl,hst⟩
  | @next tr t a v _ hs ih =>
    obtain ⟨tr',u,hr,hw,hm,ht,hcu,hlen,hu⟩ := ih
    obtain ⟨ha,out,hstep⟩ := stageRun_eq_some.mp hs
    have hlt : i < u.stages.length := (List.getElem?_eq_some_iff.mp hu).1
    have hone : step u (.worker i a.1 a.2) =
        some { u with stages := feed (u.stages.set i v) (i+1) out } := by
      have hs' : u.main.started = true := by rw [hm]; exact hstart
      simp only [step,hs',if_true,hu,hcu,hlen,hstep,Option.map_some]
    refine ⟨_,_,.next hr hone,?_,hm,ht,hcu,?_,?_⟩
    · intro e he
      rcases List.mem_cons.mp he with rfl | he
      · exact ⟨a.1,a.2,rfl,ha⟩
      · exact hw e he
    · show (feed (u.stages.set i v) (i+1) out).length = _
      rw [feed_eq_modify,List.length_modify,List.length_set]
      exact hlen
    · show (feed (u.stages.set i v) (i+1) out)[i]? = some v
      rw [feed_eq_modify,List.getElem?_modify,List.getElem?_set_self hlt]
      simp only [Nat.succ_ne_self,if_false,Option.map_eq_map,Option.map_some]

theorem stageRun_frame {hasNext : Bool} {st st' : StageState α}
    {tr : List (Event (StageState α) (ℕ × WorkerAct α))} (h : Run (stageRun hasNext) st tr st') :
    st'.items = st.items ∧ st'.failed = st.failed := by
  induction h with
  | refl => exact ⟨rfl,rfl⟩
  | next _ hs ih =>
    obtain ⟨ha,out,hstep⟩ := stageRun_eq_some.mp hs
    rw [← ih.1,← ih.2]
    exact ⟨(stageStep_frame hstep).2.1,stageStep_failed_eq hstep ha⟩

/-- Workers that are not cancelled can empty any stage's queue and finish what they took. -/
theorem Inv.drain (hi : Inv initialItems s) (hstart : s.main.started = true)
    (hc : (s.cancel || s.stop) = false) {i : ℕ} {st : StageState α}
    (hst : s.stages[i]? = some st) :
    ∃ tr u st', Run step s tr u ∧ (∀ e ∈ tr, ∃ w a, e.act = .worker i w a ∧ a ≠ .raises) ∧
      u.main = s.main ∧ u.total = s.total ∧ u.stages[i]? = some st' ∧ st'.Drained ∧
      st'.items = st.items ∧ st'.failed = st.failed := by
  have hinv := hi.stages hst
  rw [hc] at hinv
  obtain ⟨tr,st',hr,hd⟩ := hinv.drains (hi.ends_le hst)
  obtain ⟨tr',u,hru,hw,hm,ht,-,-,hu⟩ := lift_stageRun hstart hc hst hr
  obtain ⟨hitems,hf⟩ := stageRun_frame hr
  exact ⟨tr',u,st',hru,hw,hm,ht,hu,hd,hitems,hf⟩

theorem workersOnly_of_stage {i : ℕ} {tr : List (Event (Sys α) (Act α))}
    (h : ∀ e ∈ tr, ∃ w a, e.act = .worker i w a ∧ a ≠ .raises) : WorkersOnly tr := by
  intro e he
  obtain ⟨w,a,ha,-⟩ := h e he
  exact ⟨i,w,a,ha⟩

end Steps

/-! ## Conservation and completion -/

/-- Where the items and the results are. -/
structure Conserves (initialItems : List α) (s : Sys α) : Prop where
  entered : ∀ {st : StageState α}, s.stages[0]? = some st → s.main.started = true →
    st.items = initialItems
  handed : ∀ {i : ℕ} {st : StageState α}, s.stages[i]? = some st →
    (st.items : Multiset α) = st.queued + st.held + st.calls.flatten
  forwarded : ∀ {i : ℕ} {st st' : StageState α}, s.stages[i]? = some st →
    s.stages[i+1]? = some st' → (st.returned : Multiset α) = st'.items + st.unsent
  finished : s.main = .returned → ∀ {i : ℕ} {st : StageState α}, s.stages[i]? = some st →
    (st.items : Multiset α) = st.calls.flatten
  served : s.cancel = false → s.main.started = true →
    ∀ {i : ℕ} {st : StageState α}, s.stages[i]? = some st →
      ∃ tr u st', Run step s tr u ∧ WorkersOnly tr ∧ u.stages[i]? = some st' ∧
        st'.items = st.items ∧ (st'.items : Multiset α) = st'.calls.flatten

/-- Whoever meets an end marker finds nothing in the queue any more, and the stages before it
are complete. -/
def EndsAfterItems (s : Sys α) : Prop :=
  ∀ (i : ℕ) (st : StageState α), s.stages[i]? = some st → 0 < st.taken →
    st.queued = [] ∧ ∀ (j : ℕ) (x : StageState α), j < i → s.stages[j]? = some x → x.Complete

/-- The stronger order: nothing of the stage is in anybody's hands either. -/
def EndsAfterCalls (s : Sys α) : Prop :=
  ∀ (i : ℕ) (st : StageState α), s.stages[i]? = some st → 0 < st.taken → st.Complete

/-- `run` is in the loop on the counter, or in `join`, and has to stay there. -/
def Sys.Waits (s : Sys α) : Prop :=
  ∃ i, ∃ st : StageState α, s.main = .waiting i ∧ s.stages[i]? = some st ∧
    if i = 0 then st.done < s.total else st.unfinished ≠ 0

/-- The workers alone can end the wait. -/
def NotStuck (s : Sys α) : Prop :=
  s.Waits → ∃ tr u, Run step s tr u ∧ WorkersOnly tr ∧ ¬u.Waits

section Results

variable {s u : Sys α} {initialItems : List α}

theorem Inv.conserves (hi : Inv initialItems s) : Conserves initialItems s where
  entered := fun hst hs => by
    have h := hi.first hst
    have hrest : s.main.rest = [] := by
      cases hm : s.main with
      | filling rest => rw [hm] at hs; cases hs
      | _ => rfl
    rw [hrest,List.append_nil] at h
    exact h
  handed := fun hst => (hi.stages hst).handed
  forwarded := fun {i st st'} hst hst' => by
    have hlt := (List.getElem?_eq_some_iff.mp hst').1
    rw [hi.linked hst hst']
    exact (hi.stages hst).forwarded (by simpa using hlt)
  finished := fun hm {i st} hst => by
    have hlt := (List.getElem?_eq_some_iff.mp hst).1
    refine (hi.stages hst).items_eq_calls (hi.complete hst ?_)
    rw [hm]
    exact hlt
  served := fun hc hs {i st} hst => by
    by_cases hstop : s.stop = true
    · have hm := hi.stop hstop
      have hlt := (List.getElem?_eq_some_iff.mp hst).1
      have hcomp : st.Complete := hi.complete hst (by rw [hm]; exact hlt)
      exact ⟨[],s,st,.refl,fun _ he => absurd he List.not_mem_nil,hst,rfl,
        (hi.stages hst).items_eq_calls hcomp⟩
    · have hcs : (s.cancel || s.stop) = false := by
        rw [hc]
        simpa using hstop
      obtain ⟨tr,u,st',hr,hw,-,-,hu,hd,hitems,-⟩ := hi.drain hs hcs hst
      exact ⟨tr,u,st',hr,workersOnly_of_stage hw,hu,hitems,
        ((run_keeps hi hr).stages hu).items_eq_calls (Drained.complete hd)⟩

theorem Inv.endsAfterItems (hi : Inv initialItems s) : EndsAfterItems s := by
  intro i st hst ht
  have hinv := hi.stages hst
  refine ⟨hinv.drained ht,fun j x hj hx => hi.complete hx ?_⟩
  have hends : st.ends ≠ 0 := by
    have := hinv.taken_le
    omega
  have hfresh : ¬(i = 0 ∨ s.main.reached s.stages.length < i) := fun h => hends (hi.fresh hst h)
  omega

/-- The counter of the first stage reaches the total when no call has raised. -/
theorem Inv.all_done (hi : Inv initialItems s) (hs : s.main.started = true) {st : StageState α}
    (hst : s.stages[0]? = some st) (hc : st.Complete) (hf : st.failed = 0) :
    s.total ≤ st.done := by
  have hcount := (hi.stages hst).counted
  rw [hi.conserves.entered hst hs,hf,hc.1,hc.2,← hi.total] at hcount
  simp only [List.length_nil] at hcount
  omega

/-- The end of the wait stays in reach while the first stage has lost no item. -/
theorem Inv.notStuck (hi : Inv initialItems s) (hc : s.cancel = false)
    (hf : ∀ {st : StageState α}, s.stages[0]? = some st → st.failed = 0) : NotStuck s := by
  rintro ⟨i,st,hm,hst,-⟩
  have hstop : s.stop = false := by
    have := hi.not_stopped (by rw [hm]; exact fun h => by cases h)
    simpa using this
  have hstart : s.main.started = true := by rw [hm]; rfl
  obtain ⟨tr,u,st',hr,hw,hmu,-,hu,hd,-,hfu⟩ := hi.drain hstart (by rw [hc,hstop]; rfl) hst
  refine ⟨tr,u,hr,workersOnly_of_stage hw,?_⟩
  rintro ⟨j,x,hj,hx,hwait⟩
  have hinv := (run_keeps hi hr).stages hu
  rw [hmu,hm] at hj
  cases hj
  rw [hu] at hx
  cases hx
  by_cases hi0 : i = 0
  · subst hi0
    rw [if_pos rfl] at hwait
    have hdone := (run_keeps hi hr).all_done (by rw [hmu]; exact hstart) hu
      (Drained.complete hd) (hfu.trans (hf hst))
    omega
  · rw [if_neg hi0] at hwait
    apply hwait
    rw [hinv.account,hd.1,Drained.owes_eq_zero hd]
    rfl

end Results

/-- In every run of every pipeline: items and results are conserved, end markers come after
the items, and `run` is not stuck while no call of the first stage has raised and nothing is
cancelled. -/
theorem conservation_and_completion {cfgs : List StageCfg} {initialItems : List α}
    {tr : List (Event (Sys α) (Act α))} {u : Sys α}
    (h : Run step (init cfgs initialItems) tr u) :
    Conserves initialItems u ∧ EndsAfterItems u ∧
      (u.cancel = false → (∀ st, u.stages[0]? = some st → st.failed = 0) → NotStuck u) := by
  have hi : Inv initialItems u := run_keeps (inv_init cfgs initialItems) h
  exact ⟨hi.conserves,hi.endsAfterItems,fun hc hf => hi.notStuck hc fun hst => hf _ hst⟩

/-- `run` waits while a worker has the only item in its hands. -/
theorem item_taken_is_conserved : ∃ tr u, Run step (init [stageOf 1 1] [0]) tr u ∧ u.Waits ∧
    Conserves [0] u ∧ EndsAfterItems u ∧ NotStuck u := by
  obtain ⟨tr,u,hr,hp⟩ := exists_run_of_replay step (init [stageOf 1 1] [0])
    [.main,.main,.worker 0 0 .test,.worker 0 0 .get]
    (p := fun _ u => !u.cancel && decide (u.main = .waiting 0) && u.total == 1 &&
      u.stages.map StageState.done == [0] && u.stages.map StageState.failed == [0])
    (by decide +kernel)
  simp only [Bool.and_eq_true,Bool.not_eq_true',beq_iff_eq,decide_eq_true_eq] at hp
  obtain ⟨⟨⟨⟨hc,hm⟩,ht⟩,hd⟩,hf⟩ := hp
  obtain ⟨st,rest,hst,hd0,hrest⟩ := List.map_eq_cons_iff.mp hd
  rw [hst,List.map_cons,List.cons.injEq] at hf
  have h0 : u.stages[0]? = some st := by rw [hst]; rfl
  obtain ⟨hcons,hends,hns⟩ := conservation_and_completion hr
  refine ⟨tr,u,hr,⟨0,st,hm,h0,?_⟩,hcons,hends,hns hc fun x hx => ?_⟩
  · rw [if_pos rfl]
    omega
  · rw [h0] at hx
    cases hx
    exact hf.1

section Stuck

variable {s u : Sys α} {initialItems : List α} {tr : List (Event (Sys α) (Act α))}

/-- Lost items stay lost: `failed` of a stage never shrinks under steps of workers, and `run`
does not move. -/
theorem failed_run (h : Run step s tr u) (hw : WorkersOnly tr) {st : StageState α}
    (hst : s.stages[0]? = some st) :
    u.main = s.main ∧ u.total = s.total ∧
      ∃ st', u.stages[0]? = some st' ∧ st.failed ≤ st'.failed := by
  induction h with
  | refl => exact ⟨rfl,rfl,st,hst,le_refl _⟩
  | @next tr t a v _ hs ih =>
    obtain ⟨hm,ht,x,hx,hle⟩ := ih fun e he => hw e (List.mem_cons_of_mem _ he)
    obtain ⟨i,w,b,rfl⟩ := hw ⟨t,a,v⟩ List.mem_cons_self
    rcases step_cases hs with ⟨ha,-⟩ | ⟨ha,-⟩ | ⟨j,w',b',y,y',out,-,-,hy,hstep,rfl⟩
    · cases ha
    · cases ha
    · refine ⟨hm,ht,?_⟩
      have hlt : j < t.stages.length := (List.getElem?_eq_some_iff.mp hy).1
      by_cases hj : j = 0
      · subst hj
        rw [hx] at hy
        cases hy
        refine ⟨y',?_,hle.trans (stageStep_failed hstep)⟩
        show (feed (t.stages.set 0 y') 1 out)[0]? = some y'
        rw [feed_eq_modify,List.getElem?_modify,List.getElem?_set_self hlt]
        rfl
      · refine ⟨x,?_,hle⟩
        show (feed (t.stages.set j y') (j+1) out)[0]? = some x
        rw [feed_eq_modify,List.getElem?_modify,List.getElem?_set_ne hj,hx]
        rfl

/-- Once a call of the first stage has raised, the loop on the counter never ends. -/
theorem Inv.stuck (hi : Inv initialItems s) (hm : s.main = .waiting 0) {st : StageState α}
    (hst : s.stages[0]? = some st) (hf : 0 < st.failed) : ¬NotStuck s := by
  have hwaits : ∀ {tr : List (Event (Sys α) (Act α))} {v : Sys α},
      Run step s tr v → WorkersOnly tr → v.Waits := by
    intro tr v hr hw
    obtain ⟨hmv,htv,st',hst',hle⟩ := failed_run hr hw hst
    refine ⟨0,st',by rw [hmv,hm],hst',?_⟩
    have hv := run_keeps hi hr
    have hcount := (hv.stages hst').counted
    have hentered := hv.conserves.entered hst' (by rw [hmv,hm]; rfl)
    rw [hentered,← hi.total] at hcount
    rw [if_pos rfl,htv]
    omega
  intro hns
  obtain ⟨tr,v,hr,hw,hno⟩ := hns (hwaits .refl fun _ he => absurd he List.not_mem_nil)
  exact hno (hwaits hr hw)

end Stuck

/-- One item of the second stage is taken; its second worker meets an end marker. -/
def earlyMarker : List (Act ℕ) :=
  [.main,.main,.worker 0 0 .test,.worker 0 0 .get,.worker 0 0 .call,.worker 0 0 (.returns [5]),
    .worker 0 0 .put,.worker 0 0 .count,.main,.main,.main,.worker 1 0 .test,.worker 1 0 .get,
    .worker 1 1 .test,.worker 1 1 .get]

/-- The only item of the only stage makes the processor raise. -/
def raisingCall : List (Act ℕ) :=
  [.main,.main,.worker 0 0 .test,.worker 0 0 .get,.worker 0 0 .call,.worker 0 0 .raises,
    .worker 0 0 .taskDone,.worker 0 0 .loop]

/-- A worker can meet an end marker while another still has an item of the stage, and a call
that raises leaves `run` waiting with all items taken. -/
theorem marker_before_last_call_and_raise_blocks :
    (∃ tr u, Run step (init [stageOf 1 1,stageOf 2 1] [0]) tr u ∧ u.cancel = false ∧
      ¬EndsAfterCalls u) ∧
    (∃ tr u, Run step (init [stageOf 1 1] [0]) tr u ∧ u.cancel = false ∧ ¬NotStuck u) := by
  constructor
  · obtain ⟨tr,u,hr,hp⟩ := exists_run_of_replay step (init [stageOf 1 1,stageOf 2 1] [0])
      earlyMarker (p := fun _ u => !u.cancel && u.stages.map StageState.taken == [0,1] &&
        u.stages.map StageState.inHand == [0,1]) (by decide +kernel)
    simp only [Bool.and_eq_true,Bool.not_eq_true',beq_iff_eq] at hp
    obtain ⟨⟨hc,ht⟩,hh⟩ := hp
    refine ⟨tr,u,hr,hc,fun hends => ?_⟩
    cases hst : u.stages[1]? with
    | none =>
      have hlen := List.getElem?_eq_none_iff.mp hst
      have h2 := congrArg List.length ht
      rw [List.length_map] at h2
      simp at h2
      omega
    | some st =>
      have ht1 : (u.stages.map StageState.taken)[1]? = some st.taken := by
        rw [List.getElem?_map,hst]
        rfl
      have hh1 : (u.stages.map StageState.inHand)[1]? = some st.inHand := by
        rw [List.getElem?_map,hst]
        rfl
      rw [ht] at ht1
      rw [hh] at hh1
      simp only [List.getElem?_cons_succ,List.getElem?_cons_zero,Option.some.injEq] at ht1 hh1
      have hcomp := (hends 1 st hst (by omega)).2
      omega
  · obtain ⟨tr,u,hr,hp⟩ := exists_run_of_replay step (init [stageOf 1 1] [0]) raisingCall
      (p := fun _ u => !u.cancel && decide (u.main = .waiting 0) &&
        u.stages.map StageState.failed == [1]) (by decide +kernel)
    simp only [Bool.and_eq_true,Bool.not_eq_true',beq_iff_eq,decide_eq_true_eq] at hp
    obtain ⟨⟨hc,hm⟩,hf⟩ := hp
    obtain ⟨st,rest,hst,hf1,-⟩ := List.map_eq_cons_iff.mp hf
    have h0 : u.stages[0]? = some st := by rw [hst]; rfl
    exact ⟨tr,u,hr,hc,(run_keeps (inv_init _ _) hr).stuck hm h0 (by omega)⟩

end StageQueue
end EntryAnalyse
