import EntryAnalyse.DebugSystem

/-! A finished report and the executions that have lost their claim. Nothing but the renewal is guarded
by the claim, so that the order of the steps decides: what holds while no execution commits after it
has been superseded. -/
namespace EntryAnalyse
namespace DebugSystem

open Runs ColumnWrite DebugReport

/-! ## The property -/

/-- What an observer knows: the execution whose claim was the last to go through and has been neither
cleared nor reset, and whether the holder of a claim has committed a terminal status. -/
structure View where
  holder : Option ℕ := none
  finished : Bool := false

def View.finish (v : View) (n : ℕ) (row : DebugRow) : View :=
  if v.holder = some n then { v with finished := v.finished || row.status.isTerminal } else v

def View.release (v : View) : View := { v with holder := none }

def observeExec (v : View) (n : ℕ) (u : Sys) : ExecAct → View
  | .claim _ => if (u.execs n).epoch.isSome then { v with holder := some n } else v
  | .finishCommit _ | .ensureCommit _ => v.finish n u.row
  | .clear => if v.holder = some n then v.release else v
  | _ => v

def observe (v : View) (e : Event Sys Act) : View :=
  match e.act with
  | .exec n a => observeExec v n e.post a
  | .startupReset =>
    if e.pre.row.status = .running ∧ e.pre.row.isDeleted = false then v.release else v
  | .stale .commit => v.release
  | _ => v

/-- The status and the result fields are left as they were. -/
def SameFinding (row row' : DebugRow) : Prop :=
  row'.status = row.status ∧ row'.result = row.result ∧ row'.finishedAt = row.finishedAt

def SameDispatch (row row' : DebugRow) : Prop :=
  row'.celeryTaskId = row.celeryTaskId ∧ row'.ownerPod = row.ownerPod ∧
    row'.leaseExpiresAt = row.leaseExpiresAt ∧ row'.executionEpoch = row.executionEpoch ∧
    row'.executionHeartbeatAt = row.executionHeartbeatAt ∧ row'.startedAt = row.startedAt

/-- A finished report stays finished, and an execution leaves alone what another one has claimed. -/
structure Guarded (v : View) (e : Event Sys Act) : Prop where
  finished : v.finished = true → SameFinding e.pre.row e.post.row
  fenced : ∀ n a m, e.act = .exec n a → (e.pre.execs n).epoch.isSome = true → m ≠ n →
    v.holder = some m → SameFinding e.pre.row e.post.row ∧ SameDispatch e.pre.row e.post.row

def Safe (tr : List (Event Sys Act)) (e : Event Sys Act) : Prop := Guarded (watch observe {} tr) e

/-! ## The order of the steps -/

/-- The execution holds the claim, or the report is neither claimed nor finished. -/
def View.mayWrite (v : View) (n : ℕ) : Prop :=
  v.holder = some n ∨ v.holder = none ∧ v.finished = false

/-- An execution comes to a commit only before it is superseded, the fallback does not find `skipped`,
and no heartbeat of the same pod still has the epoch that a claim takes. -/
def ExecOrdered (v : View) (s : Sys) (n : ℕ) : ExecAct → Prop
  | .runCommit | .finishCommit _ | .ensureCommit _ | .clear => v.mayWrite n
  | .move .ensureLoad => s.row.status ≠ .skipped
  | .claim _ => ∀ c, (s.execs n).stage = .selected c → ∀ m, m ≠ n → (s.execs m).beats = true →
      (s.execs m).pod = (s.execs n).pod → (s.execs m).epoch ≠ some c.newEpoch
  | _ => True

/-- Beyond that, the stale round does not come back from its revokes to a report that has been
finished meanwhile. -/
def StepOrdered (v : View) (s : Sys) : Act → Prop
  | .exec n a => ExecOrdered v s n a
  | .stale .commit => s.row.status.isTerminal = false
  | _ => True

def Ordered (tr : List (Event Sys Act)) (e : Event Sys Act) : Prop :=
  StepOrdered (watch observe {} tr) e.pre e.act

/-! ## What the statements do to the row -/

section Rows

variable {row l t : DebugRow} {e : Exec}

/-- The row bears the marks of no other claim than that of `e`. -/
def Marked (row : DebugRow) (e : Exec) : Prop :=
  (row.ownerPod = none ∨ row.ownerPod = some e.pod) ∧
    (row.executionEpoch = 0 ∨ e.epoch = some row.executionEpoch)

theorem SameFinding.refl (row : DebugRow) : SameFinding row row := ⟨rfl,rfl,rfl⟩

theorem sameFinding_flush (h : SameFinding l t) (row : DebugRow) :
    SameFinding row (DebugRow.flush l t row) := by
  obtain ⟨hstatus,hresult,hfinished⟩ := h
  refine ⟨?_,funext fun f => ?_,?_⟩
  · simp only [DebugRow.flush,hstatus,flushColumn_unassigned]
  · simp only [DebugRow.flush,hresult,flushColumn_unassigned]
  · simp only [DebugRow.flush,hfinished,flushColumn_unassigned]

theorem marked_flush (h : Marked row e)
    (howner : t.ownerPod = l.ownerPod ∨ t.ownerPod = none ∨ t.ownerPod = some e.pod)
    (hepoch : t.executionEpoch = l.executionEpoch ∨ t.executionEpoch = 0) :
    Marked (DebugRow.flush l t row) e := by
  constructor
  · rcases howner with hsame | hnew
    · simpa only [DebugRow.flush,hsame,flushColumn_unassigned] using h.1
    · simp only [DebugRow.flush]
      rcases flushColumn_eq_or l.ownerPod t.ownerPod row.ownerPod with heq | heq
      · rw [heq]
        exact h.1
      · rw [heq]
        exact hnew
  · rcases hepoch with hsame | hzero
    · simpa only [DebugRow.flush,hsame,flushColumn_unassigned] using h.2
    · simp only [DebugRow.flush]
      rcases flushColumn_eq_or l.executionEpoch t.executionEpoch row.executionEpoch with heq | heq
      · rw [heq]
        exact h.2
      · rw [heq]
        exact Or.inl hzero

theorem Marked.congr {row' : DebugRow} (h : Marked row e) (howner : row'.ownerPod = row.ownerPod)
    (hepoch : row'.executionEpoch = row.executionEpoch) : Marked row' e := by
  unfold Marked
  rw [howner,hepoch]
  exact h

theorem renew_eq_of_not_heldBy {owner : String} {epoch : ℕ} (h : ¬row.heldBy owner epoch)
    (now ttl : ℤ) : (renewDebugLease now ttl owner epoch row).1 = row := by
  unfold renewDebugLease
  rw [if_neg h]

theorem renew_keeps (now ttl : ℤ) (owner : String) (epoch : ℕ) (row : DebugRow) :
    (renewDebugLease now ttl owner epoch row).1.status = row.status ∧
      (renewDebugLease now ttl owner epoch row).1.ownerPod = row.ownerPod ∧
      (renewDebugLease now ttl owner epoch row).1.executionEpoch = row.executionEpoch := by
  unfold renewDebugLease
  split
  · exact ⟨rfl,rfl,rfl⟩
  · exact ⟨rfl,rfl,rfl⟩

theorem not_heldBy_of_terminal (h : row.status.isTerminal = true) (owner : String) (epoch : ℕ) :
    ¬row.heldBy owner epoch := by
  intro hheld
  rw [hheld.2.1] at h
  cases h

theorem knownTerminal_of_terminal (h : row.status.isTerminal = true) (hs : row.status ≠ .skipped) :
    knownTerminal row.status = true := by
  cases hstatus : row.status with
  | skipped => exact absurd hstatus hs
  | passed | failed | error => rfl
  | pending | running =>
    rw [hstatus] at h
    cases h

end Rows

/-! ## The invariant -/

/-- What the observer has seen is still so in the row and in the executions. -/
structure Inv (v : View) (row : DebugRow) (execs : ℕ → Exec) : Prop where
  unclaimed : ∀ n, (execs n).stage.beforeClaim = true → (execs n).epoch = none
  epoch_pos : ∀ n k, (execs n).epoch = some k → 0 < k
  terminal : v.finished = true → row.status.isTerminal = true
  past : v.finished = true → ∀ n, v.holder = some n → (execs n).stage.isPast = true
  marked : ∀ n, v.holder = some n → Marked row (execs n)
  distinct : ∀ n, v.holder = some n → ∀ m, m ≠ n → (execs m).beats = true →
    (execs m).pod = (execs n).pod → (execs m).epoch ≠ (execs n).epoch

section Invariant

variable {v : View} {row row' : DebugRow} {execs : ℕ → Exec} {n m : ℕ} {e : Exec}

/-- The row changes, and the executions do not. -/
theorem Inv.rewrite (h : Inv v row execs)
    (hterminal : v.finished = true → row'.status.isTerminal = true)
    (hmarked : ∀ n, v.holder = some n → Marked row' (execs n)) : Inv v row' execs :=
  ⟨h.unclaimed,h.epoch_pos,hterminal,h.past,hmarked,h.distinct⟩

theorem Inv.release (h : Inv v row execs)
    (hterminal : v.finished = true → row'.status.isTerminal = true) : Inv v.release row' execs where
  unclaimed := h.unclaimed
  epoch_pos := h.epoch_pos
  terminal := hterminal
  past := fun _ n hn => by cases hn
  marked := fun n hn => by cases hn
  distinct := fun n hn => by cases hn

/-- An execution goes on with its claim, and the row does not change. -/
theorem Inv.advance (h : Inv v row execs) (hpod : e.pod = (execs n).pod)
    (hepoch : e.epoch = (execs n).epoch) (hbeats : e.beats = true → (execs n).beats = true)
    (hbefore : e.stage.beforeClaim = true → (execs n).stage.beforeClaim = true)
    (hpast : v.finished = true → v.holder = some n → e.stage.isPast = true) :
    Inv v row (Function.update execs n e) := by
  have hkeep : ∀ k, (Function.update execs n e k).pod = (execs k).pod ∧
      (Function.update execs n e k).epoch = (execs k).epoch ∧
      ((Function.update execs n e k).beats = true → (execs k).beats = true) ∧
      ((Function.update execs n e k).stage.beforeClaim = true →
        (execs k).stage.beforeClaim = true) := by
    intro k
    rw [Function.update_apply]
    by_cases hk : k = n
    · rw [if_pos hk,hk]
      exact ⟨hpod,hepoch,hbeats,hbefore⟩
    · rw [if_neg hk]
      exact ⟨rfl,rfl,id,id⟩
  refine ⟨fun k hk => ?_,fun k p hp => ?_,h.terminal,fun hfin k hk => ?_,fun k hk => ?_,?_⟩
  · rw [(hkeep k).2.1]
    exact h.unclaimed k ((hkeep k).2.2.2 hk)
  · rw [(hkeep k).2.1] at hp
    exact h.epoch_pos k p hp
  · rw [Function.update_apply]
    by_cases hkn : k = n
    · rw [if_pos hkn]
      exact hpast hfin (hkn ▸ hk)
    · rw [if_neg hkn]
      exact h.past hfin k hk
  · unfold Marked
    rw [(hkeep k).1,(hkeep k).2.1]
    exact h.marked k hk
  · intro k hk j hj hbeat hpods
    rw [(hkeep j).2.1,(hkeep k).2.1]
    rw [(hkeep j).1,(hkeep k).1] at hpods
    exact h.distinct k hk j hj ((hkeep j).2.2.1 hbeat) hpods

/-- An execution becomes the holder of an unfinished report. -/
theorem Inv.claim (h : Inv v row execs) (hfin : v.finished = false)
    (hclaimed : e.stage.beforeClaim = false) (hpos : ∀ k, e.epoch = some k → 0 < k)
    (hmarked : Marked row' e) (hdistinct : ∀ m, m ≠ n → (execs m).beats = true →
      (execs m).pod = e.pod → (execs m).epoch ≠ e.epoch) :
    Inv { v with holder := some n } row' (Function.update execs n e) := by
  refine ⟨fun m hm => ?_,fun m k hk => ?_,fun hfin' => ?_,fun hfin' => ?_,fun m hm => ?_,?_⟩
  · rw [Function.update_apply] at hm ⊢
    by_cases hmn : m = n
    · rw [if_pos hmn,hclaimed] at hm
      cases hm
    · rw [if_neg hmn] at hm ⊢
      exact h.unclaimed m hm
  · rw [Function.update_apply] at hk
    by_cases hmn : m = n
    · rw [if_pos hmn] at hk
      exact hpos k hk
    · rw [if_neg hmn] at hk
      exact h.epoch_pos m k hk
  · exact absurd (hfin.symm.trans hfin') Bool.noConfusion
  · exact absurd (hfin.symm.trans hfin') Bool.noConfusion
  · obtain rfl : n = m := Option.some.inj hm
    rw [Function.update_self]
    exact hmarked
  · intro m hm j hj hbeats hpods
    obtain rfl : n = m := Option.some.inj hm
    rw [Function.update_of_ne hj] at hbeats hpods ⊢
    rw [Function.update_self] at hpods ⊢
    exact hdistinct j hj hbeats hpods

/-- The holder commits, and is past its writes. -/
theorem Inv.finish (h : Inv v row execs) (hpast : (execs n).stage.isPast = true) :
    Inv (v.finish n row) row execs := by
  unfold View.finish
  split
  · rename_i hn
    refine ⟨h.unclaimed,h.epoch_pos,fun hfin => ?_,fun _ k hk => ?_,h.marked,h.distinct⟩
    · rcases Bool.or_eq_true_iff.mp hfin with hfin | hterminal
      · exact h.terminal hfin
      · exact hterminal
    · obtain rfl : n = k := Option.some.inj (hn.symm.trans hk)
      exact hpast
  · exact h

/-- The renewal of an execution finds no claim of its own while another one holds the report. -/
theorem Inv.not_heldBy (h : Inv v row execs) (hm : v.holder = some m) (hne : m ≠ n)
    (hbeats : (execs n).beats = true) {k : ℕ} (hk : (execs n).epoch = some k) :
    ¬row.heldBy (execs n).pod k := by
  rintro ⟨-,-,howner,hepoch⟩
  obtain ⟨hpods,hepochs⟩ := h.marked m hm
  have hpod : (execs n).pod = (execs m).pod := by
    rcases hpods with hnone | hsome
    · rw [howner] at hnone
      cases hnone
    · exact Option.some.inj (howner.symm.trans hsome)
  have hsame : (execs n).epoch = (execs m).epoch := by
    rcases hepochs with hzero | hsome
    · have hpos := h.epoch_pos n k hk
      omega
    · rw [hk,hsome,hepoch]
  exact h.distinct m hm n hne.symm hbeats hpod hsame

/-- An execution that comes to a write in order finds the report unfinished. -/
theorem Inv.unfinished (h : Inv v row execs) (hw : v.mayWrite n)
    (hstage : (execs n).stage.isPast = false) : v.finished = false := by
  rcases hw with hn | ⟨-,hfin⟩
  · by_contra hfin
    have hpast := h.past (Bool.eq_true_of_not_eq_false hfin) n hn
    rw [hstage] at hpast
    cases hpast
  · exact hfin

theorem View.mayWrite.eq_of_holder (hw : v.mayWrite n) (hm : v.holder = some m) : m = n := by
  rcases hw with hn | ⟨hnone,-⟩
  · exact Option.some.inj (hm.symm.trans hn)
  · rw [hm] at hnone
    cases hnone

end Invariant

/-! ## Steps -/

/-- A step keeps what the observer relies on, and is guarded. -/
structure Kept (v : View) (e : Event Sys Act) : Prop where
  inv : Inv (observe v e) e.post.row e.post.execs
  guarded : Guarded v e

section Guards

variable {v : View} {s u : Sys} {a : Act} {n : ℕ}

theorem guarded_of_row_eq (h : u.row = s.row) : Guarded v ⟨s,a,u⟩ where
  finished := fun _ => by
    dsimp only
    rw [h]
    exact .refl _
  fenced := fun _ _ _ _ _ _ _ => by
    dsimp only
    rw [h]
    exact ⟨.refl _,rfl,rfl,rfl,rfl,rfl,rfl⟩

/-- A write in order is one of the holder. -/
theorem guarded_of_mayWrite {x : ExecAct} (hw : v.mayWrite n)
    (hfin : v.finished = true → SameFinding s.row u.row) : Guarded v ⟨s,.exec n x,u⟩ where
  finished := hfin
  fenced := fun k y m hact _ hne hm => by
    cases hact
    exact absurd (hw.eq_of_holder hm) hne

theorem guarded_of_sameFinding (ha : ∀ n x, a ≠ .exec n x)
    (h : v.finished = true → SameFinding s.row u.row) : Guarded v ⟨s,a,u⟩ where
  finished := h
  fenced := fun n x _ hact => absurd hact (ha n x)

end Guards

section Executions

variable {cfg : Settings} {v : View} {s : Sys} {n : ℕ} {e : Exec} {a : ExecAct} {l t : DebugRow}

theorem after_execs (cfg : Settings) (s : Sys) (n : ℕ) (r : Exec × Statement) :
    (s.after cfg n r).execs n = r.1 := Function.update_self _ _ _

/-- A step that sends nothing. -/
theorem kept_of_nothing
    (hobs : observeExec v n (s.after cfg n (e,.nothing)) a = v)
    (hinv : Inv v s.row (Function.update s.execs n e)) :
    Kept v ⟨s,.exec n a,s.after cfg n (e,.nothing)⟩ where
  inv := by
    have hview : observe v ⟨s,.exec n a,s.after cfg n (e,.nothing)⟩ = v := hobs
    rw [hview]
    exact hinv
  guarded := guarded_of_row_eq rfl

theorem move_kept {m : Move} {st : Stage} (h : Inv v s.row s.execs)
    (ho : ExecOrdered v s n (.move m)) (hm : (s.execs n).stage.move s.now s.row m = some st) :
    Kept v ⟨s,.exec n (.move m),s.after cfg n ({ s.execs n with stage := st },.nothing)⟩ := by
  refine kept_of_nothing rfl (h.advance rfl rfl id (beforeClaim_of_move hm) fun hfin hn => ?_)
  refine isPast_of_move hm (h.past hfin n hn) fun hensure => ?_
  subst hensure
  exact knownTerminal_of_terminal (h.terminal hfin) ho

/-- The renewal touches the row of its own claim only. -/
theorem renew_kept {k : ℕ} (h : Inv v s.row s.execs) (hlive : (s.execs n).live = true)
    (hbeating : (s.execs n).beating = true) (hk : (s.execs n).epoch = some k) (live : Bool) :
    Kept v ⟨s,.exec n .renew,
      s.after cfg n ({ s.execs n with live := live },.renew (s.execs n).pod k)⟩ := by
  have hbeats : (s.execs n).beats = true := by
    unfold Exec.beats
    rw [hlive,hbeating]
    rfl
  obtain ⟨hstatus,howner,hepoch⟩ :=
    renew_keeps s.now cfg.leaseTtl (s.execs n).pod k s.row
  have hadvance : Inv v s.row (Function.update s.execs n { s.execs n with live := live }) :=
    h.advance rfl rfl (fun _ => hbeats) id fun hfin hn => h.past hfin n hn
  have hmiss : ¬s.row.heldBy (s.execs n).pod k →
      (s.after cfg n ({ s.execs n with live := live },.renew (s.execs n).pod k)).row = s.row :=
    fun hnot => renew_eq_of_not_heldBy hnot s.now cfg.leaseTtl
  constructor
  · refine hadvance.rewrite (fun hfin => ?_) fun m hm => ?_
    · exact (congrArg DebugStatus.isTerminal hstatus).trans (h.terminal hfin)
    · exact (hadvance.marked m hm).congr howner hepoch
  · constructor
    · intro hfin
      have hrow := hmiss (not_heldBy_of_terminal (h.terminal hfin) _ _)
      dsimp only
      rw [hrow]
      exact .refl _
    · intro j x m hact _ hne hm
      cases hact
      have hrow := hmiss (h.not_heldBy hm hne hbeats hk)
      dsimp only
      rw [hrow]
      exact ⟨.refl _,rfl,rfl,rfl,rfl,rfl,rfl⟩

/-- The state of an execution that writes in order, before the observer has looked at the write. -/
theorem inv_of_write {st : Stage} (h : Inv v s.row s.execs) (hw : v.mayWrite n)
    (hstage : (s.execs n).stage.isPast = false) (hclaimed : st.beforeClaim = false)
    (howner : t.ownerPod = l.ownerPod ∨ t.ownerPod = some (s.execs n).pod)
    (hepoch : t.executionEpoch = l.executionEpoch) :
    Inv v (DebugRow.flush l t s.row) (Function.update s.execs n { s.execs n with stage := st }) := by
  have hfin := h.unfinished hw hstage
  have hadvance : Inv v s.row (Function.update s.execs n { s.execs n with stage := st }) := by
    refine h.advance rfl rfl id (fun hbefore => ?_) fun hfin' => ?_
    · rw [hclaimed] at hbefore
      cases hbefore
    · rw [hfin] at hfin'
      cases hfin'
  refine hadvance.rewrite (fun hfin' => ?_) fun m hm => ?_
  · rw [hfin] at hfin'
    cases hfin'
  · obtain rfl := hw.eq_of_holder hm
    refine marked_flush (hadvance.marked m hm) ?_ (Or.inl hepoch)
    rw [Function.update_self]
    exact howner.imp_right Or.inr

/-- A commit of the runner, or of the fallback. -/
theorem write_kept {st : Stage} (h : Inv v s.row s.execs) (hw : v.mayWrite n)
    (hstage : (s.execs n).stage.isPast = false) (hclaimed : st.beforeClaim = false)
    (howner : t.ownerPod = l.ownerPod ∨ t.ownerPod = some (s.execs n).pod)
    (hepoch : t.executionEpoch = l.executionEpoch)
    (hobs : ∀ u : Sys, observeExec v n u a = v ∨
      observeExec v n u a = v.finish n u.row ∧ st.isPast = true) :
    Kept v ⟨s,.exec n a,s.after cfg n ({ s.execs n with stage := st },.flush l t)⟩ := by
  have hinv := inv_of_write h hw hstage hclaimed howner hepoch
  refine ⟨?_,guarded_of_mayWrite hw fun hfin => ?_⟩
  · rcases hobs (s.after cfg n ({ s.execs n with stage := st },.flush l t)) with hview | hview
    · have hview' : observe v ⟨s,.exec n a,
          s.after cfg n ({ s.execs n with stage := st },.flush l t)⟩ = v := hview
      rw [hview']
      exact hinv
    · have hview' : observe v ⟨s,.exec n a,
          s.after cfg n ({ s.execs n with stage := st },.flush l t)⟩ = v.finish n _ := hview.1
      rw [hview']
      refine hinv.finish ?_
      rw [Function.update_self]
      exact hview.2
  · rw [h.unfinished hw hstage] at hfin
    cases hfin

theorem clear_kept (h : Inv v s.row s.execs) (hw : v.mayWrite n) :
    Kept v ⟨s,.exec n .clear,s.after cfg n ({ s.execs n with stage := .ended },.clear)⟩ := by
  have hadvance : Inv v s.row (Function.update s.execs n { s.execs n with stage := .ended }) :=
    h.advance rfl rfl id (fun hbefore => by cases hbefore) fun _ _ => rfl
  refine ⟨?_,guarded_of_mayWrite hw fun _ => ⟨rfl,rfl,rfl⟩⟩
  unfold observe observeExec
  dsimp only
  split
  · exact hadvance.release h.terminal
  · rename_i hn
    refine hadvance.rewrite h.terminal fun m hm => ?_
    exact absurd (hw.eq_of_holder hm ▸ hm) hn

/-- A claim that goes through. -/
theorem claim_kept {c : Candidate} {t deadline : ℤ} {row' : DebugRow} (h : Inv v s.row s.execs)
    (ho : ExecOrdered v s n (.claim t)) (hstage : (s.execs n).stage = .selected c)
    (hw : claimWrite c (s.execs n).pod deadline s.row = some row') :
    Kept v ⟨s,.exec n (.claim t),s.after cfg n
      ({ s.execs n with stage := .claimed, beating := true, epoch := some c.newEpoch },
        .claim c (s.execs n).pod deadline)⟩ := by
  obtain ⟨-,hexpected,-,howner,hepoch,-⟩ := claimWrite_eq_some hw
  have hnone : (s.execs n).epoch = none := by
    refine h.unclaimed n ?_
    rw [hstage]
    rfl
  have hfin : v.finished = false := by
    by_contra hfin
    have hterminal := h.terminal (Bool.eq_true_of_not_eq_false hfin)
    rw [hexpected,c.unfinished] at hterminal
    cases hterminal
  have hrow : (s.after cfg n
      ({ s.execs n with stage := .claimed, beating := true, epoch := some c.newEpoch },
        .claim c (s.execs n).pod deadline)).row = row' := by
    unfold Sys.after Sys.send Statement.apply
    dsimp only
    rw [hw]
    rfl
  have hview : observe v ⟨s,.exec n (.claim t),s.after cfg n
      ({ s.execs n with stage := .claimed, beating := true, epoch := some c.newEpoch },
        .claim c (s.execs n).pod deadline)⟩ = { v with holder := some n } := by
    refine if_pos ?_
    rw [after_execs]
    rfl
  constructor
  · rw [hview]
    dsimp only
    rw [hrow]
    refine h.claim hfin rfl (fun k hk => ?_) ⟨Or.inr howner,Or.inr ?_⟩ (ho c hstage)
    · cases hk
      exact Nat.succ_pos _
    · rw [hepoch]
  · constructor
    · intro hfin'
      exact absurd (hfin.symm.trans hfin') Bool.noConfusion
    · intro j x m hact hclaimed
      cases hact
      have hclaimed : (s.execs n).epoch.isSome = true := hclaimed
      rw [hnone] at hclaimed
      cases hclaimed

/-- A claim that another execution has overtaken. -/
theorem refused_kept {c : Candidate} {t : ℤ} (h : Inv v s.row s.execs)
    (hstage : (s.execs n).stage = .selected c) :
    Kept v ⟨s,.exec n (.claim t),s.after cfg n ({ s.execs n with stage := .ended },.nothing)⟩ := by
  have hnone : (s.execs n).epoch = none := by
    refine h.unclaimed n ?_
    rw [hstage]
    rfl
  refine kept_of_nothing (if_neg ?_)
    (h.advance rfl rfl id (fun hbefore => by cases hbefore) fun _ _ => rfl)
  rw [after_execs,hnone]
  exact Bool.noConfusion

theorem exec_kept {r : Exec × Statement} (h : Inv v s.row s.execs) (ho : ExecOrdered v s n a)
    (hs : execStep cfg s.now s.row (s.execs n) a = some r) :
    Kept v ⟨s,.exec n a,s.after cfg n r⟩ := by
  unfold execStep at hs
  split at hs
  swap
  · cases hs
  rename_i hlive
  cases a with
  | move m =>
    obtain ⟨st,hm,rfl⟩ := Option.map_eq_some_iff.mp hs
    exact move_kept h ho hm
  | claim t =>
    simp only [liveStep] at hs
    split at hs
    · rename_i c hstage
      obtain ⟨-,hs⟩ := Option.ite_none_right_eq_some.mp hs
      split at hs
      · rename_i hw
        obtain ⟨row',hw⟩ := Option.isSome_iff_exists.mp hw
        cases hs
        exact claim_kept h ho hstage hw
      · cases hs
        exact refused_kept h hstage
    · cases hs
  | renew =>
    simp only [liveStep] at hs
    split at hs
    · rename_i k hk
      obtain ⟨hbeating,rfl⟩ := guarded hs
      exact renew_kept h hlive hbeating hk _
    · cases hs
  | hush =>
    cases hs
    refine kept_of_nothing rfl (h.advance rfl rfl (fun hbeats => ?_) id fun hfin => h.past hfin n)
    exact absurd (Bool.and_eq_true_iff.mp hbeats).2 Bool.noConfusion
  | runCommit =>
    simp only [liveStep] at hs
    split at hs
    · rename_i l hstage
      cases hs
      refine write_kept h ho ?_ rfl (Or.inr rfl) rfl fun _ => Or.inl rfl
      rw [hstage]
      rfl
    · cases hs
  | finishCommit r =>
    simp only [liveStep] at hs
    split at hs
    · rename_i l hstage
      cases hs
      refine write_kept h ho ?_ rfl (Or.inl rfl) rfl fun _ => Or.inr ⟨rfl,rfl⟩
      rw [hstage]
      rfl
    · cases hs
  | ensureCommit err =>
    simp only [liveStep] at hs
    split at hs
    · rename_i l hstage
      cases hs
      refine write_kept h ho ?_ rfl (Or.inl rfl) rfl fun _ => Or.inr ⟨rfl,rfl⟩
      rw [hstage]
      rfl
    · cases hs
  | clear =>
    simp only [liveStep] at hs
    split at hs
    · rename_i hstage
      cases hs
      exact clear_kept h ho
    · cases hs
  | die =>
    cases hs
    refine kept_of_nothing rfl (h.advance rfl rfl (fun hbeats => ?_) id fun hfin => h.past hfin n)
    exact absurd (Bool.and_eq_true_iff.mp hbeats).1 Bool.noConfusion

end Executions

section Dispatcher

variable {cfg : Settings} {v : View} {s u : Sys} {a : Act} {l t : DebugRow}

theorem kept_of_row_eq (h : Inv v s.row s.execs) (hobs : observe v ⟨s,a,u⟩ = v)
    (hexecs : u.execs = s.execs) (hrow : u.row = s.row) : Kept v ⟨s,a,u⟩ where
  inv := by
    dsimp only
    rw [hobs,hexecs,hrow]
    exact h
  guarded := guarded_of_row_eq hrow

/-- A commit of the dispatcher that writes dispatch fields only. -/
theorem dispatch_kept (h : Inv v s.row s.execs) (ha : ∀ n x, a ≠ .exec n x)
    (hobs : observe v ⟨s,a,u⟩ = v) (hexecs : u.execs = s.execs)
    (hrow : u.row = DebugRow.flush l t s.row) (hsame : SameFinding l t)
    (howner : t.ownerPod = l.ownerPod ∨ t.ownerPod = none)
    (hepoch : t.executionEpoch = l.executionEpoch ∨ t.executionEpoch = 0) : Kept v ⟨s,a,u⟩ := by
  have hfinding : SameFinding s.row u.row := by
    rw [hrow]
    exact sameFinding_flush hsame _
  refine ⟨?_,guarded_of_sameFinding ha fun _ => hfinding⟩
  dsimp only
  rw [hobs,hexecs]
  refine h.rewrite (fun hfin => ?_) fun n hn => ?_
  · rw [hfinding.1]
    exact h.terminal hfin
  · rw [hrow]
    exact marked_flush (h.marked n hn) (howner.imp_right Or.inl) hepoch

theorem startupReset_kept (h : Inv v s.row s.execs) :
    Kept v ⟨s,.startupReset,s.send cfg .startupReset⟩ := by
  by_cases hreset : s.row.status = .running ∧ s.row.isDeleted = false
  · have hfin : v.finished = true → False := by
      intro hfin
      have hterminal := h.terminal hfin
      rw [hreset.1] at hterminal
      cases hterminal
    refine ⟨?_,guarded_of_sameFinding (fun _ _ hact => by cases hact) fun hf => (hfin hf).elim⟩
    have hobs : observe v ⟨s,.startupReset,s.send cfg .startupReset⟩ = v.release := if_pos hreset
    rw [hobs]
    exact h.release fun hf => (hfin hf).elim
  · exact kept_of_row_eq h (if_neg hreset) rfl (if_neg hreset)

theorem pump_kept {x : PumpAct} {r : PumpThread × Statement} (h : Inv v s.row s.execs)
    (hs : pumpStep s.row s.pump x = some r) :
    Kept v ⟨s,.pump x,{ s.send cfg r.2 with pump := r.1 }⟩ := by
  cases x with
  | read =>
    simp only [pumpStep] at hs
    split at hs
    · split at hs
      · cases hs
        exact kept_of_row_eq h rfl rfl rfl
      · cases hs
    · cases hs
  | publish cid =>
    simp only [pumpStep] at hs
    split at hs
    · cases hs
      exact kept_of_row_eq h rfl rfl rfl
    · cases hs
  | commit =>
    simp only [pumpStep] at hs
    split at hs
    · rename_i l cid hth
      cases hs
      exact dispatch_kept h (fun _ _ hact => by cases hact) rfl rfl rfl ⟨rfl,rfl,rfl⟩
        (Or.inl rfl) (Or.inl rfl)
    · cases hs
  | fail =>
    cases hs
    exact kept_of_row_eq h rfl rfl rfl

theorem stale_kept {x : StaleAct} {r : StaleThread × Statement} (h : Inv v s.row s.execs)
    (ho : StepOrdered v s (.stale x)) (hs : staleStep cfg s.now s.row s.stale x = some r) :
    Kept v ⟨s,.stale x,{ s.send cfg r.2 with stale := r.1 }⟩ := by
  cases x with
  | inspect ids =>
    simp only [staleStep] at hs
    split at hs
    · cases hs
      exact kept_of_row_eq h rfl rfl rfl
    · cases hs
  | read t =>
    simp only [staleStep] at hs
    split at hs
    · obtain ⟨-,hs⟩ := Option.ite_none_right_eq_some.mp hs
      split at hs <;> cases hs <;> exact kept_of_row_eq h rfl rfl rfl
    · cases hs
  | commit =>
    simp only [staleStep] at hs
    split at hs
    · rename_i ids l hth
      cases hs
      have hfin : v.finished = true → False := by
        intro hfin
        have hterminal := h.terminal hfin
        rw [show s.row.status.isTerminal = false from ho] at hterminal
        cases hterminal
      refine ⟨?_,guarded_of_sameFinding (fun _ _ hact => by cases hact) fun hf => (hfin hf).elim⟩
      exact h.release fun hf => (hfin hf).elim
    · cases hs
  | recoverRead =>
    simp only [staleStep] at hs
    split at hs
    · split at hs <;> cases hs <;> exact kept_of_row_eq h rfl rfl rfl
    · cases hs
  | recoverCommit =>
    simp only [staleStep] at hs
    split at hs
    · cases hs
      exact dispatch_kept h (fun _ _ hact => by cases hact) rfl rfl rfl ⟨rfl,rfl,rfl⟩
        (Or.inr rfl) (Or.inr rfl)
    · cases hs
  | abort =>
    cases hs
    exact kept_of_row_eq h rfl rfl rfl

theorem step_kept (h : Inv v s.row s.execs) (ho : StepOrdered v s a)
    (hs : step cfg s a = some u) : Kept v ⟨s,a,u⟩ := by
  cases a with
  | tick d =>
    cases hs
    exact kept_of_row_eq h rfl rfl rfl
  | exec n a =>
    obtain ⟨r,hr,rfl⟩ := Option.map_eq_some_iff.mp hs
    exact exec_kept h ho hr
  | startupReset =>
    cases hs
    exact startupReset_kept h
  | pump a =>
    obtain ⟨r,hr,rfl⟩ := Option.map_eq_some_iff.mp hs
    exact pump_kept h hr
  | stale a =>
    obtain ⟨r,hr,rfl⟩ := Option.map_eq_some_iff.mp hs
    exact stale_kept h ho hr

end Dispatcher

/-! ## Runs -/

theorem inv_start (now : ℤ) (row : DebugRow) (pods : ℕ → String) :
    Inv {} row (start now row pods).execs where
  unclaimed := fun _ _ => rfl
  epoch_pos := fun _ _ hk => by cases hk
  terminal := fun hfin => by cases hfin
  past := fun hfin => by cases hfin
  marked := fun _ hn => by cases hn
  distinct := fun _ hn => by cases hn

/-- In every run in that order, a finished report stays finished, and no execution changes a report
that another one has claimed. -/
theorem ordered_run_safe {cfg : Settings} {now : ℤ} {row : DebugRow} {pods : ℕ → String}
    {tr : List (Event Sys Act)} {u : Sys} (hr : Run (step cfg) (start now row pods) tr u)
    (ho : Along Ordered tr) : Along Safe tr := by
  refine hr.along_of_invariant (J := fun tr s => Inv (watch observe {} tr) s.row s.execs) ho
    (inv_start now row pods) ?_ ?_
  · exact fun tr t a v hj hord hs => (step_kept hj hord hs).inv
  · exact fun tr t a v hj hord hs => (step_kept hj hord hs).guarded

def found : Finding := ⟨.passed,fun _ => some "found",rfl⟩

def skipped : Finding := ⟨.skipped,fun _ => none,rfl⟩

/-- One pod for the first execution, another one for the rest. -/
def onPods (n : ℕ) : String := if n = 0 then "ea-0" else "ea-1"

/-- An execution is reset and superseded while it runs, and killed; the other one finishes. -/
theorem superseded_run_safe :
    ∃ tr u, Run (step {}) (start 0 {} onPods) tr u ∧ (watch observe {} tr).finished = true ∧
      u.row.status = .passed ∧ Along Safe tr := by
  have hrun : ∃ tr u, Run (step {}) (start 0 {} onPods) tr u ∧ Along Ordered tr ∧
      (watch observe {} tr).finished = true ∧ u.row.status = .passed := by
    refine ⟨_,_,.next (.next (.next (.next (.next (.next (.next (.next (.next (.next (.next (.next
      (.next (.next (.next .refl
      (a := .exec 0 (.move .select)) rfl) (a := .exec 0 (.claim 0)) rfl)
      (a := .stale (.inspect [])) rfl) (a := .stale (.read 0)) rfl) (a := .stale .commit) rfl)
      (a := .exec 1 (.move .select)) rfl) (a := .exec 1 (.claim 0)) rfl)
      (a := .exec 0 (.move .runLoad)) rfl) (a := .exec 0 .die) rfl)
      (a := .exec 1 (.move .runLoad)) rfl) (a := .exec 1 .runCommit) rfl)
      (a := .exec 1 (.move .finishLoad)) rfl) (a := .exec 1 (.finishCommit found)) rfl)
      (a := .exec 1 (.move .finish)) rfl) (a := .exec 1 .clear) rfl,?_,rfl,rfl⟩
    refine ⟨Or.inl rfl,trivial,Or.inl rfl,trivial,Or.inl rfl,trivial,trivial,trivial,?_,trivial,
      rfl,trivial,trivial,?_,trivial,trivial⟩
    · intro c _ m hm _ hpod
      by_cases hzero : m = 0
      · subst hzero
        exact absurd hpod (by decide)
      · simp [Sys.after,Sys.send,start,hm,hzero]
    · intro c _ m hm _ _
      simp [Sys.after,Sys.send,start,hm]
  obtain ⟨tr,u,hr,ho,hfin,hstatus⟩ := hrun
  exact ⟨tr,u,hr,hfin,hstatus,ordered_run_safe hr ho⟩

/-- The last step changes the status of a finished report. -/
def reopens : List (Event Sys Act) → Bool
  | [] => false
  | e :: tr =>
    (watch observe {} tr).finished && decide (e.post.row.status ≠ e.pre.row.status)

theorem not_safe_of_reopens {tr : List (Event Sys Act)} (h : reopens tr = true) :
    ¬Along Safe tr := by
  cases tr with
  | nil => cases h
  | cons e tr =>
    rintro ⟨hsafe,-⟩
    simp only [reopens,Bool.and_eq_true,decide_eq_true_eq] at h
    exact h.2 (hsafe.finished h.1).1

/-- With the last step the first execution changes the marks of the claim of the second. -/
def intrudes : List (Event Sys Act) → Bool
  | [] => false
  | e :: tr =>
    (match e.act with
      | .exec 0 _ => true
      | _ => false) &&
    (e.pre.execs 0).epoch.isSome && decide ((watch observe {} tr).holder = some 1) &&
    decide (e.post.row.executionEpoch ≠ e.pre.row.executionEpoch ∨
      e.post.row.leaseExpiresAt ≠ e.pre.row.leaseExpiresAt)

theorem not_safe_of_intrudes {tr : List (Event Sys Act)} (h : intrudes tr = true) :
    ¬Along Safe tr := by
  cases tr with
  | nil => cases h
  | cons e tr =>
    rintro ⟨hsafe,-⟩
    simp only [intrudes,Bool.and_eq_true,decide_eq_true_eq] at h
    obtain ⟨⟨⟨hact,hclaimed⟩,hholder⟩,hchanged⟩ := h
    split at hact
    · rename_i a heq
      obtain ⟨-,-,-,hlease,hepoch,-⟩ := hsafe.fenced 0 a 1 heq hclaimed one_ne_zero hholder
      exact hchanged.elim (fun hne => hne hepoch) fun hne => hne hlease
    · cases hact

/-- The first execution claims the report, the stale round resets it, and the second claims it. -/
def superseded : List Act :=
  [.exec 0 (.move .select),.exec 0 (.claim 0),.stale (.inspect []),.stale (.read 0),.stale .commit,
    .exec 1 (.move .select),.exec 1 (.claim 0)]

/-- What an execution does until it has loaded the report to finish it. -/
def untilFinish (n : ℕ) : List Act :=
  [.exec n (.move .runLoad),.exec n .runCommit,.exec n (.move .finishLoad)]

/-- The superseded execution finishes a finished report again, and clears or renews the claim of the
other one; the stale round reopens a report that was finished after its read; and an exception after
`skipped` turns it into `error`. -/
theorem disordered_runs :
    (∃ tr u, Run (step {}) (start 0 {} onPods) tr u ∧ ¬Along Safe tr) ∧
    (∃ tr u, Run (step {}) (start 0 {} onPods) tr u ∧ u.row.ownerPod = none ∧ ¬Along Safe tr) ∧
    (∃ tr u, Run (step {}) (start 0 {} fun _ => "ea-0") tr u ∧ u.row.leaseExpiresAt = some 105 ∧
      ¬Along Safe tr) ∧
    (∃ tr u, Run (step {}) (start 0 {} onPods) tr u ∧ u.row.status = .pending ∧ ¬Along Safe tr) ∧
    (∃ tr u, Run (step {}) (start 0 {} onPods) tr u ∧ u.row.status = .error ∧ ¬Along Safe tr) := by
  refine ⟨?_,?_,?_,?_,?_⟩
  · obtain ⟨tr,u,hr,hp⟩ := exists_run_of_replay (step {}) (start 0 {} onPods)
      (p := fun tr _ => reopens tr)
      (superseded ++ untilFinish 0 ++ untilFinish 1 ++
        [.exec 1 (.finishCommit found),.exec 0 (.finishCommit skipped)]) (by decide)
    exact ⟨tr,u,hr,not_safe_of_reopens hp⟩
  · obtain ⟨tr,u,hr,hp⟩ := exists_run_of_replay (step {}) (start 0 {} onPods)
      (p := fun tr u => intrudes tr && u.row.ownerPod == none)
      (superseded ++ [.exec 0 (.move .raise),.exec 0 (.move .giveUp),.exec 0 .clear])
      (by decide +kernel)
    obtain ⟨hintrudes,howner⟩ := Bool.and_eq_true_iff.mp hp
    exact ⟨tr,u,hr,beq_iff_eq.mp howner,not_safe_of_intrudes hintrudes⟩
  · obtain ⟨tr,u,hr,hp⟩ := exists_run_of_replay (step {}) (start 0 {} fun _ => "ea-0")
      (p := fun tr u => intrudes tr && u.row.leaseExpiresAt == some 105)
      (superseded ++ [.tick 15,.exec 0 .renew]) (by decide +kernel)
    obtain ⟨hintrudes,hlease⟩ := Bool.and_eq_true_iff.mp hp
    exact ⟨tr,u,hr,beq_iff_eq.mp hlease,not_safe_of_intrudes hintrudes⟩
  · obtain ⟨tr,u,hr,hp⟩ := exists_run_of_replay (step {}) (start 0 {} onPods)
      (p := fun tr u => reopens tr && u.row.status == .pending)
      ([.exec 0 (.move .select),.exec 0 (.claim 0)] ++ untilFinish 0 ++
        [.stale (.inspect []),.stale (.read 0),.exec 0 (.finishCommit found),.stale .commit])
      (by decide +kernel)
    obtain ⟨hreopens,hstatus⟩ := Bool.and_eq_true_iff.mp hp
    exact ⟨tr,u,hr,beq_iff_eq.mp hstatus,not_safe_of_reopens hreopens⟩
  · obtain ⟨tr,u,hr,hp⟩ := exists_run_of_replay (step {}) (start 0 {} onPods)
      (p := fun tr u => reopens tr && u.row.status == .error)
      ([.exec 0 (.move .select),.exec 0 (.claim 0)] ++ untilFinish 0 ++
        [.exec 0 (.finishCommit skipped),.exec 0 (.move .raise),.exec 0 (.move .ensureLoad),
          .exec 0 (.ensureCommit "x")])
      (by decide +kernel)
    obtain ⟨hreopens,hstatus⟩ := Bool.and_eq_true_iff.mp hp
    exact ⟨tr,u,hr,beq_iff_eq.mp hstatus,not_safe_of_reopens hreopens⟩

end DebugSystem
end EntryAnalyse
