import EntryAnalyse.ExecutionMoves

/-! Whether a task can still be executed by a worker that is free. Whatever the other executions, the
calls of the API and the threads of the dispatcher have begun, the rounds of the dispatcher bring an
unfinished task to the worker. A finished one comes to it only by a stale round that has read the
row before it was finished. -/
namespace EntryAnalyse
namespace ExecutionSystem

open Runs TaskRow ExecutionCoordinator Dispatcher

/-- The stale round is about to put back to pending what it has read as running. -/
def ScanThread.resets : ScanThread → Bool
  | .resetting _ _ => true
  | _ => false

/-- A step of the clock, the broker, the dispatcher or the execution `n`. The inspect call answers
`ids`. -/
def isOwn (n : ℕ) (ids : List ℕ) : Act → Bool
  | .deliver m _ | .exec m _ => decide (m = n)
  | .scan (.inspect answer) => decide (answer = ids)
  | .api _ _ => false
  | _ => true

/-- Steps of these parties lead from `s` to `u`. -/
def Leads (cfg : Settings) (n : ℕ) (ids : List ℕ) (s u : Sys) : Prop :=
  ∃ tr, Run (step cfg) s tr u ∧ ∀ e ∈ tr, isOwn n ids e.act = true

variable {cfg : Settings} {n : ℕ} {ids : List ℕ} {s u v w : Sys}

theorem Leads.trans (h : Leads cfg n ids u v) (h' : Leads cfg n ids v w) : Leads cfg n ids u w := by
  obtain ⟨tr,hrun,hown⟩ := h
  obtain ⟨tr',hrun',hown'⟩ := h'
  refine ⟨tr' ++ tr,hrun.trans hrun',fun e he => ?_⟩
  rcases List.mem_append.mp he with he | he
  · exact hown' e he
  · exact hown e he

theorem Leads.of_step {a : Act} (ha : isOwn n ids a = true) (h : step cfg u a = some v) :
    Leads cfg n ids u v :=
  ⟨_,.next .refl h,by simpa using ha⟩

/-! ### The rounds of the dispatcher -/

theorem step_inspect (h : u.scan = .idle) :
    step cfg u (.scan (.inspect ids)) = some { u with scan := .inspected ids } := by
  simp only [step,scanStep,h,Option.map_some]
  rfl

theorem step_read_stale (h : u.scan = .inspected ids)
    (hr : staleResets cfg u.now ids u.row = true) :
    step cfg u (.scan (.read u.now)) =
      some { u with scan := .resetting ids ⟨u.row,(staleResets_iff.mp hr).1⟩ } := by
  simp only [step,scanStep,h,le_refl,if_true,dif_pos hr,Option.map_some]
  rfl

theorem step_read_fresh (h : u.scan = .inspected ids)
    (hr : ¬staleResets cfg u.now ids u.row = true) :
    step cfg u (.scan (.read u.now)) = some { u with scan := .resetDone ids } := by
  simp only [step,scanStep,h,le_refl,if_true,dif_neg hr,Option.map_some]
  rfl

theorem step_reset {l : RunningRow} (h : u.scan = .resetting ids l) :
    step cfg u (.scan .commit) =
      some { u with row := flush l.1 (staleTarget l.1) u.row, scan := .resetDone ids } := by
  simp only [step,scanStep,h,Option.map_some]
  rfl

theorem step_recoverRead (h : u.scan = .resetDone ids) (hr : recoverResets ids u.row = true) :
    step cfg u (.scan .recoverRead) = some { u with
      scan := .recovering ⟨u.row,(recoverResets_iff.mp hr).1,(recoverResets_iff.mp hr).2.2.1⟩ } := by
  simp only [step,scanStep,h,dif_pos hr,Option.map_some]
  rfl

theorem step_recover {l : RecoverableRow} (h : u.scan = .recovering l) :
    step cfg u (.scan .recoverCommit) =
      some { u with row := flush l.1 (recoverTarget l.1) u.row, scan := .idle } := by
  simp only [step,scanStep,h,Option.map_some]
  rfl

theorem step_select (h : u.pump = .idle) (hp : pumpSelects u.row = true) :
    step cfg u (.pump .read) = some { u with pump := .selected ⟨u.row,hp⟩ } := by
  simp only [step,pumpStep,h,dif_pos hp,Option.map_some]
  rfl

theorem step_publish {l : PublishableRow} (h : u.pump = .selected l) :
    step cfg u (.pump .publish) = some { u with
      pump := .published l u.nextId
      queue := u.queue ++ [u.nextId]
      nextId := u.nextId + 1 } := by
  simp only [step,pumpStep,h,Option.map_some]
  rfl

theorem step_record {l : PublishableRow} {cid : ℕ} (h : u.pump = .published l cid) :
    step cfg u (.pump .commit) =
      some { u with row := flush l.1 (pumpTarget cid l.1) u.row, pump := .idle } := by
  simp only [step,pumpStep,h,Option.map_some]
  rfl

theorem flushColumn_loaded {α : Type} [DecidableEq α] (l t : α) :
    ColumnWrite.flushColumn l t l = t := by
  by_cases h : t = l <;> simp [ColumnWrite.flushColumn,h]

/-- What is written back onto the row that was loaded is what was assigned. -/
theorem flush_loaded (l t : TaskRow) : flush l t l = t := by
  simp [flush,flushColumn_loaded]

theorem leads_idle (u : Sys) : Leads cfg n ids u { u with pump := .idle, scan := .idle } :=
  Leads.trans (v := { u with pump := .idle }) (.of_step (a := .pump .fail) rfl rfl)
    (.of_step (a := .scan .abort) rfl rfl)

/-- Every heartbeat gets stale. -/
theorem exists_heartbeatStale (now : ℤ) (row : TaskRow) :
    ∃ d : ℕ, heartbeatStale cfg (now + d) row = true := by
  unfold heartbeatStale
  cases row.executionHeartbeatAt with
  | none => exact ⟨0,rfl⟩
  | some hb => exact ⟨(cfg.staleHeartbeat + hb - now + 1).toNat,decide_eq_true (by omega)⟩

/-- The stale round puts a running row back, when its heartbeat has got stale. -/
theorem leads_reset (hscan : u.scan = .idle) (hs : u.row.status = .running)
    (hd : u.row.isDeleted = false) : ∃ v, Leads cfg n ids u v ∧ v.row = staleTarget u.row ∧
      v.pump = u.pump ∧ v.execs = u.execs := by
  obtain ⟨d,hstale⟩ := @exists_heartbeatStale cfg u.now u.row
  have hr : staleResets cfg (u.now + d) ids u.row = true :=
    staleResets_iff.mpr ⟨hs,hd,fun _ => hstale⟩
  let late := { u with now := u.now + d }
  let inspected := { late with scan := .inspected ids }
  let resetting := { inspected with scan := .resetting ids ⟨u.row,hs⟩ }
  have htick : step cfg u (.tick d) = some late := rfl
  have hinspect : step cfg late (.scan (.inspect ids)) = some inspected := step_inspect hscan
  have hread : step cfg inspected (.scan (.read late.now)) = some resetting :=
    step_read_stale rfl hr
  have hreset := @step_reset cfg ids resetting _ rfl
  rw [flush_loaded] at hreset
  exact ⟨_,(Leads.of_step rfl htick).trans ((Leads.of_step (by simp [isOwn]) hinspect).trans
    ((Leads.of_step rfl hread).trans (Leads.of_step rfl hreset))),rfl,rfl,rfl⟩

/-- The recovery of a pending row erases its message's id, unless the message is being executed. -/
theorem leads_recovered (hscan : u.scan = .idle) (hs : u.row.status = .pending)
    (hd : u.row.isDeleted = false) (hc : u.row.celeryTaskId ≠ none)
    (hids : inActive ids u.row = false) : ∃ v, Leads cfg n ids u v ∧ v.row = recoverTarget u.row ∧
      v.pump = u.pump ∧ v.execs = u.execs := by
  have hr : recoverResets ids u.row = true := recoverResets_iff.mpr ⟨hs,hd,hc,hids⟩
  have hno : ¬staleResets cfg u.now ids u.row = true := fun h => by
    rw [(staleResets_iff.mp h).1] at hs
    cases hs
  let inspected := { u with scan := .inspected ids }
  let done := { inspected with scan := .resetDone ids }
  let recovering := { done with scan := .recovering ⟨u.row,hs,hc⟩ }
  have hinspect : step cfg u (.scan (.inspect ids)) = some inspected := step_inspect hscan
  have hread : step cfg inspected (.scan (.read u.now)) = some done := step_read_fresh rfl hno
  have hrecover : step cfg done (.scan .recoverRead) = some recovering :=
    @step_recoverRead cfg ids done rfl hr
  have hcommit := @step_recover cfg recovering _ rfl
  rw [flush_loaded] at hcommit
  exact ⟨_,(Leads.of_step (by simp [isOwn]) hinspect).trans ((Leads.of_step rfl hread).trans
    ((Leads.of_step rfl hrecover).trans (Leads.of_step rfl hcommit))),rfl,rfl,rfl⟩

/-- A pending row without a message that is being executed comes to be published. -/
theorem leads_pending (hs : u.row.status = .pending) (hd : u.row.isDeleted = false)
    (hids : inActive ids u.row = false) : ∃ v, Leads cfg n ids u v ∧ pumpSelects v.row = true ∧
      v.pump = .idle ∧ v.execs = u.execs := by
  have hidle := @leads_idle cfg n ids u
  by_cases hc : u.row.celeryTaskId = none
  · exact ⟨_,hidle,pumpSelects_iff.mpr ⟨hs,hd,hc⟩,rfl,rfl⟩
  · obtain ⟨v,hlead,hrow,hpump,hexecs⟩ := @leads_recovered cfg n ids
      { u with pump := .idle, scan := .idle } rfl hs hd hc hids
    refine ⟨v,hidle.trans hlead,?_,hpump,hexecs⟩
    rw [hrow]
    exact pumpSelects_iff.mpr ⟨hs,hd,rfl⟩

/-- The stale round writes back what it has read: the row is pending, whatever it was. -/
theorem leads_written_back (hr : u.scan.resets = true) (hd : u.row.isDeleted = false)
    (hids : inActive ids u.row = false) : ∃ v, Leads cfg n ids u v ∧ v.row.status = .pending ∧
      v.row.isDeleted = false ∧ inActive ids v.row = false ∧ v.execs = u.execs := by
  cases hscan : u.scan with
  | resetting answer l =>
    refine ⟨_,.of_step rfl (step_reset hscan),?_,?_,?_,rfl⟩
    · simp [staleTarget,ColumnWrite.flushColumn,l.2]
    · simpa [flush,staleTarget] using hd
    · -- the message's id is erased or left as it is
      simp only [inActive,flush_celeryTaskId]
      rcases ColumnWrite.flushColumn_eq_or l.1.celeryTaskId (staleTarget l.1).celeryTaskId
        u.row.celeryTaskId with h | h
      · rw [h]
        exact hids
      · rw [h]
        rfl
  | _ => simp [ScanThread.resets,hscan] at hr

/-- An unfinished task comes to be published, and so does one that the stale round puts back. -/
theorem leads_unpublished (hd : u.row.isDeleted = false)
    (hs : u.row.status.isTerminal = false ∨ u.scan.resets = true)
    (hids : u.row.status = .running ∨ inActive ids u.row = false) :
    ∃ v, Leads cfg n ids u v ∧ pumpSelects v.row = true ∧ v.pump = .idle ∧ v.execs = u.execs := by
  by_cases hrunning : u.row.status = .running
  · obtain ⟨v,hlead,hrow,hpump,hexecs⟩ := @leads_reset cfg n ids
      { u with pump := .idle, scan := .idle } rfl hrunning hd
    refine ⟨v,(leads_idle u).trans hlead,?_,hpump,hexecs⟩
    rw [hrow]
    exact pumpSelects_iff.mpr ⟨rfl,hd,rfl⟩
  · have hids' := hids.resolve_left hrunning
    rcases hs with hs | hr
    · exact leads_pending ((TaskStatus.not_terminal hs).resolve_right hrunning) hd hids'
    · obtain ⟨v,hlead,hs',hd',hids',hexecs⟩ := @leads_written_back cfg n ids u hr hd hids'
      obtain ⟨w,hlead',hp,hpump,hexecs'⟩ := @leads_pending cfg n ids v hs' hd' hids'
      exact ⟨w,hlead.trans hlead',hp,hpump,hexecs'.trans hexecs⟩

/-- The pump publishes a message and records its id. -/
theorem leads_published (hp : pumpSelects u.row = true) (hpump : u.pump = .idle) :
    ∃ v, Leads cfg n ids u v ∧ v.row = pumpTarget u.nextId u.row ∧ u.nextId ∈ v.queue ∧
      v.execs = u.execs := by
  let selected := { u with pump := .selected ⟨u.row,hp⟩ }
  let published := { selected with
    pump := .published ⟨u.row,hp⟩ u.nextId
    queue := u.queue ++ [u.nextId]
    nextId := u.nextId + 1 }
  have hselect : step cfg u (.pump .read) = some selected := step_select hpump hp
  have hpublish : step cfg selected (.pump .publish) = some published := step_publish rfl
  have hrecord := @step_record cfg published _ _ rfl
  rw [flush_loaded] at hrecord
  exact ⟨_,(Leads.of_step rfl hselect).trans ((Leads.of_step rfl hpublish).trans
    (Leads.of_step rfl hrecord)),rfl,List.mem_append_right _ (List.mem_singleton_self _),rfl⟩

/-! ### The free worker -/

/-- The execution has received no message yet. -/
structure Exec.Free (e : Exec) : Prop where
  live : e.live = true
  celeryId : e.celeryId = none

/-- The execution has no claim, and has not got beyond the query for one. -/
def Exec.unclaimed (e : Exec) : Prop := e.claim = none ∧ (e.op = .idle ∨ ∃ c, e.op = .selected c)

/-- Without a claim an execution writes nothing, unless it gets one for an unfinished task. -/
theorem execStep_unclaimed {now : ℤ} {row : TaskRow} {e e' : Exec} {a : ExecAct} {st : Statement}
    (he : e.unclaimed) (h : execStep cfg now row e a = some (e',st)) :
    e'.unclaimed ∧ e'.celeryId = e.celeryId ∧ st = .nothing ∨
      row.isDeleted = false ∧ row.status.isTerminal = false := by
  obtain ⟨hc,hop⟩ := he
  unfold execStep at h
  split_ifs at h with hlive
  cases a with
  | claimSelect =>
    rcases hop with hop | ⟨c,hop⟩
    · simp only [liveStep,hop,hc] at h
      split_ifs at h
      cases hcand : claimCandidate now row with
      | none =>
        simp only [hcand,Option.some.injEq,Prod.mk.injEq] at h
        obtain ⟨rfl,rfl⟩ := h
        exact .inl ⟨⟨rfl,.inl rfl⟩,rfl,rfl⟩
      | some c =>
        simp only [hcand,Option.some.injEq,Prod.mk.injEq] at h
        obtain ⟨rfl,rfl⟩ := h
        exact .inl ⟨⟨rfl,.inr ⟨c,rfl⟩⟩,rfl,rfl⟩
    · simp [liveStep,hop] at h
  | claimWrite t =>
    rcases hop with hop | ⟨c,hop⟩
    · simp [liveStep,hop] at h
    · simp only [liveStep,hop] at h
      split_ifs at h with ht hw
      · obtain ⟨row',hrow⟩ := Option.isSome_iff_exists.mp hw
        obtain ⟨hd,hs,-⟩ := claimWrite_eq_some hrow
        exact .inr ⟨hd,by rw [hs,c.unfinished]⟩
      · simp only [Option.some.injEq,Prod.mk.injEq] at h
        obtain ⟨rfl,rfl⟩ := h
        exact .inl ⟨⟨hc,.inl rfl⟩,rfl,rfl⟩
  | die =>
    simp only [liveStep,Option.some.injEq,Prod.mk.injEq] at h
    obtain ⟨rfl,rfl⟩ := h
    exact .inl ⟨⟨hc,.inl rfl⟩,rfl,rfl⟩
  | _ =>
    -- everything else is done on behalf of a claim
    rcases hop with hop | ⟨c,hop⟩ <;> simp [liveStep,Exec.ready,hop,hc] at h

theorem ExecMove.celeryId {now : ℤ} {row : TaskRow} {e e' : Exec} {a : ExecAct} {st : Statement}
    (h : ExecMove cfg now row e a e' st) : e'.celeryId = e.celeryId := by
  cases h <;> rfl

/-- Without a message there is nothing to begin with. -/
theorem execStep_untaken {now : ℤ} {row : TaskRow} {e e' : Exec} {a : ExecAct} {st : Statement}
    (hid : e.celeryId = none) (hc : e.claim = none) (hop : e.op = .idle)
    (h : execStep cfg now row e a = some (e',st)) : e'.claim = none ∧ e'.op = .idle := by
  unfold execStep at h
  split_ifs at h with hlive
  cases a with
  | die =>
    simp only [liveStep,Option.some.injEq,Prod.mk.injEq] at h
    obtain ⟨rfl,-⟩ := h
    exact ⟨hc,rfl⟩
  | _ => simp [liveStep,Exec.ready,hid,hc,hop] at h

theorem Move.execs_eq {a : Act} {st : Statement} (h : Move cfg s a st u)
    (hdeliver : ∀ m cid, a ≠ .deliver m cid) (hexec : ∀ m b, a ≠ .exec m b) : u.execs = s.execs := by
  cases h with
  | deliver hq => exact absurd rfl (hdeliver _ _)
  | exec hl hmove => exact absurd rfl (hexec _ _)
  | pump hmove => cases hmove <;> rfl
  | _ => rfl

/-- An execution without a message has done nothing. -/
theorem untaken {tr : List (Event Sys Act)} (h : Run (step cfg) s tr u) (hs : Initial s) (n : ℕ) :
    (u.execs n).celeryId = none → (u.execs n).claim = none ∧ (u.execs n).op = .idle := by
  induction h with
  | refl => exact fun _ => ⟨hs.noClaim n,hs.noWork n⟩
  | @next tr t a u hrun hstep ih =>
    intro hn
    cases a with
    | exec m a =>
      obtain ⟨⟨e',st⟩,he,rfl⟩ := Option.map_eq_some_iff.mp hstep
      by_cases hnm : n = m
      · subst hnm
        simp only [Function.update_self] at hn ⊢
        have hid : (t.execs n).celeryId = none := (execStep_move he).2.celeryId.symm.trans hn
        exact execStep_untaken hid (ih hid).1 (ih hid).2 he
      · simp only [Function.update_of_ne hnm] at hn ⊢
        exact ih hn
    | deliver m cid =>
      simp only [step,Option.ite_none_right_eq_some,Option.some.injEq] at hstep
      obtain ⟨-,rfl⟩ := hstep
      by_cases hnm : n = m
      · subst hnm
        simp at hn
      · simp only [Function.update_of_ne hnm] at hn ⊢
        exact ih hn
    | _ =>
      have hsame := (step_move hstep).execs_eq (by simp) (by simp)
      rw [hsame] at hn ⊢
      exact ih hn

/-- The execution gets the message and the claim. -/
theorem leads_claimed (hs : u.row.status = .pending) (hd : u.row.isDeleted = false) {cid : ℕ}
    (hc : u.row.celeryTaskId = some cid) (hq : cid ∈ u.queue) (hfree : (u.execs n).Free)
    (hclaim : (u.execs n).claim = none) (hop : (u.execs n).op = .idle) :
    ∃ v, Leads cfg n ids u v ∧ v.worksOn n ∧ v.row.celeryTaskId = (v.execs n).celeryId := by
  obtain ⟨c,hcand,hnow,hexpected⟩ : ∃ c, claimCandidate u.now u.row = some c ∧ c.now = u.now ∧
      c.expectedStatus = .pending := by
    simp [claimCandidate,hd,hs]
  obtain ⟨row,hwrite⟩ : ∃ row, claimWrite c (u.execs n).pod (u.execs n).podIp
      (u.now + cfg.leaseTtl) u.row = some row := by
    simp [claimWrite,hd,hs,hexpected]
  let taken := { u.execs n with celeryId := some cid }
  let given := { u with
    queue := u.queue.erase cid
    execs := Function.update u.execs n taken }
  let selected := { given with
    execs := Function.update given.execs n { taken with op := .selected c } }
  have hdeliver : step cfg u (.deliver n cid) = some given := by
    simp [step,hq,hfree.live,hfree.celeryId,given,taken]
  have hselect : step cfg given (.exec n .claimSelect) = some selected := by
    simp [step,execStep,liveStep,given,selected,taken,hfree.live,hop,hclaim,hcand,Sys.send]
  have hclaimed : step cfg selected (.exec n (.claimWrite u.now)) = some { selected with
      row := row
      execs := Function.update selected.execs n
        { taken with op := .idle, claim := some c.newEpoch } } := by
    simp [step,execStep,liveStep,selected,given,taken,hfree.live,hnow,hwrite,Sys.send]
  refine ⟨_,(Leads.of_step (by simp [isOwn]) hdeliver).trans ((Leads.of_step (by simp [isOwn])
    hselect).trans (Leads.of_step (by simp [isOwn]) hclaimed)),⟨?_,?_⟩,?_⟩
  · simp [taken,hfree.live]
  · exact Sys.holds_iff.mpr ⟨c.newEpoch,by simp,by simpa using claimWrite_heldBy hwrite⟩
  · obtain ⟨-,-,rfl⟩ := claimWrite_eq_some hwrite
    simpa [claimFields,taken] using hc

/-! ### What keeps a task from the worker -/

/-- The task is deleted, or finished and not about to be put back. -/
def Sys.closed (s : Sys) : Prop :=
  s.row.isDeleted = true ∨ s.row.status.isTerminal = true ∧ s.scan.resets = false

theorem startupReset_of_closed {row : TaskRow}
    (h : row.isDeleted = true ∨ row.status.isTerminal = true) : startupReset row = row := by
  unfold startupReset
  split_ifs with hr hp
  · simp [hr.1,hr.2] at h
  · simp [hp.1,hp.2.1] at h
  · rfl

theorem closed_scan {a : ScanAct} {th : ScanThread} {st : Statement} (h : u.closed)
    (hmove : ScanMove cfg u.now u.row u.scan a th st) :
    Sys.closed { u.send cfg st with scan := th } := by
  cases hmove with
  | load ha hsettled =>
    refine h.imp_right fun h => ⟨h.1,?_⟩
    cases th <;> simp_all [ScanThread.settled,ScanThread.resets]
  | read hth ht hr =>
    obtain ⟨hs,hd,-⟩ := staleResets_iff.mp hr
    simp [Sys.closed,hs,hd] at h
  | commit hth =>
    refine .inl ?_
    have hd := h.resolve_right fun h => by simp [hth,ScanThread.resets] at h
    simpa [Sys.send,flush,staleTarget] using hd
  | recoverRead hth hr =>
    exact h.imp_right fun h => ⟨h.1,rfl⟩
  | recoverCommit hth =>
    refine h.imp (fun hd => ?_) fun h => ⟨?_,rfl⟩
    · simpa [Sys.send,flush,recoverTarget] using hd
    · simpa [Sys.send,recoverTarget] using h.1

theorem closed_step {a : Act} (h : u.closed) (hn : (u.execs n).unclaimed)
    (ha : isOwn n ids a = true) (hstep : step cfg u a = some v) :
    v.closed ∧ (v.execs n).unclaimed := by
  have hfinished : u.row.isDeleted = true ∨ u.row.status.isTerminal = true :=
    h.imp_right And.left
  cases a with
  | exec m a =>
    obtain rfl : m = n := of_decide_eq_true ha
    obtain ⟨⟨e',st⟩,he,rfl⟩ := Option.map_eq_some_iff.mp hstep
    rcases execStep_unclaimed hn he with ⟨hn',-,rfl⟩ | ⟨hd,hs⟩
    · exact ⟨h,by simpa using hn'⟩
    · simp [hd,hs] at hfinished
  | deliver m cid =>
    simp only [step,Option.ite_none_right_eq_some,Option.some.injEq] at hstep
    obtain ⟨-,rfl⟩ := hstep
    refine ⟨h,?_⟩
    by_cases hnm : n = m
    · subst hnm
      simpa [Exec.unclaimed] using hn
    · simpa [Function.update_of_ne hnm] using hn
  | api k a => simp [isOwn] at ha
  | tick d =>
    cases hstep
    exact ⟨h,hn⟩
  | redeliver cid =>
    cases step_move hstep
    exact ⟨h,hn⟩
  | startupReset =>
    cases hstep
    simp only [Sys.closed,Sys.send,apply_startupReset,startupReset_of_closed hfinished]
    exact ⟨h,hn⟩
  | pump a =>
    have hmove := step_move hstep
    generalize issued cfg u (.pump a) = st at hmove
    cases hmove with
    | pump hmove =>
      cases hmove with
      | commit hth => exact ⟨by simpa [Sys.closed,Sys.send,Sys.enqueue,flush,pumpTarget] using h,hn⟩
      | _ => exact ⟨h,hn⟩
  | scan a =>
    have hmove := step_move hstep
    generalize issued cfg u (.scan a) = st at hmove
    cases hmove with
    | scan hmove => exact ⟨closed_scan h hmove,hn⟩

/-- An execution that has received no message yet can come to work on the task by the steps of the
clock, the broker, the dispatcher and its own if and only if the task is not deleted, and is not
finished or about to be put back by a stale round. -/
theorem can_work_iff {tr : List (Event Sys Act)} (h : Run (step cfg) s tr u) (hs : Initial s)
    (hfree : (u.execs n).Free) (hids : u.row.status = .running ∨ inActive ids u.row = false) :
    (∃ v, Leads cfg n ids u v ∧ v.worksOn n ∧ v.row.celeryTaskId = (v.execs n).celeryId) ↔
      u.row.isDeleted = false ∧ (u.row.status.isTerminal = false ∨ u.scan.resets = true) := by
  obtain ⟨hclaim,hop⟩ := untaken h hs n hfree.celeryId
  constructor
  · rintro ⟨v,⟨tr',hrun,hown⟩,⟨-,hholds⟩,-⟩
    by_contra hnot
    have hclosed : u.closed := by
      cases hd : u.row.isDeleted <;> cases ht : u.row.status.isTerminal <;>
        cases hr : u.scan.resets <;> simp_all [Sys.closed]
    obtain ⟨k,hk,-⟩ := Sys.holds_iff.mp hholds
    have hend : v.closed ∧ (v.execs n).unclaimed := by
      refine hrun.invariant (P := fun _ e => isOwn n ids e.act = true)
        (J := fun _ w => w.closed ∧ (w.execs n).unclaimed) (along_forall.mpr hown)
        ⟨hclosed,hclaim,.inl hop⟩ ?_
      rintro tr t a w ⟨hc,hu⟩ ha hstep
      exact closed_step hc hu ha hstep
    simp [hend.2.1] at hk
  · rintro ⟨hd,hunfinished⟩
    obtain ⟨v,hlead,hp,hpump,hexecs⟩ := @leads_unpublished cfg n ids u hd hunfinished hids
    obtain ⟨hs',hd',-⟩ := pumpSelects_iff.mp hp
    obtain ⟨w,hlead',hrow,hq,hexecs'⟩ := @leads_published cfg n ids v hp hpump
    rw [hexecs] at hexecs'
    obtain ⟨x,hlead'',hworks⟩ := @leads_claimed cfg n ids w (by rw [hrow]; exact hs')
      (by rw [hrow]; exact hd') v.nextId (by rw [hrow]; rfl) hq (by rwa [hexecs'])
      (by rwa [hexecs']) (by rwa [hexecs'])
    exact ⟨x,(hlead.trans hlead').trans hlead'',hworks⟩

/-- The execution that had claimed the task has died; the one beside it takes over. -/
theorem can_work_iff_died : ∃ tr u v, Run (step {}) { execs := fun _ => { pod := "w" } } tr u ∧
    (u.execs 0).live = false ∧ u.holds 0 ∧ Leads {} 1 [] u v ∧ v.worksOn 1 := by
  obtain ⟨tr,u,h,hp⟩ := exists_run_of_replay (step {}) { execs := fun _ => { pod := "w" } }
    [.pump .read,.pump .publish,.pump .commit,.deliver 0 0,.exec 0 .claimSelect,
      .exec 0 (.claimWrite 0),.exec 0 .die]
    (p := fun _ u => decide ((u.execs 0).live = false ∧ u.holds 0 ∧ (u.execs 1).live = true ∧
      (u.execs 1).celeryId = none ∧ u.row.isDeleted = false ∧ u.row.status = .running))
    (by decide)
  obtain ⟨hdied,hholds,hlive,hid,hd,hs⟩ := of_decide_eq_true hp
  have hinitial : Initial { execs := fun _ => { pod := "w" } } :=
    ⟨fun _ => rfl,fun _ => rfl,fun _ => rfl,rfl,rfl⟩
  obtain ⟨v,hlead,hworks,-⟩ := (@can_work_iff {} 1 [] _ u tr h hinitial ⟨hlive,hid⟩ (.inl hs)).mpr
    ⟨hd,.inl (by rw [hs]; rfl)⟩
  exact ⟨tr,u,v,h,hdied,hholds,hlead,hworks⟩

end ExecutionSystem
end EntryAnalyse
