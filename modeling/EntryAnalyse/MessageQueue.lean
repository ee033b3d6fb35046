import EntryAnalyse.ExecutionMoves

/-! Undelivered messages of one task. The only record of an outstanding message is the row's
message id. As long as no write erases the id of a message that is still queued, and no commit
fails while the message published before it is still queued, the queue never holds two. -/
namespace EntryAnalyse
namespace MessageQueue

open Runs TaskRow ColumnWrite Dispatcher TaskRunner ExecutionSystem

variable {cfg : Settings}

/-- The statement erases the message id from the row, or would if it found one. -/
def erasesId : Statement → Bool
  | .flush l t => decide (l.celeryTaskId ≠ none ∧ t.celeryTaskId = none)
  | .finish .. | .clear | .startupReset => true
  | .nothing | .claim .. | .renew .. => false

/-- The row names a message that nobody has received yet. -/
def namesQueued (s : Sys) : Bool := s.queue.any fun m => decide (s.row.celeryTaskId = some m)

/-- The commit that fails is not that of a message which is still queued. -/
def failsCleanly (s : Sys) : Act → Bool
  | .pump .fail =>
    match s.pump with
    | .published _ m => decide (m ∉ s.queue)
    | _ => true
  | _ => true

/-- The condition on a step: it keeps the record of a message that is still queued. -/
def keepsRecord (cfg : Settings) (e : Event Sys Act) : Bool :=
  !(erasesId (issued cfg e.pre e.act) && namesQueued e.pre) && failsCleanly e.pre e.act

/-- The broker hands out no message a second time. -/
def deliversOnce : Act → Bool
  | .redeliver _ => false
  | _ => true

/-- What is known of the queue while the pump is at a given point of its round. -/
def Recorded (s : Sys) : Prop :=
  match s.pump with
  | .idle => ∀ m ∈ s.queue, s.row.celeryTaskId = some m
  | .selected _ => s.queue = []
  | .published _ m => ∀ x ∈ s.queue, x = m

/-- The invariant: at most one message, and where its id is to be found. -/
structure Inv (s : Sys) : Prop where
  single : s.queue.length ≤ 1
  recorded : Recorded s

theorem Inv.of_empty {s : Sys} (h : s.queue = []) : Inv s where
  single := by simp [h]
  recorded := by unfold Recorded; split <;> simp [h]

/-- Apart from the pump's commit, a statement keeps the message id or erases it. -/
theorem Move.celeryTaskId_eq {s s' : Sys} {a : Act} {st : Statement} (h : Move cfg s a st s')
    (ha : ∀ b, a ≠ .pump b) (he : erasesId st = false) :
    s'.row.celeryTaskId = s.row.celeryTaskId := by
  have hflush : ∀ l t, st = .flush l t → t.celeryTaskId = none →
      (flush l t s.row).celeryTaskId = s.row.celeryTaskId := by
    rintro l t rfl hnone
    have hl : l.celeryTaskId = none := by simpa [erasesId,hnone] using he
    simp [hl,hnone]
  rw [h.row_eq]
  cases h with
  | tick d => rfl
  | deliver hq => rfl
  | redeliver => rfl
  | exec hl h =>
    cases h with
    | claim hop ht hw =>
      obtain ⟨-,-,rfl⟩ := ExecutionCoordinator.claimWrite_eq_some hw
      simp [hw,ExecutionCoordinator.claimFields]
    | renew hc => simp
    | step10 hop => simp [erasesId] at he
    | clear => simp [erasesId] at he
    | load ha => rfl
    | stop ha => rfl
    | _ => simp [step0Target,step2Target,step3Target,ensureTarget]
  | api h =>
    cases h with
    | load ha => rfl
    | cancelRequest hop =>
      simp only [apply_flush,flush_celeryTaskId,TaskService.cancelRequestTarget]
      split <;> simp
    | cancelFinal hop => exact hflush _ _ rfl rfl
    | requeueCancel hop => simp [TaskService.requeueCancelTarget]
    | requeuePending hop => exact hflush _ _ rfl rfl
  | startupReset => simp [erasesId] at he
  | pump h => exact absurd rfl (ha _)
  | scan h =>
    cases h with
    | commit hth => exact hflush _ _ rfl rfl
    | recoverCommit hth => exact hflush _ _ rfl rfl
    | _ => rfl

/-- A step of any other party than the pump keeps the record, if it adds no message. -/
theorem Recorded.of_other {s s' : Sys} {a : Act} {st : Statement} (h : Recorded s)
    (hm : Move cfg s a st s') (ha : ∀ b, a ≠ .pump b)
    (hk : erasesId st = true → namesQueued s = false) (hp : s'.pump = s.pump)
    (hq : ∀ m ∈ s'.queue, m ∈ s.queue) : Recorded s' := by
  unfold Recorded at h ⊢
  rw [hp]
  cases hth : s.pump <;> simp only [hth] at h ⊢
  case idle =>
    intro m hmem
    have hrec := h m (hq m hmem)
    cases he : erasesId st with
    | false => rw [Move.celeryTaskId_eq hm ha he,hrec]
    | true =>
      have hno := hk he
      simp only [namesQueued,List.any_eq_false,decide_eq_true_eq] at hno
      exact absurd hrec (hno m (hq m hmem))
  case selected =>
    exact List.eq_nil_iff_forall_not_mem.mpr fun m hmem => by simpa [h] using hq m hmem
  case published => exact fun x hx => h x (hq x hx)

theorem Inv.step {s s' : Sys} {a : Act} (hs : ExecutionSystem.step cfg s a = some s')
    (hi : Inv s) (hk : keepsRecord cfg ⟨s,a,s'⟩ = true) (hd : deliversOnce a = true) : Inv s' := by
  have hm := step_move hs
  simp only [keepsRecord,Bool.and_eq_true,Bool.not_eq_true',Bool.and_eq_false_iff] at hk
  obtain ⟨hk,hfail⟩ := hk
  have herase : erasesId (issued cfg s a) = true → namesQueued s = false := by
    intro h
    exact hk.resolve_left (by simp [h])
  generalize issued cfg s a = st at hm herase
  have hother := hi.recorded.of_other hm
  obtain ⟨hlen,hrec⟩ := hi
  cases hm with
  | pump hm =>
    cases hm with
    | read hth hsel =>
      have hempty : s.queue = [] := by
        refine List.eq_nil_iff_forall_not_mem.mpr fun m hmem => ?_
        simp only [Recorded,hth] at hrec
        have hnone := (pumpSelects_iff.mp hsel).2.2
        rw [hrec m hmem] at hnone
        cases hnone
      exact .of_empty hempty
    | publish hth =>
      have hempty : s.queue = [] := by simpa [Recorded,hth] using hrec
      exact ⟨by simp [Sys.send,Sys.enqueue,hempty],by simp [Recorded,Sys.send,Sys.enqueue,hempty]⟩
    | commit hth =>
      rename_i l cid
      refine ⟨hlen,?_⟩
      have hnone : l.1.celeryTaskId = none := (pumpSelects_iff.mp l.2).2.2
      simp only [Recorded,hth] at hrec
      simpa [Recorded,Sys.send,Sys.enqueue,pumpTarget,hnone,flushColumn,eq_comm] using hrec
    | fail =>
      refine ⟨hlen,?_⟩
      unfold Recorded at hrec
      cases hth : s.pump <;> simp only [hth] at hrec
      case idle => simpa [Recorded,Sys.send,Sys.enqueue] using hrec
      case selected => simp [Recorded,Sys.send,Sys.enqueue,hrec]
      case published l m =>
        have hgone : m ∉ s.queue := by simpa [failsCleanly,hth] using hfail
        have hempty : s.queue = [] := by
          refine List.eq_nil_iff_forall_not_mem.mpr fun x hx => ?_
          exact hgone (hrec x hx ▸ hx)
        simp [Recorded,Sys.send,Sys.enqueue,hempty]
  | redeliver => cases hd
  | deliver hq =>
    exact ⟨(List.length_erase_le).trans hlen,
      hother (by simp) herase rfl fun m hmem => List.mem_of_mem_erase hmem⟩
  | _ => exact ⟨hlen,hother (by simp) herase rfl fun _ hmem => hmem⟩

/-- In every run from an empty queue in which no message is handed out twice and every step
keeps the record of a queued message, the queue never holds two messages. -/
theorem at_most_one_message {s u : Sys} {tr : List (Event Sys Act)} (hq : s.queue = [])
    (h : Run (step cfg) s tr u) (hd : Along (fun _ e => deliversOnce e.act = true) tr)
    (hk : Along (fun _ e => keepsRecord cfg e = true) tr) : u.queue.length ≤ 1 := by
  have hinv := h.invariant (along_and.mpr ⟨hd,hk⟩) (J := fun _ s => Inv s) (.of_empty hq)
    (fun tr t a v hi hp hs => hi.step hs hp.2 hp.1)
  exact hinv.single

/-- The executions that have received a message, with the message. -/
def deliveries (tr : List (Event Sys Act)) : List (ℕ × ℕ) :=
  watch (fun g e =>
    match e.act with
    | .deliver n cid => (n,cid) :: g
    | _ => g) [] tr

/-- The inspect call answers with the messages being executed, and with no others. -/
def inspectExact (h : List (Event Sys Act)) (e : Event Sys Act) : Bool :=
  match e.act with
  | .scan (.inspect ids) =>
    let active := ((deliveries h).filter fun p => (e.pre.execs p.1).live).map (·.2)
    ids.all (fun c => decide (c ∈ active)) && active.all (fun c => decide (c ∈ ids))
  | _ => true

/-- A pending task that was never published, and workers without a message. -/
def unpublished : Sys where
  execs := fun _ => { pod := "pod-a" }

/-- One round of the pump. -/
def pumpRound : List Act := [.pump .read,.pump .publish,.pump .commit]

/-- A lost worker: its message was received, so the recovery round may have it sent again. -/
theorem one_message_after_recovery : ∃ tr u, Run (step {}) unpublished tr u ∧ u.nextId = 2 ∧
    u.queue.length ≤ 1 := by
  obtain ⟨tr,u,h,hp⟩ := exists_run_of_replay (step {}) unpublished
    (pumpRound ++ [.deliver 0 0,.exec 0 .die,.scan (.inspect []),.scan (.read 0),
      .scan .recoverRead,.scan .recoverCommit] ++ pumpRound)
    (p := fun tr u => decide (Along (fun _ e => deliversOnce e.act = true) tr) &&
      decide (Along (fun _ e => keepsRecord {} e = true) tr) && decide (u.nextId = 2)) (by decide)
  simp only [Bool.and_eq_true,decide_eq_true_eq] at hp
  exact ⟨tr,u,h,hp.2,at_most_one_message rfl h hp.1.1 hp.1.2⟩

/-- All workers are busy with other tasks, so the message waits in the queue. The recovery
round does not find it active, erases its id, and the pump publishes a second one. -/
theorem waiting_message_sent_twice : ∃ tr u, Initial unpublished ∧ unpublished.queue = [] ∧
    Run (step {}) unpublished tr u ∧ Along (fun _ e => deliversOnce e.act = true) tr ∧
    Along (fun h e => inspectExact h e = true) tr ∧ u.row.status = .pending ∧
    u.queue = [0,1] := by
  obtain ⟨tr,u,h,hp⟩ := exists_run_of_replay (step {}) unpublished
    (pumpRound ++ [.scan (.inspect []),.scan (.read 0),.scan .recoverRead,
      .scan .recoverCommit] ++ pumpRound)
    (p := fun tr u => decide (Along (fun _ e => deliversOnce e.act = true) tr) &&
      decide (Along (fun h e => inspectExact h e = true) tr) &&
      decide (u.row.status = .pending) && decide (u.queue = [0,1])) (by decide)
  simp only [Bool.and_eq_true,decide_eq_true_eq] at hp
  obtain ⟨⟨⟨hd,hx⟩,hs⟩,hq⟩ := hp
  exact ⟨tr,u,⟨fun _ => rfl,fun _ => rfl,fun _ => rfl,rfl,rfl⟩,rfl,h,hd,hx,hs,hq⟩

end MessageQueue
end EntryAnalyse
