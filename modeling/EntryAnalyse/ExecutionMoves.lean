import EntryAnalyse.ExecutionSystem

/-! What one step of the dispatch system can do. Each party has one inversion lemma; the
invariants of the system are case analyses of these moves and never look at the step
functions again. -/
namespace EntryAnalyse
namespace ExecutionSystem

open Runs TaskRow ExecutionCoordinator TaskRunner TaskService Dispatcher

variable {cfg : Settings} {now : ℤ} {row : TaskRow}

/-- The act sends a write of the row that belongs to a claim already held. -/
def ExecAct.isWrite : ExecAct → Bool
  | .step0Commit | .step2Commit | .step3Commit _ | .step10Commit _ | .ensureCommit _ | .clear => true
  | _ => false

/-- The moves of one execution: its new local state and the statement it sends. -/
inductive ExecMove (cfg : Settings) (now : ℤ) (row : TaskRow) (e : Exec) :
    ExecAct → Exec → Statement → Prop
  | load {a op} (ha : a.isWrite = false) : ExecMove cfg now row e a { e with op := op } .nothing
  | stop {a op} (ha : a.isWrite = false) :
      ExecMove cfg now row e a { e with op := op, live := false } .nothing
  | claim {c t row'} (hop : e.op = .selected c) (ht : t ≤ now)
      (hw : claimWrite c e.pod e.podIp (t + cfg.leaseTtl) row = some row') :
      ExecMove cfg now row e (.claimWrite t) { e with op := .idle, claim := some c.newEpoch }
        (.claim c e.pod e.podIp (t + cfg.leaseTtl))
  | renew {n} (hc : e.claim = some n) :
      ExecMove cfg now row e .renew
        { e with live := (renewLease now cfg.leaseTtl e.pod n row).2 } (.renew e.pod n)
  | step0 {l} (hop : e.op = .step0Loaded l) :
      ExecMove cfg now row e .step0Commit { e with op := .idle }
        (.flush l.1 (step0Target now e.pod e.podIp l.1))
  | step2 {l} (hop : e.op = .step2Loaded l) :
      ExecMove cfg now row e .step2Commit { e with op := .idle } (.flush l (step2Target l))
  | step3 {l err} (hop : e.op = .step3Loaded l) :
      ExecMove cfg now row e (.step3Commit err) { e with op := .idle }
        (.flush l (step3Target now err l))
  | step10 {l r} (hop : e.op = .step10Loaded l) :
      ExecMove cfg now row e (.step10Commit r) { e with op := .idle } (.finish e.pod r l)
  | ensure {l err} (hop : e.op = .ensureLoaded l) :
      ExecMove cfg now row e (.ensureCommit err) { e with op := .idle }
        (.flush l.1 (ensureTarget now err l.1))
  | clear : ExecMove cfg now row e .clear e .clear

theorem execStep_move {e e' : Exec} {a : ExecAct} {st : Statement}
    (h : execStep cfg now row e a = some (e',st)) :
    e.live = true ∧ ExecMove cfg now row e a e' st := by
  unfold execStep at h
  split at h
  case isFalse => cases h
  case isTrue hl =>
  refine ⟨hl,?_⟩
  cases a <;> simp only [liveStep] at h
  case claimSelect =>
    split at h
    · split at h
      · split at h <;> cases h
        · exact .load rfl
        · exact .stop rfl
      · cases h
    · cases h
  case claimWrite t =>
    split at h
    · rename_i c hop
      split at h
      · rename_i ht
        split at h <;> cases h
        · rename_i hw
          obtain ⟨row',hw⟩ := Option.isSome_iff_exists.mp hw
          exact .claim hop ht.2 hw
        · exact .stop rfl
      · cases h
    · cases h
  case renew =>
    split at h <;> cases h
    rename_i n hc
    exact .renew hc
  case step0Commit =>
    split at h <;> cases h
    rename_i hop
    exact .step0 hop
  case step2Commit =>
    split at h <;> cases h
    rename_i hop
    exact .step2 hop
  case step3Commit =>
    split at h <;> cases h
    rename_i hop
    exact .step3 hop
  case step10Commit =>
    split at h <;> cases h
    rename_i hop
    exact .step10 hop
  case ensureCommit =>
    split at h <;> cases h
    rename_i hop
    exact .ensure hop
  case clear =>
    split at h <;> cases h
    exact .clear
  case die =>
    cases h
    exact .stop rfl
  -- what is left only loads the row, or finds nothing to do
  all_goals
    split at h
    · first
        | cases h; exact .load rfl
        | split at h <;> cases h <;> exact .load rfl
    · cases h

/-- The act commits a write-back. -/
def ApiAct.isWrite : ApiAct → Bool
  | .cancelCommit | .cancelFinish | .requeueCommit | .requeueFinish => true
  | _ => false

/-- The moves of one API call. -/
inductive ApiMove (now : ℤ) (row : TaskRow) (op : ApiOp) : ApiAct → ApiOp → Statement → Prop
  | load {a op'} (ha : a.isWrite = false) : ApiMove now row op a op' .nothing
  | cancelRequest {l} (hop : op = .cancelLoaded l) :
      ApiMove now row op .cancelCommit .cancelCommitted
        (.flush l.1 (cancelRequestTarget now l.1))
  | cancelFinal {l} (hop : op = .cancelRunning l) :
      ApiMove now row op .cancelFinish .idle (.flush l.1 (cancelFinalTarget now l.1))
  | requeueCancel {k l} (hop : op = .requeueLoaded k l) :
      ApiMove now row op .requeueCommit (.requeueCommitted k)
        (.flush l.1 (requeueCancelTarget k now l.1))
  | requeuePending {k l} (hop : op = .requeueFresh k l) :
      ApiMove now row op .requeueFinish .idle (.flush l (requeuePendingTarget l))

theorem apiStep_move {op op' : ApiOp} {a : ApiAct} {st : Statement}
    (h : apiStep now row op a = some (op',st)) : ApiMove now row op a op' st := by
  cases a <;> simp only [apiStep] at h
  case cancelCommit =>
    split at h <;> cases h
    exact .cancelRequest rfl
  case cancelFinish =>
    split at h <;> cases h
    exact .cancelFinal rfl
  case requeueCommit =>
    split at h <;> cases h
    exact .requeueCancel rfl
  case requeueFinish =>
    split at h <;> cases h
    exact .requeuePending rfl
  case cancelLoad =>
    split at h
    · split at h <;> cases h <;> exact .load rfl
    · cases h
  case cancelRefresh =>
    split at h
    · split at h <;> cases h <;> exact .load rfl
    · cases h
  case requeueLoad =>
    split at h
    · split at h
      · cases h; exact .load rfl
      · split at h <;> cases h <;> exact .load rfl
    · cases h
  case requeueRefresh =>
    split at h <;> cases h
    exact .load rfl
  case abort =>
    cases h
    exact .load rfl

/-- The moves of the pump. -/
inductive PumpMove (row : TaskRow) (fresh : ℕ) (th : PumpThread) :
    PumpAct → PumpThread → Statement → Prop
  | read (hth : th = .idle) (h : pumpSelects row = true) :
      PumpMove row fresh th .read (.selected ⟨row,h⟩) .nothing
  | publish {l} (hth : th = .selected l) :
      PumpMove row fresh th .publish (.published l fresh) .nothing
  | commit {l cid} (hth : th = .published l cid) :
      PumpMove row fresh th .commit .idle (.flush l.1 (pumpTarget cid l.1))
  | fail : PumpMove row fresh th .fail .idle .nothing

theorem pumpStep_move {fresh : ℕ} {th th' : PumpThread} {a : PumpAct} {st : Statement}
    (h : pumpStep row fresh th a = some (th',st)) : PumpMove row fresh th a th' st := by
  cases a <;> simp only [pumpStep] at h
  case read =>
    split at h
    · split at h <;> cases h
      rename_i hr
      exact .read rfl hr
    · cases h
  case publish =>
    split at h <;> cases h
    exact .publish rfl
  case commit =>
    split at h <;> cases h
    exact .commit rfl
  case fail =>
    cases h
    exact .fail

/-- The scan thread has no loaded row to write back. -/
def ScanThread.settled : ScanThread → Prop
  | .resetting _ _ | .recovering _ => False
  | _ => True

/-- The act commits a write-back. -/
def ScanAct.isWrite : ScanAct → Bool
  | .commit | .recoverCommit => true
  | _ => false

/-- The moves of the scan thread. -/
inductive ScanMove (cfg : Settings) (now : ℤ) (row : TaskRow) (th : ScanThread) :
    ScanAct → ScanThread → Statement → Prop
  | load {a th'} (ha : a.isWrite = false) (hs : th'.settled) : ScanMove cfg now row th a th' .nothing
  | read {ids t} (hth : th = .inspected ids) (ht : t ≤ now)
      (h : staleResets cfg t ids row = true) :
      ScanMove cfg now row th (.read t) (.resetting ids ⟨row,(staleResets_iff.mp h).1⟩) .nothing
  | commit {ids l} (hth : th = .resetting ids l) :
      ScanMove cfg now row th .commit (.resetDone ids) (.flush l.1 (staleTarget l.1))
  | recoverRead {ids} (hth : th = .resetDone ids) (h : recoverResets ids row = true) :
      ScanMove cfg now row th .recoverRead
        (.recovering ⟨row,(recoverResets_iff.mp h).1,(recoverResets_iff.mp h).2.2.1⟩) .nothing
  | recoverCommit {l} (hth : th = .recovering l) :
      ScanMove cfg now row th .recoverCommit .idle (.flush l.1 (recoverTarget l.1))

theorem scanStep_move {th th' : ScanThread} {a : ScanAct} {st : Statement}
    (h : scanStep cfg now row th a = some (th',st)) : ScanMove cfg now row th a th' st := by
  cases a <;> simp only [scanStep] at h
  case inspect =>
    split at h <;> cases h
    exact .load rfl trivial
  case read t =>
    split at h
    · split at h
      · rename_i ht
        split at h <;> cases h
        · rename_i hr
          exact .read rfl ht hr
        · exact .load rfl trivial
      · cases h
    · cases h
  case commit =>
    split at h <;> cases h
    exact .commit rfl
  case recoverRead =>
    split at h
    · split at h <;> cases h
      · rename_i hr
        exact .recoverRead rfl hr
      · exact .load rfl trivial
    · cases h
  case recoverCommit =>
    split at h <;> cases h
    exact .recoverCommit rfl
  case abort =>
    cases h
    exact .load rfl trivial

/-- The moves of the system, with the statement each sends. -/
inductive Move (cfg : Settings) (s : Sys) : Act → Statement → Sys → Prop
  | tick (d : ℕ) : Move cfg s (.tick d) .nothing { s with now := s.now + d }
  | deliver {n cid} (hq : cid ∈ s.queue) :
      Move cfg s (.deliver n cid) .nothing { s with
        queue := s.queue.erase cid
        execs := Function.update s.execs n { s.execs n with celeryId := some cid } }
  | redeliver {cid} : Move cfg s (.redeliver cid) .nothing { s with queue := s.queue ++ [cid] }
  | exec {n a e' st} (hl : (s.execs n).live = true)
      (h : ExecMove cfg s.now s.row (s.execs n) a e' st) :
      Move cfg s (.exec n a) st { s.send cfg st with execs := Function.update s.execs n e' }
  | api {k a op' st} (h : ApiMove s.now s.row (s.api k) a op' st) :
      Move cfg s (.api k a) st { s.send cfg st with api := Function.update s.api k op' }
  | startupReset : Move cfg s .startupReset .startupReset (s.send cfg .startupReset)
  | pump {a th' st} (h : PumpMove s.row s.nextId s.pump a th' st) :
      Move cfg s (.pump a) st { (s.enqueue a).send cfg st with pump := th' }
  | scan {a th' st} (h : ScanMove cfg s.now s.row s.scan a th' st) :
      Move cfg s (.scan a) st { s.send cfg st with scan := th' }

theorem step_move {s s' : Sys} {a : Act} (h : step cfg s a = some s') :
    Move cfg s a (issued cfg s a) s' := by
  cases a <;> simp only [step,issued] at h ⊢
  case tick => cases h; exact .tick _
  case deliver =>
    split at h <;> cases h
    rename_i hd
    exact .deliver hd.1
  case redeliver =>
    split at h <;> cases h
    exact .redeliver
  case exec =>
    obtain ⟨⟨e',st⟩,hs,rfl⟩ := Option.map_eq_some_iff.mp h
    simp only [hs,Option.map_some,Option.getD_some]
    exact .exec (execStep_move hs).1 (execStep_move hs).2
  case api =>
    obtain ⟨⟨op',st⟩,hs,rfl⟩ := Option.map_eq_some_iff.mp h
    simp only [hs,Option.map_some,Option.getD_some]
    exact .api (apiStep_move hs)
  case startupReset => cases h; exact .startupReset
  case pump =>
    obtain ⟨⟨th',st⟩,hs,rfl⟩ := Option.map_eq_some_iff.mp h
    simp only [hs,Option.map_some,Option.getD_some]
    exact .pump (pumpStep_move hs)
  case scan =>
    obtain ⟨⟨th',st⟩,hs,rfl⟩ := Option.map_eq_some_iff.mp h
    simp only [hs,Option.map_some,Option.getD_some]
    exact .scan (scanStep_move hs)

/-- The row changes by the statement the step sends, and by nothing else. -/
theorem Move.row_eq {s s' : Sys} {a : Act} {st : Statement} (h : Move cfg s a st s') :
    s'.row = st.apply cfg s.now s.row := by
  cases h with
  | pump h => cases h <;> rfl
  | _ => rfl

theorem step_row {s s' : Sys} {a : Act} (h : step cfg s a = some s') :
    s'.row = (issued cfg s a).apply cfg s.now s.row := (step_move h).row_eq

/-- A claim statement is sent only when it goes through. -/
theorem Move.claim_inv {s s' : Sys} {a : Act} {c : Candidate} {owner : String}
    {ip : Option String} {deadline : ℤ} (h : Move cfg s a (.claim c owner ip deadline) s') :
    ∃ row', claimWrite c owner ip deadline s.row = some row' ∧ s'.row = row' := by
  have hrow := h.row_eq
  cases h with
  | exec hl h =>
    cases h with
    | claim hop ht hw => exact ⟨_,hw,by simpa [Statement.apply,hw] using hrow⟩
  | api h => cases h
  | pump h => cases h
  | scan h => cases h

/-- No write-back deletes or restores the task. -/
theorem Move.flush_isDeleted {s s' : Sys} {a : Act} {l t : TaskRow}
    (h : Move cfg s a (.flush l t) s') : t.isDeleted = l.isDeleted := by
  cases h with
  | exec hl h => cases h <;> rfl
  | api h =>
    cases h with
    | cancelRequest hop => simp only [cancelRequestTarget]; split <;> rfl
    | _ => rfl
  | pump h => cases h; rfl
  | scan h => cases h <;> rfl

/-- The write-back can end a claim but not bring one about: it neither sets the status to
running nor enters an owner or an epoch other than zero. -/
structure ReleasesOnly (l t : TaskRow) : Prop where
  isDeleted : t.isDeleted = l.isDeleted
  status : t.status = l.status ∨ t.status ≠ .running
  ownerPod : t.ownerPod = l.ownerPod ∨ t.ownerPod = none
  executionEpoch : t.executionEpoch = l.executionEpoch ∨ t.executionEpoch = 0

theorem flushColumn_eq_of_ne {α : Type} [DecidableEq α] {l t c x : α} (h : t = l ∨ t ≠ x)
    (hf : ColumnWrite.flushColumn l t c = x) : c = x := by
  rcases h with rfl | h
  · simpa using hf
  · rcases ColumnWrite.flushColumn_eq_or l t c with hc | ht
    · exact hc.symm.trans hf
    · exact absurd (ht.symm.trans hf) h

theorem ReleasesOnly.heldBy {l t row : TaskRow} {o : String} {n : ℕ} (h : ReleasesOnly l t)
    (hn : 0 < n) (hh : (flush l t row).heldBy o n) : row.heldBy o n := by
  obtain ⟨hd,hs,ho,he⟩ := hh
  refine ⟨by simpa [flush,h.isDeleted] using hd,flushColumn_eq_of_ne h.status hs,
    flushColumn_eq_of_ne ?_ ho,flushColumn_eq_of_ne ?_ he⟩
  · exact h.ownerPod.imp_right fun h => by simp [h]
  · exact h.executionEpoch.imp_right fun h => by omega

/-- Step 0 is the only write-back that can make somebody an owner. -/
def isStep0Commit : Act → Bool
  | .exec _ .step0Commit => true
  | _ => false

theorem Move.releasesOnly {s s' : Sys} {a : Act} {l t : TaskRow}
    (h : Move cfg s a (.flush l t) s') (ha : isStep0Commit a = false) : ReleasesOnly l t := by
  cases h with
  | exec hl h =>
    cases h with
    | step0 hop => simp [isStep0Commit] at ha
    | step2 hop => exact ⟨rfl,.inl rfl,.inl rfl,.inl rfl⟩
    | step3 hop => exact ⟨rfl,.inr (by simp [step3Target]),.inr rfl,.inl rfl⟩
    | ensure hop => exact ⟨rfl,.inr (by simp [ensureTarget]),.inl rfl,.inl rfl⟩
  | api h =>
    cases h with
    | cancelRequest hop =>
      simp only [cancelRequestTarget]
      split
      · exact ⟨rfl,.inr (by simp),.inr rfl,.inl rfl⟩
      · exact ⟨rfl,.inl rfl,.inl rfl,.inl rfl⟩
    | cancelFinal hop => exact ⟨rfl,.inr (by simp [cancelFinalTarget]),.inr rfl,.inr rfl⟩
    | requeueCancel hop => exact ⟨rfl,.inr (by simp [requeueCancelTarget]),.inl rfl,.inl rfl⟩
    | requeuePending hop => exact ⟨rfl,.inr (by simp [requeuePendingTarget]),.inr rfl,.inr rfl⟩
  | pump h => cases h; exact ⟨rfl,.inl rfl,.inl rfl,.inl rfl⟩
  | scan h =>
    cases h with
    | commit hth => exact ⟨rfl,.inr (by simp [staleTarget]),.inr rfl,.inr rfl⟩
    | recoverCommit hth => exact ⟨rfl,.inl rfl,.inr rfl,.inr rfl⟩

/-- Apart from a claim and Step 0, a step leaves nobody as holder who was not one before. -/
theorem Move.heldBy_back {s s' : Sys} {a : Act} {st : Statement} (h : Move cfg s a st s')
    (ha : isStep0Commit a = false) (hc : ∀ c o ip d, st ≠ .claim c o ip d) {o : String} {n : ℕ}
    (hn : 0 < n) (hh : s'.row.heldBy o n) : s.row.heldBy o n := by
  rw [h.row_eq] at hh
  cases st with
  | nothing => exact hh
  | claim c o ip d => exact absurd rfl (hc c o ip d)
  | renew o' n' => exact (renewLease_heldBy_iff ..).mp hh
  | flush l t => exact (h.releasesOnly ha).heldBy hn hh
  | finish pod r l =>
    simp only [Statement.apply] at hh
    cases hw : step10Write s.now pod r l s.row with
    | none => simpa [hw] using hh
    | some row' =>
      obtain ⟨-,-,rfl⟩ := step10Write_eq_some hw
      simp [hw,step10Fields,TaskRow.heldBy] at hh
  | clear =>
    simp [Statement.apply,clearRunningDispatchFields,TaskRow.heldBy] at hh
  | startupReset =>
    simp only [Statement.apply,Dispatcher.startupReset] at hh
    split at hh
    · simp [TaskRow.heldBy] at hh
    · split at hh
      · simp [TaskRow.heldBy] at hh
      · exact hh

/-- The execution whose claim goes through in this step. -/
def claimedBy (cfg : Settings) (e : Event Sys Act) : Option ℕ :=
  match e.act, issued cfg e.pre e.act with
  | .exec n _, .claim .. => some n
  | _, _ => none

/-- The executions that were granted a claim in a run, the latest first. -/
def claimants (cfg : Settings) (tr : List (Event Sys Act)) : List ℕ :=
  watch (fun g e => (claimedBy cfg e).toList ++ g) [] tr

/-- The row carries the claim of execution `n`. -/
def Sys.holds (s : Sys) (n : ℕ) : Prop :=
  match (s.execs n).claim with
  | some k => s.row.heldBy (s.execs n).pod k
  | none => False

instance (s : Sys) (n : ℕ) : Decidable (s.holds n) :=
  match h : (s.execs n).claim with
  | some k => decidable_of_iff (s.row.heldBy (s.execs n).pod k) (by simp [Sys.holds,h])
  | none => isFalse (by simp [Sys.holds,h])

theorem Sys.holds_iff {s : Sys} {n : ℕ} :
    s.holds n ↔ ∃ k, (s.execs n).claim = some k ∧ s.row.heldBy (s.execs n).pod k := by
  unfold Sys.holds
  cases (s.execs n).claim <;> simp

/-- Execution `n` is alive and the row carries its claim. -/
def Sys.worksOn (s : Sys) (n : ℕ) : Prop := (s.execs n).live = true ∧ s.holds n

instance (s : Sys) (n : ℕ) : Decidable (s.worksOn n) := inferInstanceAs (Decidable (_ ∧ _))

/-- Every claim held by an execution was granted in the run, and with a positive epoch. -/
def ClaimsGranted (cfg : Settings) (tr : List (Event Sys Act)) (s : Sys) : Prop :=
  ∀ n k, (s.execs n).claim = some k → n ∈ claimants cfg tr ∧ 0 < k

/-- Executions change only by their own steps and by receiving their message. -/
theorem Move.exec_cases {s s' : Sys} {a : Act} {st : Statement} (h : Move cfg s a st s') (n : ℕ) :
    ((s'.execs n).claim = (s.execs n).claim ∧ (s'.execs n).pod = (s.execs n).pod ∧
        ((s'.execs n).live = true → (s.execs n).live = true)) ∨
      ∃ c o ip d t, a = .exec n (.claimWrite t) ∧ st = .claim c o ip d ∧
        (s'.execs n).claim = some c.newEpoch := by
  cases h with
  | deliver hq =>
    rename_i m cid
    by_cases hnm : n = m
    · subst hnm; simp
    · simp [Function.update_of_ne hnm]
  | exec hl h =>
    rename_i m _ _
    by_cases hnm : n = m
    · subst hnm
      cases h with
      | claim hop ht hw => exact .inr ⟨_,_,_,_,_,rfl,rfl,by simp⟩
      | _ => simp [hl]
    · simp [Function.update_of_ne hnm]
  | pump h => cases h <;> simp [Sys.enqueue,Sys.send]
  | _ => simp [Sys.send]

theorem claimsGranted_step {s s' : Sys} {a : Act} {tr : List (Event Sys Act)}
    (hs : step cfg s a = some s') (h : ClaimsGranted cfg tr s) :
    ClaimsGranted cfg (⟨s,a,s'⟩ :: tr) s' := by
  intro n k hk
  rcases (step_move hs).exec_cases n with ⟨hc,-,-⟩ | ⟨c,o,ip,d,t,ha,hst,hc⟩
  · obtain ⟨hmem,hpos⟩ := h n k (hc ▸ hk)
    exact ⟨List.mem_append_right _ hmem,hpos⟩
  · obtain rfl : c.newEpoch = k := Option.some.inj (hc.symm.trans hk)
    refine ⟨?_,Nat.succ_pos _⟩
    subst ha
    simp [claimants,claimedBy,hst]

theorem claimsGranted_initial {s : Sys} (h : Initial s) : ClaimsGranted cfg [] s := by
  intro n k hk
  rw [h.noClaim n] at hk
  cases hk

/-- Apart from a claim and Step 0, a step makes nobody work on the row who did not before. -/
theorem Move.worksOn_back {s s' : Sys} {a : Act} {st : Statement} {tr : List (Event Sys Act)}
    (h : Move cfg s a st s') (hg : ClaimsGranted cfg tr s) (ha : isStep0Commit a = false)
    (hc : ∀ c o ip d, st ≠ .claim c o ip d) {n : ℕ} (hw : s'.worksOn n) : s.worksOn n := by
  obtain ⟨hl,hh⟩ := hw
  obtain ⟨k,hk,hheld⟩ := Sys.holds_iff.mp hh
  rcases h.exec_cases n with ⟨hclaim,hpod,hlive⟩ | ⟨c,o,ip,d,t,-,hst,-⟩
  · rw [hclaim] at hk
    rw [hpod] at hheld
    have hback := h.heldBy_back ha hc (hg n k hk).2 hheld
    exact ⟨hlive hl,Sys.holds_iff.mpr ⟨k,hk,hback⟩⟩
  · exact absurd hst (hc c o ip d)

end ExecutionSystem
end EntryAnalyse
