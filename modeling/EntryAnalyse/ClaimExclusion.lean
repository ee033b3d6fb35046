import EntryAnalyse.ExecutionMoves

/-! Mutual exclusion of claims. An observer keeps the claims that were handed out and have
neither expired nor been reset. As long as no takeover is written over a lease that is still
running, it never sees two of them, and the row stores the one it sees. -/
namespace EntryAnalyse
namespace ClaimExclusion

open Runs TaskRow ColumnWrite ExecutionCoordinator TaskRunner ExecutionSystem

variable {cfg : Settings}

/-- A claim as its holder knows it: the pair handed out, and the latest deadline. -/
structure LiveClaim where
  owner : String
  epoch : ℕ
  deadline : ℤ
  deriving DecidableEq, Repr

/-- The write-back changes one of the columns that a claim sets and a reset clears. -/
def assignsClaim (loaded target : TaskRow) : Bool :=
  !(decide (target.status = loaded.status) && decide (target.ownerPod = loaded.ownerPod) &&
    decide (target.leaseExpiresAt = loaded.leaseExpiresAt) &&
    decide (target.executionEpoch = loaded.executionEpoch))

/-- Every write of these columns that is neither a claim nor a renewal counts as a reset. -/
def resets (row : TaskRow) : Statement → Bool
  | .flush loaded target => assignsClaim loaded target
  | .finish pod _ _ => decide (row.ownerPod = some pod ∧ row.status = .running)
  | .clear | .startupReset => true
  | .nothing | .claim .. | .renew .. => false

/-- A renewal moves the deadline of the claim it names; the holder of an expired claim that
the row still carries is back in business. -/
def extend (owner : String) (epoch : ℕ) (deadline : ℤ) (g : List LiveClaim) : List LiveClaim :=
  if g.any (fun c => decide (c.owner = owner ∧ c.epoch = epoch)) then
    g.map fun c => if c.owner = owner ∧ c.epoch = epoch then { c with deadline := deadline } else c
  else ⟨owner,epoch,deadline⟩ :: g

/-- What the observer makes of one statement. -/
def afterStatement (cfg : Settings) (now : ℤ) (row : TaskRow) (g : List LiveClaim)
    (st : Statement) : List LiveClaim :=
  if resets row st then []
  else match st with
    | .claim c owner _ deadline => ⟨owner,c.newEpoch,deadline⟩ :: g
    | .renew owner epoch =>
      if row.heldBy owner epoch then extend owner epoch (now + cfg.leaseTtl) g else g
    | _ => g

/-- The claims handed out in a run that have neither expired nor been reset. -/
def liveClaims (cfg : Settings) (tr : List (Event Sys Act)) : List LiveClaim :=
  watch (fun g e =>
    (afterStatement cfg e.pre.now e.pre.row g (issued cfg e.pre e.act)).filter
      fun c => decide (e.post.now ≤ c.deadline)) [] tr

/-- At most one claim is alive, and the row stores its owner and epoch. -/
def Exclusive (row : TaskRow) (g : List LiveClaim) : Prop :=
  g.length ≤ 1 ∧ ∀ c ∈ g, row.heldBy c.owner c.epoch

instance (row : TaskRow) (g : List LiveClaim) : Decidable (Exclusive row g) :=
  inferInstanceAs (Decidable (_ ∧ _))

/-- A claim that expected a running row is written only where the lease has run out by then. -/
def takeoverExpired (cfg : Settings) (e : Event Sys Act) : Bool :=
  match issued cfg e.pre e.act with
  | .claim c _ _ _ => !decide (c.expectedStatus = .running) || leaseExpired e.pre.now e.pre.row
  | _ => true

/-- The row backs the claim: it carries the pair, and its lease lasts at least as long as the
holder believes. -/
def Backed (row : TaskRow) (c : LiveClaim) : Prop :=
  row.heldBy c.owner c.epoch ∧ ∃ l, row.leaseExpiresAt = some l ∧ c.deadline ≤ l

/-- The invariant of the observer, apart from the clock. -/
def AtMostOneBacked (row : TaskRow) (g : List LiveClaim) : Prop :=
  g.length ≤ 1 ∧ ∀ c ∈ g, Backed row c

theorem atMostOneBacked_nil (row : TaskRow) : AtMostOneBacked row [] := by
  simp [AtMostOneBacked]

theorem atMostOneBacked_singleton {row : TaskRow} {c : LiveClaim} (h : Backed row c) :
    AtMostOneBacked row [c] := by
  simpa [AtMostOneBacked] using h

theorem AtMostOneBacked.filter {row : TaskRow} {g : List LiveClaim} (h : AtMostOneBacked row g)
    (p : LiveClaim → Bool) : AtMostOneBacked row (g.filter p) :=
  ⟨(List.length_filter_le p g).trans h.1,fun c hc => h.2 c (List.mem_of_mem_filter hc)⟩

theorem AtMostOneBacked.mono {row row' : TaskRow} {g : List LiveClaim}
    (h : AtMostOneBacked row g) (hb : ∀ c, Backed row c → Backed row' c) :
    AtMostOneBacked row' g := ⟨h.1,fun c hc => hb c (h.2 c hc)⟩

/-- A write-back that is no reset leaves the backing alone. -/
theorem backed_flush {l t row : TaskRow} {c : LiveClaim} (ha : assignsClaim l t = false)
    (hd : t.isDeleted = l.isDeleted) (h : Backed row c) : Backed (flush l t row) c := by
  simp only [assignsClaim,Bool.not_eq_false',Bool.and_eq_true,decide_eq_true_eq] at ha
  obtain ⟨⟨⟨h₁,h₂⟩,h₃⟩,h₄⟩ := ha
  simpa [Backed,heldBy,flush,h₁,h₂,h₃,h₄,hd] using h

/-- The lease of a running row with a live claim has not run out. -/
theorem backed_not_expired {row : TaskRow} {c : LiveClaim} {now : ℤ} (h : Backed row c)
    (hn : now ≤ c.deadline) : leaseExpired now row = false := by
  obtain ⟨-,l,hl,hd⟩ := h
  simp only [leaseExpired,hl,decide_eq_false_iff_not]
  omega

theorem claim_backed {c : Candidate} {owner : String} {ip : Option String} {deadline : ℤ}
    {row row' : TaskRow} (h : claimWrite c owner ip deadline row = some row') :
    Backed row' ⟨owner,c.newEpoch,deadline⟩ := by
  refine ⟨claimWrite_heldBy h,deadline,?_,le_refl _⟩
  obtain ⟨-,-,rfl⟩ := claimWrite_eq_some h
  rfl

/-- A takeover of an expired row, or a claim of a pending one, finds no live claim. -/
theorem claim_finds_none {c : Candidate} {row : TaskRow} {g : List LiveClaim} {now : ℤ}
    (hs : row.status = c.expectedStatus)
    (hx : c.expectedStatus = .running → leaseExpired now row = true)
    (hg : AtMostOneBacked row g) (hn : ∀ d ∈ g, now ≤ d.deadline) : g = [] := by
  cases g with
  | nil => rfl
  | cons d g =>
    have hb := hg.2 d (by simp)
    have hrun : c.expectedStatus = .running := hs.symm.trans hb.1.2.1
    have hfalse := backed_not_expired hb (hn d (by simp))
    rw [hx hrun] at hfalse
    cases hfalse

/-- A successful renewal leaves exactly the renewed claim alive. -/
theorem extend_eq_singleton {row : TaskRow} {g : List LiveClaim} {owner : String} {epoch : ℕ}
    (hg : AtMostOneBacked row g) (h : row.heldBy owner epoch) (deadline : ℤ) :
    extend owner epoch deadline g = [⟨owner,epoch,deadline⟩] := by
  cases g with
  | nil => simp [extend]
  | cons c g =>
    have hnil : g = [] := by simpa using hg.1
    obtain ⟨ho,he⟩ := heldBy_unique (hg.2 c (by simp)).1 h
    simp [extend,hnil,ho,he]

/-- What one statement does to the observer's invariant. -/
theorem atMostOneBacked_statement {s s' : Sys} {a : Act} {st : Statement} {g : List LiveClaim}
    (hm : Move cfg s a st s') (hg : AtMostOneBacked s.row g) (hn : ∀ c ∈ g, s.now ≤ c.deadline)
    (hx : ∀ c o ip d, st = .claim c o ip d → c.expectedStatus = .running →
      leaseExpired s.now s.row = true) :
    AtMostOneBacked (st.apply cfg s.now s.row) (afterStatement cfg s.now s.row g st) := by
  unfold afterStatement
  split
  · exact atMostOneBacked_nil _
  rename_i hr
  cases st with
  | nothing => exact hg
  | claim c o ip d =>
    obtain ⟨row',hw,-⟩ := hm.claim_inv
    have hnil := claim_finds_none (claimWrite_eq_some hw).2.1 (hx c o ip d rfl) hg hn
    simpa [hnil,Statement.apply,hw] using atMostOneBacked_singleton (claim_backed hw)
  | renew o n =>
    simp only [Statement.apply,renewLease]
    split
    · rename_i hh
      rw [extend_eq_singleton hg hh]
      exact atMostOneBacked_singleton ⟨hh,_,rfl,le_refl _⟩
    · exact hg
  | flush l t =>
    have ha : assignsClaim l t = false := by simpa [resets] using hr
    exact hg.mono fun c => backed_flush ha hm.flush_isDeleted
  | finish pod r l =>
    have hno : ¬ (s.row.ownerPod = some pod ∧ s.row.status = .running) := by
      simpa [resets] using hr
    simpa [Statement.apply,step10Write,hno] using hg
  | clear => simp [resets] at hr
  | startupReset => simp [resets] at hr

/-- In every run whose takeovers are written only over expired leases, at most one claim is
alive at any time, and the row stores its owner and epoch. -/
theorem claims_exclusive {s u : Sys} {tr : List (Event Sys Act)}
    (h : Run (step cfg) s tr u) (hc : Along (fun _ e => takeoverExpired cfg e = true) tr) :
    Exclusive u.row (liveClaims cfg tr) := by
  have hinv := h.invariant hc
    (J := fun tr u => AtMostOneBacked u.row (liveClaims cfg tr) ∧
      ∀ c ∈ liveClaims cfg tr, u.now ≤ c.deadline)
    ⟨atMostOneBacked_nil _,by simp [liveClaims]⟩ ?_
  · exact ⟨hinv.1.1,fun c hc => (hinv.1.2 c hc).1⟩
  · rintro tr t a v ⟨hg,hn⟩ hx hs
    have hkeep := atMostOneBacked_statement (step_move hs) hg hn (by
      intro c o ip d hst hrun
      simpa [takeoverExpired,hst,hrun] using hx)
    rw [← step_row hs] at hkeep
    refine ⟨hkeep.filter _,?_⟩
    intro c hc
    simpa using (List.mem_filter.mp hc).2

/-- A running row whose holder died 95 seconds ago, and two executions that received its
message. -/
def expiredStart : Sys where
  now := 100
  row := { status := .running, ownerPod := some "pod-0", leaseExpiresAt := some 5,
           executionEpoch := 3 }
  execs := fun n => { pod := if n = 0 then "pod-a" else "pod-b", celeryId := some n }

theorem expiredStart_initial : Initial expiredStart :=
  ⟨fun _ => rfl,fun _ => rfl,fun _ => rfl,rfl,rfl⟩

/-- A takeover that waits for nobody. -/
theorem claims_exclusive_takeover : ∃ tr u, Run (step {}) expiredStart tr u ∧
    liveClaims {} tr = [⟨"pod-a",4,190⟩] ∧ Exclusive u.row (liveClaims {} tr) := by
  obtain ⟨tr,u,h,hp⟩ := exists_run_of_replay (step {}) expiredStart
    [.exec 0 .claimSelect,.exec 0 (.claimWrite 100),.tick 60]
    (p := fun tr _ => decide (Along (fun _ e => takeoverExpired {} e = true) tr) &&
      decide (liveClaims {} tr = [⟨"pod-a",4,190⟩])) (by decide)
  simp only [Bool.and_eq_true,decide_eq_true_eq] at hp
  exact ⟨tr,u,h,hp.2,claims_exclusive h hp.1⟩

/-- Both executions select the expired row before either writes; the guard of the second
write is satisfied by the status that the first one left. -/
theorem expired_row_claimed_twice : ∃ tr u, Initial expiredStart ∧
    Run (step {}) expiredStart tr u ∧
    liveClaims {} tr = [⟨"pod-b",4,190⟩,⟨"pod-a",4,190⟩] ∧
    ¬ Exclusive u.row (liveClaims {} tr) := by
  obtain ⟨tr,u,h,hp⟩ := exists_run_of_replay (step {}) expiredStart
    [.exec 0 .claimSelect,.exec 1 .claimSelect,.exec 0 (.claimWrite 100),
      .exec 1 (.claimWrite 100)]
    (p := fun tr u => decide (liveClaims {} tr = [⟨"pod-b",4,190⟩,⟨"pod-a",4,190⟩]) &&
      !decide (Exclusive u.row (liveClaims {} tr))) (by decide)
  simp only [Bool.and_eq_true,Bool.not_eq_true',decide_eq_true_eq,decide_eq_false_iff_not] at hp
  exact ⟨tr,u,expiredStart_initial,h,hp.1,hp.2⟩

end ClaimExclusion
end EntryAnalyse
