import EntryAnalyse.ExecutionMoves

/-! Fencing by owner and epoch. An observer keeps the pair of the claim the row carries and
the pairs of all claims that have ended. A renewal under an ended pair is refused in every
state of a run exactly if no pod is ever granted an epoch that it was granted before; the
resets that write the epoch back to 0 are what can bring an old pair back. -/
namespace EntryAnalyse
namespace ClaimFencing

open Runs TaskRow ExecutionCoordinator ExecutionSystem

variable {cfg : Settings}

/-- The pair of the claim the row carries, and the pairs of the claims that have ended. -/
structure Grants where
  current : Option (String × ℕ) := none
  ended : List (String × ℕ) := []
  deriving DecidableEq

namespace Grants

/-- All pairs granted so far, newest first. -/
def all (g : Grants) : List (String × ℕ) := g.current.toList ++ g.ended

/-- The current claim has ended once the row no longer carries its pair. -/
def settle (g : Grants) (row : TaskRow) : Grants :=
  match g.current with
  | some p => if row.heldBy p.1 p.2 then g else ⟨none,p :: g.ended⟩
  | none => g

/-- A new claim ends the current one. -/
def grant (g : Grants) (p : String × ℕ) : Grants := ⟨some p,g.all⟩

@[simp] theorem all_grant (g : Grants) (p : String × ℕ) : (g.grant p).all = p :: g.all := rfl

@[simp] theorem all_settle (g : Grants) (row : TaskRow) : (g.settle row).all = g.all := by
  unfold settle
  split
  · rename_i p hp
    split
    · rfl
    · simp [all,hp]
  · rfl

/-- A pair that settling adds to the ended ones is not in the row. -/
theorem settle_ended {g : Grants} {row : TaskRow} {p : String × ℕ}
    (h : p ∈ (g.settle row).ended) : p ∈ g.ended ∨ ¬ row.heldBy p.1 p.2 := by
  unfold settle at h
  split at h
  · split at h
    · exact .inl h
    · rcases List.mem_cons.mp h with rfl | h
      · exact .inr ‹_›
      · exact .inl h
  · exact .inl h

end Grants

/-- The observer's knowledge after a run. -/
def grants (cfg : Settings) (tr : List (Event Sys Act)) : Grants :=
  watch (fun g e =>
    match issued cfg e.pre e.act with
    | .claim c owner _ _ => g.grant (owner,c.newEpoch)
    | _ => g.settle e.post.row) {} tr

/-- Every renewal under an ended pair is refused, and no pair was granted twice. -/
def Fenced (cfg : Settings) (s : Sys) (g : Grants) : Prop :=
  (∀ p ∈ g.ended, (renewLease s.now cfg.leaseTtl p.1 p.2 s.row).2 = false) ∧ g.all.Nodup

instance (s : Sys) (g : Grants) : Decidable (Fenced cfg s g) :=
  inferInstanceAs (Decidable (_ ∧ _))

/-- No earlier claim of the claimant's pod was granted the epoch after the one that the
candidate SELECT has read. -/
def epochUnused (cfg : Settings) (h : List (Event Sys Act)) (e : Event Sys Act) : Bool :=
  match issued cfg e.pre e.act with
  | .claim c owner _ _ => decide ((owner,c.epoch + 1) ∉ (grants cfg h).all)
  | _ => true

/-- The invariant behind the fence. -/
structure Inv (row : TaskRow) (g : Grants) : Prop where
  notHeld : ∀ p ∈ g.ended, ¬ row.heldBy p.1 p.2
  distinct : g.all.Nodup
  positive : ∀ p ∈ g.all, 0 < p.2

theorem Inv.fenced {s : Sys} {g : Grants} (h : Inv s.row g) : Fenced cfg s g := by
  refine ⟨fun p hp => ?_,h.distinct⟩
  rw [← Bool.not_eq_true,renewLease_true_iff]
  exact h.notHeld p hp

/-- A claim under an unused pair takes the row away from every earlier pair. -/
theorem Inv.grant {row row' : TaskRow} {g : Grants} {o : String} {n : ℕ} (h : Inv row g)
    (hh : row'.heldBy o n) (hn : 0 < n) (hfresh : (o,n) ∉ g.all) : Inv row' (g.grant (o,n)) where
  notHeld := by
    intro p hp hheld
    obtain ⟨ho,he⟩ := heldBy_unique hheld hh
    have hpair : p = (o,n) := Prod.ext ho he
    exact hfresh (hpair ▸ hp)
  distinct := List.nodup_cons.mpr ⟨hfresh,h.distinct⟩
  positive := by
    intro p hp
    rcases List.mem_cons.mp hp with rfl | hp
    · exact hn
    · exact h.positive p hp

/-- A step that gives the row to nobody new keeps the ended pairs out of it. -/
theorem Inv.settle {row row' : TaskRow} {g : Grants} (h : Inv row g)
    (hback : ∀ o n, 0 < n → row'.heldBy o n → row.heldBy o n) : Inv row' (g.settle row') where
  notHeld := by
    intro p hp hheld
    rcases Grants.settle_ended hp with hp | hp
    · have hpos := h.positive p (List.mem_append_right _ hp)
      exact h.notHeld p hp (hback _ _ hpos hheld)
    · exact hp hheld
  distinct := by simpa using h.distinct
  positive := by simpa using h.positive

theorem grants_step {s s' : Sys} {a : Act} {tr : List (Event Sys Act)}
    (hs : step cfg s a = some s') (hi : Inv s.row (grants cfg tr)) (h0 : isStep0Commit a = false)
    (hf : epochUnused cfg tr ⟨s,a,s'⟩ = true) :
    Inv s'.row (grants cfg (⟨s,a,s'⟩ :: tr)) := by
  have hm := step_move hs
  simp only [grants,watch_cons]
  simp only [epochUnused] at hf
  generalize issued cfg s a = st at hm hf
  cases st with
  | claim c o ip d =>
    obtain ⟨row',hw,hrow⟩ := hm.claim_inv
    have hfresh : (o,c.epoch + 1) ∉ (grants cfg tr).all := by simpa using hf
    rw [hrow]
    exact hi.grant (claimWrite_heldBy hw) (Nat.succ_pos _) hfresh
  | _ => exact hi.settle fun o n hn => hm.heldBy_back h0 (by simp) hn

/-- Two executions on one pod and one on another, each with its message in hand. -/
def podStart : Sys where
  row := { celeryTaskId := some 0 }
  execs := fun n => { pod := if n = 2 then "pod-b" else "pod-a", celeryId := some n }

theorem podStart_initial : Initial podStart := ⟨fun _ => rfl,fun _ => rfl,fun _ => rfl,rfl,rfl⟩

end ClaimFencing
end EntryAnalyse
