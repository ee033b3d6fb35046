import EntryAnalyse.EngineRun

/-! The barrier of the engine. `r1_done_count` and `r2_done_count` count coroutines, so the
event of the barrier says that all of them have been counted; and where every coroutine is
counted before it ends, some coroutine can always go on. -/
namespace EntryAnalyse
namespace EngineRun

open Runs

variable {H P F : Type}

/-- `_on_r1_done` has not been called. -/
def FilePc.early : FilePc → Bool
  | .start | .r1Queue | .r1 | .marking => true
  | .gathering | .returned | .raised => false

/-- `r2_done_count` has not been increased. -/
def FuncPc.early : FuncPc → Bool
  | .start | .r2Queue | .r2 => true
  | .r3 | .ccWait | .r4 | .returned | .raised => false

def FuncCo.counted (c : FuncCo H P F) : Bool := decide (c.r2 ≠ .pending)

namespace Sys

theorem maybeSetAllR2Done_eq (s : Sys H P F) :
    s.maybeSetAllR2Done = { s with
      allR2Done := s.allR2Done || (s.allR1Done && decide (s.totalFuncs ≤ s.r2DoneCount)) } := by
  by_cases h : s.allR1Done = true ∧ s.totalFuncs ≤ s.r2DoneCount
  · rw [maybeSetAllR2Done,if_pos h]
    simp [h.1,h.2]
  · rw [maybeSetAllR2Done,if_neg h]
    have hand : (s.allR1Done && decide (s.totalFuncs ≤ s.r2DoneCount)) = false := by
      simpa using h
    rw [hand,Bool.or_false]

theorem onR1Done_eq (s : Sys H P F) (n : ℕ) :
    s.onR1Done n = { s with
      totalFuncs := s.totalFuncs + n
      r1DoneCount := s.r1DoneCount + 1
      allR1Done := s.allR1Done || decide (s.r1DoneCount + 1 = s.fileCos.length)
      allR2Done := s.allR2Done || (decide (s.r1DoneCount + 1 = s.fileCos.length) &&
        decide (s.totalFuncs + n ≤ s.r2DoneCount)) } := by
  by_cases h : s.r1DoneCount + 1 = s.fileCos.length <;>
    simp [onR1Done,maybeSetAllR2Done_eq,h]

theorem onR2Done_eq (s : Sys H P F) :
    s.onR2Done = { s with
      r2DoneCount := s.r2DoneCount + 1
      allR2Done := s.allR2Done ||
        (s.allR1Done && decide (s.totalFuncs ≤ s.r2DoneCount + 1)) } := by
  simp [onR2Done,maybeSetAllR2Done_eq]

theorem modifyRow_files [DecidableEq H] (s : Sys H P F) (h k : H) (g : FileRow F → FileRow F) :
    (s.modifyRow h g).files k = if k = h then (s.files h).map g else s.files k := by
  simp [modifyRow,Function.update_apply]

theorem passedFuncs_eq_some {s : Sys H P F} {h : H} {fs : List F} :
    s.passedFuncs h = some fs ↔
      ∃ row, s.files h = some row ∧ row.r1JState = .passed ∧ row.functions = fs := by
  simp [passedFuncs,Option.map_eq_some_iff,Option.filter_eq_some_iff,and_assoc]

end Sys

/-- What is counted for a file: its functions if it has passed. -/
def countedFuncs (s : Sys H P F) (c : FileCo H P) : List F := (s.passedFuncs c.hash).getD []

theorem countedFuncs_of_passed {s : Sys H P F} {c : FileCo H P} {row : FileRow F}
    (h : s.files c.hash = some row) (hpassed : row.r1JState = .passed) :
    countedFuncs s c = row.functions := by
  have hsome := Sys.passedFuncs_eq_some.mpr ⟨row,h,hpassed,rfl⟩
  rw [countedFuncs,hsome,Option.getD_some]

theorem mem_countedFuncs {s : Sys H P F} {c : FileCo H P} {f : F} (h : f ∈ countedFuncs s c) :
    ∃ row, s.files c.hash = some row ∧ row.r1JState = .passed ∧ f ∈ row.functions := by
  unfold countedFuncs at h
  cases hp : s.passedFuncs c.hash with
  | none =>
    rw [hp] at h
    cases h
  | some funcs =>
    rw [hp,Option.getD_some] at h
    obtain ⟨row,hrow,hpassed,rfl⟩ := Sys.passedFuncs_eq_some.mp hp
    exact ⟨row,hrow,hpassed,h⟩

/-- An entry is counted with the functions of its file, and each of them gets a coroutine
unless the task is cancelled. -/
theorem afterR1_eq (s : Sys H P F) (i : ℕ) (c : FileCo H P) : ∃ pc new,
    afterR1 s i c = { (s.setFile i { c with pc := pc, counted := true }).onR1Done
      (countedFuncs s c).length with funcCos := s.funcCos ++ new } ∧
    pc.early = false ∧ (new = spawn c (countedFuncs s c) ∨ s.cancel = true ∧ new = []) := by
  have hnil : ∀ (s' : Sys H P F), s'.funcCos = s.funcCos →
      s' = { s' with funcCos := s.funcCos ++ [] } := by
    intro s' h
    rw [List.append_nil,← h]
  unfold afterR1 countedFuncs
  split
  · rename_i hnone
    rw [hnone]
    refine ⟨.returned,[],hnil _ ?_,rfl,.inl rfl⟩
    rw [Sys.onR1Done_eq]; rfl
  · rename_i funcs hfuncs
    rw [hfuncs,Option.getD_some]
    split
    · rename_i hno
      refine ⟨.returned,[],hnil _ ?_,rfl,?_⟩
      · rw [Sys.onR1Done_eq]; rfl
      · rcases hno with hcancel | rfl
        · exact .inr ⟨hcancel,rfl⟩
        · exact .inl rfl
    · refine ⟨.gathering,spawn c funcs,?_,rfl,.inl rfl⟩
      rw [Sys.onR1Done_eq]; rfl

theorem functions_subset_register [DecidableEq F] (row : FileRow F) (f : F) :
    row.functions ⊆ (row.register f).functions := by
  unfold FileRow.register
  split
  · exact List.Subset.refl _
  · exact List.subset_append_left _ _

/-- The counters are counts of coroutines, and the event is set only when they are complete. -/
structure Inv (s : Sys H P F) : Prop where
  r1Count : s.r1DoneCount = s.fileCos.countP FileCo.counted
  r2Count : s.r2DoneCount = s.funcCos.countP FuncCo.counted
  spawned : s.funcCos.length ≤ s.totalFuncs
  flag : s.allR1Done = true → s.r1DoneCount = s.fileCos.length
  event : s.allR2Done = true →
    s.r1DoneCount = s.fileCos.length ∧ s.totalFuncs ≤ s.r2DoneCount
  uncounted : ∀ c ∈ s.fileCos, c.pc.early = true → c.counted = false
  pending : ∀ c ∈ s.funcCos, c.pc.early = true → c.r2 = .pending
  known : ∀ c ∈ s.funcCos, c.r2 ≠ .missing
  registered : ∀ c ∈ s.funcCos, ∃ row, s.files c.hash = some row ∧ c.func ∈ row.functions

theorem inv_init [DecidableEq H] (work : List (H × P)) : Inv (init work : Sys H P F) where
  r1Count := by
    symm
    apply List.countP_eq_zero.mpr
    intro c hc
    obtain ⟨i,hi,rfl⟩ := List.mem_mapIdx.mp hc
    simp
  r2Count := rfl
  spawned := le_rfl
  flag := nofun
  event h := by
    have hw : work = [] := by simpa [init] using h
    subst hw
    exact ⟨rfl,le_rfl⟩
  uncounted c hc _ := by
    obtain ⟨i,hi,rfl⟩ := List.mem_mapIdx.mp hc
    rfl
  pending := nofun
  known := nofun
  registered := nofun

section Keeps

variable {s s' : Sys H P F} {slots : Slots} {i k : ℕ}

theorem Inv.setFile {c c' : FileCo H P} (hi : Inv s) (hc : s.fileCos[i]? = some c)
    (hcount : c'.counted = c.counted) (hearly : c'.pc.early = true → c.pc.early = true) :
    Inv (s.setFile i c') where
  r1Count := by
    rw [show (s.setFile i c').r1DoneCount = s.r1DoneCount from rfl,hi.r1Count]
    exact (Pool.countP_set_of_eq hc hcount).symm
  r2Count := hi.r2Count
  spawned := hi.spawned
  flag h := by simpa [Sys.setFile] using hi.flag h
  event h := by simpa [Sys.setFile] using hi.event h
  uncounted := Pool.forall_mem_set hi.uncounted fun h => by
    rw [hcount]
    exact hi.uncounted c (List.mem_of_getElem? hc) (hearly h)
  pending := hi.pending
  known := hi.known
  registered := hi.registered

theorem Inv.modifyRow [DecidableEq H] (hi : Inv s) (h : H) {g : FileRow F → FileRow F}
    (hg : ∀ row, row.functions ⊆ (g row).functions) : Inv (s.modifyRow h g) :=
  { hi with
    registered := by
      intro c hc
      obtain ⟨row,hrow,hf⟩ := hi.registered c hc
      rw [Sys.modifyRow_files]
      by_cases hch : c.hash = h
      · rw [if_pos hch,← hch,hrow]
        exact ⟨g row,rfl,hg row hf⟩
      · rw [if_neg hch]
        exact ⟨row,hrow,hf⟩ }

/-- An entry is counted with `n` functions, of which `new` get a coroutine. -/
theorem Inv.countFile {c c' : FileCo H P} {n : ℕ} {new : List (FuncCo H P F)} (hi : Inv s)
    (hc : s.fileCos[i]? = some c) (hold : c.pc.early = true) (hcount : c'.counted = true)
    (hnew : c'.pc.early = false) (hlen : new.length ≤ n)
    (hfresh : ∀ k ∈ new, k.r2 = .pending ∧
      ∃ row, s.files k.hash = some row ∧ k.func ∈ row.functions) :
    Inv { (s.setFile i c').onR1Done n with funcCos := s.funcCos ++ new } := by
  have hunc := hi.uncounted c (List.mem_of_getElem? hc) hold
  have hone : (s.setFile i c').fileCos.countP FileCo.counted = s.r1DoneCount + 1 := by
    rw [hi.r1Count]
    exact Pool.countP_set_of_new hc hunc hcount
  have hlt : s.r1DoneCount < s.fileCos.length := by
    rw [hi.r1Count]
    exact Pool.countP_lt_of_mem (List.mem_of_getElem? hc) hunc
  have hzero : new.countP FuncCo.counted = 0 := by
    rw [List.countP_eq_zero]
    intro k hk
    simp [FuncCo.counted,(hfresh k hk).1]
  rw [Sys.onR1Done_eq]
  refine
    { r1Count := hone.symm
      r2Count := ?_
      spawned := ?_
      flag := ?_
      event := ?_
      uncounted := Pool.forall_mem_set hi.uncounted fun h => by rw [hnew] at h; cases h
      pending := ?_
      known := ?_
      registered := ?_ }
  · simp only [Sys.setFile,List.countP_append,hzero]
    exact hi.r2Count
  · have hs := hi.spawned
    simp only [Sys.setFile,List.length_append]
    omega
  · intro h
    simp only [Sys.setFile,List.length_set,Bool.or_eq_true,decide_eq_true_eq] at h ⊢
    rcases h with h | h
    · have := hi.flag h
      omega
    · exact h
  · intro h
    simp only [Sys.setFile,List.length_set,Bool.or_eq_true,Bool.and_eq_true,
      decide_eq_true_eq] at h ⊢
    rcases h with h | ⟨hlast,hle⟩
    · have := (hi.event h).1
      omega
    · exact ⟨hlast,of_decide_eq_true hle⟩
  · intro k hk hearly
    rcases List.mem_append.mp hk with hk | hk
    · exact hi.pending k hk hearly
    · exact (hfresh k hk).1
  · intro k hk
    rcases List.mem_append.mp hk with hk | hk
    · exact hi.known k hk
    · rw [(hfresh k hk).1]
      nofun
  · intro k hk
    rcases List.mem_append.mp hk with hk | hk
    · exact hi.registered k hk
    · exact (hfresh k hk).2

theorem Inv.afterR1 {c : FileCo H P} (hi : Inv s) (hc : s.fileCos[i]? = some c)
    (hold : c.pc.early = true) : Inv (afterR1 s i c) := by
  obtain ⟨pc,new,heq,hpc,hnew⟩ := afterR1_eq s i c
  rw [heq]
  rcases hnew with rfl | ⟨-,rfl⟩
  · apply hi.countFile hc hold rfl hpc (by simp [spawn])
    intro k hk
    obtain ⟨f,hf,rfl⟩ := List.mem_map.mp hk
    obtain ⟨row,hrow,-,hmem⟩ := mem_countedFuncs hf
    exact ⟨rfl,row,hrow,hmem⟩
  · exact hi.countFile hc hold rfl hpc (Nat.zero_le _) nofun

theorem Inv.setFunc {c c' : FuncCo H P F} (hi : Inv s) (hc : s.funcCos[k]? = some c)
    (hr2 : c'.r2 = c.r2) (hhash : c'.hash = c.hash) (hfunc : c'.func = c.func)
    (hearly : c'.pc.early = true → c.pc.early = true) : Inv (s.setFunc k c') where
  r1Count := hi.r1Count
  r2Count := by
    rw [show (s.setFunc k c').r2DoneCount = s.r2DoneCount from rfl,hi.r2Count]
    exact (Pool.countP_set_of_eq hc (by simp [FuncCo.counted,hr2])).symm
  spawned := by simpa [Sys.setFunc] using hi.spawned
  flag := hi.flag
  event := hi.event
  uncounted := hi.uncounted
  pending := Pool.forall_mem_set hi.pending fun h => by
    rw [hr2]
    exact hi.pending c (List.mem_of_getElem? hc) (hearly h)
  known := Pool.forall_mem_set hi.known (by
    rw [hr2]
    exact hi.known c (List.mem_of_getElem? hc))
  registered := Pool.forall_mem_set hi.registered (by
    rw [hhash,hfunc]
    exact hi.registered c (List.mem_of_getElem? hc))

theorem Inv.countFunc {c c' : FuncCo H P F} (hi : Inv s) (hc : s.funcCos[k]? = some c)
    (hold : c.pc.early = true) (hr2 : c'.r2 = .finished) (hhash : c'.hash = c.hash)
    (hfunc : c'.func = c.func) (hnew : c'.pc.early = false) :
    Inv (s.setFunc k c').onR2Done := by
  have hpend := hi.pending c (List.mem_of_getElem? hc) hold
  have hone : (s.setFunc k c').funcCos.countP FuncCo.counted = s.r2DoneCount + 1 := by
    rw [hi.r2Count]
    exact Pool.countP_set_of_new hc (by simp [FuncCo.counted,hpend])
      (by simp [FuncCo.counted,hr2])
  rw [Sys.onR2Done_eq]
  exact
    { r1Count := hi.r1Count
      r2Count := hone.symm
      spawned := by simpa [Sys.setFunc] using hi.spawned
      flag := hi.flag
      event := by
        intro h
        simp only [Sys.setFunc,Bool.or_eq_true,Bool.and_eq_true] at h ⊢
        rcases h with h | ⟨hflag,hle⟩
        · have he := hi.event h
          exact ⟨he.1,he.2.trans (Nat.le_succ _)⟩
        · exact ⟨hi.flag hflag,of_decide_eq_true hle⟩
      uncounted := hi.uncounted
      pending := Pool.forall_mem_set hi.pending fun h => by rw [hnew] at h; cases h
      known := Pool.forall_mem_set hi.known (by rw [hr2]; nofun)
      registered := Pool.forall_mem_set hi.registered (by
        rw [hhash,hfunc]
        exact hi.registered c (List.mem_of_getElem? hc)) }

theorem Inv.ccStep {a : CcAct} (hi : Inv s) (h : ccStep s a = some s') : Inv s' := by
  cases a with
  | wake =>
    simp only [EngineRun.ccStep] at h
    split at h
    · split at h <;> cases h <;> exact { hi with }
    · cases h
  | finish | raises =>
    obtain ⟨hpc,rfl⟩ := guarded h
    exact { hi with }

theorem Inv.funcStep [DecidableEq F] {c : FuncCo H P F} {a : FuncAct} (hi : Inv s)
    (hc : s.funcCos[k]? = some c) (h : funcStep slots s k c a = some s') : Inv s' := by
  cases a with
  | start =>
    unfold EngineRun.funcStep at h
    by_cases hpc : c.pc = .start
    · rw [if_pos hpc] at h
      by_cases hcancel : s.cancel = true
      · rw [if_pos hcancel] at h
        cases h
        exact hi.setFunc hc rfl rfl rfl nofun
      · -- the function was registered before its coroutine was made
        obtain ⟨row,hrow,hf⟩ := hi.registered c (List.mem_of_getElem? hc)
        rw [if_neg hcancel,if_pos ⟨row,hrow,hf⟩] at h
        cases h
        exact hi.setFunc hc rfl rfl rfl fun _ => by rw [hpc]; rfl
    · rw [if_neg hpc] at h
      cases h
  | acquire =>
    obtain ⟨hpc,rfl⟩ := guarded h
    exact hi.setFunc hc rfl rfl rfl fun _ => by rw [hpc.1]; rfl
  | r2Returns passed =>
    obtain ⟨hpc,rfl⟩ := guarded h
    refine hi.countFunc hc (by rw [hpc]; rfl) rfl rfl rfl ?_
    split <;> rfl
  | r3Returns filtered =>
    obtain ⟨hpc,rfl⟩ := guarded h
    exact hi.setFunc hc rfl rfl rfl (by split <;> nofun)
  | ccSeen =>
    obtain ⟨hpc,rfl⟩ := guarded h
    exact hi.setFunc hc rfl rfl rfl (by split <;> nofun)
  | r4Returns | raises =>
    obtain ⟨hpc,rfl⟩ := guarded h
    exact hi.setFunc hc rfl rfl rfl nofun

variable [DecidableEq H] [DecidableEq F]

theorem Inv.fileStep {c : FileCo H P} {a : FileAct F} (hi : Inv s)
    (hc : s.fileCos[i]? = some c) (h : fileStep slots s i c a = some s') : Inv s' := by
  have hmark : ∀ (st : NodeState) (row : FileRow F), row.functions ⊆ (row.mark st).functions :=
    fun _ _ => List.Subset.refl _
  cases a with
  | start =>
    obtain ⟨hpc,rfl⟩ := guarded h
    exact hi.setFile hc rfl fun _ => by rw [hpc]; rfl
  | acquire =>
    obtain ⟨hpc,rfl⟩ := guarded h
    exact hi.setFile hc rfl fun _ => by rw [hpc.1]; rfl
  | threadStart | check | saved =>
    obtain ⟨hpc,rfl⟩ := guarded h
    exact hi.setFile hc rfl id
  | register f =>
    obtain ⟨hpc,rfl⟩ := guarded h
    exact hi.modifyRow c.hash fun row => functions_subset_register row f
  | pass | fail =>
    obtain ⟨hpc,rfl⟩ := guarded h
    exact (hi.modifyRow c.hash (hmark _)).setFile hc rfl id
  | timeout =>
    obtain ⟨hpc,rfl⟩ := guarded h
    exact (hi.modifyRow c.hash (hmark _)).setFile hc rfl fun _ => by rw [hpc]; rfl
  | saveFails | joined | joinFails =>
    obtain ⟨hpc,rfl⟩ := guarded h
    exact hi.setFile hc rfl nofun
  | resume =>
    obtain ⟨hpc,rfl⟩ := guarded h
    apply hi.afterR1 hc
    rcases hpc with hpc | hpc
    · rw [hpc.1]; rfl
    · rw [hpc]; rfl

theorem Inv.step {a : Act F} (hi : Inv s) (h : step slots s a = some s') : Inv s' := by
  cases a with
  | cancel =>
    cases h
    exact { hi with }
  | file i a =>
    obtain ⟨c,hc,hs⟩ := Option.bind_eq_some_iff.mp h
    exact hi.fileStep hc hs
  | func k a =>
    obtain ⟨c,hc,hs⟩ := Option.bind_eq_some_iff.mp h
    exact hi.funcStep hc hs
  | cc a => exact hi.ccStep h

end Keeps

section Barrier

/-- What the call-chain phase relies on when it starts its analysis. -/
structure Ready (s : Sys H P F) : Prop where
  filesCounted : ∀ c ∈ s.fileCos, c.counted = true
  funcsFinished : ∀ k ∈ s.funcCos, k.r2 = .finished
  driven : ∀ h row, s.files h = some row → row.r1JState = .passed →
    ∀ f ∈ row.functions, ∃ k ∈ s.funcCos, k.hash = h ∧ k.func = f

/-- The analysis starts in a state that is ready for it. -/
def StartsReady (e : Event (Sys H P F) (Act F)) : Prop :=
  e.act = .cc .wake → e.pre.cancel = false → Ready e.pre

/-- A thread that its coroutine has given up does not pass a file that has functions or
register a function for a file that has passed. -/
def LateIdle (e : Event (Sys H P F) (Act F)) : Prop :=
  ∀ i c, e.pre.fileCos[i]? = some c → c.pc ≠ .r1 →
    (e.act = .file i .pass → ∀ row, e.pre.files c.hash = some row → row.functions = []) ∧
    ∀ f, e.act = .file i (.register f) → e.pre.r1JState c.hash ≠ some .passed

/-- This is so as long as the analysis has not started. -/
def InTime (e : Event (Sys H P F) (Act F)) : Prop := e.pre.cc = .waiting → LateIdle e

/-- A function of a passed file has a coroutine, or an entry of the file is still to be counted,
unless the task is cancelled. -/
def Driven (s : Sys H P F) : Prop :=
  ∀ h row, s.files h = some row → row.r1JState = .passed →
    ∀ f ∈ row.functions, s.cancel = true ∨ (∃ c ∈ s.fileCos, c.hash = h ∧ c.counted = false) ∨
      ∃ k ∈ s.funcCos, k.hash = h ∧ k.func = f

theorem driven_init [DecidableEq H] (work : List (H × P)) : Driven (init work : Sys H P F) := by
  intro h row hrow hpassed
  simp only [init,Option.ite_none_right_eq_some,Option.some.injEq] at hrow
  rw [← hrow.2] at hpassed
  cases hpassed

variable {s s' : Sys H P F} {slots : Slots} {i k : ℕ}

theorem Driven.setFile {c c' : FileCo H P} (hd : Driven s) (hc : s.fileCos[i]? = some c)
    (hhash : c'.hash = c.hash) (hcount : c'.counted = c.counted) : Driven (s.setFile i c') := by
  intro h row hrow hpassed f hf
  rcases hd h row hrow hpassed f hf with hcancel | hunc | hk
  · exact .inl hcancel
  · refine .inr (.inl (Pool.exists_mem_set hc ?_ hunc))
    rw [hhash,hcount]
    exact id
  · exact .inr (.inr hk)

theorem Driven.setFunc {c c' : FuncCo H P F} (hd : Driven s) (hc : s.funcCos[k]? = some c)
    (hhash : c'.hash = c.hash) (hfunc : c'.func = c.func) : Driven (s.setFunc k c') := by
  intro h row hrow hpassed f hf
  rcases hd h row hrow hpassed f hf with hcancel | hunc | hk
  · exact .inl hcancel
  · exact .inr (.inl hunc)
  · refine .inr (.inr (Pool.exists_mem_set hc ?_ hk))
    rw [hhash,hfunc]
    exact id

theorem Driven.countFunc {c c' : FuncCo H P F} (hd : Driven s) (hc : s.funcCos[k]? = some c)
    (hhash : c'.hash = c.hash) (hfunc : c'.func = c.func) :
    Driven (s.setFunc k c').onR2Done := by
  rw [Sys.onR2Done_eq]
  exact hd.setFunc hc hhash hfunc

section Rows

variable [DecidableEq H]

/-- An entry that is still to be counted covers whatever is written into its file's row. -/
theorem Driven.modifyRow_of_uncounted {c : FileCo H P} {g : FileRow F → FileRow F}
    (hd : Driven s) (hc : c ∈ s.fileCos) (hunc : c.counted = false) :
    Driven (s.modifyRow c.hash g) := by
  intro h row hrow hpassed f hf
  rw [Sys.modifyRow_files] at hrow
  by_cases hh : h = c.hash
  · exact .inr (.inl ⟨c,hc,hh.symm,hunc⟩)
  · rw [if_neg hh] at hrow
    exact hd h row hrow hpassed f hf

/-- A row that is left without functions, or without a pass, asks for no coroutine. -/
theorem Driven.modifyRow_of_idle {g : FileRow F → FileRow F} (hd : Driven s) (h : H)
    (hidle : ∀ row, s.files h = some row →
      (g row).r1JState ≠ .passed ∨ (g row).functions = []) : Driven (s.modifyRow h g) := by
  intro k row hrow hpassed f hf
  rw [Sys.modifyRow_files] at hrow
  by_cases hk : k = h
  · rw [if_pos hk] at hrow
    obtain ⟨old,hold,rfl⟩ := Option.map_eq_some_iff.mp hrow
    rcases hidle old hold with hnot | hnil
    · exact absurd hpassed hnot
    · rw [hnil] at hf
      cases hf
  · rw [if_neg hk] at hrow
    exact hd k row hrow hpassed f hf

/-- Counting an entry starts the coroutines of its file, if that has passed. -/
theorem Driven.afterR1 {c : FileCo H P} (hd : Driven s) (hc : s.fileCos[i]? = some c) :
    Driven (afterR1 s i c) := by
  obtain ⟨pc,new,heq,-,hnew⟩ := afterR1_eq s i c
  rw [heq,Sys.onR1Done_eq]
  intro h row hrow hpassed f hf
  by_cases hh : h = c.hash
  · subst hh
    rcases hnew with rfl | ⟨hcancel,-⟩
    · have hmem : f ∈ countedFuncs s c := (countedFuncs_of_passed (s := s) hrow hpassed) ▸ hf
      exact .inr (.inr ⟨_,List.mem_append_right _ (List.mem_map.mpr ⟨f,hmem,rfl⟩),rfl,rfl⟩)
    · exact .inl hcancel
  · rcases hd h row hrow hpassed f hf with hcancel | hunc | ⟨k,hk,hkf⟩
    · exact .inl hcancel
    · exact .inr (.inl (Pool.exists_mem_set hc (fun he => absurd he.1.symm hh) hunc))
    · exact .inr (.inr ⟨k,List.mem_append_left _ hk,hkf⟩)

theorem Driven.fileStep [DecidableEq F] {c : FileCo H P} {a : FileAct F} (hd : Driven s)
    (hi : Inv s) (hc : s.fileCos[i]? = some c)
    (hpass : c.pc ≠ .r1 → a = .pass → ∀ row, s.files c.hash = some row → row.functions = [])
    (hregister : c.pc ≠ .r1 → ∀ f, a = .register f → s.r1JState c.hash ≠ some .passed)
    (h : fileStep slots s i c a = some s') : Driven s' := by
  have hmem : c ∈ s.fileCos := List.mem_of_getElem? hc
  have hcover : c.pc = .r1 → ∀ g, Driven (s.modifyRow c.hash g) := fun hpc g =>
    hd.modifyRow_of_uncounted hmem (hi.uncounted c hmem (by rw [hpc]; rfl))
  cases a with
  | start | acquire | threadStart | check | saved | saveFails | joined | joinFails =>
    obtain ⟨-,rfl⟩ := guarded h
    exact hd.setFile hc rfl rfl
  | register f =>
    obtain ⟨-,rfl⟩ := guarded h
    by_cases hpc : c.pc = .r1
    · exact hcover hpc _
    · apply hd.modifyRow_of_idle
      intro row hrow
      refine .inl fun hpassed => hregister hpc f rfl ?_
      rw [Sys.r1JState,hrow,← hpassed]
      unfold FileRow.register
      split <;> rfl
  | pass =>
    obtain ⟨-,rfl⟩ := guarded h
    by_cases hpc : c.pc = .r1
    · exact (hcover hpc _).setFile hc rfl rfl
    · have hidle := hd.modifyRow_of_idle (g := .mark .passed) c.hash fun row hrow =>
        .inr (hpass hpc rfl row hrow)
      exact hidle.setFile hc rfl rfl
  | fail | timeout =>
    obtain ⟨-,rfl⟩ := guarded h
    have hidle := hd.modifyRow_of_idle (g := .mark .failed) c.hash fun _ _ => .inl nofun
    exact hidle.setFile hc rfl rfl
  | resume =>
    obtain ⟨-,rfl⟩ := guarded h
    exact hd.afterR1 hc

end Rows

theorem Driven.funcStep [DecidableEq F] {c : FuncCo H P F} {a : FuncAct} (hd : Driven s)
    (hc : s.funcCos[k]? = some c) (h : funcStep slots s k c a = some s') : Driven s' := by
  cases a with
  | start =>
    simp only [EngineRun.funcStep] at h
    split at h
    · split at h
      · cases h
        exact hd.setFunc hc rfl rfl
      · split at h
        · cases h
          exact hd.setFunc hc rfl rfl
        · cases h
          exact hd.countFunc hc rfl rfl
    · cases h
  | r2Returns passed =>
    obtain ⟨-,rfl⟩ := guarded h
    exact hd.countFunc hc rfl rfl
  | acquire | r3Returns filtered | ccSeen | r4Returns | raises =>
    obtain ⟨-,rfl⟩ := guarded h
    exact hd.setFunc hc rfl rfl

theorem Driven.ccStep {a : CcAct} (hd : Driven s) (h : ccStep s a = some s') : Driven s' := by
  cases a with
  | wake =>
    simp only [EngineRun.ccStep] at h
    split at h
    · split at h <;> cases h <;> exact hd
    · cases h
  | finish | raises =>
    obtain ⟨-,rfl⟩ := guarded h
    exact hd

theorem Driven.step [DecidableEq H] [DecidableEq F] {a : Act F} (hd : Driven s) (hi : Inv s)
    (hlate : LateIdle ⟨s,a,s'⟩) (h : step slots s a = some s') : Driven s' := by
  cases a with
  | cancel =>
    cases h
    exact fun _ _ _ _ _ _ => .inl rfl
  | file i a =>
    obtain ⟨c,hc,hs⟩ := Option.bind_eq_some_iff.mp h
    refine hd.fileStep hi hc ?_ ?_ hs
    · exact fun hpc ha => (hlate i c hc hpc).1 (congrArg _ ha)
    · exact fun hpc f ha => (hlate i c hc hpc).2 f (congrArg _ ha)
  | func k a =>
    obtain ⟨c,hc,hs⟩ := Option.bind_eq_some_iff.mp h
    exact hd.funcStep hc hs
  | cc a => exact hd.ccStep h

theorem cc_afterR1 (c : FileCo H P) : (afterR1 s i c).cc = s.cc := by
  obtain ⟨pc,new,heq,-,-⟩ := afterR1_eq s i c
  rw [heq,Sys.onR1Done_eq]
  rfl

/-- The call-chain coroutine never waits again. -/
theorem waiting_of_step [DecidableEq H] [DecidableEq F] {a : Act F}
    (h : step slots s a = some s') (hcc : s'.cc = .waiting) : s.cc = .waiting := by
  cases a with
  | cancel =>
    cases h
    exact hcc
  | file i a =>
    obtain ⟨c,hc,hs⟩ := Option.bind_eq_some_iff.mp h
    cases a with
    | resume =>
      obtain ⟨-,rfl⟩ := guarded hs
      rwa [cc_afterR1] at hcc
    | _ =>
      obtain ⟨-,rfl⟩ := guarded hs
      exact hcc
  | func k a =>
    obtain ⟨c,hc,hs⟩ := Option.bind_eq_some_iff.mp h
    cases a with
    | start =>
      simp only [EngineRun.funcStep] at hs
      split at hs
      · split at hs
        · cases hs
          exact hcc
        · split at hs <;> cases hs
          · exact hcc
          · rwa [Sys.onR2Done_eq] at hcc
      · cases hs
    | r2Returns passed =>
      obtain ⟨-,rfl⟩ := guarded hs
      rwa [Sys.onR2Done_eq] at hcc
    | _ =>
      obtain ⟨-,rfl⟩ := guarded hs
      exact hcc
  | cc a =>
    cases a with
    | wake =>
      simp only [EngineRun.step,EngineRun.ccStep] at h
      split at h
      · rename_i hg
        exact hg.1
      · cases h
    | finish | raises =>
      obtain ⟨-,rfl⟩ := guarded h
      cases hcc

/-- The event of the barrier says that everything has been counted. -/
theorem Inv.ready (hi : Inv s) (hd : Driven s) (hevent : s.allR2Done = true)
    (hcancel : s.cancel = false) : Ready s := by
  obtain ⟨hr1,hle⟩ := hi.event hevent
  have hfiles : ∀ c ∈ s.fileCos, c.counted = true := by
    rw [hi.r1Count] at hr1
    exact List.countP_eq_length.mp hr1
  have hfuncs : s.funcCos.countP FuncCo.counted = s.funcCos.length := by
    have hspawned := hi.spawned
    have hbound : s.funcCos.countP FuncCo.counted ≤ s.funcCos.length := List.countP_le_length
    rw [hi.r2Count] at hle
    omega
  refine ⟨hfiles,?_,?_⟩
  · intro k hk
    have hcounted := List.countP_eq_length.mp hfuncs k hk
    have hknown := hi.known k hk
    cases hr2 : k.r2 with
    | pending => simp [FuncCo.counted,hr2] at hcounted
    | missing => exact absurd hr2 hknown
    | finished => rfl
  · intro h row hrow hpassed f hf
    rcases hd h row hrow hpassed f hf with hc | ⟨c,hc,-,hunc⟩ | hk
    · rw [hcancel] at hc
      cases hc
    · rw [hfiles c hc] at hunc
      cases hunc
    · exact hk

/-- Where no thread outlives its coroutine, the analysis starts only when all is counted. -/
theorem run_startsReady [DecidableEq H] [DecidableEq F] (work : List (H × P))
    {tr : List (Event (Sys H P F) (Act F))} {u : Sys H P F}
    (hr : Run (EngineRun.step slots) (init work) tr u) (ht : Along (fun _ e => InTime e) tr) :
    Along (fun _ e => StartsReady e) tr := by
  refine hr.along_of_invariant (J := fun _ s => Inv s ∧ (s.cc = .waiting → Driven s)) ht
    ⟨inv_init work,fun _ => driven_init work⟩ ?_ ?_
  · intro _ t a v hj ht hs
    refine ⟨hj.1.step hs,fun hcc => ?_⟩
    have hwait := waiting_of_step hs hcc
    exact (hj.2 hwait).step hj.1 (ht hwait) hs
  · intro _ t a v hj _ hs hact hcancel
    subst hact
    simp only [EngineRun.step,EngineRun.ccStep] at hs
    split at hs
    · rename_i hg
      exact hj.1.ready (hj.2 hg.1) hg.2 hcancel
    · cases hs

end Barrier

section Progress

def FilePc.over : FilePc → Bool
  | .returned | .raised => true
  | .start | .r1Queue | .r1 | .marking | .gathering => false

def FuncPc.over : FuncPc → Bool
  | .returned | .raised => true
  | .start | .r2Queue | .r2 | .r3 | .ccWait | .r4 => false

def CcPc.over : CcPc → Bool
  | .returned | .raised => true
  | .waiting | .analysing => false

/-- The coroutine waits for a slot that is not free, or for coroutines that are not over. -/
def FileCo.blocked (slots : Slots) (s : Sys H P F) (c : FileCo H P) : Bool :=
  match c.pc with
  | .r1Queue => decide (slots.r1 ≤ s.inR1)
  | .gathering => decide ((∃ k ∈ s.funcCos, k.entry = c.entry ∧ k.pc.over = false) ∧
      ∀ k ∈ s.funcCos, k.entry = c.entry → k.pc ≠ .raised)
  | _ => false

/-- The coroutine waits for a slot that is not free, or for `cc_done_event`. -/
def FuncCo.blocked (slots : Slots) (s : Sys H P F) (k : FuncCo H P F) : Bool :=
  match k.pc with
  | .r2Queue => decide (slots.r2 ≤ s.inR2)
  | .ccWait => !s.ccDone
  | _ => false

/-- `_cc_phase` waits for `all_r2_done_event`. -/
def Sys.ccBlocked (s : Sys H P F) : Bool := s.cc = .waiting ∧ s.allR2Done = false

/-- Some coroutine is not over, and every one that is not over waits. -/
def stuck (slots : Slots) (s : Sys H P F) : Bool :=
  !(s.cc.over && s.fileCos.all (fun c => c.pc.over) && s.funcCos.all (fun k => k.pc.over)) &&
  (s.cc.over || s.ccBlocked) &&
  s.fileCos.all (fun c => c.pc.over || c.blocked slots s) &&
  s.funcCos.all (fun k => k.pc.over || k.blocked slots s)

/-- A coroutine is counted before it ends: it is not stopped by a cancellation or an exception
on the way to its counter; and no function waits for a call-chain phase that has raised. -/
structure Counted (e : Event (Sys H P F) (Act F)) : Prop where
  fileStart : ∀ i, e.act = .file i .start → e.pre.cancel = false
  resume : ∀ i c, e.act = .file i .resume → e.pre.fileCos[i]? = some c → e.pre.cancel = true →
    countedFuncs e.pre c = []
  saveFails : ∀ i, e.act ≠ .file i .saveFails
  funcStart : ∀ k, e.act = .func k .start → e.pre.cancel = false
  raises : ∀ k c, e.act = .func k .raises → e.pre.funcCos[k]? = some c → c.pc ≠ .r2
  ccRaises : e.act = .cc .raises → ∀ k ∈ e.pre.funcCos, k.pc ≠ .ccWait
  r3Returns : ∀ k, e.act = .func k (.r3Returns false) → e.pre.cancel = false →
    e.pre.cc ≠ .raised

/-- Nothing that has ended is missing from the counters. -/
structure Settled (s : Sys H P F) : Prop where
  fileCounted : ∀ c ∈ s.fileCos, c.pc.early = false → c.counted = true
  funcCounted : ∀ k ∈ s.funcCos, k.pc.early = false → k.counted = true
  total : s.totalFuncs = s.funcCos.length
  full : s.fileCos ≠ [] → s.r1DoneCount = s.fileCos.length → s.allR1Done = true
  fire : s.allR1Done = true → s.totalFuncs ≤ s.r2DoneCount → s.allR2Done = true
  empty : s.fileCos = [] → s.allR2Done = true
  ccDone : s.cc = .returned → s.ccDone = true
  ccRaised : s.cc = .raised → ∀ k ∈ s.funcCos, k.pc ≠ .ccWait

theorem settled_init [DecidableEq H] (work : List (H × P)) : Settled (init work : Sys H P F) where
  fileCounted c hc h := by
    obtain ⟨i,hi,rfl⟩ := List.mem_mapIdx.mp hc
    cases h
  funcCounted := nofun
  total := rfl
  full hne h := by
    have hzero : work.length = 0 := by simpa [init] using h.symm
    have hnil := List.length_eq_zero_iff.mp hzero
    subst hnil
    exact absurd rfl hne
  fire := nofun
  empty h := by
    have hnil : work = [] := by simpa [init] using h
    subst hnil
    rfl
  ccDone := nofun
  ccRaised := nofun

variable {s s' : Sys H P F} {slots : Slots} {i k : ℕ}

theorem Settled.setFile {c' : FileCo H P} (hs : Settled s)
    (hover : c'.pc.early = false → c'.counted = true) : Settled (s.setFile i c') :=
  { hs with
    fileCounted := Pool.forall_mem_set hs.fileCounted hover
    full := by simpa [Sys.setFile] using hs.full
    empty := by simpa [Sys.setFile] using hs.empty }

theorem Settled.setFunc {c' : FuncCo H P F} (hs : Settled s)
    (hover : c'.pc.early = false → c'.counted = true)
    (hwait : s.cc = .raised → c'.pc ≠ .ccWait) : Settled (s.setFunc k c') :=
  { hs with
    funcCounted := Pool.forall_mem_set hs.funcCounted hover
    ccRaised := fun hcc => Pool.forall_mem_set (hs.ccRaised hcc) (hwait hcc)
    total := by simpa [Sys.setFunc] using hs.total }

theorem Settled.countFunc {c' : FuncCo H P F} (hs : Settled s) (hr2 : c'.counted = true)
    (hwait : c'.pc ≠ .ccWait) : Settled (s.setFunc k c').onR2Done := by
  have hset := hs.setFunc (k := k) (fun _ => hr2) fun _ => hwait
  rw [Sys.onR2Done_eq]
  exact
    { hset with
      fire := by
        intro hflag hle
        simp only [Bool.or_eq_true,Bool.and_eq_true]
        exact .inr ⟨hflag,decide_eq_true hle⟩
      empty := fun h => by rw [hset.empty h]; rfl }

theorem Settled.afterR1 {c : FileCo H P} (hs : Settled s) (hi : Inv s)
    (hc : s.fileCos[i]? = some c) (hold : c.pc.early = true) (hspawn : s.cancel = true → countedFuncs s c = []) : Settled (afterR1 s i c) := by
  obtain ⟨pc,new,heq,-,hnew⟩ := afterR1_eq s i c
  have hall : new = spawn c (countedFuncs s c) := by
    rcases hnew with hnew | ⟨hcancel,rfl⟩
    · exact hnew
    · rw [hspawn hcancel]
      rfl
  have hset : Settled (s.setFile i { c with pc := pc, counted := true }) :=
    hs.setFile fun _ => rfl
  rw [heq,hall,Sys.onR1Done_eq]
  exact
    { hset with
      funcCounted := by
        intro k hk hearly
        rcases List.mem_append.mp hk with hk | hk
        · exact hs.funcCounted k hk hearly
        · obtain ⟨f,-,rfl⟩ := List.mem_map.mp hk
          cases hearly
      total := by
        rw [List.length_append,spawn,List.length_map,← hs.total]
        rfl
      full := by
        intro _ h
        simp only [Bool.or_eq_true]
        exact .inr (decide_eq_true h)
      fire := by
        intro hflag hle
        simp only [Bool.or_eq_true,Bool.and_eq_true] at hflag ⊢
        rcases hflag with hflag | hlast
        · -- the flag is not set while this entry is uncounted
          have hmem := List.mem_of_getElem? hc
          have hlt := Pool.countP_lt_of_mem hmem (hi.uncounted c hmem hold)
          rw [← hi.r1Count,hi.flag hflag] at hlt
          exact absurd hlt (lt_irrefl _)
        · exact .inr ⟨hlast,decide_eq_true hle⟩
      empty := fun h => by rw [hset.empty h]; rfl
      ccRaised := by
        intro hcc k hk
        rcases List.mem_append.mp hk with hk | hk
        · exact hs.ccRaised hcc k hk
        · obtain ⟨f,-,rfl⟩ := List.mem_map.mp hk
          nofun }

theorem Settled.fileStep [DecidableEq H] [DecidableEq F] {c : FileCo H P} {a : FileAct F}
    (hs : Settled s) (hi : Inv s) (hc : s.fileCos[i]? = some c)
    (hstart : a = .start → s.cancel = false)
    (hresume : a = .resume → s.cancel = true → countedFuncs s c = []) (hsave : a ≠ .saveFails)
    (h : fileStep slots s i c a = some s') : Settled s' := by
  have hover := hs.fileCounted c (List.mem_of_getElem? hc)
  have hrow : ∀ g : FileRow F → FileRow F, Settled (s.modifyRow c.hash g) := fun g => { hs with }
  cases a with
  | start =>
    obtain ⟨-,rfl⟩ := guarded h
    apply hs.setFile
    rw [hstart rfl]
    nofun
  | acquire =>
    obtain ⟨-,rfl⟩ := guarded h
    exact hs.setFile nofun
  | threadStart | check | saved =>
    obtain ⟨-,rfl⟩ := guarded h
    exact hs.setFile hover
  | register f =>
    obtain ⟨-,rfl⟩ := guarded h
    exact hrow _
  | pass | fail =>
    obtain ⟨-,rfl⟩ := guarded h
    exact (hrow _).setFile hover
  | timeout =>
    obtain ⟨-,rfl⟩ := guarded h
    exact (hrow _).setFile nofun
  | saveFails => exact absurd rfl hsave
  | joined | joinFails =>
    obtain ⟨hg,rfl⟩ := guarded h
    exact hs.setFile fun _ => hover (by rw [hg.1]; rfl)
  | resume =>
    obtain ⟨hg,rfl⟩ := guarded h
    refine hs.afterR1 hi hc ?_ (hresume rfl)
    rcases hg with hg | hg
    · rw [hg.1]; rfl
    · rw [hg]; rfl

theorem Settled.funcStep [DecidableEq F] {c : FuncCo H P F} {a : FuncAct} (hs : Settled s)
    (hc : s.funcCos[k]? = some c) (hstart : a = .start → s.cancel = false)
    (hraises : a = .raises → c.pc ≠ .r2)
    (hwait : a = .r3Returns false → s.cancel = false → s.cc ≠ .raised) (h : funcStep slots s k c a = some s') :
    Settled s' := by
  have hover := hs.funcCounted c (List.mem_of_getElem? hc)
  cases a with
  | start =>
    simp only [EngineRun.funcStep,hstart rfl] at h
    split at h
    · split at h
      · rename_i hfalse
        cases hfalse
      · split at h
        · cases h
          exact hs.setFunc nofun fun _ => nofun
        · cases h
          exact hs.countFunc rfl nofun
    · cases h
  | acquire =>
    obtain ⟨-,rfl⟩ := guarded h
    exact hs.setFunc nofun fun _ => nofun
  | r2Returns passed =>
    obtain ⟨-,rfl⟩ := guarded h
    refine hs.countFunc rfl ?_
    split <;> nofun
  | r3Returns filtered =>
    obtain ⟨hpc,rfl⟩ := guarded h
    refine hs.setFunc (fun _ => hover (by rw [hpc]; rfl)) ?_
    intro hcc
    by_cases hstop : filtered = true ∨ s.cancel = true
    · rw [if_pos hstop]
      nofun
    · simp only [not_or,Bool.not_eq_true] at hstop
      obtain ⟨rfl,hcancel⟩ := hstop
      exact absurd hcc (hwait rfl hcancel)
  | ccSeen =>
    obtain ⟨hpc,rfl⟩ := guarded h
    refine hs.setFunc (fun _ => hover (by rw [hpc.1]; rfl)) fun _ => ?_
    split <;> nofun
  | r4Returns =>
    obtain ⟨hpc,rfl⟩ := guarded h
    exact hs.setFunc (fun _ => hover (by rw [hpc]; rfl)) fun _ => nofun
  | raises =>
    obtain ⟨hpc,rfl⟩ := guarded h
    refine hs.setFunc (fun _ => hover ?_) fun _ => nofun
    rcases hpc with hpc | hpc | hpc
    · exact absurd hpc (hraises rfl)
    · rw [hpc]; rfl
    · rw [hpc]; rfl

theorem Settled.ccStep {a : CcAct} (hs : Settled s)
    (ha : a = .raises → ∀ k ∈ s.funcCos, k.pc ≠ .ccWait) (h : ccStep s a = some s') :
    Settled s' := by
  cases a with
  | wake =>
    simp only [EngineRun.ccStep] at h
    split at h
    · split at h <;> cases h
      · exact { hs with ccDone := fun _ => rfl, ccRaised := nofun }
      · exact { hs with ccDone := nofun, ccRaised := nofun }
    · cases h
  | finish =>
    obtain ⟨-,rfl⟩ := guarded h
    exact { hs with ccDone := fun _ => rfl, ccRaised := nofun }
  | raises =>
    obtain ⟨-,rfl⟩ := guarded h
    exact { hs with ccDone := nofun, ccRaised := fun _ => ha rfl }

theorem Settled.step [DecidableEq H] [DecidableEq F] {a : Act F} (hs : Settled s) (hi : Inv s)
    (hcounted : Counted ⟨s,a,s'⟩) (h : step slots s a = some s') : Settled s' := by
  cases a with
  | cancel =>
    cases h
    exact { hs with }
  | file i a =>
    obtain ⟨c,hc,hstep⟩ := Option.bind_eq_some_iff.mp h
    refine hs.fileStep hi hc ?_ ?_ ?_ hstep
    · exact fun ha => hcounted.fileStart i (congrArg _ ha)
    · exact fun ha => hcounted.resume i c (congrArg _ ha) hc
    · exact fun ha => hcounted.saveFails i (congrArg _ ha)
  | func k a =>
    obtain ⟨c,hc,hstep⟩ := Option.bind_eq_some_iff.mp h
    refine hs.funcStep hc ?_ ?_ ?_ hstep
    · exact fun ha => hcounted.funcStart k (congrArg _ ha)
    · exact fun ha => hcounted.raises k c (congrArg _ ha) hc
    · exact fun ha => hcounted.r3Returns k (congrArg _ ha)
  | cc a => exact hs.ccStep (fun ha => hcounted.ccRaises (congrArg _ ha)) h

/-- Where all functions wait or are over, no semaphore is held. -/
theorem over_or_ccWait (hall : ∀ k ∈ s.funcCos, (k.pc.over || k.blocked slots s) = true)
    {k : FuncCo H P F} (hk : k ∈ s.funcCos) :
    k.pc.over = true ∨ k.pc = .ccWait ∧ s.ccDone = false := by
  have hfree : s.inR2 = 0 := by
    apply List.countP_eq_zero.mpr
    intro j hj hpc
    have hpc' := of_decide_eq_true hpc
    have hj' := hall j hj
    simp [FuncPc.over,FuncCo.blocked,hpc'] at hj'
  have hpos := slots.r2_pos
  have hk' := hall k hk
  cases hpc : k.pc with
  | r2Queue => simp [FuncPc.over,FuncCo.blocked,hpc,hfree] at hk'; omega
  | ccWait => simpa [FuncPc.over,FuncCo.blocked,hpc] using hk'
  | start | r2 | r3 | r4 => simp [FuncPc.over,FuncCo.blocked,hpc] at hk'
  | returned | raised => exact .inl rfl

theorem over_or_gathering (hall : ∀ c ∈ s.fileCos, (c.pc.over || c.blocked slots s) = true)
    {c : FileCo H P} (hc : c ∈ s.fileCos) : c.pc.over = true ∨
      c.pc = .gathering ∧ ∃ k ∈ s.funcCos, k.entry = c.entry ∧ k.pc.over = false := by
  have hfree : s.inR1 = 0 := by
    apply List.countP_eq_zero.mpr
    intro j hj hpc
    have hj' := hall j hj
    rcases of_decide_eq_true hpc with hpc' | hpc' <;>
      simp [FilePc.over,FileCo.blocked,hpc'] at hj'
  have hpos := slots.r1_pos
  have hc' := hall c hc
  cases hpc : c.pc with
  | r1Queue => simp [FilePc.over,FileCo.blocked,hpc,hfree] at hc'; omega
  | gathering =>
    rw [hpc] at hc'
    simp only [FilePc.over,FileCo.blocked,hpc,Bool.false_or] at hc'
    exact .inr ⟨rfl,(of_decide_eq_true hc').1⟩
  | start | r1 | marking => simp [FilePc.over,FileCo.blocked,hpc] at hc'
  | returned | raised => exact .inl rfl

/-- With all coroutines counted, one of them can go on. -/
theorem Settled.not_stuck (hs : Settled s) (hi : Inv s) : stuck slots s = false := by
  by_contra h
  simp only [Bool.not_eq_false,stuck,Bool.and_eq_true,List.all_eq_true] at h
  obtain ⟨⟨⟨hlive,hcc⟩,hfiles⟩,hfuncs⟩ := h
  have hfile : ∀ c ∈ s.fileCos, _ := fun c hc => over_or_gathering hfiles hc
  have hfunc : ∀ k ∈ s.funcCos, _ := fun k hk => over_or_ccWait hfuncs hk
  by_cases hwait : s.cc = .waiting
  · -- every coroutine is past its counter, so the event has been set
    have hevent : s.allR2Done = false := by
      simpa [hwait,CcPc.over,Sys.ccBlocked] using hcc
    have hr1 : s.r1DoneCount = s.fileCos.length := by
      rw [hi.r1Count]
      apply List.countP_eq_length.mpr
      intro c hc
      apply hs.fileCounted c hc
      rcases hfile c hc with hover | ⟨hpc,-⟩
      · cases hpc : c.pc <;> simp_all [FilePc.over,FilePc.early]
      · rw [hpc]; rfl
    have hr2 : s.r2DoneCount = s.funcCos.length := by
      rw [hi.r2Count]
      apply List.countP_eq_length.mpr
      intro k hk
      apply hs.funcCounted k hk
      rcases hfunc k hk with hover | ⟨hpc,-⟩
      · cases hpc : k.pc <;> simp_all [FuncPc.over,FuncPc.early]
      · rw [hpc]; rfl
    have hset : s.allR2Done = true := by
      by_cases hempty : s.fileCos = []
      · exact hs.empty hempty
      · exact hs.fire (hs.full hempty hr1) (by rw [hs.total,hr2])
    rw [hevent] at hset
    cases hset
  · -- the call-chain phase is over, so no function waits for it
    have hfuncOver : ∀ k ∈ s.funcCos, k.pc.over = true := by
      intro k hk
      rcases hfunc k hk with hover | ⟨hpc,hdone⟩
      · exact hover
      · cases hphase : s.cc with
        | waiting => exact absurd hphase hwait
        | analysing => simp [hphase,CcPc.over,Sys.ccBlocked] at hcc
        | returned =>
          rw [hs.ccDone hphase] at hdone
          cases hdone
        | raised => exact absurd hpc (hs.ccRaised hphase k hk)
    have hfileOver : ∀ c ∈ s.fileCos, c.pc.over = true := by
      intro c hc
      rcases hfile c hc with hover | ⟨-,k,hk,-,hover⟩
      · exact hover
      · rw [hfuncOver k hk] at hover
        cases hover
    have hover : s.cc.over = true := by
      cases hphase : s.cc with
      | waiting => exact absurd hphase hwait
      | analysing => simp [hphase,CcPc.over,Sys.ccBlocked] at hcc
      | returned | raised => rfl
    simp [hover,List.all_eq_true.mpr hfileOver,List.all_eq_true.mpr hfuncOver] at hlive

theorem run_not_stuck [DecidableEq H] [DecidableEq F] (work : List (H × P))
    {tr : List (Event (Sys H P F) (Act F))} {u : Sys H P F}
    (hr : Run (step slots) (init work) tr u) (hc : Along (fun _ e => Counted e) tr) :
    stuck slots u = false := by
  have hj := hr.invariant (J := fun _ s => Inv s ∧ Settled s) hc
    ⟨inv_init work,settled_init work⟩ fun _ t a v hj hc hs =>
      ⟨hj.1.step hs,hj.2.step hj.1 hc hs⟩
  exact hj.2.not_stuck hj.1

/-- The barrier of a run: the analysis starts only when every file and every function of a
passed file is counted, unless a thread outlived its coroutine; and the run is never stuck,
unless a coroutine ended before it was counted. -/
theorem barrier_and_progress [DecidableEq H] [DecidableEq F] (slots : Slots)
    (work : List (H × P)) {tr : List (Event (Sys H P F) (Act F))} {u : Sys H P F}
    (hr : Run (step slots) (init work) tr u) :
    (Along (fun _ e => InTime e) tr → Along (fun _ e => StartsReady e) tr) ∧
      (Along (fun _ e => Counted e) tr → stuck slots u = false) :=
  ⟨run_startsReady work hr,run_not_stuck work hr⟩

/-- A step that meets both conditions whatever the other coroutines do. -/
def plain (e : Event (Sys H P F) (Act F)) : Bool :=
  !e.pre.cancel && decide (e.pre.cc ≠ .raised) &&
    match e.act with
    | .file i .pass | .file i (.register _) =>
      e.pre.fileCos[i]?.all (fun c => decide (c.pc = .r1))
    | .file _ .saveFails | .func _ .raises | .cc .raises => false
    | _ => true

theorem lateIdle_of_plain {e : Event (Sys H P F) (Act F)} (h : plain e = true) : LateIdle e := by
  intro i c hc hpc
  refine ⟨fun hact => ?_,fun f hact => ?_⟩ <;> simp [plain,hact,hc,hpc] at h

theorem counted_of_plain {e : Event (Sys H P F) (Act F)} (h : plain e = true) : Counted e := by
  simp only [plain,Bool.and_eq_true,Bool.not_eq_true',decide_eq_true_eq] at h
  obtain ⟨⟨hcancel,hcc⟩,hact⟩ := h
  exact
    { fileStart := fun _ _ => hcancel
      resume := fun _ _ _ _ h => by rw [hcancel] at h; cases h
      saveFails := fun _ h => by simp [h] at hact
      funcStart := fun _ _ => hcancel
      raises := fun _ _ h => by simp [h] at hact
      ccRaises := fun h => by simp [h] at hact
      r3Returns := fun _ _ _ => hcc }

/-- A run of two files. The first registers a function and passes, the second has none. -/
def twoFiles : List (Act ℕ) :=
  [.file 0 .start,.file 1 .start,.file 0 .acquire,.file 1 .acquire,.file 0 .threadStart,
    .file 0 .check,.file 0 (.register 7),.file 0 .pass,.file 0 .saved,.file 0 .resume,
    .file 1 .threadStart,.file 1 .check,.file 1 .pass,.func 0 .start,.func 0 .acquire,
    .func 0 (.r2Returns true),.file 1 .saved,.file 1 .resume,.func 0 (.r3Returns false),.cc .wake]

theorem analysis_sees_both_files :
    ∃ tr u, Run (step (slotsOf 8 32)) (init [(0,0),(1,1)] : Sys ℕ ℕ ℕ) tr u ∧
      u.cc = .analysing ∧ Along (fun _ e => StartsReady e) tr ∧ stuck (slotsOf 8 32) u = false := by
  obtain ⟨tr,u,hr,hp⟩ := exists_run_of_replay (step (slotsOf 8 32))
    (init [(0,0),(1,1)] : Sys ℕ ℕ ℕ) twoFiles
    (p := fun tr (u : Sys ℕ ℕ ℕ) => tr.all plain && decide (u.cc = .analysing))
    (by decide +kernel)
  simp only [Bool.and_eq_true,List.all_eq_true,decide_eq_true_eq] at hp
  have hrun := barrier_and_progress (slotsOf 8 32) [(0,0),(1,1)] hr
  exact ⟨tr,u,hr,hp.2,hrun.1 (along_forall.mpr fun e he _ => lateIdle_of_plain (hp.1 e he)),
    hrun.2 (along_forall.mpr fun e he => counted_of_plain (hp.1 e he))⟩

/-- The thread of the first file outlives its coroutine and passes the file; the second file
then opens the barrier. -/
def lateThread : List (Act ℕ) :=
  [.file 0 .start,.file 1 .start,.file 0 .acquire,.file 1 .acquire,.file 0 .threadStart,
    .file 0 .check,.file 0 .timeout,.file 0 .resume,.file 0 (.register 7),.file 0 .pass,
    .file 1 .threadStart,.file 1 .check,.file 1 .pass,.file 1 .saved,.file 1 .resume,.cc .wake]

/-- The analysis starts without a function of a passed file; and a task that is cancelled
before the R1 of its only file leaves the call-chain phase waiting for ever. -/
theorem late_thread_and_early_cancel :
    (∃ tr u, Run (step (slotsOf 8 32)) (init [(0,0),(1,1)] : Sys ℕ ℕ ℕ) tr u ∧
      ¬Along (fun _ e => StartsReady e) tr) ∧
    ∃ tr u, Run (step (slotsOf 8 32)) (init [(0,0)] : Sys ℕ ℕ ℕ) tr u ∧
      stuck (slotsOf 8 32) u = true := by
  constructor
  · obtain ⟨tr,u,hr,hp⟩ := exists_run_of_replay (step (slotsOf 8 32))
      (init [(0,0),(1,1)] : Sys ℕ ℕ ℕ) lateThread
      (p := fun tr (_ : Sys ℕ ℕ ℕ) => tr.any fun e => decide (e.act = .cc .wake) &&
        !e.pre.cancel && e.pre.passedFuncs 0 == some [7] && e.pre.funcCos.isEmpty)
      (by decide +kernel)
    simp only [List.any_eq_true,Bool.and_eq_true,decide_eq_true_eq,Bool.not_eq_true',
      beq_iff_eq,List.isEmpty_iff] at hp
    obtain ⟨e,he,⟨⟨hact,hcancel⟩,hfuncs⟩,hnone⟩ := hp
    refine ⟨tr,u,hr,fun hall => ?_⟩
    have hready := along_forall.mp hall e he hact hcancel
    obtain ⟨row,hrow,hpassed,hseven⟩ := Sys.passedFuncs_eq_some.mp hfuncs
    obtain ⟨k,hk,-⟩ := hready.driven 0 row hrow hpassed 7 (by simp [hseven])
    rw [hnone] at hk
    cases hk
  · exact exists_run_of_replay (step (slotsOf 8 32)) (init [(0,0)] : Sys ℕ ℕ ℕ)
      [.cancel,.file 0 .start] (p := fun _ (u : Sys ℕ ℕ ℕ) => stuck (slotsOf 8 32) u)
      (by decide +kernel)

end Progress

end EngineRun
end EntryAnalyse
