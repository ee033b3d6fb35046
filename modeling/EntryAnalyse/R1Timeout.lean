import EntryAnalyse.EngineBarrier

/-! The mark that the time limit of R1 leaves on a file. The coroutine of the file and its thread
write the two states of the file one after the other, each between the writes of the other. The
thread looks for the mark before it begins and not again. -/
namespace EntryAnalyse
namespace EngineRun

open Runs

variable {H P F : Type}

/-! ## The two states of a file -/

/-- The engine with `r1_w_state`, which is written just before `r1_j_state`. `threadWrote` and
`handlerWrote` say that the thread of an entry, or its coroutine after a timeout, stands between
its two writes. -/
structure TwoStates (H P F : Type) where
  base : Sys H P F
  r1WState : H → NodeState := fun _ => .pending
  threadWrote : ℕ → Option Bool := fun _ => none
  handlerWrote : ℕ → Bool := fun _ => false

inductive TwoAct (F : Type)
  | threadWrites (i : ℕ) (passed : Bool)
  | handlerWrites (i : ℕ)
  | base (a : Act F)
  deriving DecidableEq

def startTwo [DecidableEq H] (work : List (H × P)) : TwoStates H P F where
  base := init work

/-- The write of `r1_j_state` follows that of `r1_w_state`, and the writer does nothing else in
between. A thread that is still in the queue when the time is over does not start. -/
def TwoStates.follows (s : TwoStates H P F) (i : ℕ) : FileAct F → Bool
  | .pass => s.threadWrote i == some true
  | .fail => s.threadWrote i == some false
  | .timeout => s.handlerWrote i
  | .threadStart => s.threadWrote i == none && !s.handlerWrote i
  | .check | .register _ | .saved => s.threadWrote i == none
  | .resume => !s.handlerWrote i
  | .start | .acquire | .saveFails | .joined | .joinFails => true

/-- The first write of the thread: of a pass at the end of R1, of a failure in its handler. -/
def mayWrite (passed : Bool) : R1Thread → Bool
  | .working => true
  | .saving => !passed
  | .idle | .queued | .started | .ended => false

def twoStep [DecidableEq H] [DecidableEq F] (slots : Slots) (s : TwoStates H P F) :
    TwoAct F → Option (TwoStates H P F)
  | .threadWrites i passed => s.base.fileCos[i]?.bind fun c =>
    if s.threadWrote i = none ∧ mayWrite passed c.thread = true then
      some { s with
        r1WState := Function.update s.r1WState c.hash (if passed then .passed else .failed)
        threadWrote := Function.update s.threadWrote i (some passed) }
    else none
  | .handlerWrites i => s.base.fileCos[i]?.bind fun c =>
    if c.pc = .r1 ∧ s.handlerWrote i = false then
      some { s with
        r1WState := Function.update s.r1WState c.hash .failed
        handlerWrote := Function.update s.handlerWrote i true }
    else none
  | .base (.file i b) =>
    if s.follows i b = true then
      (step slots s.base (.file i b)).map fun t => { s with
        base := t
        threadWrote :=
          if b = .pass ∨ b = .fail then Function.update s.threadWrote i none else s.threadWrote
        handlerWrote :=
          if b = .timeout then Function.update s.handlerWrote i false else s.handlerWrote }
    else none
  | .base a => (step slots s.base a).map fun t => { s with base := t }

section Base

variable [DecidableEq H] [DecidableEq F] {slots : Slots} {s v : TwoStates H P F} {a : TwoAct F}

/-- A step of the engine, or a write of `r1_w_state` between two of them. -/
theorem twoStep_base (hs : twoStep slots s a = some v) :
    (∃ b, a = .base b ∧ step slots s.base b = some v.base ∧ v.r1WState = s.r1WState) ∨
      (∃ i c, s.base.fileCos[i]? = some c ∧ v.base = s.base ∧
        (a = .handlerWrites i ∧ v.r1WState = Function.update s.r1WState c.hash .failed ∨
          ∃ passed, a = .threadWrites i passed ∧ v.r1WState =
            Function.update s.r1WState c.hash (if passed then .passed else .failed))) := by
  cases a with
  | threadWrites i passed =>
    obtain ⟨c,hc,hw⟩ := Option.bind_eq_some_iff.mp hs
    obtain ⟨-,rfl⟩ := guarded hw
    exact .inr ⟨i,c,hc,rfl,.inr ⟨passed,rfl,rfl⟩⟩
  | handlerWrites i =>
    obtain ⟨c,hc,hw⟩ := Option.bind_eq_some_iff.mp hs
    obtain ⟨-,rfl⟩ := guarded hw
    exact .inr ⟨i,c,hc,rfl,.inl ⟨rfl,rfl⟩⟩
  | base b =>
    refine .inl ⟨b,rfl,?_⟩
    cases b with
    | file i b =>
      simp only [twoStep] at hs
      split at hs
      · obtain ⟨t,ht,rfl⟩ := Option.map_eq_some_iff.mp hs
        exact ⟨ht,rfl⟩
      · cases hs
    | cancel | func | cc =>
      simp only [twoStep,Option.map_eq_some_iff] at hs
      obtain ⟨t,ht,rfl⟩ := hs
      exact ⟨ht,rfl⟩

/-- The steps of the engine in a run. -/
def baseEvents (tr : List (Event (TwoStates H P F) (TwoAct F))) :
    List (Event (Sys H P F) (Act F)) :=
  tr.filterMap fun e =>
    match e.act with
    | .base b => some ⟨e.pre.base,b,e.post.base⟩
    | .threadWrites .. | .handlerWrites _ => none

/-- The engine's part of a run is a run of the engine. -/
theorem run_base {tr : List (Event (TwoStates H P F) (TwoAct F))}
    (hr : Run (twoStep slots) s tr v) : Run (step slots) s.base (baseEvents tr) v.base := by
  induction hr with
  | refl => exact .refl
  | @next tr t a u hr hs ih =>
    rcases twoStep_base hs with ⟨b,rfl,hb,-⟩ | ⟨i,c,-,hsame,hact⟩
    · exact .next ih hb
    · rw [hsame]
      rcases hact with ⟨rfl,-⟩ | ⟨passed,rfl,-⟩ <;> exact ih

end Base

/-! ## What a step does to the files -/

/-- What R1 and its timeout write into the row of a file. -/
def FileAct.write [DecidableEq F] : FileAct F → Option (FileRow F → FileRow F)
  | .register f => some (FileRow.register · f)
  | .pass => some (.mark .passed)
  | .fail | .timeout => some (.mark .failed)
  | .start | .acquire | .threadStart | .check | .saved | .saveFails | .resume | .joined
  | .joinFails => none

section Files

variable [DecidableEq H] [DecidableEq F] {slots : Slots} {s s' : Sys H P F} {i : ℕ} {a : Act F}

/-- The rows, the entries and the count of the functions in one step: an entry writes its file's row,
it is counted, it moves on, or none of this changes. -/
inductive FilesStep (s s' : Sys H P F) : Act F → Prop
  | writes {i : ℕ} {c c' : FileCo H P} {b : FileAct F} {g : FileRow F → FileRow F} :
      s.fileCos[i]? = some c → b.write = some g → s'.files = (s.modifyRow c.hash g).files →
      s'.fileCos = s.fileCos.set i c' → c'.hash = c.hash → c'.counted = c.counted →
      (b = .timeout → c.pc = .r1) → (c'.pc = .marking → b = .timeout ∨ c.pc = .marking) →
      s'.totalFuncs = s.totalFuncs → FilesStep s s' (.file i b)
  | counts {i : ℕ} {c c' : FileCo H P} :
      s.fileCos[i]? = some c → c.pc.early = true → s'.files = s.files →
      s'.fileCos = s.fileCos.set i c' → c'.hash = c.hash → c'.counted = true →
      c'.pc.early = false → s'.totalFuncs = s.totalFuncs + (countedFuncs s c).length →
      FilesStep s s' (.file i .resume)
  | moves {i : ℕ} {c c' : FileCo H P} {b : FileAct F} :
      s.fileCos[i]? = some c → b ≠ .resume → b.write = none → s'.files = s.files →
      s'.fileCos = s.fileCos.set i c' → c'.hash = c.hash → c'.counted = c.counted →
      (c'.pc = .marking → c.pc = .marking) → s'.totalFuncs = s.totalFuncs →
      FilesStep s s' (.file i b)
  | others {a : Act F} : (∀ i b, a ≠ .file i b) → s'.files = s.files → s'.fileCos = s.fileCos →
      s'.totalFuncs = s.totalFuncs → FilesStep s s' a

theorem fileStep_files {c : FileCo H P} {b : FileAct F} (hc : s.fileCos[i]? = some c)
    (h : fileStep slots s i c b = some s') : FilesStep s s' (.file i b) := by
  cases b with
  | start =>
    obtain ⟨hpc,rfl⟩ := guarded h
    refine .moves hc nofun rfl rfl rfl rfl rfl ?_ rfl
    split <;> nofun
  | acquire | saveFails | joined | joinFails =>
    obtain ⟨-,rfl⟩ := guarded h
    exact .moves hc nofun rfl rfl rfl rfl rfl nofun rfl
  | threadStart | check | saved =>
    obtain ⟨-,rfl⟩ := guarded h
    exact .moves hc nofun rfl rfl rfl rfl rfl id rfl
  | register f =>
    obtain ⟨-,rfl⟩ := guarded h
    exact .writes hc rfl rfl (Pool.set_self hc).symm rfl rfl nofun .inr rfl
  | pass | fail =>
    obtain ⟨-,rfl⟩ := guarded h
    exact .writes hc rfl rfl rfl rfl rfl nofun .inr rfl
  | timeout =>
    obtain ⟨hpc,rfl⟩ := guarded h
    exact .writes hc rfl rfl rfl rfl rfl (fun _ => hpc) (fun _ => .inl rfl) rfl
  | resume =>
    obtain ⟨hpc,rfl⟩ := guarded h
    obtain ⟨pc,new,heq,hearly,-⟩ := afterR1_eq s i c
    rw [heq,Sys.onR1Done_eq]
    refine .counts hc ?_ rfl rfl rfl rfl hearly rfl
    rcases hpc with hpc | hpc
    · rw [hpc.1]; rfl
    · rw [hpc]; rfl

theorem step_files (h : step slots s a = some s') : FilesStep s s' a := by
  cases a with
  | cancel =>
    cases h
    exact .others (fun _ _ hact => by cases hact) rfl rfl rfl
  | file i b =>
    obtain ⟨c,hc,hs⟩ := Option.bind_eq_some_iff.mp h
    exact fileStep_files hc hs
  | func k b =>
    obtain ⟨c,hc,hs⟩ := Option.bind_eq_some_iff.mp h
    cases b with
    | start =>
      simp only [funcStep] at hs
      split at hs
      · split at hs
        · cases hs
          exact .others (fun _ _ hact => by cases hact) rfl rfl rfl
        · split at hs <;> cases hs
          · exact .others (fun _ _ hact => by cases hact) rfl rfl rfl
          · rw [Sys.onR2Done_eq]
            exact .others (fun _ _ hact => by cases hact) rfl rfl rfl
      · cases hs
    | r2Returns passed =>
      obtain ⟨-,rfl⟩ := guarded hs
      rw [Sys.onR2Done_eq]
      exact .others (fun _ _ hact => by cases hact) rfl rfl rfl
    | acquire | r3Returns | ccSeen | r4Returns | raises =>
      obtain ⟨-,rfl⟩ := guarded hs
      exact .others (fun _ _ hact => by cases hact) rfl rfl rfl
  | cc b =>
    cases b with
    | wake =>
      simp only [step,ccStep] at h
      split at h
      · split at h <;> cases h <;> exact .others (fun _ _ hact => by cases hact) rfl rfl rfl
      · cases h
    | finish | raises =>
      obtain ⟨-,rfl⟩ := guarded h
      exact .others (fun _ _ hact => by cases hact) rfl rfl rfl

end Files

/-! ## The count of the functions -/

/-- What an entry has added to `total_funcs`, if that still agrees with its file. -/
def share (s : Sys H P F) (c : FileCo H P) : ℕ :=
  if c.counted then (countedFuncs s c).length else 0

/-- The functions of the counted files that are passed. -/
def passedTotal (s : Sys H P F) : ℕ := (s.fileCos.map (share s)).sum

/-- The entries are those of different files, `total_funcs` is the number of the functions of
passed files, and a marked file has not gone back to pending. -/
structure Ledger (s : Sys H P F) : Prop where
  hashes : (s.fileCos.map FileCo.hash).Nodup
  rows : ∀ c ∈ s.fileCos, (s.files c.hash).isSome = true
  total : s.totalFuncs = passedTotal s
  marked : ∀ c ∈ s.fileCos, c.pc = .marking →
    s.r1JState c.hash = some .failed ∨ s.r1JState c.hash = some .passed

/-- A thread that is still running when its file is counted comes to nothing: it does not pass
the file or register another function, and takes no pass back. -/
def lateStops [DecidableEq F] (s : Sys H P F) : Act F → Bool
  | .file i .pass => s.fileCos[i]?.all fun c => !c.counted
  | .file i (.register f) => s.fileCos[i]?.all fun c =>
    !c.counted || (s.files c.hash).all fun row => decide (f ∈ row.functions)
  | .file i .fail => s.fileCos[i]?.all fun c =>
    !c.counted || s.r1JState c.hash != some .passed
  | _ => true

section Ledger

variable {s s' : Sys H P F} {i : ℕ} {c c' : FileCo H P}

theorem countedFuncs_congr (hfiles : s'.files c.hash = s.files c.hash) (hhash : c'.hash = c.hash) :
    countedFuncs s' c' = countedFuncs s c := by
  unfold countedFuncs Sys.passedFuncs
  rw [hhash,hfiles]

theorem share_congr (hfiles : s'.files c.hash = s.files c.hash) (hhash : c'.hash = c.hash)
    (hcount : c'.counted = c.counted) : share s' c' = share s c := by
  unfold share
  rw [hcount,countedFuncs_congr hfiles hhash]

/-- One entry is put back, and only the row of its file changes. -/
theorem passedTotal_set (hn : (s.fileCos.map FileCo.hash).Nodup) (hc : s.fileCos[i]? = some c)
    (hcos : s'.fileCos = s.fileCos.set i c') (hfiles : ∀ h, h ≠ c.hash → s'.files h = s.files h) :
    passedTotal s' + share s c = passedTotal s + share s' c' := by
  unfold passedTotal
  rw [hcos]
  apply Pool.sum_map_set hc
  intro j x hj hx
  have hne : x.hash ≠ c.hash := fun heq => hj (Pool.eq_of_nodup hn hc hx heq)
  exact share_congr (hfiles _ hne) rfl rfl

theorem hashes_set (hc : s.fileCos[i]? = some c) (hcos : s'.fileCos = s.fileCos.set i c')
    (hhash : c'.hash = c.hash) : s'.fileCos.map FileCo.hash = s.fileCos.map FileCo.hash := by
  rw [hcos]
  exact Pool.map_set_of_eq hc hhash

theorem r1JState_congr (hfiles : s'.files = s.files) (h : H) : s'.r1JState h = s.r1JState h := by
  unfold Sys.r1JState
  rw [hfiles]

theorem Sys.modifyRow_of_ne [DecidableEq H] {h k : H} (s : Sys H P F) (g : FileRow F → FileRow F)
    (hne : k ≠ h) : (s.modifyRow h g).files k = s.files k := by
  rw [Sys.modifyRow_files,if_neg hne]

theorem Sys.modifyRow_self [DecidableEq H] (s : Sys H P F) (h : H) (g : FileRow F → FileRow F) :
    (s.modifyRow h g).files h = (s.files h).map g := by
  rw [Sys.modifyRow_files,if_pos rfl]

theorem countedFuncs_of_not_passed (h : s.r1JState c.hash ≠ some .passed) :
    countedFuncs s c = [] := by
  unfold countedFuncs
  cases hp : s.passedFuncs c.hash with
  | none => rfl
  | some funcs =>
    obtain ⟨row,hrow,hpassed,-⟩ := Sys.passedFuncs_eq_some.mp hp
    refine absurd ?_ h
    rw [Sys.r1JState,hrow,Option.map_some,hpassed]

variable [DecidableEq H] [DecidableEq F]

/-- A write of an entry that is counted does not change what it has added. -/
theorem share_writes {b : FileAct F} {g : FileRow F → FileRow F} (hc : s.fileCos[i]? = some c)
    (hb : b.write = some g) (hfiles : s'.files = (s.modifyRow c.hash g).files)
    (hhash : c'.hash = c.hash) (hcount : c'.counted = c.counted)
    (huncounted : b = .timeout → c.counted = false)
    (hlate : lateStops s (.file i b) = true) : share s' c' = share s c := by
  by_cases hcounted : c.counted = true
  · have hself : s'.files c.hash = (s.files c.hash).map g := by
      rw [hfiles,Sys.modifyRow_self]
    cases b with
    | register f =>
      cases hb
      refine share_congr ?_ hhash hcount
      rw [hself]
      cases hrow : s.files c.hash with
      | none => rfl
      | some row =>
        have hmem : f ∈ row.functions := by simpa [lateStops,hc,hcounted,hrow] using hlate
        rw [Option.map_some,FileRow.register,if_pos hmem]
    | pass => simp [lateStops,hc,hcounted] at hlate
    | fail =>
      cases hb
      have hnot : s.r1JState c.hash ≠ some .passed := by
        simpa [lateStops,hc,hcounted] using hlate
      have hnot' : s'.r1JState c'.hash ≠ some .passed := by
        rw [hhash,Sys.r1JState,hself]
        cases s.files c.hash with
        | none => exact fun hpassed => by cases hpassed
        | some row => exact fun hpassed => by cases hpassed
      unfold share
      rw [hcount,countedFuncs_of_not_passed hnot,countedFuncs_of_not_passed hnot']
    | timeout =>
      rw [huncounted rfl] at hcounted
      cases hcounted
    | start | acquire | threadStart | check | saved | saveFails | resume | joined | joinFails =>
      cases hb
  · unfold share
    rw [hcount,if_neg hcounted,if_neg hcounted]

theorem Ledger.step {slots : Slots} {a : Act F} (hl : Ledger s) (hi : Inv s)
    (hlate : lateStops s a = true) (h : step slots s a = some s') : Ledger s' := by
  cases step_files h with
  | @writes i c c' b g hc hb hfiles hcos hhash hcount htimeout hmark htotal =>
    have hmem := List.mem_of_getElem? hc
    have hshare := share_writes hc hb hfiles hhash hcount
      (fun hb => hi.uncounted c hmem (by rw [htimeout hb]; rfl)) hlate
    have hne : ∀ k, k ≠ c.hash → s'.files k = s.files k := by
      intro k hk
      rw [hfiles,Sys.modifyRow_of_ne s g hk]
    refine ⟨?_,?_,?_,?_⟩
    · rw [hashes_set hc hcos hhash]
      exact hl.hashes
    · rw [hcos]
      refine Pool.forall_mem_set (fun d hd => ?_) ?_
      · rw [hfiles,Sys.modifyRow_files]
        split
        · rename_i heq
          rw [Option.isSome_map,← heq]
          exact hl.rows d hd
        · exact hl.rows d hd
      · rw [hfiles,hhash,Sys.modifyRow_self,Option.isSome_map]
        exact hl.rows c hmem
    · have hset := passedTotal_set hl.hashes hc hcos hne
      have htot := hl.total
      omega
    · rw [hcos]
      intro d hd hdmark
      rcases Pool.eq_or_ne_of_mem_set hl.hashes hc hd with rfl | ⟨hd,hdne⟩
      · have hself : s'.files d.hash = (s.files c.hash).map g := by
          rw [hhash,hfiles,Sys.modifyRow_self]
        obtain ⟨row,hrow⟩ := Option.isSome_iff_exists.mp (hl.rows c hmem)
        have hstate : s'.r1JState d.hash = some (g row).r1JState := by
          rw [Sys.r1JState,hself,hrow,Option.map_some,Option.map_some]
        rw [hstate]
        cases b with
        | register f =>
          cases hb
          have hold := hl.marked c hmem ((hmark hdmark).resolve_left fun htime => by cases htime)
          rw [Sys.r1JState,hrow,Option.map_some] at hold
          have hkeep : (row.register f).r1JState = row.r1JState := by
            unfold FileRow.register
            split <;> rfl
          rw [hkeep]
          exact hold
        | pass =>
          cases hb
          exact .inr rfl
        | fail | timeout =>
          cases hb
          exact .inl rfl
        | start | acquire | threadStart | check | saved | saveFails | resume | joined
        | joinFails => cases hb
      · unfold Sys.r1JState
        rw [hne _ hdne]
        exact hl.marked d hd hdmark
  | @counts i c c' hc hearly hfiles hcos hhash hcounted hearly' htotal =>
    refine ⟨?_,?_,?_,?_⟩
    · rw [hashes_set hc hcos hhash]
      exact hl.hashes
    · rw [hcos]
      refine Pool.forall_mem_set (fun d hd => ?_) ?_
      · rw [hfiles]
        exact hl.rows d hd
      · rw [hfiles,hhash]
        exact hl.rows c (List.mem_of_getElem? hc)
    · have hset := passedTotal_set hl.hashes hc hcos fun k _ => by rw [hfiles]
      have hold : share s c = 0 := by
        unfold share
        rw [hi.uncounted c (List.mem_of_getElem? hc) hearly]
        rfl
      have hsame : countedFuncs s' c' = countedFuncs s c :=
        countedFuncs_congr (by rw [hfiles]) hhash
      have hnew : share s' c' = (countedFuncs s c).length := by
        unfold share
        rw [hcounted,if_pos rfl,hsame]
      have htot := hl.total
      omega
    · rw [hcos]
      refine Pool.forall_mem_set ?_ fun hmark => ?_
      · intro d hd hdmark
        rw [r1JState_congr hfiles]
        exact hl.marked d hd hdmark
      · rw [hmark] at hearly'
        cases hearly'
  | @moves i c c' b hc hne hb hfiles hcos hhash hcount hmark htotal =>
    refine ⟨?_,?_,?_,?_⟩
    · rw [hashes_set hc hcos hhash]
      exact hl.hashes
    · rw [hcos]
      refine Pool.forall_mem_set (fun d hd => ?_) ?_
      · rw [hfiles]
        exact hl.rows d hd
      · rw [hfiles,hhash]
        exact hl.rows c (List.mem_of_getElem? hc)
    · have hset := passedTotal_set hl.hashes hc hcos fun k _ => by rw [hfiles]
      have hshare : share s' c' = share s c := share_congr (by rw [hfiles]) hhash hcount
      have htot := hl.total
      omega
    · rw [hcos]
      refine Pool.forall_mem_set ?_ fun hm => ?_
      · intro d hd hdmark
        rw [r1JState_congr hfiles]
        exact hl.marked d hd hdmark
      · rw [r1JState_congr hfiles,hhash]
        exact hl.marked c (List.mem_of_getElem? hc) (hmark hm)
  | others _ hfiles hcos htotal =>
    refine ⟨?_,?_,?_,?_⟩
    · rw [hcos]
      exact hl.hashes
    · rw [hcos,hfiles]
      exact hl.rows
    · rw [htotal,hl.total]
      unfold passedTotal
      rw [hcos]
      refine (congrArg List.sum (List.map_congr_left fun c _ => ?_)).symm
      exact share_congr (by rw [hfiles]) rfl rfl
    · rw [hcos]
      intro d hd hdmark
      rw [r1JState_congr hfiles]
      exact hl.marked d hd hdmark

omit [DecidableEq F] in
theorem ledger_init {work : List (H × P)} (hn : (work.map Prod.fst).Nodup) :
    Ledger (init work : Sys H P F) where
  hashes := by
    have hmap : (init work : Sys H P F).fileCos.map FileCo.hash = work.map Prod.fst := by
      apply List.ext_getElem?
      intro i
      simp [init,Function.comp_def]
    rw [hmap]
    exact hn
  rows c hc := by
    obtain ⟨i,hi,rfl⟩ := List.mem_mapIdx.mp hc
    have hmem : work[i].1 ∈ work.map Prod.fst := List.mem_map_of_mem (List.getElem_mem hi)
    simp only [init,if_pos hmem,Option.isSome_some]
  total := by
    symm
    apply List.sum_eq_zero
    intro n hn
    obtain ⟨c,hc,rfl⟩ := List.mem_map.mp hn
    obtain ⟨i,hi,rfl⟩ := List.mem_mapIdx.mp hc
    rfl
  marked c hc hmark := by
    obtain ⟨i,hi,rfl⟩ := List.mem_mapIdx.mp hc
    cases hmark

/-- A counted file that is marked failed keeps its mark and its functions. -/
theorem failed_step {slots : Slots} {a : Act F} (hl : Ledger s) (hi : Inv s)
    (hlate : lateStops s a = true) (hc : s.fileCos[i]? = some c) (hcounted : c.counted = true)
    (hfailed : s.r1JState c.hash = some .failed) (h : step slots s a = some s') :
    s'.r1JState c.hash = some .failed ∧
      (s'.files c.hash).map FileRow.functions = (s.files c.hash).map FileRow.functions := by
  have hsame : s'.files c.hash = s.files c.hash → s'.r1JState c.hash = some .failed ∧
      (s'.files c.hash).map FileRow.functions = (s.files c.hash).map FileRow.functions := by
    intro hfiles
    unfold Sys.r1JState
    rw [hfiles]
    exact ⟨hfailed,rfl⟩
  cases step_files h with
  | @writes j d d' b g hd hb hfiles hcos hhash hcount htimeout hmark htotal =>
    by_cases hhd : d.hash = c.hash
    · obtain rfl := Pool.eq_of_nodup hl.hashes hc hd hhd
      obtain rfl : d = c := Option.some.inj (hd.symm.trans hc)
      have hself : s'.files d.hash = (s.files d.hash).map g := by
        rw [hfiles,Sys.modifyRow_self]
      obtain ⟨row,hrow⟩ := Option.isSome_iff_exists.mp (hl.rows d (List.mem_of_getElem? hd))
      cases b with
      | register f =>
        cases hb
        have hmem : f ∈ row.functions := by simpa [lateStops,hc,hcounted,hrow] using hlate
        refine hsame ?_
        rw [hself,hrow,Option.map_some,FileRow.register,if_pos hmem]
      | pass => simp [lateStops,hc,hcounted] at hlate
      | fail =>
        cases hb
        unfold Sys.r1JState
        rw [hself,hrow]
        exact ⟨rfl,rfl⟩
      | timeout =>
        have hunc := hi.uncounted d (List.mem_of_getElem? hd) (by rw [htimeout rfl]; rfl)
        rw [hunc] at hcounted
        cases hcounted
      | start | acquire | threadStart | check | saved | saveFails | resume | joined
      | joinFails => cases hb
    · refine hsame ?_
      rw [hfiles,Sys.modifyRow_of_ne s g (Ne.symm hhd)]
  | counts _ _ hfiles | moves _ _ _ hfiles | others _ hfiles => exact hsame (by rw [hfiles])

/-- An entry stays where it is in the list, with its file, and what is counted stays counted. -/
theorem entry_step {slots : Slots} {a : Act F} (hc : s.fileCos[i]? = some c)
    (h : step slots s a = some s') :
    ∃ c', s'.fileCos[i]? = some c' ∧ c'.hash = c.hash ∧ (c.counted = true → c'.counted = true) := by
  have hset : ∀ {j : ℕ} {d d' : FileCo H P}, s.fileCos[j]? = some d →
      s'.fileCos = s.fileCos.set j d' → d'.hash = d.hash →
      (d.counted = true → d'.counted = true) →
      ∃ c', s'.fileCos[i]? = some c' ∧ c'.hash = c.hash ∧
        (c.counted = true → c'.counted = true) := by
    intro j d d' hd hcos hhash hcount
    rw [hcos]
    by_cases hij : j = i
    · subst hij
      obtain rfl : d = c := Option.some.inj (hd.symm.trans hc)
      obtain ⟨hlt,-⟩ := List.getElem?_eq_some_iff.mp hd
      exact ⟨d',List.getElem?_set_self hlt,hhash,hcount⟩
    · exact ⟨c,by rw [List.getElem?_set_ne hij,hc],rfl,id⟩
  cases step_files h with
  | writes hd _ _ hcos hhash hcount => exact hset hd hcos hhash (fun hk => by rw [hcount,hk])
  | counts hd _ _ hcos hhash hcounted => exact hset hd hcos hhash (fun _ => hcounted)
  | moves hd _ _ _ hcos hhash hcount => exact hset hd hcos hhash (fun hk => by rw [hcount,hk])
  | others _ _ hcos => exact ⟨c,by rw [hcos,hc],rfl,id⟩

end Ledger

/-! ## A file that is given up -/

section GivenUp

variable [DecidableEq H] [DecidableEq F] {slots : Slots}
  {tr : List (Event (TwoStates H P F) (TwoAct F))} {s t u v : TwoStates H P F} {i : ℕ}

/-- The coroutine of the entry has marked its file after a timeout and counted no function. -/
def gaveUp (i : ℕ) (tr : List (Event (TwoStates H P F) (TwoAct F))) : Bool :=
  watch (fun g e => g || decide (e.act = .base (.file i .resume)) &&
    e.pre.base.fileCos[i]?.any fun c =>
      decide (c.pc = .marking) && (e.pre.base.passedFuncs c.hash).isNone) false tr

/-- `lateStops` with the first write of a pass. -/
def threadStops (s : TwoStates H P F) : TwoAct F → Bool
  | .threadWrites i true => s.base.fileCos[i]?.all fun c => !c.counted
  | .threadWrites _ false | .handlerWrites _ => true
  | .base b => lateStops s.base b

/-- The file is left failed, neither of its states is set to passed, and no function is added. -/
structure StaysFailed (h : H) (e : Event (TwoStates H P F) (TwoAct F)) : Prop where
  failed : e.post.base.r1JState h = some .failed
  unset : e.post.r1WState h = .passed → e.pre.r1WState h = .passed
  functions : (e.post.base.files h).map FileRow.functions =
    (e.pre.base.files h).map FileRow.functions

structure Known (tr : List (Event (TwoStates H P F) (TwoAct F))) (t : TwoStates H P F) : Prop where
  inv : Inv t.base
  ledger : Ledger t.base
  givenUp : ∀ i, gaveUp i tr = true → ∃ c, t.base.fileCos[i]? = some c ∧ c.counted = true ∧
    t.base.r1JState c.hash = some .failed

theorem Known.step {a : TwoAct F} (hk : Known tr t) (hstops : threadStops t a = true)
    (hs : twoStep slots t a = some v) : Known (⟨t,a,v⟩ :: tr) v := by
  rcases twoStep_base hs with ⟨b,rfl,hb,-⟩ | ⟨j,d,-,hsame,hact⟩
  · refine ⟨hk.inv.step hb,hk.ledger.step hk.inv hstops hb,fun i hg => ?_⟩
    unfold gaveUp at hg
    rw [watch_cons,Bool.or_eq_true] at hg
    rcases hg with hold | hnew
    · obtain ⟨c,hc,hcounted,hfailed⟩ := hk.givenUp i hold
      obtain ⟨c',hc',hhash,hcount⟩ := entry_step hc hb
      refine ⟨c',hc',hcount hcounted,?_⟩
      rw [hhash]
      exact (failed_step hk.ledger hk.inv hstops hc hcounted hfailed hb).1
    · rw [Bool.and_eq_true,decide_eq_true_iff,Option.any_eq_true] at hnew
      obtain ⟨hact,c,hc,hmark⟩ := hnew
      rw [Bool.and_eq_true,decide_eq_true_iff,Option.isNone_iff_eq_none] at hmark
      obtain ⟨hmark,hnone⟩ := hmark
      cases hact
      -- the mark was not overwritten before the file was counted
      have hfailed : t.base.r1JState c.hash = some .failed := by
        refine (hk.ledger.marked c (List.mem_of_getElem? hc) hmark).resolve_right fun hpassed => ?_
        obtain ⟨row,hrow,hstate⟩ := Option.map_eq_some_iff.mp hpassed
        rw [Sys.passedFuncs_eq_some.mpr ⟨row,hrow,hstate,rfl⟩] at hnone
        cases hnone
      cases step_files hb with
      | writes _ hw => cases hw
      | @counts _ d d' hd _ hfiles hcos hhash hcounted =>
        obtain rfl : d = c := Option.some.inj (hd.symm.trans hc)
        obtain ⟨hlt,-⟩ := List.getElem?_eq_some_iff.mp hd
        refine ⟨d',?_,hcounted,?_⟩
        · rw [hcos]
          exact List.getElem?_set_self hlt
        · rw [r1JState_congr hfiles,hhash]
          exact hfailed
      | moves _ hne => exact absurd rfl hne
      | others hno => exact absurd rfl (hno i .resume)
  · have hgave : ∀ i, gaveUp i (⟨t,a,v⟩ :: tr) = gaveUp i tr := by
      intro i
      unfold gaveUp
      rw [watch_cons]
      rcases hact with ⟨rfl,-⟩ | ⟨passed,rfl,-⟩ <;> simp
    refine ⟨?_,?_,fun i hg => ?_⟩
    · rw [hsame]
      exact hk.inv
    · rw [hsame]
      exact hk.ledger
    · rw [hgave] at hg
      rw [hsame]
      exact hk.givenUp i hg

/-- A step after that leaves the file as it is. -/
theorem Known.staysFailed {a : TwoAct F} {c : FileCo H P} (hk : Known tr t)
    (hstops : threadStops t a = true) (hs : twoStep slots t a = some v)
    (hgave : gaveUp i tr = true) (hc : t.base.fileCos[i]? = some c) :
    StaysFailed c.hash ⟨t,a,v⟩ := by
  obtain ⟨c₀,hc₀,hcounted,hfailed⟩ := hk.givenUp i hgave
  obtain rfl : c₀ = c := Option.some.inj (hc₀.symm.trans hc)
  rcases twoStep_base hs with ⟨b,rfl,hb,hw⟩ | ⟨j,d,hd,hsame,hact⟩
  · obtain ⟨hstate,hfuncs⟩ := failed_step hk.ledger hk.inv hstops hc hcounted hfailed hb
    refine ⟨hstate,fun hset => ?_,hfuncs⟩
    rw [← hw]
    exact hset
  · refine ⟨?_,fun hset => ?_,?_⟩
    · dsimp only
      rw [hsame]
      exact hfailed
    · by_cases hh : c₀.hash = d.hash
      · obtain rfl := Pool.eq_of_nodup hk.ledger.hashes hd hc hh
        dsimp only at hset
        rcases hact with ⟨-,hw⟩ | ⟨passed,rfl,hw⟩
        · rw [hw,hh,Function.update_self] at hset
          cases hset
        · rw [hw,hh,Function.update_self] at hset
          cases passed with
          | true => simp [threadStops,hc,hcounted] at hstops
          | false => cases hset
      · dsimp only at hset ⊢
        rcases hact with ⟨-,hw⟩ | ⟨passed,-,hw⟩
        · rwa [hw,Function.update_of_ne hh] at hset
        · rwa [hw,Function.update_of_ne hh] at hset
    · dsimp only
      rw [hsame]

end GivenUp

/-! ## Two threads -/

/-- One entry up to the count of its file after a timeout, with the thread at work. -/
def timedOut (i : ℕ) : List (TwoAct ℕ) :=
  [.base (.file i .start),.base (.file i .acquire),.base (.file i .threadStart),
    .base (.file i .check),.handlerWrites i,.base (.file i .timeout),.base (.file i .resume)]

/-- The first file times out, and its thread then fails; the second passes with a function. -/
def lateFailure : List (TwoAct ℕ) :=
  timedOut 0 ++ [.threadWrites 0 false,.base (.file 0 .fail),.base (.file 1 .start),
    .base (.file 1 .acquire),.base (.file 1 .threadStart),.base (.file 1 .check),
    .base (.file 1 (.register 7)),.threadWrites 1 true,.base (.file 1 .pass),
    .base (.file 1 .saved),.base (.file 1 .resume)]

/-- The thread registers a function and passes the file after it was counted with none. -/
def latePass : List (TwoAct ℕ) :=
  timedOut 0 ++ [.base (.file 0 (.register 7)),.threadWrites 0 true,.base (.file 0 .pass)]

end EngineRun
end EntryAnalyse
