import EntryAnalyse.EngineBarrier
import EntryAnalyse.ModuleLoader

/-! What a run drives how often. The rows of the state are keyed by file hash, but the work
list and the coroutines are not: a file that stands twice in the list, or a function that is
registered under two files, is driven twice. With distinct hashes on both levels everything is
driven once. -/
namespace EntryAnalyse
namespace EngineRun

open Runs

variable {H P F : Type}

/-- The step starts R1 for an entry of the file `p`. -/
def startsR1 [DecidableEq P] (p : P) (e : Event (Sys H P F) (Act F)) : Bool :=
  match e.act with
  | .file i .threadStart => e.pre.fileCos[i]?.any (fun c => decide (c.path = p))
  | _ => false

/-- R1 ran at most once for each file; each function has at most one coroutine, and exactly one
when its file has passed R1 and is counted, as long as the task is not cancelled; and the two
counters count each coroutine once. -/
structure Once [DecidableEq H] [DecidableEq P] [DecidableEq F]
    (tr : List (Event (Sys H P F) (Act F))) (s : Sys H P F) : Prop where
  r1 : ∀ p, tr.countP (startsR1 p) ≤ 1
  funcs : ∀ f, s.funcCos.countP (fun k => k.func = f) ≤ 1
  started : s.cancel = false → ∀ c ∈ s.fileCos, c.counted = true →
    ∀ row, s.files c.hash = some row → row.r1JState = .passed → ∀ f ∈ row.functions,
      s.funcCos.countP (fun k => k.hash = c.hash ∧ k.func = f) = 1
  total : s.cancel = false → s.totalFuncs = s.funcCos.length
  done : s.r2DoneCount = s.funcCos.countP FuncCo.counted

/-- A thread does not register a function that is registered under another file, and a thread
that its coroutine has given up stays idle. -/
def Separate (e : Event (Sys H P F) (Act F)) : Prop :=
  LateIdle e ∧ ∀ i f c, e.act = .file i (.register f) → e.pre.fileCos[i]? = some c →
    ∀ d ∈ e.pre.fileCos, d.hash ≠ c.hash → ∀ row, e.pre.files d.hash = some row →
      f ∉ row.functions

/-- No hash stands for two entries or two files. -/
structure Single (s : Sys H P F) : Prop where
  hashes : (s.fileCos.map FileCo.hash).Nodup
  paths : (s.fileCos.map FileCo.path).Nodup
  rows : ∀ h row, s.files h = some row → row.functions.Nodup
  known : ∀ h row, s.files h = some row → ∃ d ∈ s.fileCos, d.hash = h
  disjoint : ∀ f h h' row row', s.files h = some row → s.files h' = some row' →
    f ∈ row.functions → f ∈ row'.functions → h = h'
  origin : ∀ k ∈ s.funcCos, ∃ c ∈ s.fileCos, c.hash = k.hash ∧ c.counted = true
  funcs : (s.funcCos.map FuncCo.func).Nodup
  total : s.cancel = false → s.totalFuncs = s.funcCos.length

theorem single_init [DecidableEq H] {work : List (H × P)} (hh : (work.map Prod.fst).Nodup)
    (hp : (work.map Prod.snd).Nodup) : Single (init work : Sys H P F) where
  hashes := by
    have heq : ((init work : Sys H P F).fileCos.map FileCo.hash) = work.map Prod.fst := by
      apply List.ext_getElem
      · simp [init]
      · intro i _ _
        simp [init]
    rw [heq]
    exact hh
  paths := by
    have heq : ((init work : Sys H P F).fileCos.map FileCo.path) = work.map Prod.snd := by
      apply List.ext_getElem
      · simp [init]
      · intro i _ _
        simp [init]
    rw [heq]
    exact hp
  rows h row hrow := by
    simp only [init,Option.ite_none_right_eq_some,Option.some.injEq] at hrow
    rw [← hrow.2]
    exact List.nodup_nil
  known h row hrow := by
    simp only [init,Option.ite_none_right_eq_some] at hrow
    obtain ⟨w,hw,rfl⟩ := List.mem_map.mp hrow.1
    obtain ⟨i,hi,rfl⟩ := List.mem_iff_getElem.mp hw
    exact ⟨_,List.mem_mapIdx.mpr ⟨i,hi,rfl⟩,rfl⟩
  disjoint f h h' row row' hrow _ hf := by
    simp only [init,Option.ite_none_right_eq_some,Option.some.injEq] at hrow
    rw [← hrow.2] at hf
    cases hf
  origin := nofun
  funcs := List.nodup_nil
  total _ := rfl

section Keeps

variable {s s' : Sys H P F} {slots : Slots} {i k : ℕ}

theorem Single.setFile {c c' : FileCo H P} (hs : Single s) (hc : s.fileCos[i]? = some c)
    (hhash : c'.hash = c.hash) (hpath : c'.path = c.path)
    (hcount : c.counted = true → c'.counted = true) : Single (s.setFile i c') :=
  { hs with
    hashes := by
      rw [Sys.setFile,Pool.map_set_of_eq hc hhash]
      exact hs.hashes
    paths := by
      rw [Sys.setFile,Pool.map_set_of_eq hc hpath]
      exact hs.paths
    known := by
      intro h row hrow
      refine Pool.exists_mem_set hc ?_ (hs.known h row hrow)
      rw [hhash]
      exact id
    origin := by
      intro k hk
      refine Pool.exists_mem_set hc ?_ (hs.origin k hk)
      rw [hhash]
      exact And.imp_right hcount }

theorem Single.setFunc {c c' : FuncCo H P F} (hs : Single s) (hc : s.funcCos[k]? = some c)
    (hhash : c'.hash = c.hash) (hfunc : c'.func = c.func) : Single (s.setFunc k c') :=
  { hs with
    origin := by
      apply Pool.forall_mem_set hs.origin
      rw [hhash]
      exact hs.origin c (List.mem_of_getElem? hc)
    funcs := by
      rw [Sys.setFunc,Pool.map_set_of_eq hc hfunc]
      exact hs.funcs
    total := by simpa [Sys.setFunc] using hs.total }

theorem Single.countFunc {c c' : FuncCo H P F} (hs : Single s) (hc : s.funcCos[k]? = some c)
    (hhash : c'.hash = c.hash) (hfunc : c'.func = c.func) :
    Single (s.setFunc k c').onR2Done := by
  have hset := hs.setFunc hc hhash hfunc
  rw [Sys.onR2Done_eq]
  exact { hset with }

/-- An entry that is not counted is the only one of its file, so its functions are new. -/
theorem Single.afterR1 {c : FileCo H P} (hs : Single s) (hi : Inv s)
    (hc : s.fileCos[i]? = some c) (hold : c.pc.early = true) : Single (afterR1 s i c) := by
  have hmem := List.mem_of_getElem? hc
  have hunc := hi.uncounted c hmem hold
  obtain ⟨pc,new,heq,-,hnew⟩ := afterR1_eq s i c
  have hset : Single (s.setFile i { c with pc := pc, counted := true }) :=
    hs.setFile hc rfl rfl fun _ => rfl
  have hfresh : ∀ f ∈ countedFuncs s c, ∀ k ∈ s.funcCos, k.func ≠ f := by
    intro f hf k hk hkf
    obtain ⟨row,hrow,-,hfr⟩ := mem_countedFuncs hf
    obtain ⟨row',hrow',hkr⟩ := hi.registered k hk
    rw [hkf] at hkr
    have hhash := hs.disjoint f _ _ row row' hrow hrow' hfr hkr
    obtain ⟨d,hd,hdh,hdc⟩ := hs.origin k hk
    have hsame := List.inj_on_of_nodup_map hs.hashes hd hmem (hdh.trans hhash.symm)
    rw [hsame,hunc] at hdc
    cases hdc
  have hnodup : (countedFuncs s c).Nodup := by
    cases hp : s.passedFuncs c.hash with
    | none => simp [countedFuncs,hp]
    | some funcs =>
      obtain ⟨row,hrow,-,rfl⟩ := Sys.passedFuncs_eq_some.mp hp
      simpa [countedFuncs,hp] using hs.rows _ row hrow
  rw [heq,Sys.onR1Done_eq]
  rcases hnew with rfl | ⟨hcancel,rfl⟩
  · exact
      { hset with
        origin := by
          intro k hk
          rcases List.mem_append.mp hk with hk | hk
          · exact hset.origin k hk
          · obtain ⟨f,-,rfl⟩ := List.mem_map.mp hk
            have hi' : i < s.fileCos.length := (List.getElem?_eq_some_iff.mp hc).1
            exact ⟨_,List.mem_set hi' _,rfl,rfl⟩
        funcs := by
          have hspawn : (spawn c (countedFuncs s c)).map FuncCo.func = countedFuncs s c := by
            simp [spawn,Function.comp_def]
          rw [List.map_append,hspawn]
          apply List.Nodup.append hs.funcs hnodup
          intro f hf hf'
          obtain ⟨k,hk,hkf⟩ := List.mem_map.mp hf
          exact hfresh f hf' k hk hkf
        total := by
          intro hcancel
          have htotal := hs.total hcancel
          simp only [Sys.setFile,List.length_append,spawn,List.length_map]
          omega }
  · exact
      { hset with
        origin := by rw [List.append_nil]; exact hset.origin
        funcs := by rw [List.append_nil]; exact hs.funcs
        total := by
          intro hcancel'
          exact absurd (hcancel.symm.trans hcancel') (by decide) }

theorem nodup_register [DecidableEq F] {row : FileRow F} (h : row.functions.Nodup) (f : F) :
    (row.register f).functions.Nodup := by
  unfold FileRow.register
  split
  · exact h
  · rename_i hnot
    exact List.Nodup.append h (List.nodup_singleton f) (by simpa using hnot)

theorem mem_register [DecidableEq F] {row : FileRow F} {f g : F}
    (h : g ∈ (row.register f).functions) : g ∈ row.functions ∨ g = f := by
  unfold FileRow.register at h
  split at h
  · exact .inl h
  · simpa using h

section Rows

variable [DecidableEq H]

theorem Single.mark (hs : Single s) (h : H) (st : NodeState) :
    Single (s.modifyRow h (.mark st)) := by
  have hrow : ∀ k row, (s.modifyRow h (.mark st)).files k = some row →
      ∃ old, s.files k = some old ∧ old.functions = row.functions := by
    intro k row hrow
    rw [Sys.modifyRow_files] at hrow
    by_cases hk : k = h
    · rw [if_pos hk] at hrow
      obtain ⟨old,hold,rfl⟩ := Option.map_eq_some_iff.mp hrow
      exact ⟨old,hk ▸ hold,rfl⟩
    · rw [if_neg hk] at hrow
      exact ⟨row,hrow,rfl⟩
  exact
    { hs with
      rows := by
        intro k row hk
        obtain ⟨old,hold,heq⟩ := hrow k row hk
        rw [← heq]
        exact hs.rows k old hold
      known := by
        intro k row hk
        obtain ⟨old,hold,-⟩ := hrow k row hk
        exact hs.known k old hold
      disjoint := by
        intro f k k' row row' hk hk' hf hf'
        obtain ⟨old,hold,heq⟩ := hrow k row hk
        obtain ⟨old',hold',heq'⟩ := hrow k' row' hk'
        exact hs.disjoint f k k' old old' hold hold' (heq ▸ hf) (heq' ▸ hf') }

theorem Single.register [DecidableEq F] (hs : Single s) {h : H} {f : F}
    (hown : ∀ k row, s.files k = some row → f ∈ row.functions → k = h) :
    Single (s.modifyRow h (FileRow.register · f)) := by
  have hrow : ∀ k row, (s.modifyRow h (FileRow.register · f)).files k = some row →
      (∃ old, s.files k = some old ∧
        (row = old ∨ k = h ∧ row = old.register f)) := by
    intro k row hrow
    rw [Sys.modifyRow_files] at hrow
    by_cases hk : k = h
    · rw [if_pos hk] at hrow
      obtain ⟨old,hold,rfl⟩ := Option.map_eq_some_iff.mp hrow
      exact ⟨old,hk ▸ hold,.inr ⟨hk,rfl⟩⟩
    · rw [if_neg hk] at hrow
      exact ⟨row,hrow,.inl rfl⟩
  -- where a function is found, it was before or it is `f` under `h`
  have hmem : ∀ k row g, (s.modifyRow h (FileRow.register · f)).files k = some row →
      g ∈ row.functions →
      (∃ old, s.files k = some old ∧ g ∈ old.functions) ∨ k = h ∧ g = f := by
    intro k row g hk hg
    obtain ⟨old,hold,rfl | ⟨rfl,rfl⟩⟩ := hrow k row hk
    · exact .inl ⟨_,hold,hg⟩
    · rcases mem_register hg with hg | rfl
      · exact .inl ⟨old,hold,hg⟩
      · exact .inr ⟨rfl,rfl⟩
  exact
    { hs with
      rows := by
        intro k row hk
        obtain ⟨old,hold,rfl | ⟨-,rfl⟩⟩ := hrow k row hk
        · exact hs.rows k _ hold
        · exact nodup_register (hs.rows k old hold) f
      known := by
        intro k row hk
        obtain ⟨old,hold,-⟩ := hrow k row hk
        exact hs.known k old hold
      disjoint := by
        intro g k k' row row' hk hk' hg hg'
        rcases hmem k row g hk hg with ⟨old,hold,hgo⟩ | ⟨rfl,rfl⟩
        · rcases hmem k' row' g hk' hg' with ⟨old',hold',hgo'⟩ | ⟨rfl,rfl⟩
          · exact hs.disjoint g k k' old old' hold hold' hgo hgo'
          · exact hown k old hold hgo
        · rcases hmem k' row' g hk' hg' with ⟨old',hold',hgo'⟩ | ⟨rfl,-⟩
          · exact (hown k' old' hold' hgo').symm
          · rfl }

theorem Single.fileStep [DecidableEq F] {c : FileCo H P} {a : FileAct F} (hs : Single s)
    (hi : Inv s) (hc : s.fileCos[i]? = some c)
    (hown : ∀ f, a = .register f →
      ∀ h row, s.files h = some row → f ∈ row.functions → h = c.hash)
    (h : fileStep slots s i c a = some s') : Single s' := by
  cases a with
  | start | acquire | threadStart | check | saved | saveFails | joined | joinFails =>
    obtain ⟨-,rfl⟩ := guarded h
    exact hs.setFile hc rfl rfl id
  | register f =>
    obtain ⟨-,rfl⟩ := guarded h
    exact hs.register (hown f rfl)
  | pass | fail | timeout =>
    obtain ⟨-,rfl⟩ := guarded h
    exact (hs.mark c.hash _).setFile hc rfl rfl id
  | resume =>
    obtain ⟨hg,rfl⟩ := guarded h
    apply hs.afterR1 hi hc
    rcases hg with hg | hg
    · rw [hg.1]; rfl
    · rw [hg]; rfl

end Rows

theorem Single.funcStep [DecidableEq F] {c : FuncCo H P F} {a : FuncAct} (hs : Single s)
    (hc : s.funcCos[k]? = some c) (h : funcStep slots s k c a = some s') : Single s' := by
  cases a with
  | start =>
    simp only [EngineRun.funcStep] at h
    split at h
    · split at h
      · cases h
        exact hs.setFunc hc rfl rfl
      · split at h <;> cases h
        · exact hs.setFunc hc rfl rfl
        · exact hs.countFunc hc rfl rfl
    · cases h
  | r2Returns passed =>
    obtain ⟨-,rfl⟩ := guarded h
    exact hs.countFunc hc rfl rfl
  | acquire | r3Returns filtered | ccSeen | r4Returns | raises =>
    obtain ⟨-,rfl⟩ := guarded h
    exact hs.setFunc hc rfl rfl

theorem Single.ccStep {a : CcAct} (hs : Single s) (h : ccStep s a = some s') : Single s' := by
  cases a with
  | wake =>
    simp only [EngineRun.ccStep] at h
    split at h
    · split at h <;> cases h <;> exact { hs with }
    · cases h
  | finish | raises =>
    obtain ⟨-,rfl⟩ := guarded h
    exact { hs with }

theorem Single.step [DecidableEq H] [DecidableEq F] {a : Act F} (hs : Single s) (hi : Inv s)
    (hsep : Separate ⟨s,a,s'⟩) (h : step slots s a = some s') : Single s' := by
  cases a with
  | cancel =>
    cases h
    exact { hs with total := nofun }
  | file i a =>
    obtain ⟨c,hc,hstep⟩ := Option.bind_eq_some_iff.mp h
    refine hs.fileStep hi hc ?_ hstep
    intro f ha h row hrow hf
    obtain ⟨d,hd,rfl⟩ := hs.known h row hrow
    by_contra hne
    exact hsep.2 i f c (congrArg _ ha) hc d hd hne row hrow hf
  | func k a =>
    obtain ⟨c,hc,hstep⟩ := Option.bind_eq_some_iff.mp h
    exact hs.funcStep hc hstep
  | cc a => exact hs.ccStep h

end Keeps

section R1Runs

def FileCo.ran (c : FileCo H P) : Bool := decide (c.thread ≠ .idle ∧ c.thread ≠ .queued)

/-- A run of R1 is recorded in the entry that it was started for, and started only once. -/
structure R1Runs [DecidableEq P] (tr : List (Event (Sys H P F) (Act F))) (s : Sys H P F) :
    Prop where
  idle : ∀ c ∈ s.fileCos, c.pc = .start ∨ c.pc = .r1Queue → c.thread = .idle
  runs : ∀ p, tr.countP (startsR1 p) ≤ s.fileCos.countP (fun c => decide (c.path = p) && c.ran)

variable [DecidableEq P] {s s' : Sys H P F} {slots : Slots} {i k : ℕ} {c c' : FileCo H P}
  {tr : List (Event (Sys H P F) (Act F))} {e : Event (Sys H P F) (Act F)}

theorem r1Runs_init [DecidableEq H] (work : List (H × P)) : R1Runs [] (init work : Sys H P F) where
  idle c hc _ := by
    obtain ⟨i,hi,rfl⟩ := List.mem_mapIdx.mp hc
    rfl
  runs _ := Nat.zero_le _

theorem R1Runs.same (hj : R1Runs tr s) (hno : ∀ p, startsR1 p e = false)
    (hsame : s'.fileCos = s.fileCos) : R1Runs (e :: tr) s' where
  idle := by
    rw [hsame]
    exact hj.idle
  runs p := by
    rw [hsame,List.countP_cons_of_neg (by simp [hno p])]
    exact hj.runs p

theorem R1Runs.moved (hj : R1Runs tr s) (hno : ∀ p, startsR1 p e = false)
    (hc : s.fileCos[i]? = some c) (hset : s'.fileCos = s.fileCos.set i c')
    (hpath : c'.path = c.path) (hran : c.ran = true → c'.ran = true)
    (hidle : c'.pc = .start ∨ c'.pc = .r1Queue → c'.thread = .idle) : R1Runs (e :: tr) s' where
  idle := by
    rw [hset]
    exact Pool.forall_mem_set hj.idle hidle
  runs p := by
    rw [hset,List.countP_cons_of_neg (by simp [hno p])]
    refine (hj.runs p).trans (Pool.countP_le_countP_set hc ?_)
    simp only [hpath,Bool.and_eq_true]
    exact And.imp_right hran

theorem R1Runs.started (hj : R1Runs tr s) (hc : s.fileCos[i]? = some c)
    (hthread : c.thread = .queued) :
    R1Runs (⟨s,.file i .threadStart,s'⟩ :: tr) (s.setFile i { c with thread := .started }) where
  idle := Pool.forall_mem_set hj.idle fun hpc => by
    have hidle := hj.idle c (List.mem_of_getElem? hc) hpc
    rw [hthread] at hidle
    cases hidle
  runs p := by
    have hnot : c.ran = false := by simp [FileCo.ran,hthread]
    by_cases hp : c.path = p
    · have hnew : (s.setFile i { c with thread := .started }).fileCos.countP
          (fun d => decide (d.path = p) && d.ran) =
          s.fileCos.countP (fun d => decide (d.path = p) && d.ran) + 1 :=
        Pool.countP_set_of_new hc (by simp [hnot]) (by simp [hp,FileCo.ran])
      rw [hnew,List.countP_cons_of_pos (by simp [startsR1,hc,hp])]
      exact Nat.succ_le_succ (hj.runs p)
    · rw [List.countP_cons_of_neg (by simp [startsR1,hc,hp])]
      refine (hj.runs p).trans (Pool.countP_le_countP_set hc ?_)
      simp [hp]

theorem R1Runs.step [DecidableEq H] [DecidableEq F] {a : Act F} (hj : R1Runs tr s)
    (h : step slots s a = some s') : R1Runs (⟨s,a,s'⟩ :: tr) s' := by
  cases a with
  | cancel =>
    cases h
    exact hj.same (fun _ => rfl) rfl
  | file i a =>
    obtain ⟨c,hc,hs⟩ := Option.bind_eq_some_iff.mp h
    have hidle := hj.idle c (List.mem_of_getElem? hc)
    cases a with
    | threadStart =>
      obtain ⟨hthread,rfl⟩ := guarded hs
      exact hj.started hc hthread
    | start =>
      obtain ⟨hpc,rfl⟩ := guarded hs
      exact hj.moved (fun _ => rfl) hc rfl rfl id fun _ => hidle (.inl hpc)
    | acquire =>
      obtain ⟨hpc,rfl⟩ := guarded hs
      have hnot : c.ran = false := by simp [FileCo.ran,hidle (.inr hpc.1)]
      refine hj.moved (fun _ => rfl) hc rfl rfl (fun hran => ?_) nofun
      rw [hnot] at hran
      cases hran
    | register f =>
      obtain ⟨-,rfl⟩ := guarded hs
      exact hj.same (fun _ => rfl) rfl
    | check =>
      obtain ⟨hthread,rfl⟩ := guarded hs
      refine hj.moved (fun _ => rfl) hc rfl rfl (fun _ => ?_) fun hpc => ?_
      · unfold FileCo.ran
        dsimp only
        split <;> rfl
      · have := hidle hpc
        simp [this] at hthread
    | pass | fail | saved =>
      obtain ⟨hthread,rfl⟩ := guarded hs
      refine hj.moved (fun _ => rfl) hc rfl rfl (fun _ => rfl) fun hpc => ?_
      have := hidle hpc
      simp [this] at hthread
    | timeout =>
      obtain ⟨hpc,rfl⟩ := guarded hs
      refine hj.moved (fun _ => rfl) hc rfl rfl (fun hran => ?_) nofun
      unfold FileCo.ran at hran ⊢
      dsimp only
      split
      · simp
      · exact hran
    | saveFails | joined | joinFails =>
      obtain ⟨-,rfl⟩ := guarded hs
      exact hj.moved (fun _ => rfl) hc rfl rfl id nofun
    | resume =>
      obtain ⟨-,rfl⟩ := guarded hs
      obtain ⟨pc,new,heq,hpc,-⟩ := afterR1_eq s i c
      have hset : (afterR1 s i c).fileCos =
          s.fileCos.set i { c with pc := pc, counted := true } := by
        rw [heq,Sys.onR1Done_eq]
        rfl
      refine hj.moved (fun _ => rfl) hc hset rfl id ?_
      rintro (rfl | rfl) <;> cases hpc
  | func k a =>
    obtain ⟨c,hc,hs⟩ := Option.bind_eq_some_iff.mp h
    apply hj.same (fun _ => rfl)
    cases a with
    | start =>
      simp only [EngineRun.funcStep] at hs
      split at hs
      · split at hs
        · cases hs
          rfl
        · split at hs <;> cases hs
          · rfl
          · rw [Sys.onR2Done_eq]
            rfl
      · cases hs
    | r2Returns passed =>
      obtain ⟨-,rfl⟩ := guarded hs
      rw [Sys.onR2Done_eq]
      rfl
    | _ =>
      obtain ⟨-,rfl⟩ := guarded hs
      rfl
  | cc a =>
    apply hj.same (fun _ => rfl)
    cases a with
    | wake =>
      simp only [EngineRun.step,EngineRun.ccStep] at h
      split at h
      · split at h <;> cases h <;> rfl
      · cases h
    | finish | raises =>
      obtain ⟨-,rfl⟩ := guarded h
      rfl

end R1Runs

section Main

open ModuleLoader

variable [DecidableEq H] [DecidableEq F] {slots : Slots}

/-- In a state without double hashes each coroutine stands for a function of its own. -/
theorem Single.once [DecidableEq P] {s : Sys H P F} {tr : List (Event (Sys H P F) (Act F))}
    (hs : Single s) (hi : Inv s) (hd : Driven s) (hj : R1Runs tr s) : Once tr s where
  r1 p := by
    calc tr.countP (startsR1 p)
        ≤ s.fileCos.countP (fun c => decide (c.path = p) && c.ran) := hj.runs p
      _ ≤ s.fileCos.countP (fun c => c.path = p) :=
        List.countP_mono_left fun c _ hc => (Bool.and_eq_true _ _ ▸ hc).1
      _ ≤ 1 := Pool.countP_le_one hs.paths p
  funcs := Pool.countP_le_one hs.funcs
  started hcancel c hc hcounted row hrow hpassed f hf := by
    apply le_antisymm
    · refine le_trans (List.countP_mono_left fun k _ hk => ?_) (Pool.countP_le_one hs.funcs f)
      exact decide_eq_true (of_decide_eq_true hk).2
    · rw [Nat.succ_le_iff,List.countP_pos_iff]
      rcases hd c.hash row hrow hpassed f hf with hc' | ⟨d,hdm,hdh,hdc⟩ | ⟨k,hk,hkh⟩
      · rw [hcancel] at hc'
        cases hc'
      · have hsame := List.inj_on_of_nodup_map hs.hashes hdm hc hdh
        rw [hsame,hcounted] at hdc
        cases hdc
      · exact ⟨k,hk,decide_eq_true hkh⟩
  total := hs.total
  done := hi.r2Count

/-- A run over the files of a list whose resolved paths have distinct hashes drives everything
once, if no function is registered under two files and no thread outlives its coroutine. -/
theorem run_drives_once (slots : Slots) (tree : FileTree) (sourceDir targetDir : String)
    (lines : List String) (computeFileHash : String → H)
    {tr : List (Event (Sys H String F) (Act F))} {u : Sys H String F}
    (hlines : ((fileHashPaths computeFileHash
      (resolvedFiles tree sourceDir targetDir lines)).map Prod.fst).Nodup)
    (hr : Run (step slots)
      (init (fileHashPaths computeFileHash (resolvedFiles tree sourceDir targetDir lines))) tr u)
    (hsep : Along (fun _ e => Separate e) tr) : Once tr u := by
  have hpaths : ((fileHashPaths computeFileHash
      (resolvedFiles tree sourceDir targetDir lines)).map Prod.snd).Nodup := by
    have heq : Prod.snd ∘ (fun fp => (computeFileHash fp,fp)) = id := rfl
    rw [fileHashPaths,List.map_map,heq,List.map_id]
    exact nodup_of_hashes hlines
  obtain ⟨hi,hd,hs,hj⟩ := hr.invariant
    (J := fun tr s => Inv s ∧ Driven s ∧ Single s ∧ R1Runs tr s) hsep
    ⟨inv_init _,driven_init _,single_init hlines hpaths,r1Runs_init _⟩
    (by
      intro tr t a v hinv hp hstep
      obtain ⟨hi,hd,hs,hj⟩ := hinv
      exact ⟨hi.step hstep,hd.step hi hp.1 hstep,hs.step hi hp hstep,hj.step hstep⟩)
  exact hs.once hi hd hj

/-- A plain step that registers no function of another entry's file. -/
def apart (e : Event (Sys H P F) (Act F)) : Bool :=
  plain e &&
    match e.act with
    | .file i (.register f) => e.pre.fileCos[i]?.all fun c =>
      e.pre.fileCos.all fun d =>
        decide (d.hash = c.hash) || (e.pre.files d.hash).all fun row => decide (f ∉ row.functions)
    | _ => true

theorem separate_of_apart {e : Event (Sys H P F) (Act F)} (h : apart e = true) : Separate e := by
  rw [apart,Bool.and_eq_true] at h
  refine ⟨(lateIdle_of_plain h.1),?_⟩
  intro i f c hact hc d hd hne row hrow hf
  have hall := h.2
  simp only [hact,hc,Option.all_some,List.all_eq_true] at hall
  have hrow' := hall d hd
  simp [hne,hrow,hf] at hrow'

/-- A file system with two source files. -/
def twoFileTree : FileTree where
  isFile p := p == "/src/a.c" || p == "/src/b.c"
  rglob _ _ := []
  cwd := "/"

/-- Both files register a function and pass, and both functions go through R2. -/
def bothFunctions : List (Act ℕ) :=
  [.file 0 .start,.file 1 .start,.file 0 .acquire,.file 1 .acquire,.file 0 .threadStart,
    .file 0 .check,.file 1 .threadStart,.file 1 .check,.file 0 (.register 7),.file 0 .pass,
    .file 0 .saved,.file 0 .resume,.file 1 (.register 8),.file 1 .pass,.file 1 .saved,
    .file 1 .resume,.func 0 .start,.func 0 .acquire,.func 0 (.r2Returns true),.func 1 .start,
    .func 1 .acquire,.func 1 (.r2Returns true)]

theorem two_lines_driven_once :
    ∃ tr u, Run (step (slotsOf 8 32)) (init (fileHashPaths id
      (resolvedFiles twoFileTree "/src" "/out" ["a.c","./b.c"])) : Sys String String ℕ) tr u ∧
      u.r2DoneCount = 2 ∧ Once tr u := by
  obtain ⟨tr,u,hr,hp⟩ := exists_run_of_replay (step (slotsOf 8 32)) (init (fileHashPaths id
      (resolvedFiles twoFileTree "/src" "/out" ["a.c","./b.c"])) : Sys String String ℕ)
    bothFunctions
    (p := fun tr (u : Sys String String ℕ) => tr.all apart && decide (u.r2DoneCount = 2))
    (by decide +kernel)
  simp only [Bool.and_eq_true,List.all_eq_true,decide_eq_true_eq] at hp
  exact ⟨tr,u,hr,hp.2,run_drives_once (slotsOf 8 32) twoFileTree "/src" "/out" ["a.c","./b.c"] id
    (by decide +kernel) hr (along_forall.mpr fun e he => separate_of_apart (hp.1 e he))⟩

/-- Both entries of one file run R1, and each drives the file's function. -/
def sameFunctionTwice : List (Act ℕ) :=
  [.file 0 .start,.file 1 .start,.file 0 .acquire,.file 1 .acquire,.file 0 .threadStart,
    .file 0 .check,.file 1 .threadStart,.file 1 .check,.file 0 (.register 7),.file 0 .pass,
    .file 0 .saved,.file 0 .resume,.file 1 (.register 7),.file 1 .pass,.file 1 .saved,
    .file 1 .resume,.func 0 .start,.func 1 .start,.func 0 .acquire,.func 1 .acquire]

/-- A file that a list names twice: R1 runs twice for it, its only function is counted twice,
and two coroutines are in R2 with it at the same time. -/
theorem repeated_line_driven_twice :
    ∃ tr u, Run (step (slotsOf 8 32)) (init (fileHashPaths id
      (resolvedFiles twoFileTree "/src" "/out" ["a.c","./a.c"])) : Sys String String ℕ) tr u ∧
      tr.countP (startsR1 "/src/a.c") = 2 ∧ u.totalFuncs = 2 ∧
      u.funcCos.countP (fun k => k.func = 7 ∧ k.pc = .r2) = 2 ∧ ¬Once tr u := by
  obtain ⟨tr,u,hr,hp⟩ := exists_run_of_replay (step (slotsOf 8 32)) (init (fileHashPaths id
      (resolvedFiles twoFileTree "/src" "/out" ["a.c","./a.c"])) : Sys String String ℕ)
    sameFunctionTwice
    (p := fun tr (u : Sys String String ℕ) => decide (tr.countP (startsR1 "/src/a.c") = 2) &&
      decide (u.totalFuncs = 2) &&
      decide (u.funcCos.countP (fun k => k.func = 7 ∧ k.pc = .r2) = 2))
    (by decide +kernel)
  simp only [Bool.and_eq_true,decide_eq_true_eq] at hp
  refine ⟨tr,u,hr,hp.1.1,hp.1.2,hp.2,fun honce => ?_⟩
  have hle := honce.r1 "/src/a.c"
  rw [hp.1.1] at hle
  exact absurd hle (by decide)

end Main

end EngineRun
end EntryAnalyse
