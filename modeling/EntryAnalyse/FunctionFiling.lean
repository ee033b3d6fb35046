import EntryAnalyse.R1Registration
import EntryAnalyse.PublishedLists

/-! Functions and the files they are filed under. A run of R1 registers what it reads back from
the one table of all files, and a function that a correction adds takes its file from an
arbitrary row of `file_meta`. Where both reads see only the file's own rows, the functions of a
file stay with it. -/
namespace EntryAnalyse
namespace R1Registration

open Runs

/-! ## Dictionaries -/

theorem isSome_registerFunctions (m : String → Option FuncState) (l : List (String × FuncState))
    (g : String) :
    ((registerFunctions m l) g).isSome = true ↔ (m g).isSome = true ∨ g ∈ l.map Prod.fst := by
  induction l generalizing m with
  | nil => simp [registerFunctions]
  | cons p l ih =>
    rw [registerFunctions,List.foldl_cons]
    have hih := ih (if (m p.1).isSome then m else Function.update m p.1 (some p.2))
    rw [registerFunctions] at hih
    rw [hih]
    by_cases hg : g = p.1
    · subst hg
      by_cases hm : (m p.1).isSome = true <;> simp [hm]
    · by_cases hm : (m p.1).isSome = true <;> simp [hm,hg]

theorem isSome_assignFunctions (m : String → Option FuncState) (l : List (String × FuncState))
    (g : String) :
    ((assignFunctions m l) g).isSome = true ↔ (m g).isSome = true ∨ g ∈ l.map Prod.fst := by
  induction l generalizing m with
  | nil => simp [assignFunctions]
  | cons p l ih =>
    rw [assignFunctions,List.foldl_cons]
    have hih := ih (Function.update m p.1 (some p.2))
    rw [assignFunctions] at hih
    rw [hih]
    by_cases hg : g = p.1
    · subst hg
      simp
    · simp [hg]

/-- The file has an entry for the function. -/
def FileState.has (fs : FileState) (g : String) : Bool := (fs.functions g).isSome

namespace Sys

theorem modifyFile_files (s : Sys) (h k : String) (f : FileState → FileState) :
    (s.modifyFile h f).files k = (s.files k).map (if k = h then f else id) := by
  simp only [modifyFile,Function.update_apply]
  by_cases hkh : k = h
  · rw [if_pos hkh,if_pos hkh,hkh]
  · rw [if_neg hkh,if_neg hkh,Option.map_id_apply]

end Sys

/-! ## Rows and their files -/

/-- What the rows say about where their functions are from: the hash, the file hash and the
lines. -/
def origins (db : FuncDb) : List (String × String × String) :=
  db.functions.rows.map (fun r => (r.funcHash,r.fileHash,r.body))

theorem origins_updateFunctions (db : FuncDb) (h : String) (f : FunctionRow → FunctionRow)
    (hf : ∀ r, (f r).funcHash = r.funcHash) (hfile : ∀ r, (f r).fileHash = r.fileHash)
    (hbody : ∀ r, (f r).body = r.body) : origins (db.updateFunctions h f hf) = origins db := by
  unfold origins FuncDb.updateFunctions KeyedTable.updateWhere
  rw [List.map_map]
  apply List.map_congr_left
  intro r _
  by_cases hr : r.funcHash = h <;> simp [hr,hf,hfile,hbody]

theorem mem_origins_updateFunction {db : FuncDb} {h : String} {name sig : Option String}
    {a b : Option ℤ} {body : Option String} {p : String × String × String}
    (hp : p ∈ origins (db.updateFunction h name sig a b body)) :
    p ∈ origins db ∨
      ∃ r ∈ db.functions.rows, r.funcHash = h ∧ p = (h,r.fileHash,body.getD r.body) := by
  obtain ⟨r,hr,rfl⟩ := List.mem_map.mp hp
  rcases KeyedTable.mem_rows_updateWhere (by intro; rfl) hr with hr | ⟨q,hq,hqh,rfl⟩
  · exact .inl (List.mem_map.mpr ⟨r,hr,rfl⟩)
  · have heq : q.funcHash = h := of_decide_eq_true hqh
    refine .inr ⟨q,hq,heq,?_⟩
    dsimp only
    rw [heq]

theorem mem_origins_insertFunction {db : FuncDb} {h k name sig : String} {a b : ℤ}
    {body : String} {p : String × String × String}
    (hp : p ∈ origins (db.insertFunction h k name sig a b body)) :
    p ∈ origins db ∨ p = (h,k,body) := by
  obtain ⟨r,hr,rfl⟩ := List.mem_map.mp hp
  rcases KeyedTable.mem_rows_insertOrIgnore hr with hr | rfl
  · exact .inl (List.mem_map.mpr ⟨r,hr,rfl⟩)
  · exact .inr rfl

theorem mem_origins_deleteFunction {db : FuncDb} {h : String} {p : String × String × String}
    (hp : p ∈ origins (db.deleteFunction h)) : p ∈ origins db := by
  obtain ⟨r,hr,rfl⟩ := List.mem_map.mp hp
  exact List.mem_map.mpr ⟨r,List.mem_of_mem_filter hr,rfl⟩

section Sources

variable (src : Sources)

/-- The lines are some of the file's. -/
def LinesOf (path body : String) : Prop :=
  (∃ fe ∈ src.extract path, body = fe.body) ∨ ∃ a b, body = src.body path a b

/-- The rows that `write_functions` inserts for the static functions of a file. -/
def staticRows (c : R1Run) : List FunctionRow :=
  (staticFuncs src c.path).map fun p =>
    newRow p.1 c.fileHash p.2.name p.2.signature p.2.startLine p.2.endLine p.2.body

theorem writeStatic_functions (db : FuncDb) (c : R1Run) :
    (writeStatic src db c).functions =
      (staticRows src c).foldl KeyedTable.insertOrIgnore db.functions := by
  unfold writeStatic FuncDb.writeFunctions staticRows staticHashes staticFuncs
  rw [List.map_map,List.zip_map_right,List.foldl_map,List.map_map,List.foldl_map]
  have hzip : ∀ l : List FunctionExtract, l.zip l = l.map (fun x => (x,x)) := by
    intro l
    induction l with
    | nil => rfl
    | cons x l ih => rw [List.zip_cons_cons,ih,List.map_cons]
  rw [hzip,List.foldl_map]
  rfl

theorem mem_origins_writeStatic {db : FuncDb} {c : R1Run} {p : String × String × String}
    (hp : p ∈ origins (writeStatic src db c)) :
    p ∈ origins db ∨
      p.2.1 = c.fileHash ∧ p.1 ∈ staticHashes src c.path ∧ LinesOf src c.path p.2.2 := by
  obtain ⟨r,hr,rfl⟩ := List.mem_map.mp hp
  rw [writeStatic_functions] at hr
  rcases KeyedTable.mem_rows_foldl_insertOrIgnore hr with hr | hr
  · exact .inl (List.mem_map.mpr ⟨r,hr,rfl⟩)
  · obtain ⟨q,hq,rfl⟩ := List.mem_map.mp hr
    refine .inr ⟨rfl,List.mem_map.mpr ⟨q,hq,rfl⟩,.inl ?_⟩
    obtain ⟨fe,hfe,rfl⟩ := List.mem_map.mp hq
    exact ⟨fe,hfe,rfl⟩

/-- An update reads the lines of the file of the worker, whatever file the row belongs to. -/
theorem mem_origins_updateExisting {db : FuncDb} {path h : String} {name sig : Option String}
    {a b : ℤ} {p : String × String × String}
    (hp : p ∈ origins (updateExisting src db path h name sig a b)) :
    p ∈ origins db ∨ ∃ r ∈ db.functions.rows, r.funcHash = h ∧ p.1 = h ∧ p.2.1 = r.fileHash ∧
      LinesOf src path p.2.2 := by
  simp only [updateExisting] at hp
  have hread : ∀ (x y : ℤ) (a b : Option ℤ),
      p ∈ origins (db.updateFunction h name sig a b (some (src.body path x y))) →
      p ∈ origins db ∨ ∃ r ∈ db.functions.rows, r.funcHash = h ∧ p.1 = h ∧ p.2.1 = r.fileHash ∧
        LinesOf src path p.2.2 := by
    intro x y a b hp
    rcases mem_origins_updateFunction hp with hp | ⟨r,hr,hrh,rfl⟩
    · exact .inl hp
    · exact .inr ⟨r,hr,hrh,rfl,rfl,.inr ⟨x,y,rfl⟩⟩
  have hkeep : ∀ a b : Option ℤ, p ∈ origins (db.updateFunction h name sig a b none) →
      p ∈ origins db := by
    intro a b hp
    have hsame := origins_updateFunctions db h (fun r => { r with
      name := name.getD r.name
      signature := sig.getD r.signature
      startLine := a.getD r.startLine
      endLine := b.getD r.endLine }) (fun _ => rfl) (fun _ => rfl) (fun _ => rfl)
    rw [← hsame]
    exact hp
  split at hp <;> split at hp
  · exact hread _ _ _ _ hp
  · exact .inl (hkeep _ _ hp)
  · exact hread _ _ _ _ hp
  · exact .inl (hkeep _ _ hp)

theorem mem_origins_applyCorrection {db : FuncDb} {picked path : String} {corr : Correction}
    {p : String × String × String}
    (hp : p ∈ origins (applyCorrection src db picked path corr)) :
    p ∈ origins db ∨ LinesOf src path p.2.2 ∧
      (p.2.1 = picked ∧ p.1 ∈ addedHash src path corr ∨
        ∃ name sig a b, corr = .update p.1 name sig a b ∧
          ∃ r ∈ db.functions.rows, r.funcHash = p.1 ∧ p.2.1 = r.fileHash) := by
  cases corr with
  | delete h => exact .inl (mem_origins_deleteFunction hp)
  | new name sig a b =>
    by_cases hskip : name = "" ∨ a = 0
    · rw [applyCorrection,if_pos hskip] at hp
      exact .inl hp
    · rw [applyCorrection,if_neg hskip] at hp
      rcases mem_origins_insertFunction hp with hp | rfl
      · exact .inl hp
      · refine .inr ⟨.inr ⟨_,_,rfl⟩,.inl ⟨rfl,?_⟩⟩
        rw [addedHash,if_neg hskip]
        exact List.mem_singleton_self _
  | update h name sig a b =>
    rw [applyCorrection] at hp
    rcases mem_origins_updateExisting src hp with hp | ⟨r,hr,hrh,rfl,hfile,hlines⟩
    · exact .inl hp
    · exact .inr ⟨hlines,.inr ⟨name,sig,a,b,rfl,r,hr,hrh,hfile⟩⟩

end Sources

theorem origins_decideDb (db : FuncDb) (g : String) (d : Decision) :
    origins (decideDb db g d) = origins db := by
  unfold decideDb
  split <;> first
    | exact origins_updateFunctions db g _ _ (fun _ => rfl) (fun _ => rfl)
    | rfl

theorem origins_columnDb (py : PyRuntime) (db : FuncDb) (g : String) (a : ColumnAct) :
    origins (columnDb py db g a) = origins db := by
  cases a <;> exact origins_updateFunctions db g _ _ (fun _ => rfl) (fun _ => rfl)

/-! ## One run moves -/

/-- A step of one run: its entry becomes `c'`, and of the files only its own changes. -/
structure Moves (s s' : Sys) (i : ℕ) (c c' : R1Run) (f : FileState → FileState) : Prop where
  at_run : s.runs[i]? = some c
  runs : s'.runs = s.runs.set i c'
  hash : c'.fileHash = c.fileHash
  path : c'.path = c.path
  files : ∀ h, s'.files h = (s.files h).map (if h = c.fileHash then f else id)

section Moves

variable {s : Sys} {i : ℕ} {c c' : R1Run}

theorem moves_setRun (hc : s.runs[i]? = some c) (db : FuncDb) (hhash : c'.fileHash = c.fileHash)
    (hpath : c'.path = c.path) : Moves s ({ s with db := db }.setRun i c') i c c' id where
  at_run := hc
  runs := rfl
  hash := hhash
  path := hpath
  files h := by
    rw [ite_self,Option.map_id_apply]
    rfl

theorem moves_modifyFile (hc : s.runs[i]? = some c) (f : FileState → FileState)
    (hhash : c'.fileHash = c.fileHash) (hpath : c'.path = c.path) :
    Moves s ((s.modifyFile c.fileHash f).setRun i c') i c c' f where
  at_run := hc
  runs := rfl
  hash := hhash
  path := hpath
  files h := Sys.modifyFile_files s c.fileHash h f

/-- A change to the file alone. -/
theorem moves_file (hc : s.runs[i]? = some c) (f : FileState → FileState) (db : FuncDb)
    (removed : List String) :
    Moves s { s.modifyFile c.fileHash f with db := db, removed := removed } i c c f where
  at_run := hc
  runs := (Pool.set_self hc).symm
  hash := rfl
  path := rfl
  files h := Sys.modifyFile_files s c.fileHash h f

/-- A change to the database alone. -/
theorem moves_db (hc : s.runs[i]? = some c) (db : FuncDb) (removed : List String) :
    Moves s { s with db := db, removed := removed } i c c id where
  at_run := hc
  runs := (Pool.set_self hc).symm
  hash := rfl
  path := rfl
  files h := by
    rw [ite_self,Option.map_id_apply]

end Moves

/-! ## The invariant -/

/-- What the run of a file says about the file. Nothing is registered before `registered`; from
then on the file has what the run accepted, unless the run failed. -/
def RunInv (src : Sources) (c : R1Run) (fs : FileState) : Prop :=
  match c.phase with
  | .start | .checked => c.accepted = [] ∧ (∀ g, fs.has g = false) ∧ fs.r1JState ≠ .passed
  | .gaps => staticHashes src c.path ⊆ c.accepted ∧ (∀ g, fs.has g = false) ∧
    fs.r1JState ≠ .passed
  | .written => c.accepted = staticHashes src c.path ∧ (∀ g, fs.has g = false) ∧
    fs.r1JState ≠ .passed
  | .listed funcs => (∀ g, fs.has g = false) ∧ fs.r1JState ≠ .passed ∧
    ∀ g, g ∈ funcs.map Prod.fst ↔ g ∈ c.accepted
  | .registered => (∀ g, fs.has g = true ↔ g ∈ c.accepted) ∧ fs.r1JState ≠ .passed
  | .saving | .ended => (∀ g, fs.has g = true → g ∈ c.accepted) ∧
    (fs.r1JState = .passed → ∀ g, g ∈ c.accepted → fs.has g = true)

section RunInv

variable {src : Sources}

theorem RunInv.accepted {c : R1Run} {fs : FileState} (h : RunInv src c fs) {g : String}
    (hg : fs.has g = true) : g ∈ c.accepted := by
  unfold RunInv at h
  cases hp : c.phase <;> simp only [hp] at h
  case start | checked | gaps | written =>
    rw [h.2.1 g] at hg
    cases hg
  case listed =>
    rw [h.1 g] at hg
    cases hg
  case registered => exact (h.1 g).mp hg
  case saving | ended => exact h.1 g hg

theorem RunInv.passed {c : R1Run} {fs : FileState} (h : RunInv src c fs)
    (hpassed : fs.r1JState = .passed) (g : String) : fs.has g = true ↔ g ∈ c.accepted := by
  refine ⟨h.accepted,?_⟩
  unfold RunInv at h
  cases hp : c.phase <;> simp only [hp] at h
  case start | checked | gaps | written => exact absurd hpassed h.2.2
  case registered => exact absurd hpassed h.2
  case listed => exact absurd hpassed h.2.1
  case saving | ended => exact h.2 hpassed g

/-- Marking a file failed, or changing its functions one for one, keeps what its run says. -/
theorem RunInv.congr {c : R1Run} {fs fs' : FileState} (h : RunInv src c fs)
    (hhas : ∀ g, fs'.has g = fs.has g)
    (hr1 : fs'.r1JState = .passed → fs.r1JState = .passed) : RunInv src c fs' := by
  unfold RunInv at h ⊢
  cases hp : c.phase <;> simp only [hp,hhas] at h ⊢
  case start | checked | gaps | written =>
    exact ⟨h.1,h.2.1,fun hpassed => h.2.2 (hr1 hpassed)⟩
  case registered => exact ⟨h.1,fun hpassed => h.2 (hr1 hpassed)⟩
  case listed => exact ⟨h.1,fun hpassed => h.2.1 (hr1 hpassed),h.2.2⟩
  case saving | ended => exact ⟨h.1,fun hpassed => h.2 (hr1 hpassed)⟩

end RunInv

structure FileInv (src : Sources) (s : Sys) : Prop where
  hashes : (s.runs.map R1Run.fileHash).Nodup
  known : ∀ h fs, s.files h = some fs → ∃ c ∈ s.runs, c.fileHash = h
  run : ∀ c ∈ s.runs, ∃ fs, s.files c.fileHash = some fs ∧ RunInv src c fs
  named : ∀ c ∈ s.runs, "" ∉ c.accepted
  disjoint : ∀ c ∈ s.runs, ∀ d ∈ s.runs, c.fileHash ≠ d.fileHash → ∀ g ∈ c.accepted,
    g ∉ d.accepted
  rows : ∀ p ∈ origins s.db, ∃ c ∈ s.runs, c.fileHash = p.2.1 ∧
    (p.1 ∈ c.accepted ∨ p.1 ∈ c.added) ∧ LinesOf src c.path p.2.2

theorem fileInv_init {src : Sources} {files : List (String × String)}
    (h : (files.map Prod.fst).Nodup) : FileInv src (init files) where
  hashes := by
    simp only [init,List.map_map]
    exact h
  known k fs hfs := by
    simp only [init,Option.ite_none_right_eq_some] at hfs
    obtain ⟨f,hf,rfl⟩ := List.mem_map.mp hfs.1
    exact ⟨_,List.mem_map.mpr ⟨f,hf,rfl⟩,rfl⟩
  run c hc := by
    obtain ⟨f,hf,rfl⟩ := List.mem_map.mp hc
    exact ⟨{},if_pos (List.mem_map_of_mem hf),rfl,fun _ => rfl,nofun⟩
  named c hc := by
    obtain ⟨f,-,rfl⟩ := List.mem_map.mp hc
    nofun
  disjoint c hc _ _ _ g hg := by
    obtain ⟨f,-,rfl⟩ := List.mem_map.mp hc
    cases hg
  rows := nofun

theorem FileInv.unique {src : Sources} {s : Sys} (hi : FileInv src s) {c d : R1Run}
    (hc : c ∈ s.runs) (hd : d ∈ s.runs) (h : c.fileHash = d.fileHash) : c = d :=
  List.inj_on_of_nodup_map hi.hashes hc hd h

section Keeps

variable {src : Sources} {s s' : Sys} {i : ℕ} {c c' : R1Run} {f : FileState → FileState}

/-- What has to be shown of a step of one run. -/
theorem FileInv.moved (hi : FileInv src s) (hm : Moves s s' i c c' f)
    (hrun : ∀ fs, RunInv src c fs → RunInv src c' (f fs))
    (hold : c.accepted ⊆ c'.accepted) (hadded : c.added ⊆ c'.added) (hnamed : "" ∉ c'.accepted)
    (hnew : ∀ d ∈ s.runs, d.fileHash ≠ c.fileHash → ∀ g ∈ c'.accepted, g ∉ d.accepted)
    (hrows : ∀ p ∈ origins s'.db, p ∈ origins s.db ∨
      p.2.1 = c.fileHash ∧ (p.1 ∈ c'.accepted ∨ p.1 ∈ c'.added) ∧ LinesOf src c.path p.2.2) :
    FileInv src s' := by
  have hc := hm.at_run
  have hmem := List.mem_of_getElem? hc
  have hset : ∀ d ∈ s'.runs, d = c' ∨ d ∈ s.runs ∧ d.fileHash ≠ c.fileHash := by
    rw [hm.runs]
    exact fun d => Pool.eq_or_ne_of_mem_set hi.hashes hc
  have hin : c' ∈ s'.runs := by
    rw [hm.runs]
    exact List.mem_set (List.getElem?_eq_some_iff.mp hc).1 c'
  have hkeep : ∀ P : R1Run → Prop, (P c → P c') → (∃ d ∈ s.runs, P d) → ∃ d ∈ s'.runs, P d := by
    rw [hm.runs]
    exact fun P hP => Pool.exists_mem_set hc hP
  exact
    { hashes := by
        rw [hm.runs,Pool.map_set_of_eq hc hm.hash]
        exact hi.hashes
      known := by
        intro h fs' hfs
        rw [hm.files] at hfs
        obtain ⟨fs,hfs,-⟩ := Option.map_eq_some_iff.mp hfs
        exact hkeep _ (fun heq => hm.hash.trans heq) (hi.known h fs hfs)
      run := by
        intro d hd
        rcases hset d hd with rfl | ⟨hd,hne⟩
        · obtain ⟨fs,hfs,hinv⟩ := hi.run c hmem
          refine ⟨f fs,?_,hrun fs hinv⟩
          rw [hm.files,hm.hash,hfs,if_pos rfl,Option.map_some]
        · rw [hm.files,if_neg hne,Option.map_id_apply]
          exact hi.run d hd
      named := by
        intro d hd
        rcases hset d hd with rfl | ⟨hd,-⟩
        · exact hnamed
        · exact hi.named d hd
      disjoint := by
        intro d hd e he hne g hg hge
        rcases hset d hd with rfl | ⟨hd,hdc⟩
        · rcases hset e he with rfl | ⟨he,hec⟩
          · exact hne rfl
          · exact hnew e he hec g hg hge
        · rcases hset e he with rfl | ⟨he,hec⟩
          · exact hnew d hd hdc g hge hg
          · exact hi.disjoint d hd e he hne g hg hge
      rows := by
        intro p hp
        rcases hrows p hp with hp | ⟨hp,hacc,hlines⟩
        · refine hkeep _ ?_ (hi.rows p hp)
          rintro ⟨hhash,hacc,hlines⟩
          rw [hm.hash,hm.path]
          exact ⟨hhash,hacc.imp (@hold _) (@hadded _),hlines⟩
        · rw [← hm.path] at hlines
          exact ⟨c',hin,hm.hash.trans hp.symm,hacc,hlines⟩ }

/-- A step that accepts no new function. -/
theorem FileInv.moved_same (hi : FileInv src s) (hm : Moves s s' i c c' f)
    (hrun : ∀ fs, RunInv src c fs → RunInv src c' (f fs))
    (hacc : c'.accepted = c.accepted) (hadded : c.added ⊆ c'.added)
    (hrows : ∀ p ∈ origins s'.db, p ∈ origins s.db ∨
      p.2.1 = c.fileHash ∧ (p.1 ∈ c.accepted ∨ p.1 ∈ c'.added) ∧ LinesOf src c.path p.2.2) :
    FileInv src s' := by
  have hmem := List.mem_of_getElem? hm.at_run
  have hsub : c.accepted ⊆ c'.accepted := by
    rw [hacc]
    exact List.Subset.refl _
  refine hi.moved hm hrun hsub hadded ?_ ?_ ?_
  · rw [hacc]
    exact hi.named c hmem
  · rw [hacc]
    exact fun d hd hne => hi.disjoint c hmem d hd hne.symm
  · rw [hacc]
    exact hrows

end Keeps

/-! ## Steps -/

section Steps

variable {cfg : Config} {src : Sources} {py : PyRuntime}

/-- The hashes that a step of R1 adds to the accepted ones. -/
def newHashes (cfg : Config) (src : Sources) (c : R1Run) : R1Act → List String
  | .write => staticHashes src c.path
  | .list => if cfg.mode = .fast then staticHashes src c.path else []
  | .gap _ name _ startLine _ => [src.funcHash c.path name startLine]
  | .check | .register | .pass | .saved | .fail => []

/-- The reads of the shared tables see what belongs to the file, an update goes to a row of the
file, and no function of one file has the hash of a function of another. -/
structure Own (cfg : Config) (src : Sources) (e : Event Sys Act) : Prop where
  list : ∀ i c, e.act = .r1 i .list → e.pre.runs[i]? = some c → cfg.mode = .normal →
    (∀ g, g ∈ e.pre.db.functions.keys ↔ g ∈ c.accepted) ∨
      e.pre.db.functions.rows = [] ∧ c.accepted = staticHashes src c.path
  gap : ∀ i c picked name sig a b, e.act = .r1 i (.gap picked name sig a b) →
    e.pre.runs[i]? = some c → picked = c.fileHash
  correct : ∀ i c picked corr, e.act = .r2 i (.correct picked corr) → e.pre.runs[i]? = some c →
    addedHash src c.path corr ≠ [] → picked = c.fileHash
  update : ∀ i c picked g name sig a b, e.act = .r2 i (.correct picked (.update g name sig a b)) →
    e.pre.runs[i]? = some c → ∀ r ∈ e.pre.db.functions.rows, r.funcHash = g →
      r.fileHash = c.fileHash
  distinct : ∀ i c a, e.act = .r1 i a → e.pre.runs[i]? = some c →
    ∀ d ∈ e.pre.runs, d.fileHash ≠ c.fileHash → ∀ g ∈ newHashes cfg src c a, g ∉ d.accepted

theorem fst_static (path : String) :
    ((staticFuncs src path).map (Prod.map id FuncState.ofExtract)).map Prod.fst =
      staticHashes src path := by
  simp [staticHashes]

/-- What R1 lists when the rows are its own. -/
theorem mem_currentFuncs {db : FuncDb} {c : R1Run} (hnamed : "" ∉ c.accepted)
    (h : (∀ g, g ∈ db.functions.keys ↔ g ∈ c.accepted) ∨
      db.functions.rows = [] ∧ c.accepted = staticHashes src c.path) (g : String)
    (hstatic : ∀ g ∈ staticHashes src c.path, g ∈ c.accepted) :
    g ∈ (currentFuncs src db c.path).map Prod.fst ↔ g ∈ c.accepted := by
  unfold currentFuncs
  by_cases hrows : db.functions.rows = []
  · rw [if_pos hrows,fst_static]
    rcases h with h | ⟨-,h⟩
    · refine ⟨hstatic g,fun hg => ?_⟩
      have hkey := (h g).mpr hg
      rw [KeyedTable.keys,hrows] at hkey
      cases hkey
    · rw [h]
  · rw [if_neg hrows]
    rcases h with h | ⟨hnil,-⟩
    · rw [← h g,List.map_map,KeyedTable.keys]
      constructor
      · intro hg
        obtain ⟨r,hr,rfl⟩ := List.mem_map.mp hg
        exact List.mem_map.mpr ⟨r,List.mem_of_mem_filter hr,rfl⟩
      · intro hg
        obtain ⟨r,hr,rfl⟩ := List.mem_map.mp hg
        refine List.mem_map.mpr ⟨r,List.mem_filter.mpr ⟨hr,?_⟩,rfl⟩
        have hacc := (h r.funcHash).mp hg
        rw [bne_iff_ne]
        intro heq
        rw [heq] at hacc
        exact hnamed hacc
    · exact absurd hnil hrows

theorem staticHashes_ne (path : String) : "" ∉ staticHashes src path := by
  intro h
  obtain ⟨p,hp,hpe⟩ := List.mem_map.mp h
  obtain ⟨fe,-,rfl⟩ := List.mem_map.mp hp
  exact src.funcHash_ne _ _ _ hpe

theorem has_modifyFunc (fs : FileState) (g k : String) (f : FuncState → FuncState) :
    FileState.has { fs with
      functions := Function.update fs.functions g ((fs.functions g).map f) } k = fs.has k := by
  simp only [FileState.has,Function.update_apply]
  by_cases hk : k = g
  · rw [if_pos hk,hk,Option.isSome_map]
  · rw [if_neg hk]

theorem has_register (fs : FileState) (l : List (String × FuncState)) (sf : Prop) [Decidable sf]
    (hnone : ∀ g, fs.has g = false) (g : String) :
    FileState.has { fs with
      functions := if sf then assignFunctions fs.functions l
        else registerFunctions fs.functions l } g = true ↔ g ∈ l.map Prod.fst := by
  have hg := hnone g
  simp only [FileState.has] at hg ⊢
  by_cases h : sf
  · simp only [if_pos h,isSome_assignFunctions,hg,Bool.false_eq_true,false_or]
  · simp only [if_neg h,isSome_registerFunctions,hg,Bool.false_eq_true,false_or]

/-- A file without functions that has not passed satisfies what an ended run says. -/
theorem runInv_over {c : R1Run} {fs : FileState} (hphase : c.phase = .saving ∨ c.phase = .ended)
    (hhas : ∀ g, fs.has g = true → g ∈ c.accepted)
    (hpassed : fs.r1JState = .passed → ∀ g, g ∈ c.accepted → fs.has g = true) :
    RunInv src c fs := by
  unfold RunInv
  rcases hphase with hphase | hphase <;> rw [hphase] <;> exact ⟨hhas,hpassed⟩

variable {s s' : Sys} {i : ℕ} {c : R1Run}

theorem FileInv.markFailed (hi : FileInv src s) (hc : s.runs[i]? = some c) :
    FileInv src (s.markR1 c.fileHash .failed) := by
  have hm := moves_file hc (fun fs => { fs with r1JState := .failed }) s.db s.removed
  refine hi.moved_same hm ?_ rfl (List.Subset.refl _) fun _ => .inl
  intro fs hrun
  exact hrun.congr (fun _ => rfl) nofun

theorem FileInv.check (hi : FileInv src s) (hc : s.runs[i]? = some c)
    (h : r1Step cfg src s i c .check = some s') : FileInv src s' := by
  obtain ⟨hphase,h⟩ := Option.ite_none_right_eq_some.mp h
  have hstart : ∀ fs, RunInv src c fs →
      c.accepted = [] ∧ (∀ g, fs.has g = false) ∧ fs.r1JState ≠ .passed := by
    intro fs hrun
    simpa only [RunInv,hphase] using hrun
  split at h
  · cases h
    refine hi.moved_same (moves_setRun hc s.db rfl rfl) ?_ rfl (List.Subset.refl _)
      fun _ => .inl
    intro fs hrun
    refine runInv_over (.inr rfl) (fun g hg => ?_) fun hp => absurd hp (hstart fs hrun).2.2
    rw [id_eq,(hstart fs hrun).2.1 g] at hg
    cases hg
  · split at h
    · cases h
      refine hi.moved_same (moves_modifyFile hc _ rfl rfl) ?_ rfl (List.Subset.refl _)
        fun _ => .inl
      intro fs hrun
      refine runInv_over (.inl rfl) (fun g hg => ?_) fun _ g hg => ?_
      · have hno : fs.has g = true := hg
        rw [(hstart fs hrun).2.1 g] at hno
        cases hno
      · have hno : g ∈ c.accepted := hg
        rw [(hstart fs hrun).1] at hno
        cases hno
    · cases h
      refine hi.moved_same (moves_setRun hc s.db rfl rfl) ?_ rfl (List.Subset.refl _)
        fun _ => .inl
      exact hstart

theorem FileInv.write (hi : FileInv src s) (hc : s.runs[i]? = some c)
    (hown : Own cfg src ⟨s,.r1 i .write,s'⟩) (h : r1Step cfg src s i c .write = some s') :
    FileInv src s' := by
  obtain ⟨⟨hphase,-⟩,rfl⟩ := guarded h
  refine hi.moved (moves_setRun hc _ rfl rfl) ?_ ?_ (List.Subset.refl _) (staticHashes_ne c.path)
    (hown.distinct i c .write rfl hc) ?_
  · intro fs hrun
    simp only [RunInv,hphase] at hrun
    by_cases hmode : cfg.mode = .normal
    · simp only [RunInv,if_pos hmode]
      exact ⟨List.Subset.refl _,hrun.2⟩
    · simp only [RunInv,if_neg hmode]
      exact ⟨trivial,hrun.2⟩
  · intro g hg
    obtain ⟨fs,-,hrun⟩ := hi.run c (List.mem_of_getElem? hc)
    simp only [RunInv,hphase] at hrun
    rw [hrun.1] at hg
    cases hg
  · intro p hp
    rcases mem_origins_writeStatic src hp with hp | ⟨hfile,hg,hlines⟩
    · exact .inl hp
    · exact .inr ⟨hfile,.inl hg,hlines⟩

theorem FileInv.gap {picked name sig : String} {a b : ℤ} (hi : FileInv src s)
    (hc : s.runs[i]? = some c) (hown : Own cfg src ⟨s,.r1 i (.gap picked name sig a b),s'⟩)
    (h : r1Step cfg src s i c (.gap picked name sig a b) = some s') : FileInv src s' := by
  obtain ⟨⟨hphase,-,hname,hpos,-⟩,rfl⟩ := guarded h
  have hpicked := hown.gap i c picked name sig a b rfl hc
  have hmem := List.mem_of_getElem? hc
  have hsub : c.accepted ⊆ c.accepted ++ [src.funcHash c.path name a] :=
    List.subset_append_left _ _
  refine hi.moved (moves_setRun hc _ rfl rfl) ?_ hsub (List.Subset.refl _) ?_ ?_ ?_
  · intro fs hrun
    simp only [RunInv,hphase] at hrun ⊢
    exact ⟨List.Subset.trans hrun.1 hsub,hrun.2⟩
  · intro hg
    rcases List.mem_append.mp hg with hg | hg
    · exact hi.named c hmem hg
    · exact src.funcHash_ne _ _ _ (List.mem_singleton.mp hg).symm
  · intro d hd hne g hg
    rcases List.mem_append.mp hg with hg | hg
    · exact hi.disjoint c hmem d hd hne.symm g hg
    · exact hown.distinct i c _ rfl hc d hd hne g hg
  · intro p hp
    rcases mem_origins_applyCorrection src hp with hp | ⟨hlines,⟨hfile,hg⟩ | ⟨_,_,_,_,hcorr,-⟩⟩
    · exact .inl hp
    · refine .inr ⟨hfile.trans hpicked,.inl (List.mem_append_right _ ?_),hlines⟩
      rw [addedHash] at hg
      split at hg
      · cases hg
      · exact hg
    · cases hcorr

/-- What is listed is what the run has accepted. -/
theorem FileInv.list (hi : FileInv src s) (hc : s.runs[i]? = some c)
    (hown : Own cfg src ⟨s,.r1 i .list,s'⟩) (h : r1Step cfg src s i c .list = some s') :
    FileInv src s' := by
  obtain ⟨hphase,rfl⟩ := guarded h
  have hmem := List.mem_of_getElem? hc
  cases hmode : cfg.mode <;> simp only [hmode,readsFrom,reduceCtorEq,if_false,if_true] at hphase ⊢
  case normal =>
    refine hi.moved_same (moves_setRun hc s.db rfl rfl) ?_ rfl (List.Subset.refl _) fun _ => .inl
    intro fs hrun
    simp only [RunInv,hphase,funcsToRegister,hmode] at hrun ⊢
    exact ⟨hrun.2.1,hrun.2.2,fun g =>
      mem_currentFuncs (hi.named c hmem) (hown.list i c rfl hc hmode) g hrun.1⟩
  case fast =>
    refine hi.moved (moves_setRun hc s.db rfl rfl) ?_ ?_ (List.Subset.refl _)
      (staticHashes_ne c.path) ?_ fun _ => .inl
    · intro fs hrun
      simp only [RunInv,hphase,funcsToRegister,hmode,fst_static] at hrun ⊢
      exact ⟨hrun.2.1,hrun.2.2,fun _ => trivial⟩
    · intro g hg
      obtain ⟨fs,-,hrun⟩ := hi.run c hmem
      simp only [RunInv,hphase] at hrun
      rw [hrun.1] at hg
      cases hg
    · have hnew := hown.distinct i c .list rfl hc
      simp only [newHashes,if_pos hmode] at hnew
      exact hnew
  case superFast =>
    refine hi.moved_same (moves_setRun hc s.db rfl rfl) ?_ rfl (List.Subset.refl _) fun _ => .inl
    intro fs hrun
    simp only [RunInv,hphase,funcsToRegister,hmode,fst_static] at hrun ⊢
    exact ⟨hrun.2.1,hrun.2.2,fun g => by rw [hrun.1]⟩

theorem FileInv.register (hi : FileInv src s) (hc : s.runs[i]? = some c)
    (h : r1Step cfg src s i c .register = some s') : FileInv src s' := by
  simp only [r1Step] at h
  split at h
  · rename_i funcs hphase
    cases h
    refine hi.moved_same (moves_modifyFile hc _ rfl rfl) ?_ rfl (List.Subset.refl _)
      fun _ => .inl
    intro fs hrun
    simp only [RunInv,hphase] at hrun ⊢
    refine ⟨fun g => ?_,hrun.2.1⟩
    rw [has_register fs funcs _ hrun.1]
    exact hrun.2.2 g
  · cases h

theorem FileInv.pass (hi : FileInv src s) (hc : s.runs[i]? = some c)
    (h : r1Step cfg src s i c .pass = some s') : FileInv src s' := by
  obtain ⟨hphase,rfl⟩ := guarded h
  refine hi.moved_same (moves_modifyFile hc _ rfl rfl) ?_ rfl (List.Subset.refl _)
    fun _ => .inl
  intro fs hrun
  simp only [RunInv,hphase] at hrun
  exact runInv_over (.inl rfl) (fun g => (hrun.1 g).mp) fun _ g => (hrun.1 g).mpr

theorem FileInv.saved (hi : FileInv src s) (hc : s.runs[i]? = some c)
    (h : r1Step cfg src s i c .saved = some s') : FileInv src s' := by
  obtain ⟨hphase,rfl⟩ := guarded h
  refine hi.moved_same (moves_setRun hc s.db rfl rfl) ?_ rfl (List.Subset.refl _)
    fun _ => .inl
  intro fs hrun
  simp only [RunInv,hphase] at hrun
  exact runInv_over (.inr rfl) hrun.1 hrun.2

theorem FileInv.fail (hi : FileInv src s) (hc : s.runs[i]? = some c)
    (h : r1Step cfg src s i c .fail = some s') : FileInv src s' := by
  obtain ⟨-,rfl⟩ := guarded h
  refine hi.moved_same (moves_modifyFile hc _ rfl rfl) ?_ rfl (List.Subset.refl _)
    fun _ => .inl
  intro fs hrun
  exact runInv_over (.inr rfl) (fun g => hrun.accepted) nofun

/-- R2 adds functions to the file of its run, and otherwise changes entries and rows one for
one. -/
theorem FileInv.r2Step {a : R2Act} (hi : FileInv src s) (hc : s.runs[i]? = some c)
    (hown : Own cfg src ⟨s,.r2 i a,s'⟩) (h : r2Step src s i c a = some s') : FileInv src s' := by
  cases a with
  | correct picked corr =>
    obtain ⟨-,rfl⟩ := guarded h
    refine hi.moved_same (moves_setRun hc _ rfl rfl) (fun _ hrun => hrun) rfl
      (List.subset_append_left _ _) ?_
    intro p hp
    rcases mem_origins_applyCorrection src hp with hp | ⟨hlines,⟨hfile,hg⟩ | hupd⟩
    · exact .inl hp
    · have hpicked := hown.correct i c picked corr rfl hc (List.ne_nil_of_mem hg)
      exact .inr ⟨hfile.trans hpicked,.inr (List.mem_append_right _ hg),hlines⟩
    · obtain ⟨name,sig,a,b,rfl,r,hr,hrh,hfile⟩ := hupd
      have hown := hown.update i c picked p.1 name sig a b rfl hc r hr hrh
      obtain ⟨d,hd,hdr,hacc,-⟩ := hi.rows _ (List.mem_map_of_mem hr)
      have hdc := hi.unique hd (List.mem_of_getElem? hc) (hdr.trans hown)
      subst hdc
      rw [← hrh]
      exact .inr ⟨hfile.trans hown,hacc.imp_right (List.mem_append_left _),hlines⟩
  | sync g =>
    obtain ⟨-,h⟩ := guarded h
    split at h
    · rwa [← h]
    · rename_i r hr
      subst h
      refine hi.moved_same (moves_file hc _ s.db s.removed) ?_ rfl (List.Subset.refl _)
        fun _ => .inl
      exact fun fs hrun => hrun.congr (has_modifyFunc fs g · (syncFrom r)) id
  | delete g =>
    obtain ⟨-,rfl⟩ := guarded h
    exact hi.moved_same (moves_db hc _ _) (fun _ hrun => hrun) rfl (List.Subset.refl _)
      fun p hp => .inl (mem_origins_deleteFunction hp)

theorem FileInv.congr_db {db : FuncDb} (hi : FileInv src s) (hrows : origins db = origins s.db) :
    FileInv src { s with db := db } :=
  { hi with
    rows := by
      rw [hrows]
      exact hi.rows }

theorem FileInv.step {a : Act} (hi : FileInv src s) (hown : Own cfg src ⟨s,a,s'⟩)
    (h : step cfg src py s a = some s') : FileInv src s' := by
  cases a with
  | r1 i a =>
    obtain ⟨c,hc,h⟩ := Option.bind_eq_some_iff.mp h
    cases a with
    | check => exact hi.check hc h
    | write => exact hi.write hc hown h
    | gap picked name sig a b => exact hi.gap hc hown h
    | list => exact hi.list hc hown h
    | register => exact hi.register hc h
    | pass => exact hi.pass hc h
    | saved => exact hi.saved hc h
    | fail => exact hi.fail hc h
  | timeout i =>
    obtain ⟨c,hc,h⟩ := Option.bind_eq_some_iff.mp h
    obtain ⟨-,rfl⟩ := guarded h
    exact hi.markFailed hc
  | r2 i a =>
    obtain ⟨c,hc,h⟩ := Option.bind_eq_some_iff.mp h
    exact hi.r2Step hc hown h
  | decide i g d =>
    obtain ⟨c,hc,h⟩ := Option.bind_eq_some_iff.mp h
    obtain ⟨-,rfl⟩ := guarded h
    refine hi.moved_same (moves_file hc _ _ s.removed) ?_ rfl (List.Subset.refl _) ?_
    · exact fun fs hrun => hrun.congr (has_modifyFunc fs g · (decideState · d)) id
    · intro p hp
      rw [← origins_decideDb s.db g d]
      exact .inl hp
  | column g a =>
    cases h
    exact hi.congr_db (origins_columnDb py s.db g a)

/-! ## What a run gives -/

/-- A file that has passed has registered exactly what was extracted for it; every row names a
file that the function was extracted for and has lines of that file; and no function is
registered in two files. -/
structure Filed (src : Sources) (u : Sys) : Prop where
  registered : ∀ c ∈ u.runs, u.passed c.fileHash = true →
    ∀ g, (u.func c.fileHash g).isSome = true ↔ g ∈ c.accepted
  rows : ∀ r ∈ u.db.functions.rows, ∃ c ∈ u.runs, c.fileHash = r.fileHash ∧
    (r.funcHash ∈ c.accepted ∨ r.funcHash ∈ c.added) ∧ LinesOf src c.path r.body
  once : ∀ h h' g, (u.func h g).isSome = true → (u.func h' g).isSome = true → h = h'

theorem FileInv.filed (hi : FileInv src s) : Filed src s where
  registered c hc hpassed g := by
    obtain ⟨fs,hfs,hrun⟩ := hi.run c hc
    have hr1 : fs.r1JState = .passed := by simpa [Sys.passed,hfs] using hpassed
    rw [Sys.func,hfs]
    exact hrun.passed hr1 g
  rows r hr := hi.rows (r.funcHash,r.fileHash,r.body) (List.mem_map.mpr ⟨r,hr,rfl⟩)
  once h h' g hg hg' := by
    have hrun : ∀ h, (s.func h g).isSome = true →
        ∃ c ∈ s.runs, c.fileHash = h ∧ g ∈ c.accepted := by
      intro h hg
      cases hs : s.files h with
      | none =>
        rw [Sys.func,hs] at hg
        cases hg
      | some fs =>
        obtain ⟨c,hc,rfl⟩ := hi.known h fs hs
        obtain ⟨fs',hfs',hrun⟩ := hi.run c hc
        rw [Sys.func,hfs'] at hg
        exact ⟨c,hc,rfl,hrun.accepted hg⟩
    obtain ⟨c,hc,rfl,hgc⟩ := hrun h hg
    obtain ⟨d,hd,rfl,hgd⟩ := hrun h' hg'
    by_contra hne
    exact hi.disjoint c hc d hd hne g hgc hgd

end Steps

/-- Where every read of the shared tables sees the file's own rows, the functions of a file stay
with it. -/
theorem functions_stay_with_file (cfg : Config) (src : Sources) (py : PyRuntime)
    (files : List (String × String)) (hfiles : (files.map Prod.fst).Nodup)
    {tr : List (Event Sys Act)} {u : Sys} (hr : Run (step cfg src py) (init files) tr u)
    (hown : Along (fun _ e => Own cfg src e) tr) : Filed src u := by
  have hinv : FileInv src u := by
    apply hr.invariant (J := fun _ s => FileInv src s) hown (fileInv_init hfiles)
    intro tr t a v hi hown hs
    exact hi.step hown hs
  exact hinv.filed

/-! ## Two files -/

/-- The step reads and writes what belongs to the file, R2-W changes nothing, and no function of
the file is another's. -/
def ownRows (cfg : Config) (src : Sources) (e : Event Sys Act) : Bool :=
  match e.act with
  | .r1 i a => e.pre.runs[i]?.all fun c =>
    (e.pre.runs.all fun d => decide (d.fileHash = c.fileHash) ||
      (newHashes cfg src c a).all (fun g => decide (g ∉ d.accepted))) &&
    match a with
    | .list => decide (cfg.mode ≠ .normal) ||
      e.pre.db.functions.keys.all (fun g => decide (g ∈ c.accepted)) &&
        c.accepted.all (fun g => decide (g ∈ e.pre.db.functions.keys))
    | .gap picked _ _ _ _ => decide (picked = c.fileHash)
    | _ => true
  | .r2 _ (.correct _ _) => false
  | _ => true

theorem own_of_ownRows {cfg : Config} {src : Sources} {e : Event Sys Act}
    (h : ownRows cfg src e = true) : Own cfg src e where
  list i c ha hc hmode := by
    simp only [ownRows,ha,hc,Option.all_some,Bool.and_eq_true,Bool.or_eq_true,List.all_eq_true,
      decide_eq_true_eq] at h
    rcases h.2 with hne | hall
    · exact absurd hmode hne
    · exact .inl fun g => ⟨hall.1 g,hall.2 g⟩
  gap i c picked name sig a b ha hc := by
    simp only [ownRows,ha,hc,Option.all_some,Bool.and_eq_true,decide_eq_true_eq] at h
    exact h.2
  correct i c picked corr ha := by
    simp only [ownRows,ha,Bool.false_eq_true] at h
  update i c picked g name sig a b ha := by
    simp only [ownRows,ha,Bool.false_eq_true] at h
  distinct i c a ha hc d hd hne g hg := by
    simp only [ownRows,ha,hc,Option.all_some,Bool.and_eq_true,List.all_eq_true,Bool.or_eq_true,
      decide_eq_true_eq] at h
    rcases h.1 d hd with heq | hall
    · exact absurd heq hne
    · exact hall g hg

/-- `/src/a.c` and `/src/b.c` with one function each, and headers without functions. -/
def smallSources : Sources where
  extract path :=
    if path = "/src/a.c" then [⟨"fa","void fa(void)",1,2,"void fa(void)\n\x7b \x7d"⟩]
    else if path = "/src/b.c" then [⟨"fb","void fb(void)",1,2,"void fb(void)\n\x7b \x7d"⟩]
    else []
  funcHash path _ line :=
    if path = "/src/a.c" then if line = 1 then "f8083e42be25" else "b34683b13e5d"
    else if line = 1 then "ccb79d83d34d" else "b596c3c44a4a"
  relPath path := path
  readable _ := true
  body path _ _ :=
    if path = "/src/a.c" then "int ga(int x) \x7b \x7d" else "int gb(int x) \x7b \x7d"
  findEnd _ line := line
  funcHash_ne := by
    intro path name line
    split <;> split <;> decide

/-- The header is listed before the source file is written; a correction adds a function to the
source file. -/
def headerFirst : List Act :=
  [.r1 1 .check,.r1 1 .write,.r1 0 .check,.r1 1 .list,.r1 0 .write,
    .r1 0 (.gap "58a60fffd26e" "gb" "int gb(int x)" 4 4),.r1 0 .list,.r1 1 .register,
    .r1 0 .register,.r1 1 .pass,.r1 0 .pass]

def sourceAndHeader : List (String × String) :=
  [("58a60fffd26e","/src/b.c"),("6aefa0c02c74","/src/b.h")]

theorem header_keeps_apart :
    ∃ tr u, Run (step ⟨.normal,-1⟩ smallSources plainRuntime) (init sourceAndHeader) tr u ∧
      (u.func "58a60fffd26e" "b596c3c44a4a").isSome = true ∧ Filed smallSources u := by
  obtain ⟨tr,u,hr,hp⟩ := exists_run_of_replay (step ⟨.normal,-1⟩ smallSources plainRuntime)
    (init sourceAndHeader) headerFirst
    (p := fun tr (u : Sys) => tr.all (ownRows ⟨.normal,-1⟩ smallSources) &&
      (u.func "58a60fffd26e" "b596c3c44a4a").isSome) (by decide +kernel)
  simp only [Bool.and_eq_true,List.all_eq_true] at hp
  exact ⟨tr,u,hr,hp.2,functions_stay_with_file ⟨.normal,-1⟩ smallSources plainRuntime
    sourceAndHeader (by decide) hr (along_forall.mpr fun e he => own_of_ownRows (hp.1 e he))⟩

/-- Both files are written before one is listed, and the correction for the second is filed under
the first row of `file_meta`. -/
def bothWritten : List Act :=
  [.r1 0 .check,.r1 1 .check,.r1 0 .write,.r1 1 .write,
    .r1 1 (.gap "58a60fffd26e" "ga" "int ga(int x)" 3 3),.r1 0 .list,.r1 1 .list,.r1 0 .register,
    .r1 1 .register,.r1 0 .pass,.r1 1 .pass,.r1 0 .saved,.r1 1 .saved]

def twoSources : List (String × String) :=
  [("58a60fffd26e","/src/b.c"),("842d15b67453","/src/a.c")]

/-- Each file has registered the functions of both, and the function that was added to `/src/a.c`
is filed under `/src/b.c`. -/
theorem functions_in_both_files :
    ∃ tr u, Run (step ⟨.normal,-1⟩ smallSources plainRuntime) (init twoSources) tr u ∧
      (∀ c ∈ u.runs, c.phase = .ended ∧ u.passed c.fileHash = true) ∧
      (∃ c ∈ u.runs, ∃ g, (u.func c.fileHash g).isSome = true ∧ g ∉ c.accepted) ∧
      (∃ r ∈ u.db.functions.rows, ∀ c ∈ u.runs, c.fileHash = r.fileHash →
        r.funcHash ∉ c.accepted ∧ r.funcHash ∉ c.added) ∧
      (∃ g, (u.func "58a60fffd26e" g).isSome = true ∧ (u.func "842d15b67453" g).isSome = true) ∧
      ¬Filed smallSources u := by
  obtain ⟨tr,u,hr,hp⟩ := exists_run_of_replay (step ⟨.normal,-1⟩ smallSources plainRuntime)
    (init twoSources) bothWritten
    (p := fun _ (u : Sys) =>
      (u.runs.all fun c => decide (c.phase = .ended) && u.passed c.fileHash) &&
      ((u.runs.any fun c => (u.func c.fileHash "f8083e42be25").isSome &&
        decide ("f8083e42be25" ∉ c.accepted)) &&
      ((u.db.functions.rows.any fun r => u.runs.all fun c => decide (c.fileHash ≠ r.fileHash) ||
        decide (r.funcHash ∉ c.accepted) && decide (r.funcHash ∉ c.added)) &&
      ((u.func "58a60fffd26e" "f8083e42be25").isSome &&
        (u.func "842d15b67453" "f8083e42be25").isSome)))) (by decide +kernel)
  simp only [Bool.and_eq_true,Bool.or_eq_true,List.all_eq_true,List.any_eq_true,
    decide_eq_true_eq] at hp
  obtain ⟨hended,⟨c,hc,hg⟩,⟨r,hr',hrow⟩,hboth⟩ := hp
  refine ⟨tr,u,hr,hended,⟨c,hc,_,hg⟩,
    ⟨r,hr',fun c hc heq => (hrow c hc).resolve_left fun hne => hne heq⟩,⟨_,hboth⟩,fun hfiled => ?_⟩
  exact absurd (hfiled.once _ _ _ hboth.1 hboth.2) (by decide)

end R1Registration
end EntryAnalyse
