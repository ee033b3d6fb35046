import EntryAnalyse.ModuleLoader

/-! `prepare_workspace` links the files of a module into a workspace: a file below the target
directory under its path there, any other one under its name alone. -/
namespace EntryAnalyse
namespace WorkspacePreparation

open ModuleLoader

/-! ## Places -/

/-- The path in a directory, by the names that it goes through. -/
abbrev Place := List (List Char)

def segments (path : String) : Place := (path.toList.splitOn '/').filter (· ≠ [])

def commonLength : Place → Place → ℕ
  | a :: as,b :: bs => if a = b then commonLength as bs + 1 else 0
  | _,_ => 0

/-- `os.path.relpath` of a path that is not empty. -/
def relpath (cwd path start : String) : String :=
  let startList := segments (abspath cwd start)
  let pathList := segments (abspath cwd path)
  let i := commonLength startList pathList
  let relList := List.replicate (startList.length - i) ['.','.'] ++ pathList.drop i
  if relList = [] then "." else String.ofList (['/'].intercalate relList)

/-- `rel` of `prepare_workspace`; for an empty path `relpath` raises `ValueError`. -/
def relOf (cwd src targetDir : String) : String :=
  let rel := if src = "" then basename src else relpath cwd src targetDir
  if startsWith rel ".." then basename src else rel

/-- Where `workspace / rel` is. -/
def placeOf (rel : String) : Place := (segments rel).filter (· ≠ ['.'])

/-- A directory on the way to a place. -/
def Above (q p : Place) : Prop := q ≠ [] ∧ q <+: p ∧ q ≠ p

instance (q p : Place) : Decidable (Above q p) := inferInstanceAs (Decidable (_ ∧ _ ∧ _))

/-! ## The workspace -/

/-- What a path resolves to. Links are followed, so a link to a file is that file. -/
inductive Entry (I : Type)
  | file (id : I)
  | dir
  deriving DecidableEq

abbrev Workspace (I : Type) := Place → Option (Entry I)

variable {I : Type}

/-- What is found at a place; the workspace itself is a directory. -/
def find (ws : Workspace I) (p : Place) : Option (Entry I) := if p = [] then some .dir else ws p

def isFileAt (ws : Workspace I) (q : Place) : Bool :=
  match ws q with
  | some (.file _) => true
  | _ => false

/-- `dst.parent.mkdir(parents=True, exist_ok=True)`, which raises where a file is in the way. -/
def mkdirParents (ws : Workspace I) (p : Place) : Option (Workspace I) :=
  if p.inits.any fun q => decide (Above q p) && isFileAt ws q then none
  else some fun q => if Above q p then some .dir else ws q

def put (ws : Workspace I) (p : Place) (e : Entry I) : Workspace I :=
  fun q => if q = p then some e else ws q

/-- The files that a path resolves to. -/
structure SourceTree (I : Type) extends FileTree where
  ident : String → I

def SourceTree.object (t : SourceTree I) (src : String) : Entry I :=
  if t.isFile src then .file (t.ident src) else .dir

section Prepare
variable (t : SourceTree I) (targetDir : String)

def place (src : String) : Place := placeOf (relOf t.cwd src targetDir)

/-- The loop body, for a path that was found. Whether what is at `dst` is the same file makes no
difference: `rel` is put on the list. -/
def step (s : Workspace I × List String) (src : String) : Option (Workspace I × List String) :=
  (mkdirParents s.1 (place t targetDir src)).map fun ws =>
    (if find ws (place t targetDir src) = none then put ws (place t targetDir src) (t.object src)
      else ws,s.2 ++ [relOf t.cwd src targetDir])

/-- The paths that are found for the entries of the list. -/
def sources (files : List String) : List String :=
  files.filterMap fun filePath => resolveFilePath t.toFileTree filePath targetDir

/-- `prepare_workspace`: the workspace that it leaves and the list that it returns. -/
def prepareWorkspace (files : List String) (ws : Workspace I) :
    Option (Workspace I × List String) :=
  (sources t targetDir files).foldlM (step t targetDir) (ws,[])

/-- The path of the workspace resolves to the file that was found. -/
def Resolves (ws : Workspace I) (src rel : String) : Prop :=
  t.isFile src = true ∧ find ws (placeOf rel) = some (.file (t.ident src))

/-- The files are kept apart: each one has a path of its own that resolves to it, and what is
reported for a path that was found resolves to that. -/
structure KeptApart (files : List String) (ws : Workspace I) (linked : List String) : Prop where
  own : ∀ src ∈ sources t targetDir files, t.isFile src = true →
    ∃ rel ∈ linked, Resolves t ws src rel
  reported : List.Forall₂ (Resolves t ws) (sources t targetDir files) linked
  distinct : ∀ src ∈ sources t targetDir files, ∀ src' ∈ sources t targetDir files,
    place t targetDir src = place t targetDir src' → t.ident src = t.ident src'

/-- The places of the files fit together and into the workspace as it is. -/
structure PlacesFit (files : List String) (ws : Workspace I) : Prop where
  isFile : ∀ src ∈ sources t targetDir files, t.isFile src = true
  same : ∀ src ∈ sources t targetDir files, ∀ src' ∈ sources t targetDir files,
    place t targetDir src = place t targetDir src' → t.ident src = t.ident src'
  free : ∀ src ∈ sources t targetDir files, find ws (place t targetDir src) = none ∨
    find ws (place t targetDir src) = some (.file (t.ident src))
  way : ∀ src ∈ sources t targetDir files, ∀ q, Above q (place t targetDir src) →
    isFileAt ws q = false ∧ ∀ src' ∈ sources t targetDir files, place t targetDir src' ≠ q

end Prepare

/-! ## One file -/

section Step
variable {t : SourceTree I} {targetDir src : String} {ws ws' : Workspace I} {l l' : List String}
  {p q : Place} {e : Entry I}

theorem isFileAt_iff : isFileAt ws q = true ↔ ∃ id, ws q = some (.file id) := by
  unfold isFileAt
  cases ws q with
  | none => simp
  | some e => cases e <;> simp

theorem find_of_ne (h : p ≠ []) : find ws p = ws p := if_neg h

theorem not_above_self : ¬Above p p := fun h => h.2.2 rfl

theorem mkdirParents_some : mkdirParents ws p = some ws' ↔
    (∀ q, Above q p → isFileAt ws q = false) ∧ ws' = fun q => if Above q p then some .dir else ws q := by
  unfold mkdirParents
  by_cases h : (p.inits.any fun q => decide (Above q p) && isFileAt ws q) = true
  · rw [if_pos h]
    refine iff_of_false (by simp) fun hno => ?_
    obtain ⟨q,-,hq⟩ := List.any_eq_true.mp h
    obtain ⟨habove,hfile⟩ := Bool.and_eq_true_iff.mp hq
    rw [hno.1 q (of_decide_eq_true habove)] at hfile
    cases hfile
  · rw [if_neg h,Option.some_inj,eq_comm]
    refine ⟨fun heq => ⟨fun q hq => ?_,heq⟩,And.right⟩
    by_contra hfile
    refine h (List.any_eq_true.mpr ⟨q,(List.mem_inits q p).mpr hq.2.1,?_⟩)
    exact Bool.and_eq_true_iff.mpr ⟨decide_eq_true hq,Bool.eq_true_of_not_eq_false hfile⟩

/-- The workspace behind one file. -/
def after (t : SourceTree I) (targetDir : String) (ws : Workspace I) (src : String) : Workspace I :=
  fun q => if Above q (place t targetDir src) then some .dir
    else if q = place t targetDir src ∧ find ws (place t targetDir src) = none then
      some (t.object src)
    else ws q

theorem step_some : step t targetDir (ws,l) src = some (ws',l') ↔
    (∀ q, Above q (place t targetDir src) → isFileAt ws q = false) ∧
      ws' = after t targetDir ws src ∧ l' = l ++ [relOf t.cwd src targetDir] := by
  have hfind : ∀ p : Place, find (fun q => if Above q p then some .dir else ws q) p = find ws p := by
    intro p
    change (if p = [] then _ else if Above p p then _ else ws p) = _
    rw [if_neg not_above_self]
    rfl
  have hafter : (if find ws (place t targetDir src) = none then
      put (fun q => if Above q (place t targetDir src) then some .dir else ws q)
        (place t targetDir src) (t.object src)
      else fun q => if Above q (place t targetDir src) then some .dir else ws q) =
        after t targetDir ws src := by
    funext q
    by_cases hq : Above q (place t targetDir src)
    · have hne : q ≠ place t targetDir src := fun h => hq.2.2 h
      by_cases hnone : find ws (place t targetDir src) = none
      · simp [after,put,hnone,hq,hne]
      · simp [after,hnone,hq]
    · by_cases hnone : find ws (place t targetDir src) = none
      · by_cases hqp : q = place t targetDir src
        · subst hqp
          simp [after,put,hnone,hq]
        · simp [after,put,hnone,hq,hqp]
      · simp [after,hnone,hq]
  unfold step
  rw [Option.map_eq_some_iff]
  constructor
  · rintro ⟨ws₁,hmk,heq⟩
    obtain ⟨hfree,rfl⟩ := mkdirParents_some.mp hmk
    obtain ⟨rfl,rfl⟩ := Prod.mk.inj heq
    refine ⟨hfree,?_,rfl⟩
    rw [← hafter,hfind]
  · rintro ⟨hfree,rfl,rfl⟩
    refine ⟨_,mkdirParents_some.mpr ⟨hfree,rfl⟩,?_⟩
    rw [← hafter,hfind]

/-- What stands in the workspace stays. -/
def Grows (ws ws' : Workspace I) : Prop := ∀ q e, ws q = some e → ws' q = some e

theorem Grows.find (h : Grows ws ws') (hq : find ws q = some e) : find ws' q = some e := by
  by_cases hnil : q = []
  · rw [WorkspacePreparation.find,if_pos hnil] at hq ⊢
    exact hq
  · rw [find_of_ne hnil] at hq ⊢
    exact h q e hq

theorem step_grows (h : step t targetDir (ws,l) src = some (ws',l')) : Grows ws ws' := by
  obtain ⟨hfree,rfl,-⟩ := step_some.mp h
  intro q e he
  unfold after
  by_cases hq : Above q (place t targetDir src)
  · rw [if_pos hq]
    cases e with
    | dir => rfl
    | file id =>
      have hfile := isFileAt_iff.mpr ⟨id,he⟩
      rw [hfree q hq] at hfile
      cases hfile
  · rw [if_neg hq,if_neg]
    · exact he
    · rintro ⟨rfl,hnone⟩
      by_cases hnil : place t targetDir src = []
      · rw [find,if_pos hnil] at hnone
        cases hnone
      · rw [find_of_ne hnil,he] at hnone
        cases hnone

theorem step_dirs (h : step t targetDir (ws,l) src = some (ws',l'))
    (hq : Above q (place t targetDir src)) : ws' q = some .dir := by
  obtain ⟨-,rfl,-⟩ := step_some.mp h
  exact if_pos hq

end Step

/-! ## A run -/

section Run
variable {t : SourceTree I} {targetDir src : String} {ws ws' ws₀ : Workspace I} {l l' : List String}
  {srcs files seen : List String} {q : Place}

theorem run_grows (h : srcs.foldlM (step t targetDir) (ws,l) = some (ws',l')) : Grows ws ws' := by
  induction srcs generalizing ws l with
  | nil =>
    cases h
    exact fun q e he => he
  | cons src srcs ih =>
    rw [List.foldlM_cons] at h
    obtain ⟨⟨ws₁,l₁⟩,hstep,hrun⟩ := Option.bind_eq_some_iff.mp h
    exact fun q e he => ih hrun q e (step_grows hstep q e he)

theorem run_linked (h : srcs.foldlM (step t targetDir) (ws,l) = some (ws',l')) :
    l' = l ++ srcs.map fun src => relOf t.cwd src targetDir := by
  induction srcs generalizing ws l with
  | nil =>
    cases h
    exact (List.append_nil _).symm
  | cons src srcs ih =>
    rw [List.foldlM_cons] at h
    obtain ⟨⟨ws₁,l₁⟩,hstep,hrun⟩ := Option.bind_eq_some_iff.mp h
    obtain ⟨-,-,rfl⟩ := step_some.mp hstep
    rw [ih hrun,List.map_cons,List.append_assoc,List.singleton_append]

/-- The directories on the way to each file are there in the end. -/
theorem run_dirs (h : srcs.foldlM (step t targetDir) (ws,l) = some (ws',l')) (hmem : src ∈ srcs)
    (hq : Above q (place t targetDir src)) : ws' q = some .dir := by
  induction srcs generalizing ws l with
  | nil => cases hmem
  | cons first srcs ih =>
    rw [List.foldlM_cons] at h
    obtain ⟨⟨ws₁,l₁⟩,hstep,hrun⟩ := Option.bind_eq_some_iff.mp h
    rcases List.mem_cons.mp hmem with rfl | hmem
    · exact run_grows hrun q _ (step_dirs hstep hq)
    · exact ih hrun hmem

/-- What is in the workspace was there before, or belongs to one of the files linked so far. -/
structure Holds (t : SourceTree I) (targetDir : String) (ws₀ ws : Workspace I)
    (seen : List String) : Prop where
  linked : ∀ src ∈ seen, find ws (place t targetDir src) = some (.file (t.ident src))
  file : ∀ q id, ws q = some (.file id) →
    ws₀ q = some (.file id) ∨ ∃ src ∈ seen, place t targetDir src = q
  dir : ∀ q, ws q = some .dir → ws₀ q = some .dir ∨ ∃ src ∈ seen, Above q (place t targetDir src)

theorem PlacesFit.ne_nil (fit : PlacesFit t targetDir files ws)
    (hmem : src ∈ sources t targetDir files) : place t targetDir src ≠ [] := by
  intro hnil
  rcases fit.free src hmem with h | h
  · rw [find,if_pos hnil] at h
    cases h
  · rw [find,if_pos hnil] at h
    cases h

/-- Where the places fit, the next file gets its own one. -/
theorem holds_step (fit : PlacesFit t targetDir files ws₀) (hsrc : src ∈ sources t targetDir files)
    (hseen : ∀ s ∈ seen, s ∈ sources t targetDir files) (h : Holds t targetDir ws₀ ws seen) :
    step t targetDir (ws,l) src =
        some (after t targetDir ws src,l ++ [relOf t.cwd src targetDir]) ∧
      Holds t targetDir ws₀ (after t targetDir ws src) (src :: seen) := by
  have hne := fit.ne_nil hsrc
  have hway : ∀ q, Above q (place t targetDir src) → isFileAt ws q = false := by
    intro q hq
    by_contra hfile
    obtain ⟨id,hid⟩ := isFileAt_iff.mp (Bool.eq_true_of_not_eq_false hfile)
    rcases h.file q id hid with hold | ⟨s,hs,hplace⟩
    · have hnone := (fit.way src hsrc q hq).1
      rw [isFileAt_iff.mpr ⟨id,hold⟩] at hnone
      cases hnone
    · exact (fit.way src hsrc q hq).2 s (hseen s hs) hplace
  -- the files linked before stand on no way
  have hapart : ∀ s ∈ seen, ¬Above (place t targetDir s) (place t targetDir src) := fun s hs hq =>
    (fit.way src hsrc _ hq).2 s (hseen s hs) rfl
  have hown : find (after t targetDir ws src) (place t targetDir src) =
      some (.file (t.ident src)) := by
    rw [find_of_ne hne]
    unfold after
    rw [if_neg not_above_self]
    cases hfind : find ws (place t targetDir src) with
    | none =>
      rw [if_pos ⟨rfl,rfl⟩,SourceTree.object,if_pos (fit.isFile src hsrc)]
    | some e =>
      rw [if_neg (fun hboth => by cases hboth.2)]
      rw [find_of_ne hne] at hfind
      cases e with
      | file id =>
        rcases h.file _ id hfind with hold | ⟨s,hs,hplace⟩
        · rcases fit.free src hsrc with hfree | hfree
          · rw [find_of_ne hne,hold] at hfree
            cases hfree
          · rw [find_of_ne hne,hold] at hfree
            rw [hfind,hfree]
        · have hlinked := h.linked s hs
          rw [hplace,find_of_ne hne] at hlinked
          rw [hlinked,fit.same s (hseen s hs) src hsrc hplace]
      | dir =>
        exfalso
        rcases h.dir _ hfind with hold | ⟨s,hs,habove⟩
        · rcases fit.free src hsrc with hfree | hfree
          · rw [find_of_ne hne,hold] at hfree
            cases hfree
          · rw [find_of_ne hne,hold] at hfree
            cases hfree
        · exact (fit.way s (hseen s hs) _ habove).2 src hsrc rfl
  refine ⟨step_some.mpr ⟨hway,rfl,rfl⟩,?_,?_,?_⟩
  · intro s hs
    rcases List.mem_cons.mp hs with rfl | hs
    · exact hown
    · have hlinked := h.linked s hs
      rw [find_of_ne (fit.ne_nil (hseen s hs))] at hlinked ⊢
      exact step_grows (l := []) (step_some.mpr ⟨hway,rfl,rfl⟩) _ _ hlinked
  · intro q id hq
    by_cases habove : Above q (place t targetDir src)
    · rw [after,if_pos habove] at hq
      cases hq
    · by_cases hplace : q = place t targetDir src
      · exact Or.inr ⟨src,List.mem_cons_self,hplace.symm⟩
      · rw [after,if_neg habove,if_neg (fun hboth => hplace hboth.1)] at hq
        rcases h.file q id hq with hold | ⟨s,hs,hp⟩
        · exact Or.inl hold
        · exact Or.inr ⟨s,List.mem_cons_of_mem _ hs,hp⟩
  · intro q hq
    by_cases habove : Above q (place t targetDir src)
    · exact Or.inr ⟨src,List.mem_cons_self,habove⟩
    · by_cases hplace : q = place t targetDir src
      · rw [hplace] at hq
        rw [find_of_ne hne,hq] at hown
        cases hown
      · rw [after,if_neg habove,if_neg (fun hboth => hplace hboth.1)] at hq
        rcases h.dir q hq with hold | ⟨s,hs,hp⟩
        · exact Or.inl hold
        · exact Or.inr ⟨s,List.mem_cons_of_mem _ hs,hp⟩

theorem holds_run (fit : PlacesFit t targetDir files ws₀)
    (hsrcs : ∀ s ∈ srcs, s ∈ sources t targetDir files)
    (hseen : ∀ s ∈ seen, s ∈ sources t targetDir files) (h : Holds t targetDir ws₀ ws seen) :
    ∃ ws', srcs.foldlM (step t targetDir) (ws,l) =
        some (ws',l ++ srcs.map fun src => relOf t.cwd src targetDir) ∧
      Holds t targetDir ws₀ ws' (srcs.reverse ++ seen) := by
  induction srcs generalizing ws l seen with
  | nil => exact ⟨ws,by simp,h⟩
  | cons src srcs ih =>
    obtain ⟨hsrc,hsrcs⟩ := List.forall_mem_cons.mp hsrcs
    obtain ⟨hstep,hholds⟩ := holds_step (l := l) fit hsrc hseen h
    obtain ⟨ws',hrun,hend⟩ := ih (l := l ++ [relOf t.cwd src targetDir]) hsrcs
      (List.forall_mem_cons.mpr ⟨hsrc,hseen⟩) hholds
    refine ⟨ws',?_,?_⟩
    · rw [List.foldlM_cons,hstep]
      simpa using hrun
    · simpa using hend

/-- The files are kept apart exactly where each path that is found is one of a file, two files never
have the same place, the place of a file is free or holds it already, and no file, of the workspace
or of the list, stands on the way to a place. -/
theorem files_kept_apart_iff (t : SourceTree I) (targetDir : String) (files : List String)
    (ws : Workspace I) :
    (∃ ws' linked, prepareWorkspace t targetDir files ws = some (ws',linked) ∧
      KeptApart t targetDir files ws' linked) ↔ PlacesFit t targetDir files ws := by
  constructor
  · rintro ⟨ws',linked,hrun,h⟩
    have hresolves : ∀ src ∈ sources t targetDir files, t.isFile src = true ∧
        find ws' (place t targetDir src) = some (.file (t.ident src)) := by
      have hreported := h.reported
      rw [run_linked hrun,List.nil_append,List.forall₂_map_right_iff,List.forall₂_same] at hreported
      exact hreported
    have hgrows := run_grows hrun
    refine ⟨fun src hsrc => (hresolves src hsrc).1,h.distinct,fun src hsrc => ?_,
      fun src hsrc q hq => ⟨?_,fun src' hsrc' hplace => ?_⟩⟩
    · cases hfind : find ws (place t targetDir src) with
      | none => exact Or.inl rfl
      | some e =>
        rw [← hgrows.find hfind]
        exact Or.inr (hresolves src hsrc).2
    · have hdir := run_dirs hrun hsrc hq
      by_contra hfile
      obtain ⟨id,hid⟩ := isFileAt_iff.mp (Bool.eq_true_of_not_eq_false hfile)
      rw [hgrows q _ hid] at hdir
      cases hdir
    · have hdir := run_dirs hrun hsrc hq
      have hfile := (hresolves src' hsrc').2
      rw [hplace,find_of_ne hq.1,hdir] at hfile
      cases hfile
  · intro fit
    have hall : ∀ s ∈ sources t targetDir files, s ∈ sources t targetDir files := fun s hs => hs
    have hnone : ∀ s ∈ ([] : List String), s ∈ sources t targetDir files := by simp
    obtain ⟨ws',hrun,hholds⟩ := holds_run (l := []) fit hall hnone
      ⟨fun s hs => absurd hs List.not_mem_nil,fun q id hq => Or.inl hq,fun q hq => Or.inl hq⟩
    have hresolves : ∀ src ∈ sources t targetDir files,
        Resolves t ws' src (relOf t.cwd src targetDir) := fun src hsrc =>
      ⟨fit.isFile src hsrc,hholds.linked src (by simpa using hsrc)⟩
    refine ⟨ws',_,hrun,fun src hsrc _ => ⟨_,?_,hresolves src hsrc⟩,?_,fit.same⟩
    · rw [List.nil_append]
      exact List.mem_map_of_mem hsrc
    · rw [List.nil_append,List.forall₂_map_right_iff,List.forall₂_same]
      exact hresolves

/-- Two files of one name, from two directories outside the target. -/
def twoHeaders : SourceTree String where
  isFile path := path = "/a/x.c" ∨ path = "/b/x.c"
  rglob _ _ := []
  cwd := "/"
  ident path := path

/-- The second one is reported, and its path resolves to the first one. -/
theorem namesakes_share_a_path : ¬∃ ws' linked,
    prepareWorkspace twoHeaders "/t" ["/a/x.c","/b/x.c"] (fun _ => none) = some (ws',linked) ∧
      KeptApart twoHeaders "/t" ["/a/x.c","/b/x.c"] ws' linked := by
  rintro ⟨ws',linked,-,h⟩
  have hsame := h.distinct "/a/x.c" (by decide) "/b/x.c" (by decide) (by decide)
  exact absurd hsame (by decide)

end Run

end WorkspacePreparation
end EntryAnalyse
