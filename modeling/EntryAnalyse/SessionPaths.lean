import EntryAnalyse.ModuleLoader

/-! Which file a session path of a client names: `_resolve_session_path` compares resolved paths
as texts, so it tells a directory from the ones beside it by the start of their names only. -/
namespace EntryAnalyse

/-- A normalised absolute path, by the names that it goes through. -/
structure AbsPath where
  names : List (List Char)
  solid : ∀ name ∈ names, name ≠ [] ∧ '/' ∉ name ∧ name ≠ ['.'] ∧ name ≠ ['.','.']

namespace AbsPath

/-- `str(path)`. -/
def text (p : AbsPath) : List Char := '/' :: ['/'].intercalate p.names

/-- `path.name`, empty for the root of the file system. -/
def name (p : AbsPath) : List Char := p.names.getLastD []

/-- `path.suffix`: the last dot begins it, unless it begins or ends the name. -/
def suffix (p : AbsPath) : List Char :=
  let behind := (p.name.reverse.takeWhile (· ≠ '.')).reverse
  if '.' ∈ p.name ∧ behind ≠ [] ∧ behind.length + 1 < p.name.length then '.' :: behind else []

/-- The path lies in a directory beside `root` whose name goes on where the name of `root`
ends. -/
def Beside (root p : AbsPath) : Prop :=
  ∃ above name more rest, root.names = above ++ [name] ∧ more ≠ [] ∧
    p.names = above ++ (name ++ more) :: rest

end AbsPath

namespace SessionPaths

open ModuleLoader

inductive Failure
  /-- `ValueError(message)`. -/
  | invalid (message : String)
  /-- The operating system cannot resolve a path. -/
  | unresolved
  deriving DecidableEq

/-- The segments of a path that count. -/
def parts (path : String) : List (List Char) :=
  ((path.toList.map fun c => if c = '\\' then '/' else c).splitOn '/').filter fun part =>
    part ≠ [] ∧ part ≠ ['.']

/-- `_normalize_relative_session_path`. -/
def normalizeRelativeSessionPath (path : String) : Except Failure String :=
  if parts path = [] then .error (.invalid "会话路径不能为空")
  else if ['.','.'] ∈ parts path then .error (.invalid "会话路径非法")
  else .ok (String.ofList (['/'].intercalate (parts path)))

/-- What the operating system makes of a path and the symbolic links on it. -/
abbrev Resolve := String → Option AbsPath

def resolved (resolve : Resolve) (path : String) : Except Failure AbsPath :=
  match resolve path with
  | some p => .ok p
  | none => .error .unresolved

def isSessionFile (p : AbsPath) : Bool := lower (String.ofList p.suffix) = ".jsonl"

/-- `_resolve_session_path`. -/
def resolveSessionPath (resolve : Resolve) (sessionsRoot relativePath : String) :
    Except Failure AbsPath := do
  let normalized ← normalizeRelativeSessionPath relativePath
  let candidate ← resolved resolve (pathDiv sessionsRoot normalized)
  let root ← resolved resolve sessionsRoot
  if !root.text.isPrefixOf candidate.text then .error (.invalid "会话路径超出允许范围")
  else if !isSessionFile candidate then .error (.invalid "仅支持 .jsonl 会话文件")
  else return candidate

/-! ## What a result must be -/

/-- The path is that of the root and at least one more name, and it ends in `.jsonl`. The letter
case of the ending does not matter, as in the test of the code. -/
structure Inside (root p : AbsPath) : Prop where
  below : ∃ rest, rest ≠ [] ∧ p.names = root.names ++ rest
  ending : endsWith (lower (String.ofList p.text)) ".jsonl" = true

/-- The call raises, or its result is inside the root. -/
def Right (resolve : Resolve) (sessionsRoot relativePath : String) : Prop :=
  ∀ p, resolveSessionPath resolve sessionsRoot relativePath = .ok p →
    ∃ root, resolve sessionsRoot = some root ∧ Inside root p

/-- No link leads from a name that is asked for to a session file beside the root, nor to the
root, when it has the name of a session file itself. -/
def NoLinkOut (resolve : Resolve) (sessionsRoot relativePath : String) : Prop :=
  ∀ normalized root p, normalizeRelativeSessionPath relativePath = .ok normalized →
    resolve sessionsRoot = some root → resolve (pathDiv sessionsRoot normalized) = some p →
      isSessionFile p = true → p.names ≠ root.names ∧ ¬ root.Beside p

/-! ## The texts of paths -/

section
variable {a b : List Char} {xs ys : List (List Char)}

/-- Names with a slash before each. -/
def slashed (names : List (List Char)) : List Char := names.flatMap ('/' :: ·)

theorem slashed_cons : slashed (a :: xs) = '/' :: (a ++ slashed xs) := rfl

theorem text_cons (a : List Char) (xs : List (List Char)) :
    '/' :: ['/'].intercalate (a :: xs) = slashed (a :: xs) := by
  induction xs generalizing a with
  | nil => simp [slashed]
  | cons b xs ih =>
    rw [List.intercalate_cons_cons,slashed_cons,← ih]
    simp

/-- Before a text that a slash begins, a name begins another one as a whole, or it is the last
one and ends inside the other. -/
theorem name_prefix_iff (ha : '/' ∉ a) (hb : '/' ∉ b) :
    a ++ slashed xs <+: b ++ slashed ys ↔
      (a = b ∧ slashed xs <+: slashed ys) ∨ (xs = [] ∧ ∃ more, more ≠ [] ∧ b = a ++ more) := by
  induction a generalizing b with
  | nil =>
    cases b with
    | nil => simp +contextual
    | cons c b =>
      have hc : c ≠ '/' := fun hc => hb (hc ▸ List.mem_cons_self)
      cases xs with
      | nil => simp [slashed]
      | cons x xs =>
        rw [List.nil_append,slashed_cons,List.cons_append,List.cons_prefix_cons]
        simp [hc.symm]
  | cons c a ih =>
    have hc : c ≠ '/' := fun hc => ha (hc ▸ List.mem_cons_self)
    cases b with
    | nil =>
      cases ys with
      | nil => simp [slashed]
      | cons y ys =>
        rw [List.nil_append,slashed_cons,List.cons_append,List.cons_prefix_cons]
        simp [hc]
    | cons d b =>
      rw [List.cons_append,List.cons_append,List.cons_prefix_cons,
        ih (fun h => ha (List.mem_cons_of_mem c h)) (fun h => hb (List.mem_cons_of_mem d h))]
      constructor
      · rintro ⟨rfl,⟨rfl,h⟩ | ⟨hxs,more,hmore,rfl⟩⟩
        · exact .inl ⟨rfl,h⟩
        · exact .inr ⟨hxs,more,hmore,rfl⟩
      · rintro (⟨heq,h⟩ | ⟨hxs,more,hmore,heq⟩)
        · obtain ⟨rfl,rfl⟩ := List.cons.inj heq
          exact ⟨rfl,.inl ⟨rfl,h⟩⟩
        · obtain ⟨rfl,rfl⟩ := List.cons.inj heq
          exact ⟨rfl,.inr ⟨hxs,more,hmore,rfl⟩⟩

/-- `AbsPath.Beside`, of the names. -/
def BesideNames (xs ys : List (List Char)) : Prop :=
  ∃ above name more rest, xs = above ++ [name] ∧ more ≠ [] ∧ ys = above ++ (name ++ more) :: rest

theorem besideNames_cons : BesideNames (a :: xs) (b :: ys) ↔
    (a = b ∧ BesideNames xs ys) ∨ (xs = [] ∧ ∃ more, more ≠ [] ∧ b = a ++ more) := by
  constructor
  · rintro ⟨above,name,more,rest,hxs,hmore,hys⟩
    cases above with
    | nil =>
      obtain ⟨rfl,rfl⟩ := List.cons.inj hxs
      exact .inr ⟨rfl,more,hmore,(List.cons.inj hys).1⟩
    | cons x above =>
      obtain ⟨rfl,rfl⟩ := List.cons.inj hxs
      obtain ⟨rfl,rfl⟩ := List.cons.inj hys
      exact .inl ⟨rfl,above,name,more,rest,rfl,hmore,rfl⟩
  · rintro (⟨rfl,above,name,more,rest,rfl,hmore,rfl⟩ | ⟨rfl,more,hmore,rfl⟩)
    · exact ⟨a :: above,name,more,rest,rfl,hmore,rfl⟩
    · exact ⟨[],a,more,ys,rfl,hmore,rfl⟩

theorem slashed_prefix_iff (hxs : ∀ name ∈ xs, '/' ∉ name) (hys : ∀ name ∈ ys, '/' ∉ name) :
    slashed xs <+: slashed ys ↔ xs <+: ys ∨ BesideNames xs ys := by
  induction xs generalizing ys with
  | nil => simp [slashed]
  | cons a xs ih =>
    obtain ⟨ha,hxs⟩ := List.forall_mem_cons.mp hxs
    cases ys with
    | nil => simp [slashed,BesideNames]
    | cons b ys =>
      obtain ⟨hb,hys⟩ := List.forall_mem_cons.mp hys
      rw [slashed_cons,slashed_cons,List.cons_prefix_cons,name_prefix_iff ha hb,ih hxs hys,
        List.cons_prefix_cons,besideNames_cons]
      tauto

end

/-- The text of a path begins that of another when the other lies below or beside it. -/
theorem text_prefix_iff {root p : AbsPath} :
    root.text <+: p.text ↔ root.names <+: p.names ∨ root.Beside p := by
  have hroot : ∀ name ∈ root.names, '/' ∉ name := fun name h => (root.solid name h).2.1
  have hp : ∀ name ∈ p.names, '/' ∉ name := fun name h => (p.solid name h).2.1
  refine Iff.trans ?_ (slashed_prefix_iff hroot hp)
  unfold AbsPath.text
  cases hr : root.names with
  | nil => simp [slashed]
  | cons a xs =>
    rw [text_cons]
    cases hn : p.names with
    | nil =>
      have ha : a ≠ [] := (root.solid a (hr ▸ List.mem_cons_self)).1
      cases a with
      | nil => exact absurd rfl ha
      | cons c a => simp [slashed]
    | cons b ys => rw [text_cons]

/-- A path below the root is not beside it. -/
theorem not_beside_of_below {root p : AbsPath} {rest : List (List Char)}
    (h : p.names = root.names ++ rest) : ¬ root.Beside p := by
  rintro ⟨above,name,more,behind,habove,hmore,hnames⟩
  rw [hnames,habove,List.append_assoc,List.append_cancel_left_eq] at h
  exact hmore (List.append_right_eq_self.mp (List.cons.inj h).1)

/-! ## The ending -/

theorem takeWhile_dot {cs : List Char} (h : '.' ∈ cs) :
    cs.takeWhile (· ≠ '.') ++ ['.'] <+: cs := by
  induction cs with
  | nil => cases h
  | cons c cs ih =>
    by_cases hc : c = '.'
    · simp [hc]
    · have hcs : '.' ∈ cs := (List.mem_cons.mp h).resolve_left (Ne.symm hc)
      simpa [hc] using ih hcs

theorem suffix_of_name (p : AbsPath) : p.suffix <:+ p.name := by
  unfold AbsPath.suffix
  by_cases hdot : '.' ∈ p.name
  · have hreverse := List.reverse_suffix.mpr (takeWhile_dot (List.mem_reverse.mpr hdot))
    rw [List.reverse_append,List.reverse_reverse] at hreverse
    dsimp only
    split_ifs
    · exact hreverse
    · exact List.nil_suffix
  · simp [hdot]

theorem name_suffix_text (p : AbsPath) : p.name <:+ p.text := by
  unfold AbsPath.name AbsPath.text
  cases h : p.names.reverse with
  | nil => simp [List.reverse_eq_nil_iff.mp h]
  | cons a above =>
    have hnames : p.names = above.reverse ++ [a] := by
      rw [← List.reverse_cons,← h,List.reverse_reverse]
    rw [hnames,List.getLastD_concat]
    cases habove : above.reverse with
    | nil => simp
    | cons b rest =>
      rw [List.cons_append,text_cons,← List.cons_append]
      simp only [slashed,List.flatMap_append,List.flatMap_cons,List.flatMap_nil,List.append_nil]
      exact ⟨_,(List.append_assoc _ ['/'] a)⟩

theorem lower_append (a b : List Char) : (lower (String.ofList (a ++ b))).toList =
    (lower (String.ofList a)).toList ++ (lower (String.ofList b)).toList := by
  simp [lower]

theorem ending_of_isSessionFile {p : AbsPath} (h : isSessionFile p = true) :
    endsWith (lower (String.ofList p.text)) ".jsonl" = true := by
  obtain ⟨start,hstart⟩ := (suffix_of_name p).trans (name_suffix_text p)
  have hsuffix : lower (String.ofList p.suffix) = ".jsonl" := by
    simpa [isSessionFile] using h
  unfold endsWith
  rw [← hstart,lower_append,hsuffix]
  exact List.isSuffixOf_iff_suffix.mpr (List.suffix_append ..)

/-! ## When the paths stay inside -/

section
variable {resolve : Resolve} {sessionsRoot relativePath : String} {p : AbsPath}

theorem resolved_eq_ok_iff {path : String} : resolved resolve path = .ok p ↔
    resolve path = some p := by
  unfold resolved
  cases resolve path <;> simp

/-- What a call that returns has found. -/
theorem resolveSessionPath_eq_ok_iff :
    resolveSessionPath resolve sessionsRoot relativePath = .ok p ↔
      ∃ normalized root, normalizeRelativeSessionPath relativePath = .ok normalized ∧
        resolve sessionsRoot = some root ∧ resolve (pathDiv sessionsRoot normalized) = some p ∧
          root.text <+: p.text ∧ isSessionFile p = true := by
  unfold resolveSessionPath
  simp only [bind_eq_ok,resolved_eq_ok_iff]
  constructor
  · rintro ⟨normalized,hnormalized,candidate,hcandidate,root,hroot,h⟩
    split_ifs at h with hstart hfile
    cases h
    rw [Bool.not_eq_true',Bool.not_eq_false] at hstart hfile
    exact ⟨normalized,root,hnormalized,hroot,hcandidate,List.isPrefixOf_iff_prefix.mp hstart,hfile⟩
  · rintro ⟨normalized,root,hnormalized,hroot,hcandidate,hstart,hfile⟩
    refine ⟨normalized,hnormalized,p,hcandidate,root,hroot,?_⟩
    rw [List.isPrefixOf_iff_prefix.mpr hstart,hfile]
    rfl

/-- The result of a call stays inside the root exactly when no link leads beside it. -/
theorem session_path_inside_iff (resolve : Resolve) (sessionsRoot relativePath : String) :
    Right resolve sessionsRoot relativePath ↔ NoLinkOut resolve sessionsRoot relativePath := by
  constructor
  · intro h normalized root p hnormalized hroot hp hfile
    have inside (hstart : root.text <+: p.text) : Inside root p := by
      obtain ⟨r,hr,hinside⟩ := h p (resolveSessionPath_eq_ok_iff.mpr
        ⟨normalized,root,hnormalized,hroot,hp,hstart,hfile⟩)
      rw [hroot] at hr
      exact Option.some.inj hr ▸ hinside
    constructor
    · intro hnames
      obtain ⟨rest,hrest,hbelow⟩ := (inside (text_prefix_iff.mpr
        (.inl (hnames ▸ List.prefix_rfl)))).below
      rw [hnames,List.self_eq_append_right] at hbelow
      exact hrest hbelow
    · intro hbeside
      obtain ⟨rest,-,hbelow⟩ := (inside (text_prefix_iff.mpr (.inr hbeside))).below
      exact not_beside_of_below hbelow hbeside
  · intro h p hok
    obtain ⟨normalized,root,hnormalized,hroot,hp,hstart,hfile⟩ :=
      resolveSessionPath_eq_ok_iff.mp hok
    obtain ⟨hnames,hbeside⟩ := h normalized root p hnormalized hroot hp hfile
    obtain ⟨rest,hrest⟩ := (text_prefix_iff.mp hstart).resolve_right hbeside
    refine ⟨root,hroot,⟨rest,?_,hrest.symm⟩,ending_of_isSessionFile hfile⟩
    rintro rfl
    exact hnames (by rw [← hrest,List.append_nil])

/-- The segments that are let through lead downwards, so without links below the root every
name stays inside. -/
theorem noLinkOut_of_no_links (h : ∀ normalized root p,
    normalizeRelativeSessionPath relativePath = .ok normalized → resolve sessionsRoot = some root →
      resolve (pathDiv sessionsRoot normalized) = some p →
        p.names = root.names ++ parts relativePath) :
    NoLinkOut resolve sessionsRoot relativePath := by
  intro normalized root p hnormalized hroot hp hfile
  have hbelow := h normalized root p hnormalized hroot hp
  refine ⟨fun hnames => ?_,not_beside_of_below hbelow⟩
  rw [hnames,List.self_eq_append_right] at hbelow
  rw [normalizeRelativeSessionPath,if_pos hbelow] at hnormalized
  cases hnormalized

end

/-- `/d/s` holds a link `l.jsonl` to a file of the directory `/d/s2`. -/
def linkBeside : Resolve := fun path =>
  if path = "/d/s" then some ⟨["d".toList,"s".toList],by decide⟩
  else if path = "/d/s/l.jsonl" then some ⟨["d".toList,"s2".toList,"x.jsonl".toList],by decide⟩
  else none

/-- The path through the link is returned. -/
theorem file_beside_returned : ¬ Right linkBeside "/d/s" "l.jsonl" := by
  intro h
  obtain ⟨root,hroot,hinside⟩ := h ⟨["d".toList,"s2".toList,"x.jsonl".toList],by decide⟩ rfl
  cases hroot
  obtain ⟨rest,-,hrest⟩ := hinside.below
  exact absurd hrest (by simp)

end SessionPaths
end EntryAnalyse
