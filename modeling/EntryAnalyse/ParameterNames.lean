import EntryAnalyse.FunctionsList
import EntryAnalyse.Patterns

/-! The names of parameters in the text of a signature, as the regular expression
`\b([a-zA-Z_]\w*)\s*(?:\[[^\]]*\])?\s*(?:,|$)` reads them one after another. -/
namespace EntryAnalyse
namespace ParameterNames

open PyJson FunctionsList Patterns

abbrev Text := List Char

/-- In ASCII the characters of words are those of identifiers. -/
structure Letters extends WordChars where
  ascii : ∀ c : Char, c.toNat < 128 → isWord c = isIdentPart c
  space : ∀ c : Char, pyIsSpace c = true → isWord c = false

variable (k : Letters)

/-! ## `re.findall` -/

/-- What is left behind `\s*(?:,|$)`. -/
def afterGap (cs : Text) : Option Text :=
  match cs.dropWhile pyIsSpace with
  | [] => some []
  | c :: rest => if c = ',' then some rest else none

/-- What is left behind `\s*(?:\[[^\]]*\])?\s*(?:,|$)`. -/
def afterName (cs : Text) : Option Text :=
  match cs.dropWhile pyIsSpace with
  | [] => some []
  | c :: rest =>
    if c = '[' then
      match rest.dropWhile (· != ']') with
      | [] => none
      | _ :: rest' => afterGap rest'
    else if c = ',' then some rest else none

/-- The matches in a text with `before` in front of it; the number bounds its length. -/
def findNames : ℕ → Option Char → Text → List Text
  | 0,_,_ => []
  | _ + 1,_,[] => []
  | n + 1,before,c :: cs =>
    if atBoundary k.toWordChars before (some c) && isIdentStart c then
      match afterName (cs.dropWhile k.isWord) with
      | some rest => (c :: cs.takeWhile k.isWord) :: findNames n (some ',') rest
      | none => findNames n (some c) cs
    else findNames n (some c) cs

/-- `_pnames`. -/
def paramNames (text : Text) : List Text := findNames k text.length none text

/-! ## Where a name stands -/

def IsName (x : Text) : Prop :=
  ∃ c cs, x = c :: cs ∧ isIdentStart c = true ∧ ∀ d ∈ cs, k.isWord d = true

def Blank (s : Text) : Prop := ∀ c ∈ s, pyIsSpace c = true

/-- Blanks, or a pair of brackets between blanks. -/
def Gap (m : Text) : Prop :=
  Blank m ∨ ∃ b i b', Blank b ∧ Blank b' ∧ ']' ∉ i ∧ m = b ++ '[' :: (i ++ ']' :: b')

/-- The end of the text, or a comma with the rest behind it. -/
def Ends (e rest : Text) : Prop := e = [','] ∨ e = [] ∧ rest = []

/-- `x` stands between `pre` and `suf`, a word with a comma or the end behind it. -/
structure Occurs (before : Option Char) (text pre x suf : Text) : Prop where
  split : text = pre ++ (x ++ suf)
  name : IsName k x
  start : ∀ c ∈ pre.getLast?.or before, k.isWord c = false
  gap : ∃ m e rest, suf = m ++ (e ++ rest) ∧ Gap m ∧ Ends e rest

/-- The brackets behind another such word are open at the end of `pre`. -/
def Enclosed (before : Option Char) (text pre : Text) : Prop :=
  ∃ p y s b i, Occurs k before text p y s ∧ Blank b ∧ ']' ∉ i ∧ pre = p ++ (y ++ (b ++ '[' :: i))

def Stands (before : Option Char) (text x : Text) : Prop :=
  ∃ pre suf, Occurs k before text pre x suf ∧ ¬Enclosed k before text pre

section Words

variable {k} {c : Char} {x : Text}

theorem isIdentPart_of_isIdentStart (h : isIdentStart c = true) : isIdentPart c = true := by
  rw [isIdentPart,h,Bool.true_or]

theorem toNat_lt_of_isIdentPart (h : isIdentPart c = true) : c.toNat < 128 := by
  simp only [isIdentPart,isIdentStart,Bool.or_eq_true,Bool.and_eq_true,decide_eq_true_eq,
    beq_iff_eq,Char.le_def] at h
  rcases h with ((⟨_,h⟩ | ⟨_,h⟩) | rfl) | ⟨_,h⟩
  · exact lt_of_le_of_lt (UInt32.le_iff_toNat_le.mp h) (by decide)
  · exact lt_of_le_of_lt (UInt32.le_iff_toNat_le.mp h) (by decide)
  · decide
  · exact lt_of_le_of_lt (UInt32.le_iff_toNat_le.mp h) (by decide)

theorem isWord_of_isIdentPart (h : isIdentPart c = true) : k.isWord c = true := by
  rw [k.ascii c (toNat_lt_of_isIdentPart h),h]

theorem isWord_of_isIdentStart (h : isIdentStart c = true) : k.isWord c = true :=
  isWord_of_isIdentPart (isIdentPart_of_isIdentStart h)

theorem isIdentStart_of_not_isWord (h : k.isWord c = false) : isIdentStart c = false := by
  cases hc : isIdentStart c with
  | false => rfl
  | true => exact absurd (isWord_of_isIdentStart hc) (by rw [h]; decide)

theorem IsName.isWord {d : Char} (h : IsName k x) (hd : d ∈ x) : k.isWord d = true := by
  obtain ⟨c,cs,rfl,hc,hcs⟩ := h
  rcases List.mem_cons.mp hd with rfl | hd
  · exact isWord_of_isIdentStart hc
  · exact hcs d hd

theorem isWord_of_ascii (hlow : c.toNat < 128) (hpart : isIdentPart c = false) :
    k.isWord c = false := by
  rw [k.ascii c hlow,hpart]

end Words

section Gaps

variable {k} {b m e s rest : Text}

theorem afterGap_iff :
    afterGap s = some rest ↔ ∃ b e, s = b ++ (e ++ rest) ∧ Blank b ∧ Ends e rest := by
  constructor
  · intro h
    have hsplit := List.takeWhile_append_dropWhile (p := pyIsSpace) (l := s)
    have hblank : Blank (s.takeWhile pyIsSpace) := fun c hc => List.mem_takeWhile_imp hc
    unfold afterGap at h
    cases hs : s.dropWhile pyIsSpace with
    | nil =>
      rw [hs] at h hsplit
      cases h
      exact ⟨_,[],hsplit.symm,hblank,Or.inr ⟨rfl,rfl⟩⟩
    | cons c r =>
      rw [hs] at h hsplit
      by_cases hc : c = ','
      · simp only [hc,if_true,Option.some.injEq] at h
        rw [hc,h] at hsplit
        exact ⟨_,[','],hsplit.symm,hblank,Or.inl rfl⟩
      · simp [hc] at h
  · rintro ⟨b,e,rfl,hb,rfl | ⟨rfl,rfl⟩⟩
    · rw [afterGap,List.dropWhile_append_of_pos hb]
      rfl
    · rw [afterGap,List.dropWhile_append_of_pos hb]
      rfl

theorem afterName_iff :
    afterName s = some rest ↔ ∃ m e, s = m ++ (e ++ rest) ∧ Gap m ∧ Ends e rest := by
  constructor
  · intro h
    have hsplit := List.takeWhile_append_dropWhile (p := pyIsSpace) (l := s)
    have hblank : Blank (s.takeWhile pyIsSpace) := fun c hc => List.mem_takeWhile_imp hc
    unfold afterName at h
    cases hs : s.dropWhile pyIsSpace with
    | nil =>
      rw [hs] at h hsplit
      cases h
      exact ⟨_,[],hsplit.symm,Or.inl hblank,Or.inr ⟨rfl,rfl⟩⟩
    | cons c r =>
      rw [hs] at h hsplit
      by_cases hbox : c = '['
      · simp only [hbox,if_true] at h
        have hclose := List.takeWhile_append_dropWhile (p := (· != ']')) (l := r)
        cases hr : r.dropWhile (· != ']') with
        | nil => simp [hr] at h
        | cons d r' =>
          simp only [hr] at h
          rw [hr] at hclose
          have hd : d = ']' := by
            have hhead := List.head_dropWhile_not (p := (· != ']')) (l := r) (by simp [hr])
            simpa [hr] using hhead
          obtain ⟨b',e,rfl,hb',he⟩ := afterGap_iff.mp h
          refine ⟨s.takeWhile pyIsSpace ++ '[' :: (r.takeWhile (· != ']') ++ ']' :: b'),e,?_,
            Or.inr ⟨_,_,_,hblank,hb',fun hmem => ?_,rfl⟩,he⟩
          · conv_lhs => rw [← hsplit,← hclose,hbox,hd]
            simp
          · simpa using List.mem_takeWhile_imp hmem
      · simp only [if_neg hbox] at h
        by_cases hc : c = ','
        · simp only [hc,if_true,Option.some.injEq] at h
          rw [hc,h] at hsplit
          exact ⟨_,[','],hsplit.symm,Or.inl hblank,Or.inl rfl⟩
        · simp [hc] at h
  · rintro ⟨m,e,rfl,hm | ⟨b,i,b',hb,hb',hi,rfl⟩,he⟩
    · rw [afterName,List.dropWhile_append_of_pos hm]
      rcases he with rfl | ⟨rfl,rfl⟩
      · rfl
      · rfl
    · have hdrop : (i ++ ']' :: (b' ++ (e ++ rest))).dropWhile (· != ']') =
          ']' :: (b' ++ (e ++ rest)) := by
        rw [List.dropWhile_append_of_pos (fun c hc => by
          simp only [bne_iff_ne,ne_eq]
          rintro rfl
          exact hi hc)]
        rfl
      rw [afterName,List.append_assoc,List.dropWhile_append_of_pos hb,List.cons_append,
        List.append_assoc,List.cons_append,List.dropWhile_cons_of_neg (by decide)]
      simp only [if_true,hdrop]
      exact afterGap_iff.mpr ⟨b',e,rfl,hb',he⟩

end Gaps

section Matches

variable {k} {before : Option Char} {c d : Char} {y b m e rest pre x suf t : Text}

theorem Ends.eq_comma (he : Ends e rest) (hd : d ∈ e) : d = ',' := by
  rcases he with rfl | ⟨rfl,_⟩
  · exact List.mem_singleton.mp hd
  · cases hd

/-- No name starts behind the brackets of a match. -/
theorem not_start_behind (k : Letters) (hb : Blank b) (he : Ends e rest)
    (hsplit : b ++ e = pre ++ d :: t) : isIdentStart d = false := by
  have hd : d ∈ b ++ e := by rw [hsplit]; simp
  rcases List.mem_append.mp hd with hd | hd
  · exact isIdentStart_of_not_isWord (k.space d (hb d hd))
  · rw [he.eq_comma hd]
    rfl

/-- A name that starts inside a match is the name of the match, or stands in its brackets. -/
theorem start_inside (hy : IsName k y) (hm : Gap m) (he : Ends e rest)
    (hd : isIdentStart d = true) (hstart : ∀ c ∈ pre.getLast?.or before, k.isWord c = false)
    (hsplit : y ++ (m ++ e) = pre ++ d :: t) :
    pre = [] ∨ ∃ b i i' b', Blank b ∧ ']' ∉ i ∧ m = b ++ '[' :: (i ++ (i' ++ ']' :: b')) ∧
      pre = y ++ (b ++ '[' :: i) := by
  rcases List.append_eq_append_iff.mp hsplit with ⟨p,hpre,hp⟩ | ⟨p,hpre,hp⟩
  · right
    rcases hm with hm | ⟨b,i,b',hb,hb',hi,rfl⟩
    · rw [not_start_behind k hm he hp] at hd
      cases hd
    · rw [List.append_assoc,List.cons_append,List.append_assoc,List.cons_append] at hp
      rcases List.append_eq_append_iff.mp hp with ⟨q,hq,hrest⟩ | ⟨q,hq,hrest⟩
      · cases q with
        | nil =>
          cases hrest
          cases hd
        | cons c q =>
          have htail := (List.cons.inj hrest).2
          rcases List.append_eq_append_iff.mp htail with ⟨r,hr,hbehind⟩ | ⟨r,hr,hbehind⟩
          · cases r with
            | nil =>
              cases hbehind
              cases hd
            | cons c r =>
              rw [not_start_behind k hb' he (List.cons.inj hbehind).2] at hd
              cases hd
          · refine ⟨b,q,r,b',hb,fun hmem => hi (by rw [hr]; exact List.mem_append_left _ hmem),?_,?_⟩
            · rw [hr,List.append_assoc]
            · rw [hpre,hq,← (List.cons.inj hrest).1]
      · have hdb : d ∈ b := by
          cases q with
          | nil =>
            cases hrest
            cases hd
          | cons c q =>
            obtain ⟨rfl,_⟩ := List.cons.inj hrest
            rw [hq]
            simp
        rw [isIdentStart_of_not_isWord (k.space d (hb d hdb))] at hd
        cases hd
  · left
    cases hlast : pre.getLast? with
    | none => exact List.getLast?_eq_none_iff.mp hlast
    | some c =>
      have hc : c ∈ y := by
        rw [hpre]
        exact List.mem_append_left _ (List.mem_of_getLast? hlast)
      rw [hlast] at hstart
      exact absurd (hy.isWord hc) (by rw [hstart c rfl]; decide)

theorem Occurs.of_head (hy : IsName k y) (hbefore : ∀ c ∈ before, k.isWord c = false)
    (hm : Gap m) (he : Ends e rest) :
    Occurs k before (y ++ (m ++ (e ++ rest))) [] y (m ++ (e ++ rest)) where
  split := rfl
  name := hy
  start := hbefore
  gap := ⟨m,e,rest,rfl,hm,he⟩

/-- Behind a name stands no letter. -/
theorem Occurs.behind {text : Text} (h : Occurs k before text pre x suf) :
    ∀ c ∈ suf.head?, k.isWord c = false := by
  obtain ⟨m,e,rest,rfl,hm,he⟩ := h.gap
  intro c hc
  have hends : ∀ c ∈ (e ++ rest).head?, k.isWord c = false := by
    rcases he with rfl | ⟨rfl,rfl⟩
    · rintro c ⟨⟩
      exact isWord_of_ascii (by decide) (by decide)
    · rintro c ⟨⟩
  rcases hm with hm | ⟨b,i,b',hb,_,_,rfl⟩
  · cases m with
    | nil => exact hends c hc
    | cons c' m =>
      cases hc
      exact k.space c (hm c List.mem_cons_self)
  · cases b with
    | nil =>
      cases hc
      exact isWord_of_ascii (by decide) (by decide)
    | cons c' b =>
      cases hc
      exact k.space c (hb c List.mem_cons_self)

theorem takeWhile_name {s : Text} (hx : IsName k x) (hs : ∀ c ∈ s.head?, k.isWord c = false) :
    (x ++ s).takeWhile k.isWord = x := by
  rw [List.takeWhile_append_of_pos fun c hc => hx.isWord hc]
  cases s with
  | nil => rw [List.takeWhile_nil,List.append_nil]
  | cons c s => rw [List.takeWhile_cons_of_neg (by simp [hs c rfl]),List.append_nil]

theorem Occurs.name_unique {text : Text} {p y' s s' : Text} (h : Occurs k before text p y s)
    (h' : Occurs k before text p y' s') : y = y' := by
  have htext : y ++ s = y' ++ s' := List.append_cancel_left (h.split.symm.trans h'.split)
  rw [← takeWhile_name h.name h.behind,htext,takeWhile_name h'.name h'.behind]

/-- What stands behind a match stands in the text. -/
theorem occurs_behind {p s : Text} (he : Ends e rest) :
    Occurs k (some ',') rest p x s ↔
      Occurs k before ((y ++ (m ++ e)) ++ rest) ((y ++ (m ++ e)) ++ p) x s := by
  have hstart : IsName k x → rest = p ++ (x ++ s) →
      ((∀ c ∈ p.getLast?.or (some ','), k.isWord c = false) ↔
        ∀ c ∈ ((y ++ (m ++ e)) ++ p).getLast?.or before, k.isWord c = false) := by
    rintro ⟨c,cs,rfl,_⟩ hrest
    rcases he with rfl | ⟨rfl,rfl⟩
    · rw [List.getLast?_append,List.getLast?_append,List.getLast?_append,Option.or_assoc,
        Option.or_assoc]
      rfl
    · have hlen := congrArg List.length hrest
      simp at hlen
  constructor
  · intro h
    exact ⟨by rw [h.split]; exact (List.append_assoc _ _ _).symm,h.name,
      (hstart h.name h.split).mp h.start,h.gap⟩
  · intro h
    have hrest : rest = p ++ (x ++ s) := by
      have hsplit := h.split
      rw [List.append_assoc _ p] at hsplit
      exact List.append_cancel_left hsplit
    exact ⟨hrest,h.name,(hstart h.name hrest).mpr h.start,h.gap⟩

/-- No brackets that are still open begin in a match and end behind it. -/
theorem not_open_behind {p i : Text} (hm : Gap m) (hi : ']' ∉ i) (hb : Blank b)
    (hends : e = [',']) : m ++ (e ++ p) ≠ b ++ '[' :: i := by
  intro h
  subst hends
  have hdrop := congrArg (List.dropWhile pyIsSpace) h
  rw [List.dropWhile_append_of_pos hb] at hdrop
  rcases hm with hm | ⟨b₁,i₁,b',hb₁,_,_,rfl⟩
  · rw [List.dropWhile_append_of_pos hm] at hdrop
    cases hdrop
  · rw [List.append_assoc,List.dropWhile_append_of_pos hb₁,List.cons_append,
      List.dropWhile_cons_of_neg (by decide),List.dropWhile_cons_of_neg (by decide)] at hdrop
    refine hi ?_
    rw [← (List.cons.inj hdrop).2]
    simp

/-- The brackets of a match are closed where it ends. -/
theorem not_enclosed_behind {p : Text} (hm : Gap m) (he : Ends e rest) (hne : rest ≠ [])
    (hmatch : Occurs k before ((y ++ (m ++ e)) ++ rest) [] y (m ++ (e ++ rest)))
    (h : Enclosed k before ((y ++ (m ++ e)) ++ rest) ((y ++ (m ++ e)) ++ p)) :
    Enclosed k (some ',') rest p := by
  have hcomma : e = [','] := he.resolve_right fun h => hne h.2
  obtain ⟨p₀,y₀,s₀,b₀,i₀,hocc,hb₀,hi₀,hp⟩ := h
  have hbehind : ∀ r, p₀ = (y ++ (m ++ e)) ++ r → Enclosed k (some ',') rest p := by
    rintro r rfl
    refine ⟨r,y₀,s₀,b₀,i₀,(occurs_behind he).mpr hocc,hb₀,hi₀,?_⟩
    · rw [List.append_assoc (y ++ (m ++ e))] at hp
      exact List.append_cancel_left hp
  rcases List.append_eq_append_iff.mp hocc.split with ⟨q,hq,_⟩ | ⟨q,hq,hrest⟩
  · exact hbehind q hq
  · cases q with
    | nil => exact hbehind [] (by rw [List.append_nil,hq,List.append_nil])
    | cons d q =>
      have hd : isIdentStart d = true := by
        obtain ⟨c,cs,hx,hc,_⟩ := hocc.name
        rw [hx] at hrest
        rwa [← (List.cons.inj hrest).1]
      rcases start_inside hmatch.name hm he hd hocc.start hq with
          rfl | ⟨b,i,i',b',hb,hi,hmeq,hp₀⟩
      · rw [hocc.name_unique hmatch,List.nil_append,List.append_assoc] at hp
        have hopen := List.append_cancel_left hp
        rw [List.append_assoc] at hopen
        exact absurd hopen (not_open_behind hm hi₀ hb₀ hcomma)
      · exfalso
        rw [hp₀,hmeq] at hp
        simp only [List.append_assoc,List.cons_append] at hp
        have hopen := List.append_cancel_left
          (List.cons.inj (List.append_cancel_left (List.append_cancel_left hp))).2
        have hclose : ']' ∈ y₀ ++ (b₀ ++ '[' :: i₀) := by
          rw [← hopen]
          simp
        rcases List.mem_append.mp hclose with hmem | hmem
        · exact absurd (hocc.name.isWord hmem)
            (by rw [isWord_of_ascii (by decide) (by decide)]; decide)
        · rcases List.mem_append.mp hmem with hmem | hmem
          · exact absurd (hb₀ _ hmem) (by decide)
          · exact hi₀ ((List.mem_cons.mp hmem).resolve_left (by decide))

/-- The names behind a match do not depend on it. -/
theorem stands_match (hm : Gap m) (he : Ends e rest)
    (hmatch : Occurs k before ((y ++ (m ++ e)) ++ rest) [] y (m ++ (e ++ rest))) :
    Stands k before ((y ++ (m ++ e)) ++ rest) x ↔ x = y ∨ Stands k (some ',') rest x := by
  constructor
  · rintro ⟨pre,suf,hocc,hfree⟩
    have hbehind : ∀ p, pre = (y ++ (m ++ e)) ++ p → Stands k (some ',') rest x := by
      rintro p rfl
      refine ⟨p,suf,(occurs_behind he).mpr hocc,fun henc => hfree ?_⟩
      obtain ⟨p₀,y₀,s₀,b₀,i₀,hocc₀,hb₀,hi₀,rfl⟩ := henc
      exact ⟨_,y₀,s₀,b₀,i₀,(occurs_behind he).mp hocc₀,hb₀,hi₀,(List.append_assoc _ _ _).symm⟩
    rcases List.append_eq_append_iff.mp hocc.split with ⟨q,hq,_⟩ | ⟨q,hq,hrest⟩
    · exact Or.inr (hbehind q hq)
    · cases q with
      | nil => exact Or.inr (hbehind [] (by rw [List.append_nil,hq,List.append_nil]))
      | cons d q =>
        have hd : isIdentStart d = true := by
          obtain ⟨c,cs,hx,hc,_⟩ := hocc.name
          rw [hx] at hrest
          rwa [← (List.cons.inj hrest).1]
        rcases start_inside hmatch.name hm he hd hocc.start hq with
            rfl | ⟨b,i,i',b',hb,hi,hmeq,hpre⟩
        · exact Or.inl (hocc.name_unique hmatch)
        · exact absurd ⟨[],y,_,b,i,hmatch,hb,hi,hpre⟩ hfree
  · rintro (rfl | ⟨pre,suf,hocc,hfree⟩)
    · refine ⟨[],_,hmatch,?_⟩
      rintro ⟨p,y,s,b,i,_,_,_,hp⟩
      have hlen := congrArg List.length hp
      simp at hlen
    · have hne : rest ≠ [] := by
        obtain ⟨c,cs,rfl,_⟩ := hocc.name
        rw [hocc.split]
        simp
      exact ⟨_,suf,(occurs_behind he).mp hocc,
        fun henc => hfree (not_enclosed_behind hm he hne hmatch henc)⟩

/-- Where no name begins the search goes on with the next character. -/
theorem stands_skip {cs : Text} (hnone : ∀ y s, ¬Occurs k before (c :: cs) [] y s) :
    Stands k before (c :: cs) x ↔ Stands k (some c) cs x := by
  have hshift : ∀ p y s, Occurs k before (c :: cs) (c :: p) y s ↔ Occurs k (some c) cs p y s := by
    intro p y s
    have hlast : (c :: p).getLast?.or before = p.getLast?.or (some c) := by
      rw [List.getLast?_cons]
      cases p.getLast? <;> rfl
    refine ⟨fun h => ⟨(List.cons.inj h.split).2,h.name,hlast ▸ h.start,h.gap⟩,
      fun h => ⟨by rw [h.split]; rfl,h.name,hlast ▸ h.start,h.gap⟩⟩
  have hcons : ∀ {p y s}, Occurs k before (c :: cs) p y s → ∃ q, p = c :: q := by
    intro p y s h
    cases p with
    | nil => exact absurd h (hnone y s)
    | cons d q => exact ⟨q,by rw [(List.cons.inj h.split).1]⟩
  constructor
  · rintro ⟨pre,suf,hocc,hfree⟩
    obtain ⟨p,rfl⟩ := hcons hocc
    refine ⟨p,suf,(hshift p x suf).mp hocc,?_⟩
    rintro ⟨q,y,s,b,i,hq,hb,hi,rfl⟩
    exact hfree ⟨c :: q,y,s,b,i,(hshift q y s).mpr hq,hb,hi,rfl⟩
  · rintro ⟨p,suf,hocc,hfree⟩
    refine ⟨c :: p,suf,(hshift p x suf).mpr hocc,?_⟩
    rintro ⟨q,y,s,b,i,hq,hb,hi,hp⟩
    obtain ⟨q,rfl⟩ := hcons hq
    exact hfree ⟨q,y,s,b,i,(hshift q y s).mp hq,hb,hi,(List.cons.inj hp).2⟩

theorem takeWhile_isWord_isName {cs : Text} (hc : isIdentStart c = true) :
    IsName k (c :: cs.takeWhile k.isWord) :=
  ⟨c,_,rfl,hc,fun _ hd => List.mem_takeWhile_imp hd⟩

/-- A match at the front ends where `afterName` says. -/
theorem Occurs.matched {cs s : Text} (h : Occurs k before (c :: cs) [] y s) :
    (atBoundary k.toWordChars before (some c) && isIdentStart c) = true ∧
      (afterName (cs.dropWhile k.isWord)).isSome = true := by
  obtain ⟨m,e,rest,hs,hm,he⟩ := h.gap
  have hy := takeWhile_name h.name h.behind
  have hsplit := h.split
  obtain ⟨d,ds,rfl,hd,_⟩ := h.name
  obtain ⟨rfl,htail⟩ := List.cons.inj hsplit
  have hword : k.isWord c = true := isWord_of_isIdentStart hd
  constructor
  · rw [hd,Bool.and_true,atBoundary,Option.any_some,hword]
    cases before with
    | none => rfl
    | some b =>
      rw [Option.any_some,h.start b rfl]
      rfl
  · have hrest : cs.dropWhile k.isWord = s := by
      rw [List.cons_append,List.takeWhile_cons_of_pos hword] at hy
      have htake : cs.takeWhile k.isWord = ds := by
        rw [htail]
        exact (List.cons.inj hy).2
      have happ := List.takeWhile_append_dropWhile (p := k.isWord) (l := cs)
      rw [htake] at happ
      exact List.append_cancel_left (happ.trans htail)
    rw [hrest,afterName_iff.mpr ⟨m,e,hs,hm,he⟩]
    rfl

/-- `findall` reads the names that stand in the text. -/
theorem mem_findNames {n : ℕ} {cs : Text} (hlen : cs.length ≤ n) :
    x ∈ findNames k n before cs ↔ Stands k before cs x := by
  induction n generalizing before cs with
  | zero =>
    rw [List.eq_nil_of_length_eq_zero (Nat.le_zero.mp hlen)]
    refine iff_of_false (List.not_mem_nil) ?_
    rintro ⟨pre,suf,hocc,_⟩
    obtain ⟨c,cs,rfl,_⟩ := hocc.name
    simpa using congrArg List.length hocc.split
  | succ n ih =>
    cases cs with
    | nil =>
      refine iff_of_false (List.not_mem_nil) ?_
      rintro ⟨pre,suf,hocc,_⟩
      obtain ⟨c,cs,rfl,_⟩ := hocc.name
      simpa using congrArg List.length hocc.split
    | cons c cs =>
      have hlen' : cs.length ≤ n := Nat.le_of_succ_le_succ hlen
      rw [findNames]
      split
      case isTrue hstart =>
        simp only [Bool.and_eq_true] at hstart
        cases hafter : afterName (cs.dropWhile k.isWord) with
        | none =>
          rw [stands_skip fun y s h => by simpa [hafter] using h.matched.2]
          exact ih hlen'
        | some rest =>
          obtain ⟨m,e,hs,hm,he⟩ := afterName_iff.mp hafter
          have hbefore : ∀ b ∈ before, k.isWord b = false := by
            rintro b rfl
            simpa [atBoundary,isWord_of_isIdentStart hstart.2] using hstart.1
          have hname : IsName k (c :: cs.takeWhile k.isWord) := takeWhile_isWord_isName hstart.2
          have hmatch := Occurs.of_head hname hbefore hm he
          have htext : c :: cs = (c :: cs.takeWhile k.isWord ++ (m ++ e)) ++ rest := by
            rw [List.append_assoc,List.append_assoc,← hs,List.cons_append,
              List.takeWhile_append_dropWhile]
          have hrest : rest.length ≤ n := by
            have := congrArg List.length htext
            simp at this
            omega
          have hmatch' : Occurs k before ((c :: cs.takeWhile k.isWord ++ (m ++ e)) ++ rest) []
              (c :: cs.takeWhile k.isWord) (m ++ (e ++ rest)) := by
            rw [List.append_assoc,List.append_assoc]
            exact hmatch
          simp only [List.mem_cons]
          rw [htext,stands_match hm he hmatch',ih hrest]
      case isFalse hstart =>
        rw [stands_skip fun y s h => hstart h.matched.1]
        exact ih hlen'

theorem mem_paramNames {text : Text} : x ∈ paramNames k text ↔ Stands k none text x :=
  mem_findNames le_rfl

end Matches

/-! ## An alphabet -/

def asciiLetters : Letters where
  isWord := isIdentPart
  letter := fun c hc => by
    change (decide ('A' ≤ c ∧ c ≤ 'Z') || (decide ('a' ≤ c) && decide (c ≤ 'z'))) = true at hc
    simp only [Bool.or_eq_true,Bool.and_eq_true,decide_eq_true_eq] at hc
    simp only [isIdentPart,isIdentStart,Bool.or_eq_true,Bool.and_eq_true,decide_eq_true_eq]
    rcases hc with hc | hc
    · exact Or.inl (Or.inl (Or.inr hc))
    · exact Or.inl (Or.inl (Or.inl hc))
  newline := by decide
  ascii := fun _ _ => rfl
  space := fun c hc => by
    cases hpart : isIdentPart c with
    | false => rfl
    | true =>
      exfalso
      simp only [isIdentPart,isIdentStart,Bool.or_eq_true,Bool.and_eq_true,decide_eq_true_eq,
        beq_iff_eq,Char.le_def,UInt32.le_iff_toNat_le] at hpart
      have hrange : 48 ≤ c.toNat ∧ c.toNat ≤ 122 := by
        rcases hpart with ((⟨hlow,hhigh⟩ | ⟨hlow,hhigh⟩) | rfl) | ⟨hlow,hhigh⟩
        · exact ⟨le_trans (by decide) hlow,hhigh⟩
        · exact ⟨le_trans (by decide) hlow,le_trans hhigh (by decide)⟩
        · decide
        · exact ⟨hlow,le_trans hhigh (by decide)⟩
      simp only [pyIsSpace,Bool.or_eq_true,Bool.and_eq_true,decide_eq_true_eq,beq_iff_eq] at hc
      omega

example : paramNames asciiLetters "char *buf, int n[4]".toList = ["buf".toList,"n".toList] := by
  decide

example : paramNames asciiLetters "int (*cb)(int), int n = 0".toList = [] := by decide

end ParameterNames
end EntryAnalyse
