import EntryAnalyse.CallEdgeExtraction

/-! Which calls `extract_call_edges` returns, and how far they depend on the order in which the files
and the known functions are given. -/
namespace EntryAnalyse
namespace CallchainExtractor

open PyJson PyText

/-- The lines of a file; none if it cannot be read. -/
def Sources.linesOf (src : Sources) (filePath : String) : List Text :=
  ((src.read filePath).map (splitFrom [])).getD []

/-- The extraction returns a call of that type from the one function to the other on that line. -/
structure Recorded (src : Sources) (known : KeyedTable KnownFunc.funcHash) (files : List String)
    (caller callee : KnownFunc) (l : ℕ) (callType : CallType) : Prop where
  caller_mem : caller ∈ known.rows
  file : caller.filePath ∈ files ∧ caller.filePath ≠ ""
  first : firstNamed known callee.name = some callee
  found : Mention (src.linesOf caller.filePath) caller callee.name l callType ∨
    callType = .externTable ∧ firstDispatcher known caller.filePath = some caller ∧ callee ≠ caller ∧
      Declares src.isWord (src.linesOf caller.filePath) callee.name l ∧
      ∀ t, ¬Mention (src.linesOf caller.filePath) caller callee.name l t

section Specification
variable {src : Sources} {known : KeyedTable KnownFunc.funcHash} {files : List String}
  {caller callee f g : KnownFunc} {filePath name : String} {l : ℕ} {t t' : CallType} {e x : Edge}
  {lines : List Text}

theorem eq_of_hash (hf : f ∈ known.rows) (hg : g ∈ known.rows) (h : f.funcHash = g.funcHash) :
    f = g :=
  List.inj_on_of_nodup_map known.nodup hf hg h

theorem dispatcher_mem (h : firstDispatcher known filePath = some f) :
    f ∈ known.rows ∧ (f.filePath ≠ "" ∧ f.filePath = filePath) ∧ isDispatcher f = true := by
  have hp := List.find?_some h
  rw [Bool.and_eq_true,decide_eq_true_eq] at hp
  exact ⟨List.mem_of_find?_eq_some h,hp⟩

/-- The type of a call is settled by its line. -/
theorem Mention.type_unique (h : Mention lines caller name l t) (h' : Mention lines caller name l t') :
    t = t' := by
  obtain ⟨line,hline,code,hcode,hclass⟩ := h.line
  obtain ⟨line',hline',code',hcode',hclass'⟩ := h'.line
  cases hline.symm.trans hline'
  cases hcode.symm.trans hcode'
  exact Option.some.inj (hclass.symm.trans hclass')

theorem Recorded.type_unique (h : Recorded src known files caller callee l t)
    (h' : Recorded src known files caller callee l t') : t = t' := by
  rcases h.found with hm | ⟨rfl,-,-,-,hno⟩
  · rcases h'.found with hm' | ⟨-,-,-,-,hno'⟩
    · exact hm.type_unique hm'
    · exact absurd hm (hno' t)
  · rcases h'.found with hm' | ⟨rfl,-⟩
    · exact absurd hm' (hno t')
    · rfl

theorem not_mention_of_unread (h : src.read filePath = none) :
    ¬Mention (src.linesOf filePath) caller name l t := by
  intro hm
  obtain ⟨line,hline,-⟩ := hm.line
  unfold Sources.linesOf at hline
  rw [h] at hline
  simp at hline

theorem mem_bodyCalls : e ∈ bodyCalls src known lines filePath ↔
    ∃ caller ∈ known.rows, (caller.filePath ≠ "" ∧ caller.filePath = filePath) ∧
      ∃ callee, firstNamed known callee.name = some callee ∧ e.callerHash = caller.funcHash ∧
        e.calleeHash = callee.funcHash ∧ Mention lines caller callee.name e.callSiteLine e.callType := by
  unfold bodyCalls KnownFuncs.inFile
  rw [List.mem_flatMap]
  constructor
  · rintro ⟨caller,hcaller,he⟩
    obtain ⟨hmem,hfile⟩ := List.mem_filter.mp hcaller
    exact ⟨caller,hmem,of_decide_eq_true hfile,mem_scanBodyForCalls.mp he⟩
  · rintro ⟨caller,hmem,hfile,he⟩
    exact ⟨caller,List.mem_filter.mpr ⟨hmem,decide_eq_true hfile⟩,mem_scanBodyForCalls.mpr he⟩

theorem recorded_of_kept (hfile : filePath ∈ files) (h : Kept src known filePath e) :
    ∃ caller callee, e.callerHash = caller.funcHash ∧ e.calleeHash = callee.funcHash ∧
      Recorded src known files caller callee e.callSiteLine e.callType := by
  obtain ⟨text,htext,h⟩ := h
  have hlines : src.linesOf filePath = splitFrom [] text := by
    unfold Sources.linesOf
    rw [htext]
    rfl
  rw [← hlines] at h
  rcases h with h | ⟨h,hfree⟩
  · obtain ⟨caller,hmem,⟨hempty,rfl⟩,callee,hfirst,hcaller,hcallee,hm⟩ := mem_bodyCalls.mp h
    exact ⟨caller,callee,hcaller,hcallee,hmem,⟨hfile,hempty⟩,hfirst,Or.inl hm⟩
  · obtain ⟨caller,callee,hd,hfirst,hne,hdeclares,he⟩ := mem_externCalls.mp h
    obtain ⟨hmem,⟨hempty,rfl⟩,-⟩ := dispatcher_mem hd
    have htype : e.callType = .externTable := congrArg Edge.callType he
    refine ⟨caller,callee,congrArg Edge.callerHash he,congrArg Edge.calleeHash he,hmem,
      ⟨hfile,hempty⟩,hfirst,Or.inr ⟨htype,hd,fun h => hne (by rw [h]),hdeclares,fun t hm => ?_⟩⟩
    -- a mention on the line would have been recorded as a call
    have hb : (⟨caller.funcHash,callee.funcHash,e.callSiteLine,t⟩ : Edge) ∈
        bodyCalls src known (src.linesOf caller.filePath) caller.filePath :=
      mem_bodyCalls.mpr ⟨caller,hmem,⟨hempty,rfl⟩,callee,hfirst,rfl,rfl,hm⟩
    refine hfree _ hb ?_
    rw [he]
    rfl

theorem kept_of_recorded (hcaller : e.callerHash = caller.funcHash)
    (hcallee : e.calleeHash = callee.funcHash)
    (h : Recorded src known files caller callee e.callSiteLine e.callType) :
    Kept src known caller.filePath e := by
  cases htext : src.read caller.filePath with
  | none =>
    rcases h.found with hm | ⟨-,-,-,hdeclares,-⟩
    · exact absurd hm (not_mention_of_unread htext)
    · obtain ⟨line,hline,-⟩ := hdeclares.line
      unfold Sources.linesOf at hline
      rw [htext] at hline
      simp at hline
  | some text =>
    have hlines : src.linesOf caller.filePath = splitFrom [] text := by
      unfold Sources.linesOf
      rw [htext]
      rfl
    refine ⟨text,htext,?_⟩
    rw [← hlines]
    rcases h.found with hm | ⟨htype,hd,hne,hdeclares,hno⟩
    · left
      exact mem_bodyCalls.mpr ⟨caller,h.caller_mem,⟨h.file.2,rfl⟩,callee,h.first,hcaller,hcallee,hm⟩
    · refine Or.inr ⟨mem_externCalls.mpr ⟨caller,callee,hd,h.first,?_,hdeclares,?_⟩,?_⟩
      · exact fun heq => hne (eq_of_hash (name_of_firstNamed h.first).1 h.caller_mem heq)
      · rw [← hcaller,← hcallee,← htype]
      · intro b hb hsite
        obtain ⟨caller',hmem',-,callee',hfirst',hcaller',hcallee',hm⟩ := mem_bodyCalls.mp hb
        obtain ⟨hc,hrest⟩ := Prod.mk.inj hsite
        obtain ⟨hcallees,hl⟩ := Prod.mk.inj hrest
        rw [hcaller',hcaller] at hc
        rw [hcallee',hcallee] at hcallees
        rw [eq_of_hash hmem' h.caller_mem hc,eq_of_hash (name_of_firstNamed hfirst').1
          (name_of_firstNamed h.first).1 hcallees,hl] at hm
        exact hno _ hm

/-- What the extraction returns, told without its tables. -/
theorem mem_extractCallEdges : e ∈ extractCallEdges src known files ↔
    ∃ caller callee, e.callerHash = caller.funcHash ∧ e.calleeHash = callee.funcHash ∧
      Recorded src known files caller callee e.callSiteLine e.callType := by
  unfold extractCallEdges
  split
  · rename_i hnone
    refine iff_of_false List.not_mem_nil ?_
    rintro ⟨caller,callee,-,-,h⟩
    have hmem := h.caller_mem
    rw [List.isEmpty_iff.mp hnone] at hmem
    cases hmem
  · have hrow (y : Edge) (hy : y ∈ (files.foldl (scanFile src known) KeyedTable.empty).rows) :
        ∃ caller callee, y.callerHash = caller.funcHash ∧ y.calleeHash = callee.funcHash ∧
          Recorded src known files caller callee y.callSiteLine y.callType := by
      rcases mem_rows_scanFiles hy with hy | ⟨filePath,hfile,hy⟩
      · cases hy
      · exact recorded_of_kept hfile hy
    refine ⟨hrow e,?_⟩
    rintro ⟨caller,callee,hcaller,hcallee,h⟩
    have hkept := kept_of_recorded hcaller hcallee h
    have hkey : e.site ∈ (files.foldl (scanFile src known) KeyedTable.empty).keys :=
      mem_keys_scanFiles (Or.inl ⟨_,h.file.1,hkept⟩)
    obtain ⟨y,hy,hsite⟩ := List.mem_map.mp hkey
    obtain ⟨caller',callee',hcaller',hcallee',h'⟩ := hrow y hy
    obtain ⟨hc,hrest⟩ := Prod.mk.inj hsite
    obtain ⟨hcallees,hl⟩ := Prod.mk.inj hrest
    rw [hcaller',hcaller] at hc
    rw [hcallee',hcallee] at hcallees
    obtain rfl := eq_of_hash h'.caller_mem h.caller_mem hc
    obtain rfl := eq_of_hash (name_of_firstNamed h'.first).1 (name_of_firstNamed h.first).1 hcallees
    rw [hl] at h'
    have heq : e = y := Edge.ext (hcaller.trans hcaller'.symm) (hcallee.trans hcallee'.symm) hl.symm
      (h.type_unique h')
    rw [heq]
    exact hy

end Specification

/-! ## Order -/

/-- Wherever a name is taken for a call, or its declaration counts as one, no second function has that
name; and of the functions that such a declaration can count for there is one in the file. -/
structure Distinct (src : Sources) (known : KeyedTable KnownFunc.funcHash) (files : List String) :
    Prop where
  called : ∀ caller ∈ known.rows, caller.filePath ∈ files → caller.filePath ≠ "" →
    ∀ callee ∈ known.rows, ∀ l t, Mention (src.linesOf caller.filePath) caller callee.name l t →
      ∀ g ∈ known.rows, g.name = callee.name → g = callee
  declared : ∀ d ∈ known.rows, isDispatcher d = true → d.filePath ∈ files → d.filePath ≠ "" →
    ∀ callee ∈ known.rows, ∀ l, Declares src.isWord (src.linesOf d.filePath) callee.name l →
      ¬(callee.name = d.name ∧ callee.filePath = d.filePath) →
      (∀ t, ¬Mention (src.linesOf d.filePath) d callee.name l t) →
      (∀ g ∈ known.rows, g.name = callee.name → g = callee) ∧
        ∀ d' ∈ known.rows, isDispatcher d' = true → d'.filePath = d.filePath → d' = d

section Order
variable {src : Sources} {known known' : KeyedTable KnownFunc.funcHash} {files files' : List String}
  {caller callee d f g : KnownFunc} {l : ℕ} {t : CallType} {e : Edge}

/-- Two searches that each accept what the other one finds find the same. -/
theorem find_swap {α : Type} {p q : α → Bool} {xs : List α} {a b : α} (hp : xs.find? p = some a)
    (hq : xs.find? q = some b) (hpb : p b = true) (hqa : q a = true) : a = b := by
  induction xs with
  | nil => cases hp
  | cons x xs ih =>
    by_cases hpx : p x = true
    · rw [List.find?_cons_of_pos hpx] at hp
      cases hp
      rw [List.find?_cons_of_pos hqa] at hq
      exact Option.some.inj hq
    · rw [List.find?_cons_of_neg hpx] at hp
      by_cases hqx : q x = true
      · rw [List.find?_cons_of_pos hqx] at hq
        cases hq
        exact absurd hpb hpx
      · rw [List.find?_cons_of_neg hqx] at hq
        exact ih hp hq

theorem isDispatcher_of_name (h : f.name = g.name) : isDispatcher f = isDispatcher g := by
  unfold isDispatcher
  rw [h]

theorem Distinct.only (h : Distinct src known files)
    (hr : Recorded src known files caller callee l t) :
    ∀ g ∈ known.rows, g.name = callee.name → g = callee := by
  have hcallee := (name_of_firstNamed hr.first).1
  rcases hr.found with hm | ⟨-,hd,hne,hdeclares,hno⟩
  · exact h.called caller hr.caller_mem hr.file.1 hr.file.2 callee hcallee l t hm
  · obtain ⟨hmem,⟨hempty,-⟩,hdisp⟩ := dispatcher_mem hd
    refine (h.declared caller hmem hdisp hr.file.1 hempty callee hcallee l hdeclares ?_ hno).1
    -- of two dispatchers of one name in the file the first one is no callee of the other
    rintro ⟨hname,hfile⟩
    refine hne (find_swap hr.first hd ?_ ?_)
    · exact decide_eq_true hname.symm
    · rw [Bool.and_eq_true,decide_eq_true_eq,hfile,isDispatcher_of_name hname]
      exact ⟨⟨hempty,rfl⟩,hdisp⟩

theorem firstNamed_of_only (hmem : callee ∈ known.rows)
    (honly : ∀ g ∈ known.rows, g.name = callee.name → g = callee) :
    firstNamed known callee.name = some callee := by
  obtain ⟨g,hg⟩ : ∃ g, firstNamed known callee.name = some g := by
    rw [← Option.isSome_iff_exists]
    exact List.find?_isSome.mpr ⟨callee,hmem,decide_eq_true rfl⟩
  rw [hg,honly g (name_of_firstNamed hg).1 (name_of_firstNamed hg).2]

theorem Distinct.perm (h : Distinct src known files) (hperm : known'.rows.Perm known.rows) :
    Distinct src known' files := by
  obtain ⟨hcalled,hdeclared⟩ := h
  simp only [← hperm.mem_iff] at hcalled hdeclared
  exact ⟨hcalled,hdeclared⟩

/-- A call that is recorded under one order of the functions is recorded under another. -/
theorem Distinct.recorded (h : Distinct src known files) (hperm : known'.rows.Perm known.rows)
    (hr : Recorded src known files caller callee l t) :
    Recorded src known' files caller callee l t := by
  have honly := h.only hr
  have hcallee := (name_of_firstNamed hr.first).1
  have honly' : ∀ g ∈ known'.rows, g.name = callee.name → g = callee := fun g hg =>
    honly g (hperm.mem_iff.mp hg)
  refine ⟨hperm.mem_iff.mpr hr.caller_mem,hr.file,
    firstNamed_of_only (hperm.mem_iff.mpr hcallee) honly',hr.found.imp_right ?_⟩
  rintro ⟨htype,hd,hne,hdeclares,hno⟩
  refine ⟨htype,?_,hne,hdeclares,hno⟩
  obtain ⟨hmem,⟨hempty,-⟩,hdisp⟩ := dispatcher_mem hd
  have hother : ¬(callee.name = caller.name ∧ callee.filePath = caller.filePath) := fun hsame =>
    hne (honly caller hmem hsame.1.symm).symm
  obtain ⟨-,hsole⟩ :=
    h.declared caller hmem hdisp hr.file.1 hempty callee hcallee l hdeclares hother hno
  obtain ⟨d',hd'⟩ : ∃ d', firstDispatcher known' caller.filePath = some d' := by
    rw [← Option.isSome_iff_exists]
    refine List.find?_isSome.mpr ⟨caller,hperm.mem_iff.mpr hmem,?_⟩
    rw [Bool.and_eq_true,decide_eq_true_eq]
    exact ⟨⟨hempty,rfl⟩,hdisp⟩
  obtain ⟨hmem',⟨-,hfile'⟩,hdisp'⟩ := dispatcher_mem hd'
  rw [hd',hsole d' (hperm.mem_iff.mp hmem') hdisp' hfile']

theorem extract_subset_of_perm (h : Distinct src known files) (hperm : known'.rows.Perm known.rows)
    (he : e ∈ extractCallEdges src known files) : e ∈ extractCallEdges src known' files := by
  obtain ⟨caller,callee,hcaller,hcallee,hr⟩ := mem_extractCallEdges.mp he
  exact mem_extractCallEdges.mpr ⟨caller,callee,hcaller,hcallee,h.recorded hperm hr⟩

/-- The functions in another order. -/
theorem exists_reordered {rows : List KnownFunc} (h : rows.Perm known.rows) :
    ∃ known' : KeyedTable KnownFunc.funcHash, known'.rows = rows :=
  ⟨⟨rows,(h.map _).nodup_iff.mpr known.nodup⟩,rfl⟩

theorem exists_first (hf : f ∈ known.rows) :
    ∃ known' : KeyedTable KnownFunc.funcHash, known'.rows.Perm known.rows ∧
      ∃ rest, known'.rows = f :: rest := by
  have hperm := (List.perm_cons_erase hf).symm
  obtain ⟨known',hrows⟩ := exists_reordered hperm
  exact ⟨known',hrows ▸ hperm,_,hrows⟩

theorem exists_first_two (hf : f ∈ known.rows) (hg : g ∈ known.rows) (hne : g ≠ f) :
    ∃ known' : KeyedTable KnownFunc.funcHash, known'.rows.Perm known.rows ∧
      ∃ rest, known'.rows = f :: g :: rest := by
  have hg' : g ∈ known.rows.erase f := (List.mem_erase_of_ne hne).mpr hg
  have hperm : (f :: g :: (known.rows.erase f).erase g).Perm known.rows :=
    ((List.perm_cons_erase hg').symm.cons f).trans (List.perm_cons_erase hf).symm
  obtain ⟨known',hrows⟩ := exists_reordered hperm
  exact ⟨known',hrows ▸ hperm,_,hrows⟩

/-- A call that stays whatever the order is one of the only function of its name. -/
theorem only_of_stays
    (hstays : ∀ known', known'.rows.Perm known.rows → e ∈ extractCallEdges src known' files)
    (hcallee : callee ∈ known.rows) (he : e.calleeHash = callee.funcHash) :
    ∀ g ∈ known.rows, g.name = callee.name → g = callee := by
  intro g hg hname
  obtain ⟨known',hperm,rest,hrows⟩ := exists_first hg
  obtain ⟨caller',callee',-,hcallee',hr⟩ := mem_extractCallEdges.mp (hstays known' hperm)
  have hmem' := hperm.mem_iff.mp (name_of_firstNamed hr.first).1
  obtain rfl := eq_of_hash hcallee hmem' (he.symm.trans hcallee')
  have hfirst := hr.first
  unfold firstNamed at hfirst
  rw [hrows,List.find?_cons_of_pos (by simpa using hname)] at hfirst
  exact Option.some.inj hfirst

theorem firstNamed_head {rest : List KnownFunc} (hrows : known.rows = f :: rest) :
    firstNamed known f.name = some f := by
  unfold firstNamed
  rw [hrows,List.find?_cons_of_pos (by simp)]

theorem firstDispatcher_head {rest : List KnownFunc} (hrows : known.rows = f :: rest)
    (hempty : f.filePath ≠ "") (hdisp : isDispatcher f = true) :
    firstDispatcher known f.filePath = some f := by
  unfold firstDispatcher
  rw [hrows,List.find?_cons_of_pos (by simp [hempty,hdisp])]

/-- Some order of the functions has the one as the first dispatcher of its file and the other as the
first function of its name, unless each of them comes into question for both. -/
theorem exists_arranged (hd : d ∈ known.rows) (hdisp : isDispatcher d = true) (hempty : d.filePath ≠ "")
    (hcallee : callee ∈ known.rows) (hother : ¬(callee.name = d.name ∧ callee.filePath = d.filePath)) :
    ∃ known' : KeyedTable KnownFunc.funcHash, known'.rows.Perm known.rows ∧
      firstDispatcher known' d.filePath = some d ∧ firstNamed known' callee.name = some callee := by
  have hne : callee ≠ d := fun h => hother ⟨congrArg KnownFunc.name h,congrArg KnownFunc.filePath h⟩
  by_cases hname : callee.name = d.name
  · have hfile : callee.filePath ≠ d.filePath := fun h => hother ⟨hname,h⟩
    obtain ⟨known',hperm,rest,hrows⟩ := exists_first_two hcallee hd hne.symm
    refine ⟨known',hperm,?_,firstNamed_head hrows⟩
    unfold firstDispatcher
    rw [hrows,List.find?_cons_of_neg (by simp [hfile]),List.find?_cons_of_pos (by simp [hempty,hdisp])]
  · obtain ⟨known',hperm,rest,hrows⟩ := exists_first_two hd hcallee hne
    refine ⟨known',hperm,firstDispatcher_head hrows hempty hdisp,?_⟩
    unfold firstNamed
    rw [hrows,List.find?_cons_of_neg (by simpa using Ne.symm hname),List.find?_cons_of_pos (by simp)]

/-- The calls do not depend on the order of the functions exactly where the names are distinct. -/
theorem perm_free_iff : (∀ known', known'.rows.Perm known.rows → ∀ e,
    e ∈ extractCallEdges src known' files ↔ e ∈ extractCallEdges src known files) ↔
      Distinct src known files := by
  constructor
  · intro hfree
    -- a call under one order is one under every other
    have hstays (k₁ : KeyedTable KnownFunc.funcHash) (h₁ : k₁.rows.Perm known.rows) (e : Edge)
        (he : e ∈ extractCallEdges src k₁ files) :
        ∀ k₂, k₂.rows.Perm known.rows → e ∈ extractCallEdges src k₂ files := fun k₂ h₂ =>
      (hfree k₂ h₂ e).mpr ((hfree k₁ h₁ e).mp he)
    refine ⟨fun caller hcaller hfile hempty callee hcallee l t hm => ?_,
      fun d hd hdisp hfile hempty callee hcallee l hdeclares hother hno => ?_⟩
    · obtain ⟨k₁,h₁,rest,hrows⟩ := exists_first hcallee
      have he : (⟨caller.funcHash,callee.funcHash,l,t⟩ : Edge) ∈ extractCallEdges src k₁ files :=
        mem_extractCallEdges.mpr ⟨caller,callee,rfl,rfl,h₁.mem_iff.mpr hcaller,⟨hfile,hempty⟩,
          firstNamed_head hrows,Or.inl hm⟩
      exact only_of_stays (hstays k₁ h₁ _ he) hcallee rfl
    · obtain ⟨k₁,h₁,hdispatcher,hfirst⟩ := exists_arranged hd hdisp hempty hcallee hother
      have hne : callee ≠ d := fun h =>
        hother ⟨congrArg KnownFunc.name h,congrArg KnownFunc.filePath h⟩
      have he : (⟨d.funcHash,callee.funcHash,l,.externTable⟩ : Edge) ∈
          extractCallEdges src k₁ files :=
        mem_extractCallEdges.mpr ⟨d,callee,rfl,rfl,h₁.mem_iff.mpr hd,⟨hfile,hempty⟩,hfirst,
          Or.inr ⟨rfl,hdispatcher,hne,hdeclares,hno⟩⟩
      refine ⟨only_of_stays (hstays k₁ h₁ _ he) hcallee rfl,fun d' hd' hdisp' hfile' => ?_⟩
      obtain ⟨k₂,h₂,rest,hrows⟩ := exists_first hd'
      obtain ⟨caller',callee',hcaller',hcallee',hr⟩ :=
        mem_extractCallEdges.mp (hstays k₁ h₁ _ he k₂ h₂)
      obtain rfl := eq_of_hash hd (h₂.mem_iff.mp hr.caller_mem) hcaller'
      obtain rfl := eq_of_hash hcallee (h₂.mem_iff.mp (name_of_firstNamed hr.first).1) hcallee'
      rcases hr.found with hm | ⟨-,hdispatcher',-⟩
      · exact absurd hm (hno _)
      · have hempty' : d'.filePath ≠ "" := hfile' ▸ hempty
        rw [← hfile',firstDispatcher_head hrows hempty' hdisp'] at hdispatcher'
        exact Option.some.inj hdispatcher'
  · intro h known' hperm e
    exact ⟨extract_subset_of_perm (h.perm hperm) hperm.symm,extract_subset_of_perm h hperm⟩

end Order

/-! ## Each call -/

/-- What stands before the line comment of a line, which begins at the first `//`. -/
def CodeOf (line code : Text) : Prop :=
  ∃ comment, line = code ++ comment ∧ (comment = [] ∨ ['/','/'] <+: comment) ∧
    ∀ k < code.length, ¬['/','/'] <+: line.drop k

/-- The name is handed on: it stands behind `=`, `,` or an opening parenthesis. -/
def HandedOn (name code : Text) : Prop :=
  ∃ before spaces behind, code = before ++ (spaces ++ (name ++ behind)) ∧
    (∀ c ∈ spaces, pyIsSpace c = true) ∧ ∃ c ∈ before.getLast?, c ∈ ['=',',','(']

/-- A call that is returned joins known functions. One in a body stands on a line of the body of the
caller, with the whole name of the callee before the line comment, or with its name handed on there.
One of an extern table is a declaration in a block of extern lines, for a dispatcher of the file. -/
structure Justified (src : Sources) (known : KeyedTable KnownFunc.funcHash) (files : List String)
    (e : Edge) (caller callee : KnownFunc) : Prop where
  caller_known : caller ∈ known.rows ∧ e.callerHash = caller.funcHash
  callee_known : callee ∈ known.rows ∧ e.calleeHash = callee.funcHash
  other : callee ≠ caller
  file : caller.filePath ∈ files
  body : e.callType ≠ .externTable → InBody caller e.callSiteLine ∧
    ∃ line, (src.linesOf caller.filePath)[e.callSiteLine - 1]? = some line ∧ ∃ code, CodeOf line code ∧
      (e.callType = .direct → Whole callee.name.toList code) ∧
      (e.callType = .ptr → HandedOn callee.name.toList code)
  table : e.callType = .externTable → isDispatcher caller = true ∧
    Declares src.isWord (src.linesOf caller.filePath) callee.name e.callSiteLine

section Calls
variable {src : Sources} {known : KeyedTable KnownFunc.funcHash} {files : List String}
  {caller callee : KnownFunc} {line code name : Text} {e : Edge}

/-- By induction on the line, cut at the first `//`. -/
theorem codeOf_stripLineComment : CodeOf line (stripLineComment line) := by
  induction line with
  | nil => exact ⟨[],rfl,Or.inl rfl,by simp [stripLineComment]⟩
  | cons c cs ih =>
    unfold stripLineComment
    split
    · rename_i hslash
      obtain ⟨rfl,hhead⟩ := hslash
      obtain ⟨rest,rfl⟩ := List.head?_eq_some_iff.mp hhead
      exact ⟨_,rfl,Or.inr ⟨rest,rfl⟩,by simp⟩
    · rename_i hcode
      obtain ⟨comment,hcs,hcomment,hbefore⟩ := ih
      refine ⟨comment,by rw [List.cons_append,← hcs],hcomment,fun k hk => ?_⟩
      cases k with
      | zero =>
        rintro ⟨rest,hrest⟩
        rw [List.drop_zero] at hrest
        cases hrest
        exact hcode ⟨rfl,rfl⟩
      | succ k => exact hbefore k (Nat.lt_of_succ_lt_succ hk)

theorem eq_of_codePart (h : codePart line = some code) : code = stripLineComment line := by
  unfold codePart at h
  split at h
  · cases h
  · split at h
    · cases h
    · split at h
      · cases h
      · exact (Option.some.inj h).symm

theorem handedOn_of_ptrAssign (h : ptrAssign code name = true) : HandedOn name code := by
  unfold ptrAssign at h
  obtain ⟨⟨before,behind⟩,hmem,ho⟩ := List.any_eq_true.mp h
  rw [Bool.and_eq_true] at ho
  obtain ⟨c,hc,hmark⟩ := (Option.any_eq_true _ _).mp ho.1
  refine ⟨(before.dropWhile pyIsSpace).reverse,(before.takeWhile pyIsSpace).reverse,behind,?_,?_,c,?_,?_⟩
  · rw [← List.append_assoc,← List.reverse_append,List.takeWhile_append_dropWhile]
    exact mem_occurrences.mp hmem
  · intro d hd
    exact List.mem_takeWhile_imp (List.mem_reverse.mp hd)
  · rw [List.getLast?_reverse]
    exact hc
  · simpa using hmark

theorem direct_of_classified (h : classifyCallType code name = some .direct) :
    directCall code name = true := by
  unfold classifyCallType at h
  split at h
  · assumption
  · split at h <;> cases h

theorem ptr_of_classified (h : classifyCallType code name = some .ptr) : ptrAssign code name = true := by
  unfold classifyCallType at h
  split at h
  · cases h
  · split at h
    · assumption
    · cases h

theorem not_extern_of_classified : classifyCallType code name ≠ some .externTable := by
  unfold classifyCallType
  split
  · nofun
  · split <;> nofun

theorem exists_justified (he : e ∈ extractCallEdges src known files) :
    ∃ caller callee, Justified src known files e caller callee := by
  obtain ⟨caller,callee,hcaller,hcallee,hr⟩ := mem_extractCallEdges.mp he
  have hmem := (name_of_firstNamed hr.first).1
  rcases hr.found with hm | ⟨htype,hd,hne,hdeclares,-⟩
  · obtain ⟨line,hline,code,hcode,hclass⟩ := hm.line
    refine ⟨caller,callee,⟨hr.caller_mem,hcaller⟩,⟨hmem,hcallee⟩,
      fun h => hm.named.2 (congrArg KnownFunc.name h),hr.file.1,fun _ => ⟨hm.body,line,hline,code,?_,
      fun htype => ?_,fun htype => ?_⟩,fun htype => ?_⟩
    · rw [eq_of_codePart hcode]
      exact codeOf_stripLineComment
    · rw [htype] at hclass
      exact whole_of_directCall (direct_of_classified hclass)
    · rw [htype] at hclass
      exact handedOn_of_ptrAssign (ptr_of_classified hclass)
    · rw [htype] at hclass
      exact absurd hclass not_extern_of_classified
  · exact ⟨caller,callee,⟨hr.caller_mem,hcaller⟩,⟨hmem,hcallee⟩,hne,hr.file.1,
      fun h => absurd htype h,fun _ => ⟨(dispatcher_mem hd).2.2,hdeclares⟩⟩

end Calls

/-! ## Namesakes -/

/-- The calls as asked for: each one with the caller's body around it and the whole name of the callee
on its line, a namesake of the caller's own file before others; and no order plays a part. -/
structure CallsAgree (src : Sources) (known : KeyedTable KnownFunc.funcHash) (files : List String) :
    Prop where
  sound : ∀ e ∈ extractCallEdges src known files, ∃ caller ∈ known.rows, ∃ callee ∈ known.rows,
    e.callerHash = caller.funcHash ∧ e.calleeHash = callee.funcHash ∧ InBody caller e.callSiteLine ∧
    (∃ line, (src.linesOf caller.filePath)[e.callSiteLine - 1]? = some line ∧
      ∃ code, CodeOf line code ∧ Whole callee.name.toList code) ∧
    ∀ g ∈ known.rows, g.name = callee.name → g.filePath = caller.filePath →
      callee.filePath = caller.filePath
  order : ∀ known' files', known'.rows.Perm known.rows → files'.Perm files →
    ∀ e, e ∈ extractCallEdges src known' files' ↔ e ∈ extractCallEdges src known files

def externLineOfG : Text := ['e','x','t','e','r','n',' ','g','(',')',';']

/-- A file with an extern block, a handler that mentions `go`, and a function `g`. -/
def namesakeLines : List Text :=
  [externLineOfG,externLineOfG,externLineOfG,['h','a','n','d','l','e','r','(',')','\x7b'],
    ['p','=','g','o',';','\x7d'],['g','(',')','\x7b','\x7d']]

def namesakeSources : Sources where
  isWord c := c.isAlphanum || c == '_'
  order := id
  order_perm _ := List.Perm.refl _
  read filePath := if filePath = "m.c" then some (['\n'].intercalate namesakeLines) else none

def handler : KnownFunc := ⟨"h","handler","m.c",4,5⟩

/-- A second `g`, of another file, before the one of the file. -/
def namesakes : KeyedTable KnownFunc.funcHash :=
  ⟨[⟨"a","g","a.c",1,2⟩,⟨"b","g","m.c",6,6⟩,handler],by decide⟩

theorem linesOf_namesakes : namesakeSources.linesOf "m.c" = namesakeLines := by decide

end CallchainExtractor
end EntryAnalyse
