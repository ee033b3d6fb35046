import EntryAnalyse.CallchainClosure

/-! The classification of the kept functions over the closure of the call graph: when each one
that is not an external entry lies below an external entry. -/
namespace EntryAnalyse
namespace CallchainDb

open ShortestPath

/-- Every kept function has one category, each one that is not an external entry has a row of the
closure from an external entry, and kept functions are not all of the other categories. -/
def ClassesKept (closure : ClosureTable) (kept : List String)
    (detail : List (String × EntryCategory)) : Prop :=
  (∀ f ∈ kept, ∃! c, (f,c) ∈ detail) ∧
    (∀ f c, (f,c) ∈ detail → c ≠ .external →
      ∃ e, (e,.external) ∈ detail ∧ e ≠ f ∧ (e,f) ∈ closure.keys) ∧
    (kept ≠ [] → ∃ e ∈ kept, (e,.external) ∈ detail)

/-- Another kept function comes to `f` within `n` calls. -/
def Below (edges : CallEdges) (n : ℕ) (kept : List String) (f : String) : Prop :=
  ∃ g ∈ kept, g ≠ f ∧ Within (Calls edges) n g f

/-- A passive kept function below another one lies within `n` calls of an active kept function or
of one that is below no other. -/
def Rooted (edges : CallEdges) (n : ℕ) (kept aType : List String) : Prop :=
  ∀ f ∈ kept, f ∉ aType → Below edges n kept f →
    ∃ e ∈ kept, e ≠ f ∧ Within (Calls edges) n e f ∧ (e ∈ aType ∨ ¬Below edges n kept e)

section Classify

variable {cc : CallchainDb} {edges : CallEdges} {kept aType : List String} {n maxDepth : ℕ}

/-- The rows of the closure are the pairs of functions within `n` calls. -/
def ClosedUpTo (cc : CallchainDb) (edges : CallEdges) (n : ℕ) : Prop :=
  ∀ a d, (a,d) ∈ cc.closure.keys ↔ a ≠ d ∧ Within (Calls edges) n a d

theorem closedUpTo_build (cc : CallchainDb) (edges : CallEdges) (h : 1 ≤ n) :
    ClosedUpTo (cc.buildClosure edges n).1 edges n := by
  intro a d
  exact (upTo_build edges h).mem_keys

theorem hasKeptAncestor_iff (h : ClosedUpTo cc edges n) (f : String) :
    cc.hasKeptAncestor kept f = true ↔ Below edges n kept f := by
  unfold hasKeptAncestor Below
  rw [List.any_eq_true]
  constructor
  · rintro ⟨r,hr,hrow⟩
    simp only [Bool.and_eq_true,beq_iff_eq,bne_iff_ne,List.contains_iff_mem] at hrow
    obtain ⟨⟨hdesc,hkept⟩,hne⟩ := hrow
    have hkey := (h r.ancestor r.descendant).mp (List.mem_map.mpr ⟨r,hr,rfl⟩)
    rw [hdesc] at hkey
    exact ⟨r.ancestor,hkept,hne,hkey.2⟩
  · rintro ⟨g,hg,hne,hw⟩
    obtain ⟨r,hr,heq⟩ := List.mem_map.mp ((h g f).mpr ⟨hne,hw⟩)
    rw [Prod.mk.injEq] at heq
    refine ⟨r,hr,?_⟩
    rw [heq.1,heq.2]
    simp [hg,hne]

/-- What the first pass selects. -/
theorem isExternal_iff (h : ClosedUpTo cc edges n) (f : String) :
    cc.isExternal kept aType f = true ↔ f ∈ aType ∨ ¬Below edges n kept f := by
  unfold isExternal
  rw [Bool.or_eq_true,List.contains_iff_mem,Bool.not_eq_true',← Bool.not_eq_true,
    hasKeptAncestor_iff h]

theorem categoryOf_eq_external_iff {f : String} :
    cc.categoryOf kept aType maxDepth f = .external ↔ cc.isExternal kept aType f = true := by
  unfold categoryOf
  by_cases hext : cc.isExternal kept aType f = true
  · rw [if_pos hext]
    exact iff_of_true rfl hext
  · rw [if_neg hext]
    refine iff_of_false ?_ hext
    split <;> decide

theorem mem_classifyDetail {f : String} {c : EntryCategory} :
    (f,c) ∈ cc.classifyDetail kept aType maxDepth ↔
      f ∈ kept ∧ c = cc.categoryOf kept aType maxDepth f := by
  unfold classifyDetail
  rw [List.mem_map]
  constructor
  · rintro ⟨g,hg,heq⟩
    rw [Prod.mk.injEq] at heq
    obtain ⟨rfl,rfl⟩ := heq
    exact ⟨hg,rfl⟩
  · rintro ⟨hf,rfl⟩
    exact ⟨f,hf,rfl⟩

theorem mem_external (h : ClosedUpTo cc edges n) {f : String} :
    (f,.external) ∈ cc.classifyDetail kept aType maxDepth ↔
      f ∈ kept ∧ (f ∈ aType ∨ ¬Below edges n kept f) := by
  rw [mem_classifyDetail,eq_comm,categoryOf_eq_external_iff,isExternal_iff h]

/-- The classification over a closure up to `n` calls. -/
theorem classesKept_iff (h : ClosedUpTo cc edges n) :
    ClassesKept cc.closure kept (cc.classifyDetail kept aType maxDepth) ↔
      Rooted edges n kept aType := by
  constructor
  · rintro ⟨-,hbelow,-⟩ f hf hpassive hancestor
    have hnot : cc.categoryOf kept aType maxDepth f ≠ .external := by
      rw [ne_eq,categoryOf_eq_external_iff,isExternal_iff h]
      rintro (hactive | hnone)
      · exact hpassive hactive
      · exact hnone hancestor
    obtain ⟨e,he,hne,hkey⟩ := hbelow f _ (mem_classifyDetail.mpr ⟨hf,rfl⟩) hnot
    obtain ⟨hkept,hroot⟩ := (mem_external h).mp he
    exact ⟨e,hkept,hne,((h e f).mp hkey).2,hroot⟩
  · intro hrooted
    have hroot : ∀ f ∈ kept, ¬(f ∈ aType ∨ ¬Below edges n kept f) →
        ∃ e, (e,.external) ∈ cc.classifyDetail kept aType maxDepth ∧ e ≠ f ∧
          (e,f) ∈ cc.closure.keys := by
      intro f hf hnot
      rw [not_or,not_not] at hnot
      obtain ⟨e,he,hne,hw,hext⟩ := hrooted f hf hnot.1 hnot.2
      exact ⟨e,(mem_external h).mpr ⟨he,hext⟩,hne,(h e f).mpr ⟨hne,hw⟩⟩
    refine ⟨?_,?_,?_⟩
    · intro f hf
      refine ⟨_,mem_classifyDetail.mpr ⟨hf,rfl⟩,?_⟩
      intro c hc
      exact (mem_classifyDetail.mp hc).2
    · intro f c hfc hc
      obtain ⟨hf,rfl⟩ := mem_classifyDetail.mp hfc
      rw [ne_eq,categoryOf_eq_external_iff,isExternal_iff h] at hc
      exact hroot f hf hc
    · intro hkept
      obtain ⟨f,hf⟩ := List.exists_mem_of_ne_nil kept hkept
      by_cases hext : f ∈ aType ∨ ¬Below edges n kept f
      · exact ⟨f,hf,(mem_external h).mpr ⟨hf,hext⟩⟩
      · obtain ⟨e,he,-⟩ := hroot f hf hext
        exact ⟨e,((mem_external h).mp he).1,he⟩

end Classify

/-- After `build_closure` the classification keeps every class exactly when the kept functions
are rooted in the call graph. -/
theorem classification_complete_iff (cc : CallchainDb) (edges : CallEdges) {n : ℕ} (h : 1 ≤ n)
    (kept aType : List String) (maxDepth : ℕ) :
    ClassesKept (cc.buildClosure edges n).1.closure kept
        ((cc.buildClosure edges n).1.classifyEntryCategories kept aType maxDepth).2 ↔
      Rooted edges n kept aType :=
  classesKept_iff (closedUpTo_build cc edges h)

/-- Kept functions that do not call each other in circles, and that are within `n` calls wherever
one comes to another, are rooted. -/
theorem rooted_of_acyclic {edges : CallEdges} {n : ℕ} {kept aType : List String}
    (hnear : ∀ g ∈ kept, ∀ f ∈ kept, ∀ k, Walk (Calls edges) g f k → Within (Calls edges) n g f)
    (hcircle : ∀ g ∈ kept, ∀ f ∈ kept, g ≠ f → Within (Calls edges) n g f →
      ¬Within (Calls edges) n f g) :
    Rooted edges n kept aType := by
  have hjoin : ∀ a ∈ kept, ∀ b, ∀ c ∈ kept, Within (Calls edges) n a b →
      Within (Calls edges) n b c → Within (Calls edges) n a c := by
    rintro a ha b c hc ⟨j,-,hj⟩ ⟨k,-,hk⟩
    exact hnear a ha c hc (j + k) (hj.append hk)
  let above : {g // g ∈ kept} → {g // g ∈ kept} → Prop := fun g f =>
    g.1 ≠ f.1 ∧ Within (Calls edges) n g.1 f.1
  have hwf : WellFounded above := by
    have htrans : IsTrans _ above := by
      refine ⟨fun a b c hab hbc => ⟨?_,hjoin a.1 a.2 b.1 c.1 c.2 hab.2 hbc.2⟩⟩
      intro hac
      refine hcircle a.1 a.2 b.1 b.2 hab.1 hab.2 ?_
      rw [hac]
      exact hbc.2
    have hirrefl : Std.Irrefl above := ⟨fun a ha => ha.1 rfl⟩
    exact Finite.wellFounded_of_trans_of_irrefl above
  intro f hf _ hbelow
  obtain ⟨g,hg,hne,hw⟩ := hbelow
  -- the topmost of the kept functions above `f` has none above it
  obtain ⟨e,⟨hef,hew⟩,hmin⟩ := hwf.has_min {e | e.1 ≠ f ∧ Within (Calls edges) n e.1 f}
    ⟨⟨g,hg⟩,hne,hw⟩
  refine ⟨e.1,e.2,hef,hew,.inr ?_⟩
  rintro ⟨u,hu,hue,huw⟩
  refine hmin ⟨u,hu⟩ ⟨?_,hjoin u hu e.1 f hf huw hew⟩ ⟨hue,huw⟩
  intro huf
  refine hcircle u hu e.1 e.2 hue huw ?_
  rw [show u = f from huf]
  exact hew

/-- A receiver that calls a parser. -/
def chainEdges : CallEdges := ⟨[⟨"recv","parse",12⟩],by decide⟩

theorem chain_calls_classified :
    ClassesKept ((⟨.empty,.empty⟩ : CallchainDb).buildClosure chainEdges 10).1.closure
      ["recv","parse"] (((⟨.empty,.empty⟩ : CallchainDb).buildClosure chainEdges
        10).1.classifyEntryCategories ["recv","parse"] [] 2).2 := by
  have hclosed := closedUpTo_build (⟨.empty,.empty⟩ : CallchainDb) chainEdges
    (show 1 ≤ 10 by decide)
  refine (classification_complete_iff _ chainEdges (by decide) _ _ 2).mpr ?_
  intro f hf _ hbelow
  rw [← hasKeptAncestor_iff hclosed] at hbelow
  simp only [List.mem_cons,List.not_mem_nil,or_false] at hf
  rcases hf with rfl | rfl
  · exact absurd hbelow (by decide)
  · refine ⟨"recv",by simp,by decide,((hclosed "recv" "parse").mp (by decide)).2,.inr ?_⟩
    rw [← hasKeptAncestor_iff hclosed]
    decide

/-- Two passive functions that call each other. -/
def mutualEdges : CallEdges := ⟨[⟨"parse","handle",30⟩,⟨"handle","parse",44⟩],by decide⟩

/-- Both are dropped from the report, and no entry is left. -/
theorem mutual_calls_unlisted :
    ((⟨.empty,.empty⟩ : CallchainDb).buildClosure mutualEdges 10).1.classifyDetail
        ["parse","handle"] [] 2 = [("parse",.internal),("handle",.internal)] ∧
      ¬ClassesKept ((⟨.empty,.empty⟩ : CallchainDb).buildClosure mutualEdges 10).1.closure
        ["parse","handle"] (((⟨.empty,.empty⟩ : CallchainDb).buildClosure mutualEdges
          10).1.classifyEntryCategories ["parse","handle"] [] 2).2 := by
  have hdetail : ((⟨.empty,.empty⟩ : CallchainDb).buildClosure mutualEdges 10).1.classifyDetail
      ["parse","handle"] [] 2 = [("parse",.internal),("handle",.internal)] := by decide
  refine ⟨hdetail,?_⟩
  rintro ⟨-,-,hsome⟩
  obtain ⟨e,-,he⟩ := hsome (by simp)
  have hmem : (e,EntryCategory.external) ∈ ((⟨.empty,.empty⟩ : CallchainDb).buildClosure
      mutualEdges 10).1.classifyDetail ["parse","handle"] [] 2 := he
  rw [hdetail] at hmem
  simp at hmem

end CallchainDb
end EntryAnalyse
