import Mathlib.Data.Finset.Card
import Mathlib.Data.Finset.Max
import Mathlib.Data.List.Sort
import Mathlib.Tactic

/-! The newest `k` elements of a finite set under a rank, and keeping a store of that size while
elements come in. -/
namespace EntryAnalyse
namespace Newest

variable {ρ ω : Type} [LinearOrder ω] (rank : ρ → ω) (k : ℕ)

/-- What is ranked above `x`. -/
def above (S : Finset ρ) (x : ρ) : Finset ρ := S.filter fun y => rank x < rank y

/-- The elements with fewer than `k` others above them. -/
def newest (S : Finset ρ) : Finset ρ := S.filter fun x => (above rank S x).card < k

variable {rank k} {S T : Finset ρ} {x y : ρ}

@[simp] theorem mem_above : y ∈ above rank S x ↔ y ∈ S ∧ rank x < rank y := by simp [above]

@[simp] theorem mem_newest : x ∈ newest rank k S ↔ x ∈ S ∧ (above rank S x).card < k := by
  simp [newest]

theorem newest_subset : newest rank k S ⊆ S := Finset.filter_subset _ _

theorem above_mono (h : S ⊆ T) : above rank S x ⊆ above rank T x := Finset.filter_subset_filter _ h

variable [DecidableEq ρ]

/-- An element that is not among the newest has `k` of the newest above it. -/
theorem le_card_above (hx : x ∈ S) (hnot : x ∉ newest rank k S) :
    k ≤ (above rank (newest rank k S) x).card := by
  -- the highest element that is not among the newest
  let B := S.filter fun y => y ∉ newest rank k S ∧ rank x ≤ rank y
  have hB : B.Nonempty := ⟨x,by simp [B,hx] at hnot ⊢; exact hnot⟩
  obtain ⟨w,hw,hmax⟩ := B.exists_max_image rank hB
  simp only [B,Finset.mem_filter] at hw hmax
  obtain ⟨hwS,hwnot,hle⟩ := hw
  have hk : k ≤ (above rank S w).card := by
    by_contra hlt
    exact hwnot (mem_newest.mpr ⟨hwS,by omega⟩)
  refine hk.trans (Finset.card_le_card fun y hy => ?_)
  obtain ⟨hyS,hlt⟩ := mem_above.mp hy
  refine mem_above.mpr ⟨?_,hle.trans_lt hlt⟩
  by_contra hynot
  exact absurd (hmax y ⟨hyS,hynot,hle.trans hlt.le⟩) (not_le.mpr hlt)

/-- The newest of what comes in and what was kept are the newest of all. -/
theorem newest_insert (x : ρ) :
    newest rank k (insert x (newest rank k S)) = newest rank k (insert x S) := by
  have hsub : insert x (newest rank k S) ⊆ insert x S := Finset.insert_subset_insert _ newest_subset
  ext y
  rw [mem_newest,mem_newest]
  constructor
  · rintro ⟨hy,hlt⟩
    refine ⟨hsub hy,?_⟩
    by_contra hge
    -- something above `y` is missing from what was kept
    obtain ⟨z,hz,hznot⟩ : ∃ z ∈ above rank (insert x S) y, z ∉ insert x (newest rank k S) := by
      by_contra hall
      push Not at hall
      have : above rank (insert x S) y ⊆ above rank (insert x (newest rank k S)) y := fun z hz =>
        mem_above.mpr ⟨hall z hz,(mem_above.mp hz).2⟩
      exact hge ((Finset.card_le_card this).trans_lt hlt)
    obtain ⟨hzS,hyz⟩ := mem_above.mp hz
    rw [Finset.mem_insert,not_or] at hznot
    have hk := le_card_above ((Finset.mem_insert.mp hzS).resolve_left hznot.1) hznot.2
    have hsub' : above rank (newest rank k S) z ⊆ above rank (insert x (newest rank k S)) y := by
      intro w hw
      obtain ⟨hw,hzw⟩ := mem_above.mp hw
      exact mem_above.mpr ⟨Finset.mem_insert_of_mem hw,hyz.trans hzw⟩
    exact absurd (hk.trans (Finset.card_le_card hsub')) (not_le.mpr hlt)
  · rintro ⟨hy,hlt⟩
    refine ⟨?_,(Finset.card_le_card (above_mono hsub)).trans_lt hlt⟩
    rcases Finset.mem_insert.mp hy with rfl | hyS
    · exact Finset.mem_insert_self _ _
    · refine Finset.mem_insert_of_mem (mem_newest.mpr ⟨hyS,?_⟩)
      exact (Finset.card_le_card (above_mono (Finset.subset_insert x S))).trans_lt hlt

omit [DecidableEq ρ] in
/-- A set that fits is kept whole. -/
theorem newest_of_card_le (h : S.card ≤ k) : newest rank k S = S := by
  refine Finset.Subset.antisymm newest_subset fun x hx => mem_newest.mpr ⟨hx,?_⟩
  have hlt : (above rank S x).card < S.card := by
    apply Finset.card_lt_card
    refine ⟨Finset.filter_subset _ _,fun hsub => ?_⟩
    have := hsub hx
    simp at this
  omega

theorem newest_union (S T : Finset ρ) :
    newest rank k (newest rank k S ∪ T) = newest rank k (S ∪ T) := by
  have hself : newest rank k (newest rank k S) = newest rank k S := by
    ext y
    rw [mem_newest]
    refine ⟨fun h => h.1,fun h => ⟨h,?_⟩⟩
    exact (Finset.card_le_card (above_mono newest_subset)).trans_lt (mem_newest.mp h).2
  induction T using Finset.induction with
  | empty => simpa using hself
  | insert x T _ ih => rw [Finset.union_insert,Finset.union_insert,← newest_insert,ih,newest_insert]

theorem card_newest_le (hinj : Set.InjOn rank S) : (newest rank k S).card ≤ k := by
  rcases (newest rank k S).eq_empty_or_nonempty with hempty | hne
  · simp [hempty]
  · obtain ⟨m,hm,hmin⟩ := (newest rank k S).exists_min_image rank hne
    have hmem := mem_newest.mp hm
    have hsub : (newest rank k S).erase m ⊆ above rank S m := by
      intro y hy
      obtain ⟨hym,hy⟩ := Finset.mem_erase.mp hy
      have hyS := newest_subset hy
      refine mem_above.mpr ⟨hyS,lt_of_le_of_ne (hmin y hy) fun heq => ?_⟩
      exact hym (hinj hyS hmem.1 heq.symm)
    have := Finset.card_le_card hsub
    rw [Finset.card_erase_of_mem hm] at this
    omega

/-! ### Sorted lists -/

/-- The newest `k` of a list in ascending order are its last `k`. -/
theorem mem_drop_iff {l : List ρ} (hl : l.Pairwise fun a b => rank a < rank b) :
    x ∈ l.drop (l.length - k) ↔ x ∈ newest rank k l.toFinset := by
  induction l with
  | nil => simp
  | cons a l ih =>
    obtain ⟨ha,hl⟩ := List.pairwise_cons.mp hl
    have hnot : a ∉ l := fun h => lt_irrefl _ (ha a h)
    have hnodup : l.Nodup := hl.imp fun h => ne_of_apply_ne rank h.ne
    -- nothing in front counts as above
    have htail {y : ρ} (hy : y ∈ l) :
        above rank (a :: l).toFinset y = above rank l.toFinset y := by
      ext z
      simp only [mem_above,List.toFinset_cons,Finset.mem_insert,List.mem_toFinset]
      constructor
      · rintro ⟨rfl | hz,hlt⟩
        · exact absurd (ha y hy) hlt.not_gt
        · exact ⟨hz,hlt⟩
      · rintro ⟨hz,hlt⟩
        exact ⟨.inr hz,hlt⟩
    have hhead : above rank (a :: l).toFinset a = l.toFinset := by
      ext z
      simp only [mem_above,List.toFinset_cons,Finset.mem_insert,List.mem_toFinset]
      constructor
      · rintro ⟨rfl | hz,hlt⟩
        · exact absurd hlt (lt_irrefl _)
        · exact hz
      · exact fun hz => ⟨.inr hz,ha z hz⟩
    rw [mem_newest]
    by_cases hlen : l.length < k
    · rw [List.length_cons,show l.length + 1 - k = 0 by omega,List.drop_zero]
      have hall : newest rank k (a :: l).toFinset = (a :: l).toFinset :=
        newest_of_card_le ((List.toFinset_card_le _).trans (by simp; omega))
      rw [← mem_newest,hall,List.mem_toFinset]
    · rw [List.length_cons,show l.length + 1 - k = (l.length - k) + 1 by omega,
        List.drop_succ_cons,ih hl,mem_newest]
      constructor
      · rintro ⟨hx,hlt⟩
        rw [List.mem_toFinset] at hx
        exact ⟨by simp [hx],by rwa [htail hx]⟩
      · rintro ⟨hx,hlt⟩
        rcases List.mem_cons.mp (List.mem_toFinset.mp hx) with rfl | hx
        · rw [hhead,List.toFinset_card_of_nodup hnodup] at hlt
          omega
        · exact ⟨List.mem_toFinset.mpr hx,by rwa [← htail hx]⟩

end Newest
end EntryAnalyse
