import Mathlib.Data.List.Sort
import Mathlib.Tactic

/-! Ranges of line numbers, both ends included: the sweep that merges overlapping and adjacent
ranges, and the blocks between them. -/
namespace EntryAnalyse
namespace LineRanges

abbrev LineRange := ℤ × ℤ

/-- Line `i` lies in one of the ranges. -/
def Covers (l : List LineRange) (i : ℤ) : Prop := ∃ r ∈ l, r.1 ≤ i ∧ i ≤ r.2

/-- Each range ends where it begins or later, and before the next one begins. -/
def Ordered (l : List LineRange) : Prop :=
  (∀ r ∈ l, r.1 ≤ r.2) ∧ l.Pairwise (fun a b => a.2 < b.1)

/-- The ranges in increasing order of their first lines. -/
def Sorted (l : List LineRange) : Prop := l.Pairwise (fun a b => a.1 ≤ b.1)

/-- The sweep, with the range that may still grow. -/
def mergeFrom : LineRange → List LineRange → List LineRange
  | cur,[] => [cur]
  | cur,r :: rs =>
    if r.1 ≤ cur.2 + 1 then mergeFrom (cur.1,max cur.2 r.2) rs else cur :: mergeFrom r rs

def merge : List LineRange → List LineRange
  | [] => []
  | r :: rs => mergeFrom r rs

/-- What lies between the ranges, from behind line `p` on. -/
def between : ℤ → List LineRange → List LineRange
  | _,[] => []
  | p,r :: rs => (p + 1,r.1 - 1) :: between r.2 rs

example : merge [(2,4),(5,6),(9,9)] = [(2,6),(9,9)] := by decide
example : between 0 [(2,6),(9,9),(13,13)] = [(1,1),(7,8),(10,12)] := by decide

@[simp] theorem covers_nil (i : ℤ) : ¬Covers [] i := fun ⟨_,h,_⟩ => List.not_mem_nil h

@[simp] theorem covers_cons (r : LineRange) (l : List LineRange) (i : ℤ) :
    Covers (r :: l) i ↔ (r.1 ≤ i ∧ i ≤ r.2) ∨ Covers l i := by
  simp [Covers]

/-! ## Merging -/

section Merge

variable {cur : LineRange} {rs : List LineRange}

theorem Sorted.grow {r : LineRange} (h : Sorted (cur :: r :: rs)) (e : ℤ) :
    Sorted ((cur.1,e) :: rs) := by
  obtain ⟨hcur,hr⟩ := List.pairwise_cons.mp h
  exact List.pairwise_cons.mpr ⟨fun m hm => hcur m (List.mem_cons_of_mem _ hm),
    (List.pairwise_cons.mp hr).2⟩

/-- The sweep covers the same lines. -/
theorem covers_mergeFrom (h : Sorted (cur :: rs)) (i : ℤ) :
    Covers (mergeFrom cur rs) i ↔ Covers (cur :: rs) i := by
  induction rs generalizing cur with
  | nil => rfl
  | cons r rs ih =>
    have hle : cur.1 ≤ r.1 := (List.pairwise_cons.mp h).1 r List.mem_cons_self
    rw [mergeFrom]
    split
    · rename_i hr
      rw [ih (h.grow _)]
      simp only [covers_cons]
      rw [← or_assoc]
      refine or_congr_left ?_
      omega
    · rw [covers_cons,ih (List.pairwise_cons.mp h).2,covers_cons cur (r :: rs)]

theorem fst_mergeFrom (h : Sorted (cur :: rs)) : ∀ m ∈ mergeFrom cur rs, cur.1 ≤ m.1 := by
  induction rs generalizing cur with
  | nil =>
    intro m hm
    rw [List.mem_singleton.mp hm]
  | cons r rs ih =>
    have hle : cur.1 ≤ r.1 := (List.pairwise_cons.mp h).1 r List.mem_cons_self
    intro m hm
    rw [mergeFrom] at hm
    split at hm
    · exact ih (h.grow (max cur.2 r.2)) m hm
    · rcases List.mem_cons.mp hm with rfl | hm
      · exact le_rfl
      · exact hle.trans (ih (List.pairwise_cons.mp h).2 m hm)

theorem snd_mergeFrom {t : ℤ} (h : ∀ r ∈ cur :: rs, r.2 ≤ t) : ∀ m ∈ mergeFrom cur rs, m.2 ≤ t := by
  induction rs generalizing cur with
  | nil =>
    intro m hm
    exact h m hm
  | cons r rs ih =>
    have hcur := h cur List.mem_cons_self
    have hr := h r (List.mem_cons_of_mem _ List.mem_cons_self)
    have hrs : ∀ m ∈ rs, m.2 ≤ t := fun m hm =>
      h m (List.mem_cons_of_mem _ (List.mem_cons_of_mem _ hm))
    intro m hm
    rw [mergeFrom] at hm
    split at hm
    · exact ih (List.forall_mem_cons.mpr ⟨max_le hcur hr,hrs⟩) m hm
    · rcases List.mem_cons.mp hm with rfl | hm
      · exact hcur
      · exact ih (List.forall_mem_cons.mpr ⟨hr,hrs⟩) m hm

/-- What the sweep gives is separated, even where a range is inverted. -/
theorem pairwise_mergeFrom (h : Sorted (cur :: rs)) :
    (mergeFrom cur rs).Pairwise (fun a b => a.2 < b.1) := by
  induction rs generalizing cur with
  | nil => exact List.pairwise_singleton _ _
  | cons r rs ih =>
    rw [mergeFrom]
    split
    · exact ih (h.grow _)
    · rename_i hr
      have hrs : Sorted (r :: rs) := (List.pairwise_cons.mp h).2
      refine List.pairwise_cons.mpr ⟨fun m hm => ?_,ih hrs⟩
      have hm := fst_mergeFrom hrs m hm
      omega

end Merge

/-! ## Inverted ranges -/

/-- An inverted range does no harm where one before it reaches its first line or the line before
that, or where it ends on that line and another one begins with it. -/
def Harmless (before : List LineRange) (r : LineRange) (behind : List LineRange) : Prop :=
  (∃ g ∈ before, r.1 - 1 ≤ g.2) ∨ (r.2 = r.1 - 1 ∧ ∃ g ∈ behind, g.1 = r.1 ∧ r.1 ≤ g.2)

/-- No inverted range does harm. -/
def Sound (l : List LineRange) : Prop :=
  ∀ pre r post, l = pre ++ r :: post → r.2 < r.1 → Harmless pre r post

theorem forall_split_cons {α : Type} {P : List α → α → List α → Prop} {x : α} {l : List α} :
    (∀ pre r post, x :: l = pre ++ r :: post → P pre r post) ↔
      P [] x l ∧ ∀ pre r post, l = pre ++ r :: post → P (x :: pre) r post := by
  constructor
  · intro h
    exact ⟨h [] x l rfl,fun pre r post hl => h (x :: pre) r post (by rw [hl,List.cons_append])⟩
  · rintro ⟨hx,h⟩ pre r post hl
    cases pre with
    | nil =>
      cases hl
      exact hx
    | cons y pre =>
      obtain ⟨rfl,hl'⟩ := List.cons.inj hl
      exact h pre r post hl'

section Inverted

variable {cur : LineRange} {rs : List LineRange}

/-- The range that the sweep grows is none, unless another one begins on the same line. -/
def Grows (cur : LineRange) (rs : List LineRange) : Prop :=
  cur.2 < cur.1 → cur.2 = cur.1 - 1 ∧ ∃ g ∈ rs, g.1 = cur.1 ∧ cur.1 ≤ g.2

theorem sound_cons : Sound (cur :: rs) ↔ Grows cur rs ∧
    ∀ pre r post, rs = pre ++ r :: post → r.2 < r.1 → Harmless (cur :: pre) r post := by
  rw [Sound,forall_split_cons (P := fun pre r post => r.2 < r.1 → Harmless pre r post)]
  refine and_congr_left fun _ => ?_
  simp [Harmless,Grows]

/-- A range that is absorbed leaves the larger end behind. -/
theorem harmless_absorb {r₀ r : LineRange} {pre post : List LineRange} :
    Harmless ((cur.1,max cur.2 r₀.2) :: pre) r post ↔ Harmless (cur :: r₀ :: pre) r post := by
  simp only [Harmless,List.exists_mem_cons_iff,le_max_iff,or_assoc]

theorem grows_absorb {r₀ : LineRange} (hle : cur.1 ≤ r₀.1) (h : r₀.1 ≤ cur.2 + 1) :
    Grows (cur.1,max cur.2 r₀.2) rs ↔ Grows cur (r₀ :: rs) := by
  simp only [Grows,List.exists_mem_cons_iff]
  by_cases hcur : cur.2 < cur.1
  · by_cases hr : r₀.2 < cur.1
    · have hmax : max cur.2 r₀.2 = cur.2 := by omega
      have hno : ¬(r₀.1 = cur.1 ∧ cur.1 ≤ r₀.2) := by omega
      rw [hmax]
      simp only [hno,false_or]
    · have hmax : ¬max cur.2 r₀.2 < cur.1 := by omega
      have hyes : r₀.1 = cur.1 ∧ cur.1 ≤ r₀.2 := by omega
      have heq : cur.2 = cur.1 - 1 := by omega
      simp [hyes,heq]
  · have hmax : ¬max cur.2 r₀.2 < cur.1 := by omega
    simp [hmax,hcur]

theorem proper_mergeFrom (h : Sorted (cur :: rs)) :
    (∀ m ∈ mergeFrom cur rs, m.1 ≤ m.2) ↔ Sound (cur :: rs) := by
  induction rs generalizing cur with
  | nil => simp [mergeFrom,sound_cons,Grows]
  | cons r₀ rs ih =>
    have hle : cur.1 ≤ r₀.1 := (List.pairwise_cons.mp h).1 r₀ List.mem_cons_self
    have hrs : Sorted (r₀ :: rs) := (List.pairwise_cons.mp h).2
    have hbegin : ∀ r ∈ r₀ :: rs, r₀.1 ≤ r.1 :=
      List.forall_mem_cons.mpr ⟨le_rfl,(List.pairwise_cons.mp hrs).1⟩
    rw [sound_cons,forall_split_cons
      (P := fun pre r post => r.2 < r.1 → Harmless (cur :: pre) r post),mergeFrom]
    split
    · rename_i hr
      rw [ih (h.grow _),sound_cons,grows_absorb hle hr]
      have hfirst : r₀.2 < r₀.1 → Harmless [cur] r₀ rs := fun _ =>
        Or.inl ⟨cur,List.mem_singleton_self _,by omega⟩
      simp only [harmless_absorb]
      exact and_congr_right fun _ => (and_iff_right hfirst).symm
    · rename_i hr
      have hcur : Grows cur (r₀ :: rs) ↔ cur.1 ≤ cur.2 := by
        refine ⟨fun hg => ?_,fun hc hn => absurd hn (not_lt.mpr hc)⟩
        by_contra hn
        obtain ⟨hend,g,hg,hbeg,-⟩ := hg (by omega)
        have hg := hbegin g hg
        omega
      have hfirst : (r₀.2 < r₀.1 → Harmless [cur] r₀ rs) ↔ Grows r₀ rs := by
        refine forall_congr' fun _ => ⟨fun hh => ?_,Or.inr⟩
        rcases hh with ⟨g,hg,hreach⟩ | hh
        · rw [List.mem_singleton.mp hg] at hreach
          omega
        · exact hh
      have hlater : ∀ pre r post, rs = pre ++ r :: post →
          (Harmless (cur :: r₀ :: pre) r post ↔ Harmless (r₀ :: pre) r post) := by
        intro pre r post hl
        have hrb := hbegin r (by rw [hl]; simp)
        refine or_congr_left ?_
        rw [List.exists_mem_cons_iff,or_iff_right]
        omega
      rw [List.forall_mem_cons,ih hrs,hcur,sound_cons,hfirst]
      refine and_congr_right fun _ => and_congr_right fun _ => ?_
      refine forall_congr' fun pre => forall_congr' fun r => forall_congr' fun post =>
        forall_congr' fun hl => ?_
      rw [hlater pre r post hl]

end Inverted

section Ordered

variable {l : List LineRange} {t : ℤ}

theorem covers_merge (h : Sorted l) (i : ℤ) : Covers (merge l) i ↔ Covers l i := by
  cases l with
  | nil => rfl
  | cons r rs => exact covers_mergeFrom h i

theorem first_merge (h : Sorted l) {k : ℤ} (hk : ∀ r ∈ l, k ≤ r.1) :
    ∀ m ∈ merge l, k ≤ m.1 := by
  cases l with
  | nil => exact fun m hm => absurd hm List.not_mem_nil
  | cons r rs => exact fun m hm => (hk r List.mem_cons_self).trans (fst_mergeFrom h m hm)

theorem last_merge (ht : ∀ r ∈ l, r.2 ≤ t) :
    ∀ m ∈ merge l, m.2 ≤ t := by
  cases l with
  | nil => exact fun m hm => absurd hm List.not_mem_nil
  | cons r rs => exact snd_mergeFrom ht

/-- The merged ranges are in order exactly where no inverted one does harm. -/
theorem ordered_merge_iff (h : Sorted l) : Ordered (merge l) ↔ Sound l := by
  cases l with
  | nil => simp [merge,Ordered,Sound]
  | cons r rs =>
    rw [Ordered,merge,proper_mergeFrom h]
    exact and_iff_left (pairwise_mergeFrom h)

end Ordered

/-! ## Blocks -/

/-- A block of lines that no range covers, as long as possible between `1` and `t`. -/
structure Block (l : List LineRange) (p t : ℤ) (b : LineRange) : Prop where
  first : p + 1 ≤ b.1
  nonempty : b.1 ≤ b.2
  last : b.2 ≤ t
  free : ∀ k, b.1 ≤ k → k ≤ b.2 → ¬Covers l k
  begins : b.1 = p + 1 ∨ Covers l (b.1 - 1)
  ends : b.2 = t ∨ Covers l (b.2 + 1)

theorem Block.unique {l : List LineRange} {p t i : ℤ} {b c : LineRange} (hb : Block l p t b)
    (hc : Block l p t c) (hib : b.1 ≤ i ∧ i ≤ b.2) (hic : c.1 ≤ i ∧ i ≤ c.2) : b = c := by
  have hfirst : b.1 = c.1 := by
    rcases lt_trichotomy b.1 c.1 with h | h | h
    · rcases hc.begins with hp | hp
      · have := hb.first
        omega
      · exact absurd hp (hb.free _ (by omega) (by omega))
    · exact h
    · rcases hb.begins with hp | hp
      · have := hc.first
        omega
      · exact absurd hp (hc.free _ (by omega) (by omega))
  have hlast : b.2 = c.2 := by
    rcases lt_trichotomy b.2 c.2 with h | h | h
    · rcases hb.ends with hp | hp
      · have := hc.last
        omega
      · exact absurd hp (hc.free _ (by omega) (by omega))
    · exact h
    · rcases hc.ends with hp | hp
      · have := hb.last
        omega
      · exact absurd hp (hb.free _ (by omega) (by omega))
  exact Prod.ext hfirst hlast

theorem Block.congr {l l' : List LineRange} {p t : ℤ}
    (h : ∀ i, Covers l i ↔ Covers l' i)
    {b : LineRange} : Block l p t b ↔ Block l' p t b := by
  constructor
  · intro hb
    exact ⟨hb.first,hb.nonempty,hb.last,fun k hk hk' => (h k).not.mp (hb.free k hk hk'),
      hb.begins.imp_right (h _).mp,hb.ends.imp_right (h _).mp⟩
  · intro hb
    exact ⟨hb.first,hb.nonempty,hb.last,fun k hk hk' => (h k).not.mpr (hb.free k hk hk'),
      hb.begins.imp_right (h _).mpr,hb.ends.imp_right (h _).mpr⟩

theorem Block.apart {l : List LineRange} {p t : ℤ} {b m : LineRange} (hb : Block l p t b)
    (hm : m.1 ≤ m.2) (hcov : ∀ i, m.1 ≤ i → i ≤ m.2 → Covers l i) : m.2 < b.1 ∨ b.2 < m.1 := by
  by_contra hn
  rw [not_or,not_lt,not_lt] at hn
  have hnonempty := hb.nonempty
  exact hb.free (max m.1 b.1) (le_max_right _ _) (max_le hn.2 hnonempty)
    (hcov _ (le_max_left _ _) (max_le hm hn.1))

section Between

variable {l : List LineRange} {p t : ℤ}

/-- Ranges in order between line `p` and line `t`, `t` included. -/
structure Within (p t : ℤ) (l : List LineRange) : Prop where
  ordered : Ordered l
  first : ∀ r ∈ l, p < r.1
  last : ∀ r ∈ l, r.2 ≤ t

theorem Within.tail {r : LineRange} (h : Within p t (r :: l)) : Within r.2 t l where
  ordered := ⟨fun m hm => h.ordered.1 m (List.mem_cons_of_mem _ hm),
    (List.pairwise_cons.mp h.ordered.2).2⟩
  first := (List.pairwise_cons.mp h.ordered.2).1
  last m hm := h.last m (List.mem_cons_of_mem _ hm)

theorem Within.not_covers (h : Within p t l) {i : ℤ} (hi : i ≤ p) : ¬Covers l i := by
  rintro ⟨r,hr,hle,-⟩
  have := h.first r hr
  omega

/-- What lies between ordered ranges are exactly the blocks. -/
theorem mem_between_iff (h : Within p t l) {b : LineRange} (hb : b.1 ≤ b.2) :
    b ∈ between p (l ++ [(t + 1,t + 1)]) ↔ Block l p t b := by
  induction l generalizing p with
  | nil =>
    rw [List.nil_append,between,between,List.mem_singleton]
    constructor
    · rintro rfl
      exact ⟨le_rfl,hb,by simp,fun k _ _ => covers_nil k,.inl rfl,.inl (by simp)⟩
    · intro hblock
      have hfirst := hblock.begins.resolve_right (covers_nil _)
      have hlast := hblock.ends.resolve_right (covers_nil _)
      refine Prod.ext hfirst ?_
      rw [hlast]
      exact (add_sub_cancel_right t 1).symm
  | cons r l ih =>
    have hp : p < r.1 := h.first r List.mem_cons_self
    have hr : r.1 ≤ r.2 := h.ordered.1 r List.mem_cons_self
    have ht : r.2 ≤ t := h.last r List.mem_cons_self
    rw [List.cons_append,between,List.mem_cons,ih h.tail]
    constructor
    · rintro (rfl | hblock)
      · refine ⟨le_rfl,hb,by simp only; omega,fun k hk hk' => ?_,.inl rfl,.inr ?_⟩
        · rw [covers_cons,not_or]
          simp only at hk'
          exact ⟨by omega,h.tail.not_covers (by omega)⟩
        · rw [covers_cons]
          exact .inl ⟨by simp,by simp only; omega⟩
      · have hbr := hblock.first
        refine ⟨by omega,hb,hblock.last,fun k hk hk' => ?_,.inr ?_,?_⟩
        · rw [covers_cons,not_or]
          exact ⟨by omega,hblock.free k hk hk'⟩
        · rw [covers_cons]
          rcases hblock.begins with hbeg | hbeg
          · exact .inl ⟨by omega,by omega⟩
          · exact .inr hbeg
        · rw [covers_cons]
          exact hblock.ends.imp_right Or.inr
    · intro hblock
      have hfree : ∀ k, b.1 ≤ k → k ≤ b.2 → ¬(r.1 ≤ k ∧ k ≤ r.2) := fun k hk hk' hc =>
        hblock.free k hk hk' ((covers_cons r l k).mpr (.inl hc))
      have hfirst := hblock.first
      by_cases hleft : b.1 < r.1
      · have hend : b.2 < r.1 := by
          by_contra hn
          exact hfree r.1 (by omega) (by omega) ⟨le_rfl,hr⟩
        refine .inl (Prod.ext ?_ ?_)
        · rcases hblock.begins with hbeg | hbeg
          · exact hbeg
          · rw [covers_cons] at hbeg
            rcases hbeg with hbeg | hbeg
            · omega
            · exact absurd hbeg (h.tail.not_covers (by omega))
        · rcases hblock.ends with hlast | hlast
          · omega
          · rw [covers_cons] at hlast
            rcases hlast with hlast | hlast
            · simp only
              omega
            · exact absurd hlast (h.tail.not_covers (by omega))
      · have hbehind : r.2 < b.1 := by
          by_contra hn
          exact hfree b.1 le_rfl hb ⟨by omega,by omega⟩
        refine .inr ⟨by omega,hb,hblock.last,fun k hk hk' hc => ?_,?_,?_⟩
        · exact hblock.free k hk hk' ((covers_cons r l k).mpr (.inr hc))
        · rcases hblock.begins with hbeg | hbeg
          · omega
          · rw [covers_cons] at hbeg
            exact hbeg.imp_left fun hc => by omega
        · refine hblock.ends.imp_right fun hc => ?_
          rw [covers_cons] at hc
          exact hc.resolve_left (by omega)

/-- A line that is not covered lies in one of them. -/
theorem exists_between {i : ℤ} (hp : p < i) (hi : ¬Covers l i) (ht : i ≤ t) :
    ∃ b ∈ between p (l ++ [(t + 1,t + 1)]), b.1 ≤ i ∧ i ≤ b.2 := by
  induction l generalizing p with
  | nil => exact ⟨_,List.mem_cons_self,by simp only; omega,by simp only; omega⟩
  | cons r l ih =>
    rw [covers_cons,not_or] at hi
    rw [List.cons_append,between]
    by_cases hr : i < r.1
    · exact ⟨_,List.mem_cons_self,by simp only; omega,by simp only; omega⟩
    · obtain ⟨b,hb,hbi⟩ := ih (p := r.2) (by omega) hi.2
      exact ⟨b,List.mem_cons_of_mem _ hb,hbi⟩

theorem between_first {s : List LineRange} (h : s.Pairwise (fun a b => a.2 < b.1))
    (hp : ∀ r ∈ s, p < r.1) (hproper : ∀ r ∈ s, r.1 ≤ r.2) :
    ∀ b ∈ between p s, p < b.1 := by
  induction s generalizing p with
  | nil => exact fun b hb => absurd hb List.not_mem_nil
  | cons r s ih =>
    intro b hb
    rcases List.mem_cons.mp hb with rfl | hb
    · exact Int.lt_succ p
    · have hr := hproper r List.mem_cons_self
      have hpr := hp r List.mem_cons_self
      have hb := ih (List.pairwise_cons.mp h).2 (List.pairwise_cons.mp h).1
        (fun m hm => hproper m (List.mem_cons_of_mem _ hm)) b hb
      omega

theorem between_pairwise {s : List LineRange} (h : s.Pairwise (fun a b => a.2 < b.1))
    (hproper : ∀ r ∈ s, r.1 ≤ r.2) : (between p s).Pairwise (fun a b => a.2 < b.1) := by
  induction s generalizing p with
  | nil => exact .nil
  | cons r s ih =>
    have hr := hproper r List.mem_cons_self
    have hproper' : ∀ m ∈ s, m.1 ≤ m.2 := fun m hm => hproper m (List.mem_cons_of_mem _ hm)
    refine List.pairwise_cons.mpr ⟨fun b hb => ?_,ih (List.pairwise_cons.mp h).2 hproper'⟩
    have hb := between_first (List.pairwise_cons.mp h).2 (List.pairwise_cons.mp h).1 hproper' b hb
    simp only
    omega

end Between

end LineRanges
end EntryAnalyse
