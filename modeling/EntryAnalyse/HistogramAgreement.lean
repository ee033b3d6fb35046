import EntryAnalyse.Interpolation

/-! When a sequence of buckets is interpolated as a cumulative histogram over the same bounds is:
a condition at each positive bound. -/
namespace EntryAnalyse
namespace Interpolation

variable {α : Type} [Field α] [LinearOrder α] [IsStrictOrderedRing α]
variable {t lo before : α} {b : Bucket α} {P Z : List (Bucket α)}

/-- The count of the last bucket. -/
def total (X : List (Bucket α)) : α := countFrom 0 X

omit [IsStrictOrderedRing α] in
theorem reached_of_le_total {X : List (Bucket α)} (ht : 0 < t) (le : t ≤ total X) :
    ∃ r ∈ X, t ≤ r.2 := by
  rcases X.eq_nil_or_concat with rfl | ⟨P,r,rfl⟩
  · exact absurd (ht.trans_le le) (lt_irrefl _)
  · rw [List.concat_eq_append] at le ⊢
    rw [total,countFrom_append] at le
    exact ⟨r,by simp,le⟩

/-- A cumulative histogram: each bound once, and counts that do not fall. -/
structure Cumulative (Y : List (Bucket α)) : Prop where
  sorted : Y.Pairwise fun a b => a.1 < b.1 ∧ a.2 ≤ b.2
  nonneg : ∀ r ∈ Y, 0 ≤ r.2

omit [IsStrictOrderedRing α] in
theorem Cumulative.ascending {Y : List (Bucket α)} (hY : Cumulative Y) : Ascending Y :=
  hY.sorted.imp fun h => h.1.le

omit [IsStrictOrderedRing α] in
theorem Cumulative.peak_eq {P Z : List (Bucket α)} (hY : Cumulative (P ++ Z)) :
    peak P = countFrom 0 P := by
  rcases P.eq_nil_or_concat with rfl | ⟨P,r,rfl⟩
  · rfl
  · rw [List.concat_eq_append] at hY ⊢
    rw [countFrom_append]
    refine le_antisymm ?_ (le_peak (by simp))
    by_cases positive : 0 < peak (P ++ [r])
    · obtain ⟨r',hr',eq⟩ := exists_peak positive
      rw [← eq]
      rcases List.mem_append.mp hr' with h | h
      · exact ((List.pairwise_append.mp (List.pairwise_append.mp hY.sorted).1).2.2 r' h r
          (by simp)).2
      · rw [List.mem_singleton.mp h]
    · exact (not_lt.mp positive).trans (hY.nonneg r (by simp))

/-- At the bound `b` the buckets `X` keep the shares of the histogram `Y`: what `X` reaches in
front of `b` is, up to its total, the share of `Y` there; where `Y` counts more at `b`, the first
bucket of `X` at `b` has the share of `Y` and the one in front of it the greatest count so far;
where it does not, no rank is reached there first. -/
def AgreesAt (X Y : List (Bucket α)) (b : α) : Prop :=
  min (peak (below b X)) (total X) * total Y = countFrom 0 (below b Y) * total X ∧
  if countFrom 0 (below b Y) < countAt b Y then
    countAt b X * total Y = countAt b Y * total X ∧ countFrom 0 (below b X) = peak (below b X)
  else countAt b X ≤ peak (below b X) ∨ total X ≤ peak (below b X)

section Agreement

variable {X Y : List (Bucket α)} {b x : α}

/-- Two sequences over the same bounds, both with a positive total. -/
structure Comparable (X Y : List (Bucket α)) : Prop where
  scale : Scale X
  histogram : Cumulative Y
  same : ∀ u, u ∈ X.map Prod.fst ↔ u ∈ Y.map Prod.fst
  counts : ∀ r ∈ X, 0 ≤ r.2
  total_pos : 0 < total X
  sum_pos : 0 < total Y

namespace Comparable

omit [IsStrictOrderedRing α] in
theorem scale' (h : Comparable X Y) : Scale Y := by
  refine ⟨h.histogram.ascending,fun r hr => ?_⟩
  obtain ⟨r',hr',eq⟩ := List.mem_map.mp ((h.same r.1).mpr (List.mem_map.mpr ⟨r,hr,rfl⟩))
  rw [← eq]
  exact h.scale.nonneg r' hr'

omit [IsStrictOrderedRing α] in
theorem lower_eq (h : Comparable X Y) (b : α) :
    boundFrom 0 (below b X) = boundFrom 0 (below b Y) := by
  have sub : ∀ {V W : List (Bucket α)}, Scale V → Scale W →
      (∀ u, u ∈ V.map Prod.fst → u ∈ W.map Prod.fst) →
      ∀ u, u ∈ (below b V).map Prod.fst → u ∈ (below b W).map Prod.fst := by
    intro V W hV hW sub u hu
    obtain ⟨r,hr,rfl⟩ := List.mem_map.mp hu
    obtain ⟨hr,lt⟩ := (mem_below hV.sorted).mp hr
    obtain ⟨r',hr',eq⟩ := List.mem_map.mp (sub r.1 (List.mem_map.mpr ⟨r,hr,rfl⟩))
    exact List.mem_map.mpr ⟨r',(mem_below hW.sorted).mpr ⟨hr',eq ▸ lt⟩,eq⟩
  have part : ∀ {V : List (Bucket α)}, Scale V → Scale (below b V) := fun hV =>
    ⟨hV.sorted.sublist (List.takeWhile_sublist _),
      fun r hr => hV.nonneg r ((mem_below hV.sorted).mp hr).1⟩
  exact boundFrom_congr (part h.scale).sorted (part h.scale').sorted
    (fun u => ⟨sub h.scale h.scale' (fun u => (h.same u).mp) u,
      sub h.scale' h.scale (fun u => (h.same u).mpr) u⟩)
    (part h.scale).nonneg (part h.scale').nonneg

theorem isSome (h : Comparable X Y) (hx : 0 < x) (le : x ≤ 1) :
    (∃ v, rankValue (total X * x) X = some v) ∧ ∃ v, rankValue (total Y * x) Y = some v :=
  ⟨valueFrom_isSome (reached_of_le_total (mul_pos h.total_pos hx)
      (mul_le_of_le_one_right h.total_pos.le le)),
    valueFrom_isSome (reached_of_le_total (mul_pos h.sum_pos hx)
      (mul_le_of_le_one_right h.sum_pos.le le))⟩

end Comparable

omit [IsStrictOrderedRing α] in
theorem Cumulative.countFrom_le {P Z : List (Bucket α)} (hY : Cumulative (P ++ Z)) :
    countFrom 0 P ≤ total (P ++ Z) := by
  rcases Z.eq_nil_or_concat with rfl | ⟨Z,r,rfl⟩
  · rw [List.append_nil]
    exact le_rfl
  · rw [List.concat_eq_append] at hY ⊢
    rw [total,← List.append_assoc,countFrom_append]
    rcases P.eq_nil_or_concat with rfl | ⟨P,r',rfl⟩
    · exact hY.nonneg r (by simp)
    · rw [List.concat_eq_append] at hY ⊢
      rw [countFrom_append]
      exact ((List.pairwise_append.mp hY.sorted).2.2 r' (by simp) r (by simp)).2

omit [IsStrictOrderedRing α] in
theorem Cumulative.total_nonneg (hY : Cumulative Y) : 0 ≤ total Y :=
  Cumulative.countFrom_le (P := []) hY

omit [IsStrictOrderedRing α] in
theorem Cumulative.le_total (hY : Cumulative Y) {r : Bucket α} (hr : r ∈ Y) : r.2 ≤ total Y :=
  (le_peak hr).trans_eq (Cumulative.peak_eq (Z := []) (by rwa [List.append_nil]))

/-- Both sequences around their first buckets with the bound `b`. -/
structure Cuts (X Y : List (Bucket α)) (b M L A s s' lower : α) : Prop where
  bound : 0 < b
  cut : ∃ P Z, Cut X b P A Z ∧ peak P = M ∧ countFrom 0 P = L ∧ boundFrom 0 P = lower
  cut' : ∃ Q W, Cut Y b Q s' W ∧ peak Q = s ∧ countFrom 0 Q = s ∧ boundFrom 0 Q = lower
  before_le : s ≤ s'
  reached_le : s' ≤ total Y

omit [IsStrictOrderedRing α] in
theorem Comparable.cuts (h : Comparable X Y) (hb : 0 < b)
    (mem : (b : WithTop α) ∈ Y.map Prod.fst) :
    Cuts X Y b (peak (below b X)) (countFrom 0 (below b X)) (countAt b X)
      (countFrom 0 (below b Y)) (countAt b Y) (boundFrom 0 (below b X)) := by
  obtain ⟨Z,cut⟩ := cut_of_mem h.scale.sorted ((h.same _).mpr mem)
  obtain ⟨W,cut'⟩ := cut_of_mem h.scale'.sorted mem
  have hY := h.histogram
  rw [cut'.split] at hY
  have flat := hY.peak_eq
  refine ⟨hb,⟨_,Z,cut,rfl,rfl,rfl⟩,⟨_,W,cut',flat,rfl,(h.lower_eq b).symm⟩,?_,?_⟩
  · rw [← flat]
    by_cases positive : 0 < peak (below b Y)
    · obtain ⟨r,hr,eq⟩ := exists_peak positive
      rw [← eq]
      exact ((List.pairwise_append.mp hY.sorted).2.2 r hr _ List.mem_cons_self).2
    · exact (not_lt.mp positive).trans (hY.nonneg ((b : WithTop α),countAt b Y) (by simp))
  · have whole : below b Y ++ ((b : WithTop α),countAt b Y) :: W =
        (below b Y ++ [((b : WithTop α),countAt b Y)]) ++ W := by simp
    rw [whole] at hY
    have := hY.countFrom_le
    rwa [countFrom_append,← whole,← cut'.split] at this

namespace Cuts

variable {M L A s s' lower v : α}

/-- The two sequences take the rank shares `x` at one value. -/
def Agree (X Y : List (Bucket α)) : Prop :=
  ∀ x, 0 < x → x ≤ 1 → rankValue (total X * x) X = rankValue (total Y * x) Y

/-- An agreement at the rank `t` of `X`. -/
theorem at_rank (h : Comparable X Y) (agree : Agree X Y) (ht : 0 < t) (le : t ≤ total X) :
    ∃ v, rankValue t X = some v ∧ rankValue (total Y * t / total X) Y = some v := by
  have hT := h.total_pos
  have hx : 0 < t / total X := div_pos ht hT
  have hx' : t / total X ≤ 1 := (div_le_one hT).mpr le
  obtain ⟨⟨v,value⟩,-⟩ := h.isSome hx hx'
  have same := agree _ hx hx'
  rw [value,← mul_div_assoc] at same
  rw [mul_div_cancel₀ _ hT.ne'] at value
  exact ⟨v,value,same.symm⟩

theorem before_eq (c : Cuts X Y b M L A s s' lower) (h : Comparable X Y)
    (agree : Agree X Y) : min M (total X) * total Y = s * total X := by
  obtain ⟨P,Z,cut,rfl,rfl,rfl⟩ := c.cut
  obtain ⟨Q,W,cut',flat,rfl,eq⟩ := c.cut'
  have hT := h.total_pos
  have hS := h.sum_pos
  have some : 0 ≤ min (peak P) (total X) := le_min (peak_nonneg P) hT.le
  rcases lt_trichotomy (min (peak P) (total X) * total Y) (countFrom 0 Q * total X)
    with lt | same | gt
  · -- at the share of the histogram the rows are past the bound in front of `b`
    exfalso
    have hs : 0 < countFrom 0 Q := by
      by_contra none
      nlinarith [mul_nonneg some hS.le]
    have hle := c.before_le.trans c.reached_le
    let t := countFrom 0 Q * total X / total Y
    have ht : min (peak P) (total X) < t := (lt_div_iff₀ hS).mpr lt
    have hle' : t ≤ total X := (div_le_iff₀ hS).mpr (by nlinarith)
    have missed : peak P < t := (min_lt_iff.mp ht).resolve_right (not_lt.mpr hle')
    obtain ⟨v,value,value'⟩ := at_rank h agree (some.trans_lt ht) hle'
    have rank : total Y * t / total X = countFrom 0 Q := by
      change total Y * (countFrom 0 Q * total X / total Y) / total X = _
      field_simp
    rw [rank] at value'
    have ge := cut.lower_lt_value h.scale c.bound missed value
    have le := cut'.value_le h.scale' hs (by rw [flat]) value'
    rw [eq] at le
    exact absurd le (not_le.mpr ge)
  · exact same
  · -- at the share of the rows the histogram is past it
    exfalso
    have hs : 0 ≤ countFrom 0 Q := by
      rw [← flat]
      exact peak_nonneg Q
    have ht : 0 < min (peak P) (total X) := by
      by_contra none
      nlinarith [mul_nonneg hs hT.le]
    obtain ⟨v,value,value'⟩ := at_rank h agree ht (min_le_right _ _)
    have missed : peak Q < total Y * min (peak P) (total X) / total X := by
      rw [flat,lt_div_iff₀ hT]
      linarith
    have le := cut.value_le h.scale ht (min_le_left _ _) value
    have ge := cut'.lower_lt_value h.scale' c.bound missed value'
    rw [eq] at ge
    exact absurd le (not_le.mpr ge)

/-- In a bucket that is not empty the rows run from the same share to the same share. -/
theorem filled_eq (c : Cuts X Y b M L A s s' lower) (h : Comparable X Y)
    (agree : Agree X Y) (filled : s < s') : A * total Y = s' * total X ∧ L = M := by
  have before := c.before_eq h agree
  obtain ⟨P,Z,cut,rfl,rfl,low⟩ := c.cut
  obtain ⟨Q,W,cut',flat,rfl,low'⟩ := c.cut'
  have hT := h.total_pos
  have hS := h.sum_pos
  have hs : 0 ≤ countFrom 0 Q := by
    rw [← flat]
    exact peak_nonneg Q
  have hle := c.reached_le
  have least : min (peak P) (total X) < total X := by
    by_contra ge
    have eq : min (peak P) (total X) = total X :=
      le_antisymm (min_le_right _ _) (not_lt.mp ge)
    rw [eq] at before
    nlinarith
  have inside : peak P < total X := (min_lt_iff.mp least).resolve_right (lt_irrefl _)
  rw [min_eq_left inside.le] at before
  let u := s' * total X / total Y
  have hu : u * total Y = s' * total X := div_mul_cancel₀ _ hS.ne'
  have missedU : peak P < u := (lt_div_iff₀ hS).mpr (by nlinarith)
  have huT : u ≤ total X := (div_le_iff₀ hS).mpr (by nlinarith)
  have missed : ∀ {t}, peak P < t → peak Q < total Y * t / total X := fun ht => by
    rw [flat,lt_div_iff₀ hT]
    nlinarith
  have notBefore : u ≤ A := by
    by_contra lt
    have lt := not_le.mp lt
    obtain ⟨t,ht,htu⟩ := exists_between (max_lt lt missedU)
    obtain ⟨hA,hM⟩ := max_lt_iff.mp ht
    obtain ⟨v,value,value'⟩ := at_rank h agree ((peak_nonneg P).trans_lt hM) (htu.le.trans huT)
    have ge := cut.value_ge h.scale hM hA value
    have inner : total Y * t / total X < s' := by
      rw [div_lt_iff₀ hT]
      nlinarith
    exact absurd ge (not_le.mpr (cut'.value_lt c.bound (missed hM) inner value'))
  have wide : 0 < b - lower := by
    rw [← low]
    linarith [cut.lower_lt c.bound]
  have lowest := countFrom_le_peak P
  -- in the bucket both are linear
  have linear : ∀ {t}, peak P < t → t ≤ u →
      (t - countFrom 0 P) / (A - countFrom 0 P) =
        (total Y * t / total X - countFrom 0 Q) / (s' - countFrom 0 Q) := by
    intro t ht htu
    obtain ⟨v,value,value'⟩ := at_rank h agree ((peak_nonneg P).trans_lt ht) (htu.trans huT)
    have inner : total Y * t / total X ≤ s' := by
      rw [div_le_iff₀ hT]
      nlinarith
    rw [cut.value_ramp ht (htu.trans notBefore),low] at value
    rw [cut'.value_ramp (missed ht) inner,low'] at value'
    have same := Option.some.inj (value.trans value'.symm)
    exact mul_left_cancel₀ wide.ne' (add_left_cancel same)
  have long : 0 < A - countFrom 0 P := by linarith
  have short : 0 < s' - countFrom 0 Q := by linarith
  have atEnd := linear missedU le_rfl
  have atMid := linear (t := (peak P + u) / 2) (by linarith) (by linarith)
  have rankEnd : total Y * u / total X = s' := by
    rw [div_eq_iff hT.ne']
    linarith
  have rankMid : total Y * ((peak P + u) / 2) / total X = (countFrom 0 Q + s') / 2 := by
    rw [div_eq_iff hT.ne']
    linarith
  rw [rankEnd,div_self short.ne',div_eq_one_iff_eq long.ne'] at atEnd
  rw [rankMid,div_eq_div_iff long.ne' short.ne'] at atMid
  have hA : A = u := by linarith
  constructor
  · rw [hA,hu]
  · have : (u - countFrom 0 P) * (s' - countFrom 0 Q) =
        (peak P + u - 2 * countFrom 0 P) * (s' - countFrom 0 Q) := by
      rw [hA] at atMid
      linarith
    have := mul_right_cancel₀ short.ne' this
    linarith

/-- In an empty bucket the rows reach no rank. -/
theorem empty_eq (c : Cuts X Y b M L A s s' lower) (h : Comparable X Y)
    (agree : Agree X Y) (empty : ¬s < s') : A ≤ M ∨ total X ≤ M := by
  have before := c.before_eq h agree
  have hs' : s' = s := le_antisymm (not_lt.mp empty) c.before_le
  obtain ⟨P,Z,cut,rfl,rfl,-⟩ := c.cut
  obtain ⟨Q,W,cut',flat,rfl,-⟩ := c.cut'
  have hT := h.total_pos
  have hS := h.sum_pos
  by_contra both
  obtain ⟨hA,inside⟩ := not_or.mp both
  have hA := not_le.mp hA
  have inside := not_le.mp inside
  rw [min_eq_left inside.le] at before
  obtain ⟨t,hM,ht⟩ := exists_between (lt_min hA inside)
  obtain ⟨htA,htT⟩ := lt_min_iff.mp ht
  obtain ⟨v,value,value'⟩ := at_rank h agree ((peak_nonneg P).trans_lt hM) htT.le
  have past : countFrom 0 Q < total Y * t / total X := by
    rw [lt_div_iff₀ hT]
    nlinarith
  have lt := cut.value_lt c.bound hM htA value
  have ge := cut'.value_ge h.scale' (flat ▸ past) (hs' ▸ past) value'
  exact absurd ge (not_le.mpr lt)

end Cuts

omit [IsStrictOrderedRing α] in
theorem peak_lt (ht : 0 < t) (missed : ∀ r ∈ P, r.2 < t) : peak P < t := by
  by_cases positive : 0 < peak P
  · obtain ⟨r,hr,eq⟩ := exists_peak positive
    exact eq ▸ missed r hr
  · exact (not_lt.mp positive).trans_lt ht

omit [Field α] [IsStrictOrderedRing α] in
/-- The bucket in which a rank is reached first. -/
theorem exists_first (reached : ∃ r ∈ X, t ≤ r.2) :
    ∃ P r Z, X = P ++ r :: Z ∧ (∀ r' ∈ P, r'.2 < t) ∧ t ≤ r.2 := by
  induction X with
  | nil =>
    obtain ⟨_,h,_⟩ := reached
    cases h
  | cons a X ih =>
    by_cases ha : t ≤ a.2
    · exact ⟨[],a,X,rfl,fun _ h => absurd h List.not_mem_nil,ha⟩
    · obtain ⟨r,hr,le⟩ := reached
      have hr : r ∈ X := (List.mem_cons.mp hr).resolve_left fun eq => ha (eq ▸ le)
      obtain ⟨P,r,Z,rfl,missed,le⟩ := ih ⟨r,hr,le⟩
      refine ⟨a :: P,r,Z,rfl,fun r' h => ?_,le⟩
      rcases List.mem_cons.mp h with rfl | h
      · exact not_le.mp ha
      · exact missed r' h

theorem ramp_top (t lo before c : α) : ramp t lo before ((⊤ : WithTop α),c) = lo := by
  simp [ramp]

omit [IsStrictOrderedRing α] in
theorem Cut.below_eq (cut : Cut X b P lo Z) : Interpolation.below b X = P ∧ countAt b X = lo := by
  have lt : ∀ r ∈ P, decide (r.1 < (b : WithTop α)) = true :=
    fun r h => decide_eq_true (cut.below r h)
  rw [Interpolation.below,countAt,cut.split,List.takeWhile_append_of_pos lt,List.dropWhile_append_of_pos lt]
  simp

omit [IsStrictOrderedRing α] in
theorem rankValue_first {r : Bucket α} (missed : ∀ r ∈ P, r.2 < t) (reached : t ≤ r.2)
    (Z : List (Bucket α)) :
    rankValue t (P ++ r :: Z) = some (ramp t (boundFrom 0 P) (countFrom 0 P) r) := by
  rw [rankValue,valueFrom_skip missed,valueFrom,if_pos reached]

omit [IsStrictOrderedRing α] in
theorem Cumulative.peak_below (hY : Cumulative Y) (b : α) :
    peak (below b Y) = countFrom 0 (below b Y) := by
  have whole : below b Y ++ Y.dropWhile (fun r => r.1 < (b : WithTop α)) = Y :=
    List.takeWhile_append_dropWhile
  exact (show Cumulative (below b Y ++ Y.dropWhile _) from whole.symm ▸ hY).peak_eq

section Sufficient

variable (h : Comparable X Y)
  (all : ∀ b : α, 0 < b → (b : WithTop α) ∈ Y.map Prod.fst → AgreesAt X Y b)

include h all

/-- What the histogram reaches in front of a bound, the rows do. -/
theorem reached_of_before (hb : 0 < b) (mem : (b : WithTop α) ∈ Y.map Prod.fst)
    (le : total Y * x ≤ countFrom 0 (below b Y)) : total X * x ≤ peak (below b X) := by
  have hT := h.total_pos
  have hS := h.sum_pos
  refine le_trans ?_ (min_le_left _ (total X))
  have before := (all b hb mem).1
  have : total X * x * total Y ≤ min (peak (below b X)) (total X) * total Y := by
    rw [before]
    nlinarith
  exact le_of_mul_le_mul_right this hS

/-- What the histogram has passed at a bound, the rows have. -/
theorem passed_of_reached (hb : 0 < b) (mem : (b : WithTop α) ∈ Y.map Prod.fst) (hx : x ≤ 1)
    (lt : countAt b Y < total Y * x) :
    peak (below b X) < total X * x ∧ countAt b X < total X * x := by
  have hT := h.total_pos
  have hS := h.sum_pos
  have c := h.cuts hb mem
  obtain ⟨before,shape⟩ := all b hb mem
  have le : total X * x ≤ total X := mul_le_of_le_one_right hT.le hx
  have least : min (peak (below b X)) (total X) < total X * x := by
    refine lt_of_mul_lt_mul_right (a := total Y) ?_ hS.le
    rw [before]
    have := c.before_le
    nlinarith
  have missed : peak (below b X) < total X * x :=
    (min_lt_iff.mp least).resolve_right (not_lt.mpr le)
  refine ⟨missed,?_⟩
  split at shape
  · refine lt_of_mul_lt_mul_right (a := total Y) ?_ hS.le
    rw [shape.1]
    nlinarith
  · rcases shape with le' | le'
    · exact le'.trans_lt missed
    · exact absurd (missed.trans_le le) (not_lt.mpr le')

/-- In the bucket of the histogram the rows lie at the same point. -/
theorem same_in_bucket {Q W : List (Bucket α)} {s' : α} (hb : 0 < b)
    (split : Y = Q ++ ((b : WithTop α),s') :: W) (missed : ∀ r ∈ Q, r.2 < total Y * x)
    (reached : total Y * x ≤ s') (hx : 0 < x) :
    rankValue (total X * x) X = rankValue (total Y * x) Y := by
  have hT := h.total_pos
  have hS := h.sum_pos
  have mem : (b : WithTop α) ∈ Y.map Prod.fst := by
    rw [split]
    simp
  have cut' : Cut Y b Q s' W := by
    refine ⟨split,fun r hr => ?_⟩
    have sorted := h.histogram.sorted
    rw [split] at sorted
    exact ((List.pairwise_append.mp sorted).2.2 r hr _ List.mem_cons_self).1
  obtain ⟨hQ,hs'⟩ := cut'.below_eq
  have c := h.cuts hb mem
  obtain ⟨before,shape⟩ := all b hb mem
  obtain ⟨Z,cut⟩ := cut_of_mem h.scale.sorted ((h.same _).mpr mem)
  have lower := h.lower_eq b
  have hle := c.reached_le
  rw [hQ] at before shape lower
  rw [hs'] at shape hle
  have passed : peak Q < total Y * x := peak_lt (mul_pos hS hx) missed
  have behind := (countFrom_le_peak Q).trans_lt passed
  rw [if_pos (behind.trans_le reached)] at shape
  obtain ⟨atEnd,flat⟩ := shape
  have least : min (peak (below b X)) (total X) < total X := by
    refine lt_of_mul_lt_mul_right (a := total Y) ?_ hS.le
    rw [before]
    nlinarith
  have inside := (min_lt_iff.mp least).resolve_right (lt_irrefl _)
  rw [min_eq_left inside.le] at before
  have missedX : peak (below b X) < total X * x := by
    refine lt_of_mul_lt_mul_right (a := total Y) ?_ hS.le
    rw [before]
    nlinarith
  have reachedX : total X * x ≤ countAt b X := by
    refine le_of_mul_le_mul_right (a := total Y) ?_ hS
    rw [atEnd]
    nlinarith
  rw [cut.value_ramp missedX reachedX,cut'.value_ramp passed reached,lower,flat]
  have long : 0 < countAt b X - peak (below b X) := by linarith
  have short : 0 < s' - countFrom 0 Q := by linarith
  have ratio : (total X * x - peak (below b X)) / (countAt b X - peak (below b X)) =
      (total Y * x - countFrom 0 Q) / (s' - countFrom 0 Q) := by
    rw [div_eq_div_iff long.ne' short.ne']
    refine mul_right_cancel₀ hS.ne' ?_
    linear_combination (total Y * x - s') * before + (countFrom 0 Q - total Y * x) * atEnd
  rw [ratio]

/-- Behind the last finite bound both take that bound. -/
theorem same_at_top {Q : List (Bucket α)} {s' : α}
    (split : Y = Q ++ [((⊤ : WithTop α),s')]) (missed : ∀ r ∈ Q, r.2 < total Y * x)
    (reached : total Y * x ≤ s') (hx : 0 < x) (hx' : x ≤ 1) :
    rankValue (total X * x) X = rankValue (total Y * x) Y := by
  have ht := mul_pos h.total_pos hx
  obtain ⟨⟨v,value⟩,-⟩ := h.isSome hx hx'
  have value' : rankValue (total Y * x) Y = some (boundFrom 0 Y) := by
    have first := rankValue_first missed (r := ((⊤ : WithTop α),s')) reached []
    have last : boundFrom 0 Y = boundFrom 0 Q := by
      rw [split,boundFrom,List.foldl_append]
      rfl
    rw [last,← ramp_top (total Y * x) (boundFrom 0 Q) (countFrom 0 Q) s',← first,← split]
  have lower : boundFrom 0 X = boundFrom 0 Y :=
    boundFrom_congr h.scale.sorted h.scale'.sorted h.same h.scale.nonneg h.scale'.nonneg
  obtain ⟨ge,le⟩ := h.scale.rankValue_mem ht.le value
  rw [lower] at le
  rw [value,value']
  congr 1
  refine le_antisymm le ?_
  rcases (ge.trans le).eq_or_lt with zero | hb
  · rw [← zero]
    exact ge
  · have mem := (boundFrom_mem 0 Y).resolve_left hb.ne'
    obtain ⟨W,cut'⟩ := cut_of_mem h.scale'.sorted mem
    have inFront := cut'.mem
    rw [split] at inFront
    have inFront := (List.mem_append.mp inFront).resolve_right fun last =>
      absurd (congrArg Prod.fst (List.mem_singleton.mp last)) WithTop.coe_ne_top
    rw [← split] at inFront
    obtain ⟨missedX,beyond⟩ := passed_of_reached h all hb mem hx' (missed _ inFront)
    obtain ⟨Z,cut⟩ := cut_of_mem h.scale.sorted ((h.same _).mpr mem)
    exact cut.value_ge h.scale missedX beyond value

/-- At the bound zero both take zero. -/
theorem same_at_zero {W : List (Bucket α)} {s' : α}
    (split : Y = (((0 : α) : WithTop α),s') :: W) (reached : total Y * x ≤ s') (hx : 0 < x)
    (hx' : x ≤ 1) : rankValue (total X * x) X = rankValue (total Y * x) Y := by
  have ht := mul_pos h.total_pos hx
  obtain ⟨⟨v,value⟩,-⟩ := h.isSome hx hx'
  have value' : rankValue (total Y * x) Y = some 0 := by
    have first := rankValue_first (P := []) (r := (((0 : α) : WithTop α),s'))
      (fun _ h => absurd h List.not_mem_nil) reached W
    rw [List.nil_append,← split] at first
    rw [first]
    simp [ramp,boundFrom]
  obtain ⟨ge,-⟩ := h.scale.rankValue_mem ht.le value
  rw [value,value']
  congr 1
  refine le_antisymm (not_lt.mp fun positive => ?_) ge
  -- some positive bound is reached in front of its rows, where the histogram is at zero
  obtain ⟨P,r,Z,splitX,missed,high⟩ := exists_first (reached_of_le_total ht
    (mul_le_of_le_one_right h.total_pos.le hx'))
  have whole : X = (P ++ [r]) ++ Z := by
    rw [splitX,List.append_assoc]
    rfl
  have sorted := h.scale.sorted
  have nonneg := h.scale.nonneg
  rw [whole] at sorted nonneg
  have front : Scale (P ++ [r]) :=
    ⟨(List.pairwise_append.mp sorted).1,fun r' h => nonneg r' (List.mem_append_left _ h)⟩
  have same : rankValue (total X * x) ((P ++ [r]) ++ Z) = rankValue (total X * x) (P ++ [r]) :=
    valueFrom_reached ⟨r,by simp,high⟩ Z
  rw [← whole,value] at same
  have hb := positive.trans_le (front.rankValue_mem ht.le same.symm).2
  have mem := (boundFrom_mem 0 (P ++ [r])).resolve_left hb.ne'
  obtain ⟨a,ha,eq⟩ := List.mem_map.mp mem
  have memX : ((boundFrom 0 (P ++ [r]) : α) : WithTop α) ∈ X.map Prod.fst :=
    List.mem_map.mpr ⟨a,by rw [whole]; exact List.mem_append_left _ ha,eq⟩
  have last : ((boundFrom 0 (P ++ [r]) : α) : WithTop α) ≤ r.1 := by
    rw [← eq]
    rcases List.mem_append.mp ha with h | h
    · exact (List.pairwise_append.mp front.sorted).2.2 a h r (by simp)
    · rw [List.mem_singleton.mp h]
  have before : peak (below (boundFrom 0 (P ++ [r])) X) < total X * x := by
    refine peak_lt ht fun r' hr' => ?_
    obtain ⟨hr',lt⟩ := (mem_below h.scale.sorted).mp hr'
    have lt := lt.trans_le last
    rw [whole] at hr'
    rcases List.mem_append.mp hr' with h | h
    · rcases List.mem_append.mp h with h | h
      · exact missed r' h
      · exact absurd (congrArg Prod.fst (List.mem_singleton.mp h)) lt.ne
    · exact absurd ((List.pairwise_append.mp sorted).2.2 r (by simp) r' h) (not_le.mpr lt)
  refine absurd (reached_of_before h all hb ((h.same _).mp memX) (reached.trans ?_))
    (not_le.mpr before)
  rw [← h.histogram.peak_below]
  refine le_peak (r := (((0 : α) : WithTop α),s')) ((mem_below h.scale'.sorted).mpr ⟨?_,?_⟩)
  · rw [split]
    exact List.mem_cons_self
  · exact WithTop.coe_lt_coe.mpr hb

theorem agree_of_agreesAt : Cuts.Agree X Y := by
  intro x hx hx'
  obtain ⟨Q,⟨u,s'⟩,W,split,missed,reached⟩ := exists_first
    (reached_of_le_total (mul_pos h.sum_pos hx) (mul_le_of_le_one_right h.sum_pos.le hx'))
  have strict := h.histogram.sorted
  rw [split] at strict
  have after := (List.pairwise_cons.mp (List.pairwise_append.mp strict).2.1).1
  cases u with
  | top =>
    have none : W = [] := by
      cases W with
      | nil => rfl
      | cons r W => exact absurd (after r List.mem_cons_self).1 not_top_lt
    rw [none] at split
    exact same_at_top h all split missed reached hx hx'
  | coe b =>
    have ge : ((0 : α) : WithTop α) ≤ (b : WithTop α) :=
      h.scale'.nonneg ((b : WithTop α),s') (by rw [split]; simp)
    rcases (WithTop.coe_le_coe.mp ge).eq_or_lt with rfl | hb
    · have none : Q = [] := by
        cases Q with
        | nil => rfl
        | cons r Q =>
          have lt := ((List.pairwise_append.mp strict).2.2 r List.mem_cons_self _
            List.mem_cons_self).1
          exact absurd (h.scale'.nonneg r (by rw [split]; simp)) (not_le.mpr lt)
      rw [none,List.nil_append] at split
      exact same_at_zero h all split reached hx hx'
    · exact same_in_bucket h all hb split missed reached hx

/-- At the share zero both start in their first bucket. -/
theorem agree_at_zero : rankValue 0 X = rankValue 0 Y := by
  have hT := h.total_pos
  have hS := h.sum_pos
  cases X with
  | nil => exact absurd hT (lt_irrefl _)
  | cons r X =>
  cases Y with
  | nil => exact absurd hS (lt_irrefl _)
  | cons r' Y =>
  have start : r.1 = r'.1 := by
    have least : ∀ {a : Bucket α} {V : List (Bucket α)} {u : WithTop α}, Ascending (a :: V) →
        u ∈ (a :: V).map Prod.fst → a.1 ≤ u := by
      intro a V u sorted hu
      obtain ⟨d,hd,rfl⟩ := List.mem_map.mp hu
      rcases List.mem_cons.mp hd with rfl | hd
      · exact le_rfl
      · exact (List.pairwise_cons.mp sorted).1 d hd
    exact le_antisymm (least h.scale.sorted ((h.same _).mpr List.mem_cons_self))
      (least h.scale'.sorted ((h.same _).mp List.mem_cons_self))
  have hr := h.counts r List.mem_cons_self
  have hr' := h.histogram.nonneg r' List.mem_cons_self
  have first : ∀ {a : Bucket α} {V : List (Bucket α)}, 0 ≤ a.2 →
      rankValue 0 (a :: V) = some (if a.2 ≤ 0 then a.1.untopD 0 else 0) := by
    intro a V ha
    rw [rankValue,valueFrom,if_pos ha,ramp]
    simp
  rw [first hr,first hr',← start]
  obtain ⟨u,c⟩ := r
  cases u with
  | top => simp
  | coe b =>
    have ge := WithTop.coe_le_coe.mp (h.scale.nonneg ((b : WithTop α),c) List.mem_cons_self)
    rcases ge.eq_or_lt with rfl | hb
    · simp
    · obtain ⟨u',s'⟩ := r'
      obtain rfl : (b : WithTop α) = u' := start
      have cut : Cut (((b : WithTop α),c) :: X) b [] c X := ⟨rfl,fun _ h => absurd h List.not_mem_nil⟩
      have cut' : Cut (((b : WithTop α),s') :: Y) b [] s' Y :=
        ⟨rfl,fun _ h => absurd h List.not_mem_nil⟩
      have shape := (all b hb (List.mem_cons_self)).2
      rw [cut.below_eq.1,cut.below_eq.2,cut'.below_eq.1,cut'.below_eq.2] at shape
      change if 0 < s' then c * _ = s' * _ ∧ _ else c ≤ 0 ∨ _ ≤ 0 at shape
      split at shape
      · rename_i some
        have some' : 0 < c := by
          by_contra none
          have := mul_pos some hT
          nlinarith [shape.1]
        rw [if_neg (not_le.mpr some'),if_neg (not_le.mpr some)]
      · rename_i none
        rw [if_pos (shape.resolve_right (not_le.mpr hT)),if_pos (not_lt.mp none)]

end Sufficient

/-- The sequences agree at every share iff they agree at every positive bound. -/
theorem Comparable.agree_iff (h : Comparable X Y) :
    (∀ x, 0 ≤ x → x ≤ 1 → rankValue (total X * x) X = rankValue (total Y * x) Y) ↔
      ∀ b : α, 0 < b → (b : WithTop α) ∈ Y.map Prod.fst → AgreesAt X Y b := by
  constructor
  · intro agree b hb mem
    have c := h.cuts hb mem
    have agree : Cuts.Agree X Y := fun x hx => agree x hx.le
    refine ⟨c.before_eq h agree,?_⟩
    split
    · exact c.filled_eq h agree ‹_›
    · exact c.empty_eq h agree ‹_›
  · intro all x hx hx'
    rcases hx.eq_or_lt with rfl | hx
    · rw [mul_zero,mul_zero]
      exact agree_at_zero h all
    · exact agree_of_agreesAt h all x hx hx'

end Agreement

end Interpolation
end EntryAnalyse
