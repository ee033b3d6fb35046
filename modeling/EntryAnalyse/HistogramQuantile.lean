import Mathlib.Data.List.Sort
import EntryAnalyse.HistogramAgreement
import EntryAnalyse.LabelRoundTrip

/-! The quantile of all the buckets that match a label filter, against the quantile of the
histogram in which the matching series are added up. -/
namespace EntryAnalyse
namespace HistogramQuantile

open Metrics Interpolation

/-- A bound as the reader sees it. -/
def pyBound : WithTop ℚ → PyFloat
  | none => .posInf
  | some q => .finite q

/-- A bucket as the reader sees it. -/
def pyBucket (b : Bucket ℚ) : PyFloat × PyFloat := (pyBound b.1,.finite b.2)

/-- `buckets.sort(key=lambda item: item[0])`. -/
def arranged (samples : List (Bucket ℚ)) : List (Bucket ℚ) :=
  samples.insertionSort fun a b => a.1 ≤ b.1

/-- The quantile by linear interpolation; none of an empty histogram. -/
def interpolated (X : List (Bucket ℚ)) (q : ℚ) : Option ℚ :=
  if total X ≤ 0 then none else rankValue (total X * q) X

/-- The counts of all the series at one bound. -/
def sumAt (samples : List (Bucket ℚ)) (u : WithTop ℚ) : ℚ :=
  ((samples.filter fun r => r.1 = u).map Prod.snd).sum

/-- The histogram in which the series are added up bound by bound. -/
def summed (samples : List (Bucket ℚ)) : List (Bucket ℚ) :=
  ((samples.map Prod.fst).dedup.insertionSort (· ≤ ·)).map fun u => (u,sumAt samples u)

section Reading

theorem quantileAt_eq (t lo before : ℚ) (X : List (Bucket ℚ)) :
    quantileAt exactArith (.finite t) (.finite lo) (.finite before) (X.map pyBucket) =
      (valueFrom t lo before X).map .finite := by
  induction X generalizing lo before with
  | nil => rfl
  | cons r X ih =>
    obtain ⟨u,c⟩ := r
    have test : (PyFloat.finite t).le (.finite c) = decide (t ≤ c) := rfl
    rw [List.map_cons,pyBucket,quantileAt,valueFrom,test]
    by_cases reached : t ≤ c
    · rw [if_pos (decide_eq_true reached),if_pos reached]
      cases u with
      | top =>
        rw [ramp_top]
        rfl
      | coe b =>
        have count : ((PyFloat.finite c).sub exactArith (.finite before)).le (.finite 0) =
            decide (c - before ≤ 0) := by
          rw [sub_eq_add_neg]
          rfl
        change (if PyFloat.finite b = .posInf ∨ PyFloat.finite b = .negInf then _ else
          if _ then _ else _) = _
        rw [if_neg (by simp),count,ramp]
        by_cases empty : c - before ≤ 0
        · rw [if_pos (decide_eq_true empty),if_pos empty]
          rfl
        · rw [if_neg (fun h => empty (of_decide_eq_true h)),if_neg empty]
          change some (PyFloat.finite (lo + (b + -lo) * ((t + -before) / (c + -before)))) = _
          rw [← sub_eq_add_neg,← sub_eq_add_neg,← sub_eq_add_neg]
          rfl
    · rw [if_neg (fun h => reached (of_decide_eq_true h)),if_neg reached,← ih]
      cases u with
      | top => rfl
      | coe b => rfl

theorem pyBound_le (a b : WithTop ℚ) : (!(pyBound b).lt (pyBound a)) = true ↔ a ≤ b := by
  cases a with
  | top =>
    cases b with
    | top => simp [pyBound,PyFloat.lt,PyFloat.le]
    | coe b => simp [pyBound,PyFloat.lt,PyFloat.le]
  | coe a =>
    cases b with
    | top => simp [pyBound,PyFloat.lt,PyFloat.le]
    | coe b =>
      change (!(decide (b ≤ a) && !decide (a ≤ b))) = true ↔ _
      rw [WithTop.coe_le_coe]
      rcases le_total a b with h | h
      · simp [h]
      · simp [h]

theorem arranged_map (samples : List (Bucket ℚ)) :
    (samples.map pyBucket).insertionSort (fun a b => !b.1.lt a.1) =
      (arranged samples).map pyBucket :=
  (List.map_insertionSort (fun a b : Bucket ℚ => a.1 ≤ b.1)
    (fun a b : PyFloat × PyFloat => (!b.1.lt a.1) = true) pyBucket samples
    fun a _ b _ => (pyBound_le a.1 b.1).symm).symm

variable (py : PyRuntime) (rows : List MetricRow) (family : String)
  (expected : List (String × String))

/-- The buckets of the matching rows are `samples`. -/
def ReadsAs (samples : List (Bucket ℚ)) : Prop :=
  ((rows.filter fun row => row.familyName = family && endsWith row.name "_bucket" &&
    labelsMatch row expected).mapM fun row => do
      return (← upperBound py row,row.value)) = .ok (samples.map pyBucket)

variable {py rows family expected}

theorem histogramQuantile_eq {samples : List (Bucket ℚ)}
    (reads : ReadsAs py rows family expected samples) (q : ℚ) :
    histogramQuantile py exactArith rows family (.finite q) expected =
      .ok ((interpolated (arranged samples) q).map .finite) := by
  unfold histogramQuantile
  unfold ReadsAs at reads
  simp only [reads]
  dsimp only [bind,Except.bind]
  rw [arranged_map]
  rcases (arranged samples).eq_nil_or_concat with none | ⟨P,r,some⟩
  · rw [none]
    rfl
  · have count : total (arranged samples) = r.2 := by
      rw [some,List.concat_eq_append,total,countFrom_append]
    have last : ((arranged samples).map pyBucket).getLast? = Option.some (pyBucket r) := by
      rw [some,List.concat_eq_append,List.map_append,List.map_singleton,List.getLast?_concat]
    rw [last,interpolated,count]
    change (if decide (r.2 ≤ 0) = true then _ else _) = _
    by_cases empty : r.2 ≤ 0
    · rw [if_pos (decide_eq_true empty),if_pos empty]
      rfl
    · rw [if_neg (fun h => empty (of_decide_eq_true h)),if_neg empty]
      exact congrArg Except.ok (quantileAt_eq (r.2 * q) 0 0 (arranged samples))

end Reading

/-- The counts of the series are no negative numbers, and their sums grow with the bound. -/
structure Summable (samples : List (Bucket ℚ)) : Prop where
  nonneg : ∀ r ∈ samples, 0 ≤ r.2
  grows : ∀ u ∈ samples.map Prod.fst, ∀ w ∈ samples.map Prod.fst, u ≤ w →
    sumAt samples u ≤ sumAt samples w

/-- The rows of `series` over common bounds, in any order: each series counts up with the
bound. -/
structure SeriesOver (bounds : Finset (WithTop ℚ)) (series : List (WithTop ℚ → ℚ))
    (samples : List (Bucket ℚ)) : Prop where
  nonneg : ∀ s ∈ series, ∀ u ∈ bounds, 0 ≤ s u
  grows : ∀ s ∈ series, ∀ u ∈ bounds, ∀ w ∈ bounds, u ≤ w → s u ≤ s w
  rows : samples.Perm (series.flatMap fun s => bounds.toList.map fun u => (u,s u))

theorem sumAt_perm {xs ys : List (Bucket ℚ)} (h : xs.Perm ys) (u : WithTop ℚ) :
    sumAt xs u = sumAt ys u :=
  ((h.filter _).map _).sum_eq

theorem sumAt_append (xs ys : List (Bucket ℚ)) (u : WithTop ℚ) :
    sumAt (xs ++ ys) u = sumAt xs u + sumAt ys u := by
  rw [sumAt,List.filter_append,List.map_append,List.sum_append]
  rfl

theorem sumAt_single {bounds : List (WithTop ℚ)} (unique : bounds.Nodup) (s : WithTop ℚ → ℚ)
    {u : WithTop ℚ} (h : u ∈ bounds) : sumAt (bounds.map fun u => (u,s u)) u = s u := by
  induction bounds with
  | nil => cases h
  | cons w bounds ih =>
    obtain ⟨fresh,unique⟩ := List.nodup_cons.mp unique
    have split : sumAt ((w :: bounds).map fun u => (u,s u)) u =
        sumAt [(w,s w)] u +
          sumAt (bounds.map fun u => (u,s u)) u :=
      sumAt_append [(w,s w)] (bounds.map fun u => (u,s u)) u
    rw [split]
    by_cases eq : w = u
    · subst eq
      have rest : sumAt (bounds.map fun u => (u,s u)) w = 0 := by
        rw [sumAt,List.filter_eq_nil_iff.mpr]
        · rfl
        · intro r hr
          obtain ⟨v,hv,rfl⟩ := List.mem_map.mp hr
          exact fun same => fresh (of_decide_eq_true same ▸ hv)
      rw [rest]
      simp [sumAt]
    · rw [ih unique ((List.mem_cons.mp h).resolve_left fun h => eq h.symm)]
      simp [sumAt,eq]

theorem SeriesOver.sumAt {bounds : Finset (WithTop ℚ)} {series : List (WithTop ℚ → ℚ)}
    {samples : List (Bucket ℚ)} (common : SeriesOver bounds series samples) {u : WithTop ℚ}
    (h : u ∈ bounds) : sumAt samples u = (series.map fun s => s u).sum := by
  rw [sumAt_perm common.rows]
  clear common
  induction series with
  | nil => rfl
  | cons s series ih =>
    rw [List.flatMap_cons,sumAt_append,ih,List.map_cons,List.sum_cons,
      sumAt_single bounds.nodup_toList s (Finset.mem_toList.mpr h)]

/-- Series over common bounds can be added up. -/
theorem SeriesOver.summable {bounds : Finset (WithTop ℚ)} {series : List (WithTop ℚ → ℚ)}
    {samples : List (Bucket ℚ)} (common : SeriesOver bounds series samples) :
    Summable samples := by
  have rowOf : ∀ r ∈ samples, r.1 ∈ bounds ∧ ∃ s ∈ series, r.2 = s r.1 := by
    intro r hr
    obtain ⟨s,hs,hr⟩ := List.mem_flatMap.mp (common.rows.mem_iff.mp hr)
    obtain ⟨u,hu,rfl⟩ := List.mem_map.mp hr
    exact ⟨Finset.mem_toList.mp hu,s,hs,rfl⟩
  have boundOf : ∀ u ∈ samples.map Prod.fst, u ∈ bounds := by
    intro u hu
    obtain ⟨r,hr,rfl⟩ := List.mem_map.mp hu
    exact (rowOf r hr).1
  refine ⟨fun r hr => ?_,fun u hu w hw le => ?_⟩
  · obtain ⟨hu,s,hs,eq⟩ := rowOf r hr
    rw [eq]
    exact common.nonneg s hs _ hu
  · rw [common.sumAt (boundOf u hu),common.sumAt (boundOf w hw)]
    exact List.sum_le_sum fun s hs => common.grows s hs u (boundOf u hu) w (boundOf w hw) le

section Comparing

variable {samples : List (Bucket ℚ)}

theorem mem_arranged {r : Bucket ℚ} : r ∈ arranged samples ↔ r ∈ samples :=
  List.mem_insertionSort _

theorem arranged_ascending (samples : List (Bucket ℚ)) : Ascending (arranged samples) :=
  List.pairwise_insertionSort (fun a b : Bucket ℚ => a.1 ≤ b.1) samples

theorem summed_bounds (samples : List (Bucket ℚ)) (u : WithTop ℚ) :
    u ∈ (summed samples).map Prod.fst ↔ u ∈ samples.map Prod.fst := by
  simp [summed]

theorem le_sumAt (h : Summable samples) {r : Bucket ℚ} (hr : r ∈ samples) :
    r.2 ≤ sumAt samples r.1 := by
  refine List.single_le_sum (fun x hx => ?_) _ (List.mem_map.mpr
    ⟨r,List.mem_filter.mpr ⟨hr,decide_eq_true rfl⟩,rfl⟩)
  obtain ⟨r',hr',rfl⟩ := List.mem_map.mp hx
  exact h.nonneg r' (List.mem_filter.mp hr').1

theorem sumAt_nonneg (h : Summable samples) (u : WithTop ℚ) : 0 ≤ sumAt samples u := by
  refine List.sum_nonneg fun x hx => ?_
  obtain ⟨r,hr,rfl⟩ := List.mem_map.mp hx
  exact h.nonneg r (List.mem_filter.mp hr).1

theorem summed_cumulative (h : Summable samples) : Cumulative (summed samples) := by
  refine ⟨?_,fun r hr => ?_⟩
  · have unique : ((samples.map Prod.fst).dedup.insertionSort (· ≤ ·)).Nodup :=
      (List.perm_insertionSort _ _).nodup_iff.mpr (List.nodup_dedup _)
    have ordered := (List.pairwise_insertionSort (· ≤ ·) (samples.map Prod.fst).dedup).and unique
    refine List.pairwise_map.mpr (ordered.imp_of_mem fun hu hw le => ?_)
    rw [List.mem_insertionSort,List.mem_dedup] at hu hw
    exact ⟨lt_of_le_of_ne le.1 le.2,h.grows _ hu _ hw le.1⟩
  · obtain ⟨u,-,rfl⟩ := List.mem_map.mp hr
    exact sumAt_nonneg h u

theorem total_le (h : Summable samples) : total (arranged samples) ≤ total (summed samples) := by
  have hY := summed_cumulative h
  rcases (arranged samples).eq_nil_or_concat with none | ⟨P,r,some⟩
  · rw [none]
    exact hY.total_nonneg
  · have hr : r ∈ samples := mem_arranged.mp (by rw [some]; simp)
    have listed : (r.1,sumAt samples r.1) ∈ summed samples :=
      List.mem_map.mpr ⟨r.1,by simpa using ⟨r.2,hr⟩,rfl⟩
    rw [some,List.concat_eq_append,total,countFrom_append]
    exact (le_sumAt h hr).trans (hY.le_total listed)

theorem comparable (h : Summable samples)
    (nonneg : ∀ u ∈ samples.map Prod.fst, ((0 : ℚ) : WithTop ℚ) ≤ u)
    (hT : 0 < total (arranged samples)) : Comparable (arranged samples) (summed samples) where
  scale := ⟨arranged_ascending samples,fun r hr =>
    nonneg r.1 (List.mem_map.mpr ⟨r,mem_arranged.mp hr,rfl⟩)⟩
  histogram := summed_cumulative h
  same u := by
    rw [summed_bounds]
    exact ((List.perm_insertionSort _ samples).map Prod.fst).mem_iff
  counts r hr := h.nonneg r (mem_arranged.mp hr)
  total_pos := hT
  sum_pos := hT.trans_le (total_le h)

end Comparing

/-- In the order of their bounds the rows count like the summed histogram: nothing is counted at
all, or the last row counts something, no bound is negative, and at each positive bound the rows
keep the shares of the histogram. -/
def Proportional (samples : List (Bucket ℚ)) : Prop :=
  total (summed samples) = 0 ∨
  0 < total (arranged samples) ∧
  (∀ u ∈ samples.map Prod.fst, ((0 : ℚ) : WithTop ℚ) ≤ u) ∧
  ∀ b : ℚ, 0 < b → (b : WithTop ℚ) ∈ samples.map Prod.fst →
    AgreesAt (arranged samples) (summed samples) b

/-- What the quantile of the matching rows has to be: the one of the summed histogram, growing
with the quantile asked for, and between zero and a finite bound. -/
structure QuantileRight (py : PyRuntime) (rows : List MetricRow) (family : String)
    (expected : List (String × String)) (samples : List (Bucket ℚ)) : Prop where
  summed : ∀ q, 0 ≤ q → q ≤ 1 →
    histogramQuantile py exactArith rows family (.finite q) expected =
      .ok ((interpolated (summed samples) q).map .finite)
  grows : ∀ q q' v v', 0 ≤ q → q ≤ q' → q' ≤ 1 →
    histogramQuantile py exactArith rows family (.finite q) expected = .ok (some (.finite v)) →
    histogramQuantile py exactArith rows family (.finite q') expected = .ok (some (.finite v')) →
    v ≤ v'
  within : ∀ q v, 0 ≤ q → q ≤ 1 →
    histogramQuantile py exactArith rows family (.finite q) expected = .ok (some (.finite v)) →
    0 ≤ v ∧ (v = 0 ∨ ∃ b : ℚ, (b : WithTop ℚ) ∈ samples.map Prod.fst ∧ v ≤ b)

section Right

variable {py : PyRuntime} {rows : List MetricRow} {family : String}
  {expected : List (String × String)} {samples : List (Bucket ℚ)}

theorem quantile_eq_iff (reads : ReadsAs py rows family expected samples) {q v : ℚ} :
    histogramQuantile py exactArith rows family (.finite q) expected = .ok (some (.finite v)) ↔
      interpolated (arranged samples) q = some v := by
  rw [histogramQuantile_eq reads]
  constructor
  · intro h
    obtain ⟨v',eq,same⟩ := Option.map_eq_some_iff.mp (Except.ok.inj h)
    rw [eq,PyFloat.finite.inj same]
  · intro h
    rw [h]
    rfl

theorem interpolated_pos {X : List (Bucket ℚ)} (hT : 0 < total X) (q : ℚ) :
    interpolated X q = rankValue (total X * q) X := by
  rw [interpolated,if_neg (not_le.mpr hT)]

/-- With a negative bound some quantile is negative. -/
theorem exists_negative {X : List (Bucket ℚ)} (sorted : Ascending X) (counts : ∀ r ∈ X, 0 ≤ r.2)
    (hT : 0 < total X) {r : Bucket ℚ} (hr : r ∈ X) (negative : r.1 < ((0 : ℚ) : WithTop ℚ)) :
    ∃ q v, 0 ≤ q ∧ q ≤ 1 ∧ interpolated X q = some v ∧ v < 0 := by
  cases X with
  | nil => cases hr
  | cons a X =>
    have ha : a.1 < ((0 : ℚ) : WithTop ℚ) := by
      rcases List.mem_cons.mp hr with rfl | h
      · exact negative
      · exact ((List.pairwise_cons.mp sorted).1 r h).trans_lt negative
    have hc := counts a List.mem_cons_self
    obtain ⟨u,c⟩ := a
    cases u with
    | top => exact absurd ha not_top_lt
    | coe b =>
      have hb : b < 0 := WithTop.coe_lt_coe.mp ha
      set T := total (((b : WithTop ℚ),c) :: X) with total_eq
      rcases hc.eq_or_lt with zero | some
      · have zero : c = 0 := zero.symm
        refine ⟨0,b,le_rfl,zero_le_one,?_,hb⟩
        rw [interpolated_pos hT,mul_zero,rankValue,valueFrom,if_pos hc,ramp,
          if_pos (by simp [zero])]
        rfl
      · refine ⟨min c T / T,b * (min c T / c),div_nonneg (le_min hc hT.le) hT.le,
          (div_le_one hT).mpr (min_le_right _ _),?_,?_⟩
        · rw [interpolated_pos hT,← total_eq,mul_div_cancel₀ _ hT.ne',rankValue,valueFrom,
            if_pos (min_le_left _ _),ramp,if_neg (by simpa using some)]
          simp
        · exact mul_neg_of_neg_of_pos hb (div_pos (lt_min some hT) some)

/-- The quantile of a set of rows is right for the summed histogram iff they count alike. -/
theorem quantile_right_iff (reads : ReadsAs py rows family expected samples)
    (sums : Summable samples) :
    QuantileRight py rows family expected samples ↔ Proportional samples := by
  constructor
  · intro right
    rcases (summed_cumulative sums).total_nonneg.eq_or_lt with zero | hS
    · exact .inl zero.symm
    · have hT : 0 < total (arranged samples) := by
        by_contra none
        have same := right.summed 1 zero_le_one le_rfl
        rw [histogramQuantile_eq reads,interpolated,if_pos (not_lt.mp none),
          interpolated_pos hS,mul_one] at same
        obtain ⟨v,value⟩ : ∃ v, rankValue (total (summed samples)) (summed samples) = some v :=
          valueFrom_isSome (reached_of_le_total hS le_rfl)
        rw [value] at same
        cases same
      have nonneg : ∀ u ∈ samples.map Prod.fst, ((0 : ℚ) : WithTop ℚ) ≤ u := by
        intro u hu
        by_contra negative
        obtain ⟨r,hr,rfl⟩ := List.mem_map.mp hu
        obtain ⟨q,v,hq,hq',value,neg⟩ := exists_negative (arranged_ascending samples)
          (fun r hr => sums.nonneg r (mem_arranged.mp hr)) hT (mem_arranged.mpr hr)
          (not_le.mp negative)
        exact absurd (right.within q v hq hq' ((quantile_eq_iff reads).mpr value)).1
          (not_le.mpr neg)
      refine .inr ⟨hT,nonneg,fun b hb mem => ?_⟩
      refine (comparable sums nonneg hT).agree_iff.mp (fun x hx hx' => ?_) b hb
        ((summed_bounds samples _).mpr mem)
      have same := right.summed x hx hx'
      rw [histogramQuantile_eq reads,interpolated_pos hT,interpolated_pos hS] at same
      exact Option.map_injective (fun _ _ => PyFloat.finite.inj) (Except.ok.inj same)
  · rintro (zero | ⟨hT,nonneg,all⟩)
    · have none : ∀ q, interpolated (arranged samples) q = none := fun q =>
        if_pos ((total_le sums).trans_eq zero)
      refine ⟨fun q _ _ => ?_,fun q _ v _ _ _ _ value _ => ?_,fun q v _ _ value => ?_⟩
      · rw [histogramQuantile_eq reads,none,interpolated,if_pos zero.le]
      · rw [quantile_eq_iff reads,none] at value
        cases value
      · rw [quantile_eq_iff reads,none] at value
        cases value
    · have h := comparable sums nonneg hT
      have agree := h.agree_iff.mpr fun b hb mem => all b hb ((summed_bounds samples _).mp mem)
      refine ⟨fun q hq hq' => ?_,fun q q' v v' hq le hq' value value' => ?_,
        fun q v hq hq' value => ?_⟩
      · rw [histogramQuantile_eq reads,interpolated_pos hT,interpolated_pos h.sum_pos,
          agree q hq hq']
      · rw [quantile_eq_iff reads,interpolated_pos hT] at value value'
        exact h.scale.rankValue_mono (mul_nonneg hT.le hq) (mul_le_mul_of_nonneg_left le hT.le)
          value value'
      · rw [quantile_eq_iff reads,interpolated_pos hT] at value
        obtain ⟨ge,le⟩ := h.scale.rankValue_mem (mul_nonneg hT.le hq) value
        refine ⟨ge,?_⟩
        rcases boundFrom_mem 0 (arranged samples) with none | mem
        · exact .inl (le_antisymm (le.trans_eq none) ge)
        · refine .inr ⟨_,?_,le⟩
          exact ((List.perm_insertionSort _ samples).map Prod.fst).mem_iff.mp mem

end Right

/-- One row of a family of buckets. -/
def bucketRow (le : String) (count : ℚ) : MetricRow :=
  ⟨"http_request_duration_seconds_bucket","http_request_duration_seconds",[("le",le)],
    .finite count⟩

/-- Two routes of which each has eight of ten requests within a second. -/
def likeRoutes : List MetricRow :=
  [bucketRow "1" 8,bucketRow "+Inf" 10,bucketRow "1" 8,bucketRow "+Inf" 10]

/-- The samples of `likeRoutes`. -/
def likeSamples : List (Bucket ℚ) := [(some 1,8),(none,10),(some 1,8),(none,10)]

theorem like_routes_right :
    QuantileRight readsOne likeRoutes "http_request_duration_seconds" [] likeSamples := by
  have sums : Summable likeSamples := ⟨by decide,by decide +kernel⟩
  have reads : ReadsAs readsOne likeRoutes "http_request_duration_seconds" [] likeSamples := by
    unfold ReadsAs
    rfl
  refine (quantile_right_iff reads sums).mpr (.inr ⟨by decide,by decide,?_⟩)
  intro b _ mem
  have one : b = 1 := by
    have either : ∀ u ∈ likeSamples.map Prod.fst, u = ((1 : ℚ) : WithTop ℚ) ∨ u = ⊤ := by
      decide
    exact WithTop.coe_injective ((either _ mem).resolve_right WithTop.coe_ne_top)
  subst one
  unfold AgreesAt
  decide +kernel

/-- Two routes with ten requests each: eight of the first within a second, none of the second. -/
def twoRoutes : List MetricRow :=
  [bucketRow "1" 8,bucketRow "+Inf" 10,bucketRow "1" 0,bucketRow "+Inf" 10]

/-- The samples of `twoRoutes`. -/
def twoRoutesSamples : List (Bucket ℚ) := [(some 1,8),(none,10),(some 1,0),(none,10)]

theorem reads_twoRoutes :
    ReadsAs readsOne twoRoutes "http_request_duration_seconds" [] twoRoutesSamples := by
  unfold ReadsAs
  rfl

/-- Half of the twenty requests took more than a second, the quantile is below it. -/
theorem half_too_small :
    ¬QuantileRight readsOne twoRoutes "http_request_duration_seconds" [] twoRoutesSamples := by
  intro right
  have same := right.summed (1/2) (by norm_num) (by norm_num)
  have value : interpolated (arranged twoRoutesSamples) (1/2) = some (5/8) := by decide +kernel
  have value' : interpolated (summed twoRoutesSamples) (1/2) = some 1 := by decide +kernel
  rw [histogramQuantile_eq reads_twoRoutes,value,value'] at same
  exact absurd (PyFloat.finite.inj (Option.some.inj (Except.ok.inj same))) (by norm_num)

end HistogramQuantile
end EntryAnalyse
