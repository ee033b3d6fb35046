import Mathlib.Algebra.Order.Field.Basic
import Mathlib.Data.List.TakeWhile
import Mathlib.Order.WithBot
import Mathlib.Tactic.Linarith
import Mathlib.Tactic.LinearCombination
import Mathlib.Tactic.FieldSimp
import Mathlib.Tactic.Positivity

/-! Linear interpolation in a sequence of buckets, each given by its upper bound and the count
reached there. The sequence need not be a cumulative histogram. -/
namespace EntryAnalyse
namespace Interpolation

/-- An upper bound, `⊤` for none, and the count up to it. -/
abbrev Bucket (α : Type) := WithTop α × α

variable {α : Type} [Field α] [LinearOrder α]

/-- Where the rank `t` lies in the bucket `b`, behind a bound `lo` with the count `before`. -/
def ramp (t lo before : α) (b : Bucket α) : α :=
  if b.2 - before ≤ 0 then b.1.untopD lo
  else lo + (b.1.untopD lo - lo) * ((t - before) / (b.2 - before))

/-- Where the rank `t` is reached first. -/
def valueFrom (t : α) : α → α → List (Bucket α) → Option α
  | _,_,[] => none
  | lo,before,b :: buckets =>
    if t ≤ b.2 then some (ramp t lo before b) else valueFrom t (b.1.untopD lo) b.2 buckets

/-- The last finite bound. -/
def boundFrom (lo : α) (buckets : List (Bucket α)) : α :=
  buckets.foldl (fun lo b => b.1.untopD lo) lo

/-- The last count. -/
def countFrom (before : α) (buckets : List (Bucket α)) : α :=
  buckets.foldl (fun _ b => b.2) before

/-- The greatest count. -/
def peak (buckets : List (Bucket α)) : α := buckets.foldr (fun b m => max b.2 m) 0

/-- The bounds grow. -/
def Ascending (buckets : List (Bucket α)) : Prop := buckets.Pairwise fun a b => a.1 ≤ b.1

variable {t lo before : α} {b : Bucket α} {P Z : List (Bucket α)}

theorem valueFrom_skip (missed : ∀ r ∈ P, r.2 < t) (Z : List (Bucket α)) :
    valueFrom t lo before (P ++ Z) = valueFrom t (boundFrom lo P) (countFrom before P) Z := by
  induction P generalizing lo before with
  | nil => rfl
  | cons r P ih =>
    rw [List.cons_append,valueFrom,if_neg (not_le.mpr (missed r List.mem_cons_self)),
      ih fun r h => missed r (List.mem_cons_of_mem _ h)]
    rfl

theorem valueFrom_reached (reached : ∃ r ∈ P, t ≤ r.2) (Z : List (Bucket α)) :
    valueFrom t lo before (P ++ Z) = valueFrom t lo before P := by
  induction P generalizing lo before with
  | nil =>
    obtain ⟨_,h,_⟩ := reached
    cases h
  | cons r P ih =>
    rw [List.cons_append,valueFrom,valueFrom]
    split
    · rfl
    · rename_i missed
      obtain ⟨r',h,le⟩ := reached
      rcases List.mem_cons.mp h with rfl | h
      · exact absurd le missed
      · exact ih ⟨r',h,le⟩

theorem valueFrom_isSome (reached : ∃ r ∈ P, t ≤ r.2) :
    ∃ v, valueFrom t lo before P = some v := by
  induction P generalizing lo before with
  | nil =>
    obtain ⟨_,h,_⟩ := reached
    cases h
  | cons r P ih =>
    rw [valueFrom]
    split
    · exact ⟨_,rfl⟩
    · rename_i missed
      obtain ⟨r',h,le⟩ := reached
      rcases List.mem_cons.mp h with rfl | h
      · exact absurd le missed
      · exact ih ⟨r',h,le⟩

theorem le_peak {r : Bucket α} (h : r ∈ P) : r.2 ≤ peak P := by
  induction P with
  | nil => cases h
  | cons b P ih =>
    rcases List.mem_cons.mp h with rfl | h
    · exact le_max_left _ _
    · exact (ih h).trans (le_max_right _ _)

theorem peak_nonneg (P : List (Bucket α)) : 0 ≤ peak P := by
  induction P with
  | nil => exact le_rfl
  | cons b P ih => exact ih.trans (le_max_right _ _)

theorem exists_peak (positive : 0 < peak P) : ∃ r ∈ P, r.2 = peak P := by
  induction P with
  | nil => exact absurd positive (lt_irrefl _)
  | cons b P ih =>
    rcases max_choice b.2 (peak P) with h | h
    · exact ⟨b,List.mem_cons_self,h.symm⟩
    · have same : peak (b :: P) = peak P := h
      rw [same] at positive ⊢
      obtain ⟨r,hr,eq⟩ := ih positive
      exact ⟨r,List.mem_cons_of_mem _ hr,eq⟩

omit [Field α] [LinearOrder α] in
theorem countFrom_append (P : List (Bucket α)) : countFrom before (P ++ [b]) = b.2 := by
  simp [countFrom]

theorem countFrom_le_peak (P : List (Bucket α)) : countFrom 0 P ≤ peak P := by
  rcases P.eq_nil_or_concat with rfl | ⟨P,b,rfl⟩
  · exact le_rfl
  · rw [List.concat_eq_append,countFrom_append]
    exact le_peak (by simp)

omit [Field α] in
theorem le_untopD {u : WithTop α} (h : (lo : WithTop α) ≤ u) : lo ≤ u.untopD lo := by
  cases u with
  | top => exact le_rfl
  | coe u => exact WithTop.coe_le_coe.mp h

omit [Field α] in
theorem untopD_le {u w : WithTop α} (h : u ≤ w) (hlo : (lo : WithTop α) ≤ u) :
    ((u.untopD lo : α) : WithTop α) ≤ w := by
  cases u with
  | top => exact hlo.trans h
  | coe u => exact h

variable [IsStrictOrderedRing α]

theorem ramp_mem (hlo : (lo : WithTop α) ≤ b.1) (low : before ≤ t) (high : t ≤ b.2) :
    lo ≤ ramp t lo before b ∧ ramp t lo before b ≤ b.1.untopD lo := by
  have wide : lo ≤ b.1.untopD lo := le_untopD hlo
  unfold ramp
  split
  · exact ⟨wide,le_rfl⟩
  · rename_i some
    have some : 0 < b.2 - before := not_le.mp some
    have offset : 0 ≤ (t - before) / (b.2 - before) := div_nonneg (by linarith) some.le
    have most : (t - before) / (b.2 - before) ≤ 1 := (div_le_one some).mpr (by linarith)
    constructor
    · nlinarith
    · nlinarith

theorem ramp_mono {t' : α} (hlo : (lo : WithTop α) ≤ b.1) (le : t ≤ t') :
    ramp t lo before b ≤ ramp t' lo before b := by
  have wide : lo ≤ b.1.untopD lo := le_untopD hlo
  unfold ramp
  split
  · exact le_rfl
  · rename_i some
    have some : 0 < b.2 - before := not_le.mp some
    gcongr

omit [Field α] [IsStrictOrderedRing α] in
theorem above_tail (sorted : Ascending (b :: Z)) (hlo : (lo : WithTop α) ≤ b.1) :
    ∀ r ∈ Z, ((b.1.untopD lo : α) : WithTop α) ≤ r.1 :=
  fun r h => untopD_le ((List.pairwise_cons.mp sorted).1 r h) hlo

omit [Field α] [IsStrictOrderedRing α] in
theorem le_boundFrom (sorted : Ascending Z) (above : ∀ r ∈ Z, (lo : WithTop α) ≤ r.1) :
    lo ≤ boundFrom lo Z := by
  induction Z generalizing lo with
  | nil => exact le_rfl
  | cons b Z ih =>
    have hb := above b List.mem_cons_self
    exact (le_untopD hb).trans (ih (List.pairwise_cons.mp sorted).2 (above_tail sorted hb))

/-- Where the rank is reached lies between the bound so far and the last finite bound. -/
theorem valueFrom_mem {v : α} (sorted : Ascending Z) (above : ∀ r ∈ Z, (lo : WithTop α) ≤ r.1)
    (low : before ≤ t) (value : valueFrom t lo before Z = some v) :
    lo ≤ v ∧ v ≤ boundFrom lo Z := by
  induction Z generalizing lo before with
  | nil => cases value
  | cons b Z ih =>
    have hb := above b List.mem_cons_self
    have tail := (List.pairwise_cons.mp sorted).2
    have above' := above_tail sorted hb
    rw [valueFrom] at value
    split at value
    · rename_i high
      obtain ⟨ge,le⟩ := ramp_mem hb low high
      rw [← Option.some.inj value]
      exact ⟨ge,le.trans (le_boundFrom tail above')⟩
    · rename_i missed
      obtain ⟨ge,le⟩ := ih tail above' (not_le.mp missed).le value
      exact ⟨(le_untopD hb).trans ge,le⟩

/-- A greater rank is not reached at a smaller value. -/
theorem valueFrom_mono {t' v v' : α} (sorted : Ascending Z)
    (above : ∀ r ∈ Z, (lo : WithTop α) ≤ r.1) (low : before ≤ t) (le : t ≤ t')
    (value : valueFrom t lo before Z = some v) (value' : valueFrom t' lo before Z = some v') :
    v ≤ v' := by
  induction Z generalizing lo before with
  | nil => cases value
  | cons b Z ih =>
    have hb := above b List.mem_cons_self
    have tail := (List.pairwise_cons.mp sorted).2
    have above' := above_tail sorted hb
    rw [valueFrom] at value value'
    split at value
    · rename_i high
      rw [← Option.some.inj value]
      split at value'
      · rw [← Option.some.inj value']
        exact ramp_mono hb le
      · rename_i missed
        exact (ramp_mem hb low high).2.trans
          (valueFrom_mem tail above' (not_le.mp missed).le value').1
    · rename_i missed
      rw [if_neg (fun high => missed (le.trans high))] at value'
      exact ih tail above' (not_le.mp missed).le value value'

/-- Where the rank `t` is reached first, from zero on. -/
def rankValue (t : α) (X : List (Bucket α)) : Option α := valueFrom t 0 0 X

/-- Buckets in the order of their bounds, which are not negative. -/
structure Scale (X : List (Bucket α)) : Prop where
  sorted : Ascending X
  nonneg : ∀ r ∈ X, ((0 : α) : WithTop α) ≤ r.1

/-- The buckets `X` around the first with the bound `b`, which counts `A`. -/
structure Cut (X : List (Bucket α)) (b : α) (P : List (Bucket α)) (A : α) (Z : List (Bucket α)) :
    Prop where
  split : X = P ++ ((b : WithTop α),A) :: Z
  below : ∀ r ∈ P, r.1 < (b : WithTop α)

omit [Field α] [IsStrictOrderedRing α] in
theorem boundFrom_lt {b : α} (hlo : lo < b) (below : ∀ r ∈ P, r.1 < (b : WithTop α)) :
    boundFrom lo P < b := by
  induction P generalizing lo with
  | nil => exact hlo
  | cons r P ih =>
    refine ih ?_ fun r h => below r (List.mem_cons_of_mem _ h)
    have hr := below r List.mem_cons_self
    change r.1.untopD lo < b
    cases h : r.1 with
    | top => exact hlo
    | coe u =>
      rw [h] at hr
      exact WithTop.coe_lt_coe.mp hr

theorem Scale.rankValue_mem {X : List (Bucket α)} {v : α} (scale : Scale X) (ht : 0 ≤ t)
    (value : rankValue t X = some v) : 0 ≤ v ∧ v ≤ boundFrom 0 X :=
  valueFrom_mem scale.sorted scale.nonneg ht value

theorem Scale.rankValue_mono {X : List (Bucket α)} {t' v v' : α} (scale : Scale X) (ht : 0 ≤ t)
    (le : t ≤ t') (value : rankValue t X = some v) (value' : rankValue t' X = some v') : v ≤ v' :=
  valueFrom_mono scale.sorted scale.nonneg ht le value value'

namespace Cut

variable {X : List (Bucket α)} {b A v : α}

omit [Field α] [IsStrictOrderedRing α] in
theorem mem (cut : Cut X b P A Z) : ((b : WithTop α),A) ∈ X := by
  rw [cut.split]
  simp

theorem value_le (cut : Cut X b P A Z) (scale : Scale X) (ht : 0 < t) (reached : t ≤ peak P)
    (value : rankValue t X = some v) : v ≤ boundFrom 0 P := by
  obtain ⟨r,hr,eq⟩ := exists_peak (ht.trans_le reached)
  have sorted := scale.sorted
  have nonneg := scale.nonneg
  rw [cut.split] at sorted nonneg
  rw [rankValue,cut.split,valueFrom_reached ⟨r,hr,eq ▸ reached⟩] at value
  exact (valueFrom_mem (List.pairwise_append.mp sorted).1
    (fun r h => nonneg r (List.mem_append_left _ h)) ht.le value).2

omit [IsStrictOrderedRing α] in
theorem skip (cut : Cut X b P A Z) (missed : peak P < t) :
    rankValue t X =
      valueFrom t (boundFrom 0 P) (countFrom 0 P) (((b : WithTop α),A) :: Z) := by
  rw [rankValue,cut.split]
  exact valueFrom_skip (fun r h => (le_peak h).trans_lt missed) _

theorem value_ramp (cut : Cut X b P A Z) (missed : peak P < t) (reached : t ≤ A) :
    rankValue t X = some (boundFrom 0 P +
      (b - boundFrom 0 P) * ((t - countFrom 0 P) / (A - countFrom 0 P))) := by
  have some : ¬ A - countFrom 0 P ≤ 0 := by
    have := countFrom_le_peak P
    linarith
  rw [cut.skip missed,valueFrom,if_pos reached,ramp,if_neg some]
  rfl

theorem value_ge (cut : Cut X b P A Z) (scale : Scale X) (missed : peak P < t) (beyond : A < t)
    (value : rankValue t X = some v) : b ≤ v := by
  have sorted := scale.sorted
  rw [cut.split] at sorted
  have rest := (List.pairwise_append.mp sorted).2.1
  rw [cut.skip missed,valueFrom,if_neg (not_le.mpr beyond)] at value
  exact (valueFrom_mem (List.pairwise_cons.mp rest).2 (List.pairwise_cons.mp rest).1 beyond.le
    value).1

omit [IsStrictOrderedRing α] in
theorem lower_lt (cut : Cut X b P A Z) (hb : 0 < b) : boundFrom 0 P < b :=
  boundFrom_lt hb cut.below

/-- Within the bucket the value is behind the bound before it. -/
theorem lower_lt_value (cut : Cut X b P A Z) (scale : Scale X) (hb : 0 < b) (missed : peak P < t)
    (value : rankValue t X = some v) : boundFrom 0 P < v := by
  have lower := cut.lower_lt hb
  rcases le_or_gt t A with reached | beyond
  · rw [cut.value_ramp missed reached] at value
    rw [← Option.some.inj value]
    have before := countFrom_le_peak P
    have ratio : 0 < (t - countFrom 0 P) / (A - countFrom 0 P) :=
      div_pos (by linarith) (by linarith)
    nlinarith
  · exact lower.trans_le (cut.value_ge scale missed beyond value)

/-- In front of the count of the bucket the value is in front of its bound. -/
theorem value_lt (cut : Cut X b P A Z) (hb : 0 < b) (missed : peak P < t) (inside : t < A)
    (value : rankValue t X = some v) : v < b := by
  have lower := cut.lower_lt hb
  rw [cut.value_ramp missed inside.le] at value
  rw [← Option.some.inj value]
  have before := countFrom_le_peak P
  have ratio : (t - countFrom 0 P) / (A - countFrom 0 P) < 1 :=
    (div_lt_one (by linarith)).mpr (by linarith)
  nlinarith

end Cut

section Bounds

omit [Field α] [IsStrictOrderedRing α]

theorem le_boundFrom_of_mem {u : α} (sorted : Ascending P) (h : (u : WithTop α) ∈ P.map Prod.fst)
    (above : ∀ r ∈ P, (lo : WithTop α) ≤ r.1) : u ≤ boundFrom lo P := by
  induction P generalizing lo with
  | nil => cases h
  | cons r P ih =>
    have hr := above r List.mem_cons_self
    have tail := (List.pairwise_cons.mp sorted).2
    have above' := above_tail sorted hr
    rcases List.mem_cons.mp h with eq | h
    · have hu : r.1.untopD lo = u := by rw [← eq]; rfl
      rw [← hu]
      exact le_boundFrom tail above'
    · exact ih tail h above'

omit [LinearOrder α] in
theorem boundFrom_mem (lo : α) (P : List (Bucket α)) :
    boundFrom lo P = lo ∨ ((boundFrom lo P : α) : WithTop α) ∈ P.map Prod.fst := by
  induction P generalizing lo with
  | nil => exact .inl rfl
  | cons r P ih =>
    rcases ih (r.1.untopD lo) with eq | h
    · change boundFrom (r.1.untopD lo) P = lo ∨ _
      cases hr : r.1 with
      | top =>
        rw [hr] at eq
        exact .inl eq
      | coe u =>
        right
        rw [hr] at eq
        change ((boundFrom (r.1.untopD lo) P : α) : WithTop α) ∈ _
        rw [hr,eq,List.map_cons,hr]
        exact List.mem_cons_self
    · exact .inr (List.mem_cons_of_mem _ h)

/-- The last finite bound depends on the bounds only. -/
theorem boundFrom_congr {P Q : List (Bucket α)} (hP : Ascending P) (hQ : Ascending Q)
    (same : ∀ u, u ∈ P.map Prod.fst ↔ u ∈ Q.map Prod.fst)
    (above : ∀ r ∈ P, (lo : WithTop α) ≤ r.1) (above' : ∀ r ∈ Q, (lo : WithTop α) ≤ r.1) :
    boundFrom lo P = boundFrom lo Q := by
  have le : ∀ {P Q : List (Bucket α)}, Ascending Q →
      (∀ u, u ∈ P.map Prod.fst → u ∈ Q.map Prod.fst) →
      (∀ r ∈ Q, (lo : WithTop α) ≤ r.1) → boundFrom lo P ≤ boundFrom lo Q := by
    intro P Q hQ sub above
    rcases boundFrom_mem lo P with eq | h
    · rw [eq]
      exact le_boundFrom hQ above
    · exact le_boundFrom_of_mem hQ (sub _ h) above
  exact le_antisymm (le hQ (fun u => (same u).mp) above') (le hP (fun u => (same u).mpr) above)

/-- The buckets with a bound below `b`. -/
def below (b : α) (X : List (Bucket α)) : List (Bucket α) :=
  X.takeWhile fun r => r.1 < (b : WithTop α)

theorem mem_below {b : α} {X : List (Bucket α)} (sorted : Ascending X) {r : Bucket α} :
    r ∈ below b X ↔ r ∈ X ∧ r.1 < (b : WithTop α) := by
  induction X with
  | nil => simp [below]
  | cons a X ih =>
    have tail := ih (List.pairwise_cons.mp sorted).2
    rw [below,List.takeWhile_cons]
    split
    · rename_i lt
      have lt : a.1 < (b : WithTop α) := of_decide_eq_true lt
      rw [List.mem_cons,List.mem_cons,← below,tail]
      constructor
      · rintro (rfl | ⟨h,hr⟩)
        · exact ⟨.inl rfl,lt⟩
        · exact ⟨.inr h,hr⟩
      · rintro ⟨rfl | h,hr⟩
        · exact .inl rfl
        · exact .inr ⟨h,hr⟩
    · rename_i ge
      have ge : (b : WithTop α) ≤ a.1 := by
        simpa using ge
      refine ⟨fun h => absurd h List.not_mem_nil,?_⟩
      rintro ⟨h,hr⟩
      rcases List.mem_cons.mp h with rfl | h
      · exact absurd hr (not_lt.mpr ge)
      · exact absurd hr (not_lt.mpr (ge.trans ((List.pairwise_cons.mp sorted).1 r h)))

end Bounds

/-- The count of the first bucket with the bound `b`. -/
def countAt (b : α) (X : List (Bucket α)) : α :=
  ((X.dropWhile fun r => r.1 < (b : WithTop α)).head?.map Prod.snd).getD 0

omit [IsStrictOrderedRing α] in
theorem cut_of_mem {X : List (Bucket α)} {b : α} (sorted : Ascending X)
    (h : (b : WithTop α) ∈ X.map Prod.fst) : ∃ Z, Cut X b (below b X) (countAt b X) Z := by
  obtain ⟨r,hr,eq⟩ := List.mem_map.mp h
  have whole : below b X ++ X.dropWhile (fun r => r.1 < (b : WithTop α)) = X :=
    List.takeWhile_append_dropWhile
  have inRest : r ∈ X.dropWhile fun r => r.1 < (b : WithTop α) := by
    rw [← whole] at hr
    refine (List.mem_append.mp hr).resolve_left fun h => ?_
    have lt := ((mem_below sorted).mp h).2
    rw [eq] at lt
    exact lt_irrefl _ lt
  have least := List.head?_dropWhile_not (fun r : Bucket α => decide (r.1 < (b : WithTop α))) X
  cases rest : X.dropWhile fun r => r.1 < (b : WithTop α) with
  | nil =>
    rw [rest] at inRest
    cases inRest
  | cons a Z =>
    rw [rest] at inRest least whole
    have ge : (b : WithTop α) ≤ a.1 := not_lt.mp (of_decide_eq_false least)
    rw [← whole] at sorted
    have le : a.1 ≤ (b : WithTop α) := by
      rcases List.mem_cons.mp inRest with rfl | h
      · exact eq.le
      · exact ((List.pairwise_cons.mp (List.pairwise_append.mp sorted).2.1).1 r h).trans eq.le
    have count : countAt b X = a.2 := by
      rw [countAt,rest]
      rfl
    refine ⟨Z,whole.symm.trans ?_,fun r h => of_decide_eq_true
      (List.mem_takeWhile_imp (p := fun r : Bucket α => decide (r.1 < (b : WithTop α))) h)⟩
    rw [count,← le_antisymm le ge]

end Interpolation
end EntryAnalyse
