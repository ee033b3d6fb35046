import Mathlib.Data.List.Sort
import Mathlib.Tactic

/-! Pages of a list whose order is fixed up to ties. Every page is cut out of an order of its own,
so rows that tie may be seen twice or not at all. -/
namespace EntryAnalyse
namespace Paging

variable {α β : Type*} (le : α → α → Prop)

/-- An order that a query may return the rows in. -/
def Ordered (rows o : List α) : Prop := o.Perm rows ∧ o.Pairwise le

def page (limit i : ℕ) (o : List α) : List α := (o.drop (i * limit)).take limit

/-- The pages of a list with `total` rows, each out of its own order. -/
def readPages (order : ℕ → List α) (limit total : ℕ) : List α :=
  (List.range ((total + limit - 1) / limit)).flatMap fun i => page limit i (order i)

variable [DecidableRel le]

/-- The rows in front of a row in every order. -/
def below (rows : List α) (r : α) : ℕ := rows.countP fun s => !decide (le r s)

/-- The rows that tie with a row, and those in front of them. -/
def upto (rows : List α) (r : α) : ℕ := rows.countP fun s => decide (le s r)

/-- Rows that tie are on one page. -/
def TiesOnPages (rows : List α) (limit : ℕ) : Prop :=
  ∀ r ∈ rows, ∀ i, ¬(below le rows r < i * limit ∧ i * limit < upto le rows r)

section Ties

variable {le} {rows o o' front back : List α} {r x y : α} {b limit : ℕ}

theorem Ordered.below_eq (h : Ordered le rows o) : below le rows r = below le o r :=
  (h.1.countP_eq _).symm

theorem Ordered.upto_eq (h : Ordered le rows o) : upto le rows r = upto le o r :=
  (h.1.countP_eq _).symm

/-- Behind the position of a row in an order no row is in front of it. -/
theorem below_le_length [Std.Refl le] (h : (front ++ r :: back).Pairwise le) :
    below le (front ++ r :: back) r ≤ front.length := by
  have hback : (r :: back).countP (fun s => !decide (le r s)) = 0 := by
    rw [List.countP_eq_zero]
    intro s hs
    have hle : le r s := by
      rcases List.mem_cons.mp hs with rfl | hs
      · exact Std.Refl.refl _
      · exact List.rel_of_pairwise_cons (List.pairwise_append.mp h).2.1 hs
    simpa using hle
  rw [below,List.countP_append,hback]
  exact List.countP_le_length

/-- Up to the position of a row in an order all rows are in front of it or tie with it. -/
theorem length_lt_upto [Std.Refl le] (h : (front ++ r :: back).Pairwise le) :
    front.length < upto le (front ++ r :: back) r := by
  have hfront : front.countP (fun s => decide (le s r)) = front.length := by
    rw [List.countP_eq_length]
    exact fun s hs => decide_eq_true ((List.pairwise_append.mp h).2.2 s hs r List.mem_cons_self)
  rw [upto,List.countP_append,hfront,List.countP_cons,
    if_pos (decide_eq_true (Std.Refl.refl r))]
  omega

theorem split_of_mem_take (h : r ∈ o.take b) :
    ∃ front back, o = front ++ r :: back ∧ front.length < b := by
  obtain ⟨front,back,hsplit⟩ := List.append_of_mem h
  have hlen := congrArg List.length hsplit
  rw [List.length_take,List.length_append,List.length_cons] at hlen
  refine ⟨front,back ++ o.drop b,?_,by omega⟩
  conv_lhs => rw [← List.take_append_drop b o,hsplit]
  rw [List.append_assoc,List.cons_append]

theorem split_of_mem_drop (h : r ∈ o.drop b) :
    ∃ front back, o = front ++ r :: back ∧ b ≤ front.length := by
  obtain ⟨front,back,hsplit⟩ := List.append_of_mem h
  have hlen := congrArg List.length hsplit
  rw [List.length_drop,List.length_append,List.length_cons] at hlen
  refine ⟨o.take b ++ front,back,?_,?_⟩
  · conv_lhs => rw [← List.take_append_drop b o,hsplit]
    rw [List.append_assoc]
  · rw [List.length_append,List.length_take]
    omega

/-- Where no ties cross a boundary, the rows in front of it are those with no later ties. -/
theorem take_eq_filter [Std.Refl le] (ho : o.Pairwise le)
    (hties : ∀ r ∈ o, ¬(below le o r < b ∧ b < upto le o r)) :
    o.take b = o.filter fun r => upto le o r ≤ b := by
  have htake : (o.take b).filter (fun r => upto le o r ≤ b) = o.take b := by
    refine List.filter_eq_self.mpr fun r hr => ?_
    obtain ⟨front,back,rfl,hlen⟩ := split_of_mem_take hr
    have hbelow := below_le_length ho
    have hfree := hties r (List.mem_of_mem_take hr)
    rw [decide_eq_true_eq]
    omega
  have hdrop : (o.drop b).filter (fun r => upto le o r ≤ b) = [] := by
    refine List.filter_eq_nil_iff.mpr fun r hr => ?_
    obtain ⟨front,back,rfl,hlen⟩ := split_of_mem_drop hr
    have hupto := length_lt_upto ho
    rw [decide_eq_true_eq]
    omega
  conv_rhs => rw [← List.take_append_drop b o,List.filter_append]
  rw [List.take_append_drop,htake,hdrop,List.append_nil]

/-- Two orders have the same rows in front of a boundary that no ties cross. -/
theorem take_perm [Std.Refl le] (h : Ordered le rows o) (h' : Ordered le rows o')
    (hties : ∀ r ∈ rows, ¬(below le rows r < b ∧ b < upto le rows r)) :
    (o.take b).Perm (o'.take b) := by
  have hfilter : ∀ {o}, Ordered le rows o →
      o.take b = o.filter fun r => upto le rows r ≤ b := by
    intro o h
    rw [take_eq_filter h.2 fun r hr => by
      rw [← h.below_eq,← h.upto_eq]
      exact hties r (h.1.mem_iff.mp hr)]
    simp only [h.upto_eq]
  rw [hfilter h,hfilter h']
  exact (h.1.trans h'.1.symm).filter _

theorem take_succ_page (i : ℕ) (o : List α) :
    o.take ((i + 1) * limit) = o.take (i * limit) ++ page limit i o := by
  rw [page,Nat.succ_mul,List.take_add]

/-- Without ties across the boundaries the first pages hold the first rows of any order. -/
theorem pages_perm [Std.Refl le] {order : ℕ → List α} (ho : Ordered le rows o)
    (horder : ∀ i, Ordered le rows (order i)) (hties : TiesOnPages le rows limit) (n : ℕ) :
    ((List.range n).flatMap fun i => page limit i (order i)).Perm (o.take (n * limit)) := by
  induction n with
  | zero => simp
  | succ n ih =>
    have htake := fun j (r : α) (hr : r ∈ rows) => hties r hr j
    have hpage : (page limit n (order n)).Perm (page limit n o) := by
      have hsucc := take_perm (horder n) ho (htake (n + 1))
      rw [take_succ_page,take_succ_page] at hsucc
      exact (List.perm_append_left_iff _).mp
        (hsucc.trans ((take_perm ho (horder n) (htake n)).append_right _))
    rw [List.range_succ,List.flatMap_append,List.flatMap_singleton,take_succ_page]
    exact ih.append hpage

theorem mem_take_of_length_lt {n : ℕ} (h : front.length < n) :
    x ∈ (front ++ x :: back).take n := by
  rw [List.take_append]
  obtain ⟨m,hm⟩ : ∃ m, n - front.length = m + 1 := ⟨n - front.length - 1,by omega⟩
  rw [hm,List.take_succ_cons]
  exact List.mem_append_right _ List.mem_cons_self

/-- The rows on both sides of a boundary inside ties tie. -/
theorem ties_at_boundary [IsTrans α le] (ho : (front ++ x :: y :: back).Pairwise le)
    (hbelow : below le (front ++ x :: y :: back) r < front.length + 1)
    (hupto : front.length + 1 < upto le (front ++ x :: y :: back) r) : le y x := by
  have hparts := List.pairwise_append.mp ho
  have hyr : le y r := by
    by_contra hyr
    have hback : (y :: back).countP (fun s => decide (le s r)) = 0 := by
      rw [List.countP_eq_zero]
      intro s hs
      rw [decide_eq_true_eq]
      intro hsr
      rcases List.mem_cons.mp hs with rfl | hs
      · exact hyr hsr
      · exact hyr (trans_of le (List.rel_of_pairwise_cons
          (List.Pairwise.of_cons hparts.2.1) hs) hsr)
    have hfront : front.countP (fun s => decide (le s r)) ≤ front.length :=
      List.countP_le_length
    rw [upto,List.countP_append,List.countP_cons,hback] at hupto
    split_ifs at hupto <;> omega
  have hrx : le r x := by
    by_contra hrx
    have hfront : front.countP (fun s => !decide (le r s)) = front.length := by
      rw [List.countP_eq_length]
      intro s hs
      have hsr : ¬le r s := fun hrs => hrx (trans_of le hrs (hparts.2.2 s hs x List.mem_cons_self))
      simpa using hsr
    rw [below,List.countP_append,hfront,List.countP_cons,if_pos (by simpa using hrx)] at hbelow
    omega
  exact trans_of le hyr hrx

theorem mem_neighbour_pages {i : ℕ} (hlimit : 0 < limit) (hi : front.length + 1 = (i + 1) * limit) :
    x ∈ page limit i (front ++ x :: y :: back) ∧
      x ∈ page limit (i + 1) (front ++ y :: x :: back) := by
  constructor
  · have hlen : i * limit ≤ front.length := by
      rw [Nat.succ_mul] at hi
      omega
    rw [page,List.drop_append_of_le_length hlen]
    refine mem_take_of_length_lt ?_
    rw [Nat.succ_mul] at hi
    rw [List.length_drop]
    omega
  · have hsplit : front ++ y :: x :: back = (front ++ [y]) ++ x :: back := by simp
    rw [page,hsplit,List.drop_left' (by simpa using hi)]
    obtain ⟨m,rfl⟩ : ∃ m, limit = m + 1 := ⟨limit - 1,by omega⟩
    rw [List.take_succ_cons]
    exact List.mem_cons_self

/-- Two orders of ties across a boundary show a row on both sides of it. -/
theorem exists_repeated [IsTrans α le] [Std.Total le] {i : ℕ} (hlimit : 0 < limit)
    (hbelow : below le rows r < i * limit) (hupto : i * limit < upto le rows r) :
    ∃ order : ℕ → List α, (∀ j, Ordered le rows (order j)) ∧
      ∃ j x, (j + 1) * limit < rows.length ∧ x ∈ page limit j (order j) ∧
        x ∈ page limit (j + 1) (order (j + 1)) := by
  have ho : Ordered le rows (rows.insertionSort le) :=
    ⟨List.perm_insertionSort le rows,List.pairwise_insertionSort le rows⟩
  have hlen : i * limit < rows.length := hupto.trans_le List.countP_le_length
  obtain ⟨j,rfl⟩ : ∃ j, i = j + 1 := ⟨i - 1,by
    rcases i with - | i
    · omega
    · rfl⟩
  obtain ⟨front,x,y,back,hsplit,hfront⟩ : ∃ front x y back,
      rows.insertionSort le = front ++ x :: y :: back ∧ front.length + 1 = (j + 1) * limit := by
    obtain ⟨b,hb⟩ : ∃ b, (j + 1) * limit = b + 1 := ⟨(j + 1) * limit - 1,by
      rw [Nat.succ_mul]
      omega⟩
    have hsort : (rows.insertionSort le).length = rows.length := List.length_insertionSort le rows
    rw [hb] at hlen ⊢
    refine ⟨(rows.insertionSort le).take b,(rows.insertionSort le)[b],
      (rows.insertionSort le)[b + 1],(rows.insertionSort le).drop (b + 2),?_,?_⟩
    · rw [← List.drop_eq_getElem_cons,← List.drop_eq_getElem_cons,List.take_append_drop]
    · rw [List.length_take]
      omega
  rw [hsplit] at ho
  have hyx : le y x := by
    rw [ho.below_eq] at hbelow
    rw [ho.upto_eq] at hupto
    exact ties_at_boundary ho.2 (hfront ▸ hbelow) (hfront ▸ hupto)
  have ho' : Ordered le rows (front ++ y :: x :: back) := by
    refine ⟨((List.Perm.swap x y back).append_left front).trans ho.1,?_⟩
    obtain ⟨hfront,hrest,hcross⟩ := List.pairwise_append.mp ho.2
    obtain ⟨hx,hrest⟩ := List.pairwise_cons.mp hrest
    obtain ⟨hy,hback⟩ := List.pairwise_cons.mp hrest
    refine List.pairwise_append.mpr ⟨hfront,?_,fun s hs t ht => ?_⟩
    · refine List.pairwise_cons.mpr ⟨fun t ht => ?_,List.pairwise_cons.mpr
        ⟨fun t ht => hx t (List.mem_cons_of_mem _ ht),hback⟩⟩
      rcases List.mem_cons.mp ht with rfl | ht
      · exact hyx
      · exact hy t ht
    · refine hcross s hs t ?_
      simp only [List.mem_cons] at ht ⊢
      exact or_left_comm.mp ht
  refine ⟨fun k => if k = j then front ++ x :: y :: back else front ++ y :: x :: back,
    fun k => ?_,j,x,hlen,?_,?_⟩
  · dsimp only
    split
    · exact ho
    · exact ho'
  · dsimp only
    rw [if_pos rfl]
    exact (mem_neighbour_pages hlimit hfront).1
  · dsimp only
    rw [if_neg (Nat.succ_ne_self j)]
    exact (mem_neighbour_pages hlimit hfront).2

/-- The pages hold every row once, whatever the orders, exactly if rows that tie are on one page. -/
theorem readPages_perm_iff [IsTrans α le] [Std.Total le] {f : α → β} (hf : (rows.map f).Nodup)
    (hlimit : 0 < limit) :
    (∀ order : ℕ → List α, (∀ i, Ordered le rows (order i)) →
        ((readPages order limit rows.length).map f).Perm (rows.map f)) ↔
      TiesOnPages le rows limit := by
  have hcount : rows.length ≤ (rows.length + limit - 1) / limit * limit := by
    have hdiv := Nat.div_add_mod (rows.length + limit - 1) limit
    have hmod := Nat.mod_lt (rows.length + limit - 1) hlimit
    rw [Nat.mul_comm] at hdiv
    omega
  constructor
  · rintro h r hr i ⟨hbelow,hupto⟩
    obtain ⟨order,horder,j,x,hj,hx,hx'⟩ := exists_repeated hlimit hbelow hupto
    have hnodup : (readPages order limit rows.length).Nodup :=
      ((h order horder).nodup_iff.mpr hf).of_map f
    have hpages : j + 1 < (rows.length + limit - 1) / limit := by
      by_contra hle
      have := Nat.mul_le_mul_right limit (Nat.le_of_not_lt hle)
      omega
    have hdisjoint := List.pairwise_iff_getElem.mp (List.nodup_flatMap.mp hnodup).2 j (j + 1)
      (by rw [List.length_range]; omega) (by rw [List.length_range]; omega) (Nat.lt_succ_self j)
    rw [List.getElem_range,List.getElem_range] at hdisjoint
    exact hdisjoint hx hx'
  · intro hties order horder
    have hpages := pages_perm (horder 0) horder hties ((rows.length + limit - 1) / limit)
    rw [List.take_of_length_le (by rw [(horder 0).1.length_eq]; exact hcount)] at hpages
    exact (hpages.trans (horder 0).1).map f

end Ties

end Paging
end EntryAnalyse
