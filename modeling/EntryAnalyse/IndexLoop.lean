import Mathlib.Tactic

/-! A loop over a list that goes by the index of its place, while the list changes under it. A loop
at place `i` has still to visit `l.drop i`: what is appended is visited too, and a removal in front
of the place makes it skip the element there. -/
namespace EntryAnalyse
namespace IndexLoop

variable {α : Type} {l : List α} {i : ℕ} {x y m : α}

/-- The loop at place `i` passes over `x` when `m` is removed. -/
def Skips (l : List α) (m : α) (i : ℕ) (x : α) : Prop := m ∈ l.take i ∧ l[i]? = some x

theorem drop_of_place (h : l[i]? = some y) : l.drop i = y :: l.drop (i + 1) := by
  obtain ⟨hi,rfl⟩ := List.getElem?_eq_some_iff.mp h
  exact List.drop_eq_getElem_cons hi

theorem drop_of_end (h : l[i]? = none) : l.drop i = [] :=
  List.drop_eq_nil_of_le (List.getElem?_eq_none_iff.mp h)

theorem mem_drop_append_of_mem (h : x ∈ l.drop i) : x ∈ (l ++ [y]).drop i := by
  have hi : i ≤ l.length := by
    by_contra hlt
    rw [List.drop_eq_nil_of_le (by omega)] at h
    cases h
  rw [List.drop_append_of_le_length hi]
  exact List.mem_append_left _ h

theorem mem_drop_append (h : x ∈ (l ++ [y]).drop i) : x ∈ l.drop i ∨ x = y := by
  rw [List.drop_append] at h
  rcases List.mem_append.mp h with h | h
  · exact .inl h
  · exact .inr (List.mem_singleton.mp (List.mem_of_mem_drop h))

/-- What is left of the loop behind a removal. -/
theorem drop_erase [DecidableEq α] (h : m ∈ l) :
    (l.erase m).drop i = if m ∈ l.take i then l.drop (i + 1) else (l.drop i).erase m := by
  have hsplit : l.erase m = (l.take i ++ l.drop i).erase m := by rw [List.take_append_drop]
  by_cases ht : m ∈ l.take i
  · rw [if_pos ht,hsplit,List.erase_append_left _ ht]
    have hlen : ((l.take i).erase m).length + 1 = (l.take i).length := by
      rw [List.length_erase_of_mem ht]
      have := List.length_pos_of_mem ht
      omega
    by_cases hi : i ≤ l.length
    · rw [List.length_take_of_le hi] at hlen
      rw [List.drop_append,List.drop_eq_nil_of_le (by omega),List.nil_append,List.drop_drop]
      congr 1
      omega
    · rw [List.drop_eq_nil_of_le (by omega : l.length ≤ i),List.append_nil,
        List.drop_eq_nil_of_le (by omega : l.length ≤ i + 1)]
      apply List.drop_eq_nil_of_le
      have := List.length_take_le' i l
      omega
  · have hi : i ≤ l.length := by
      by_contra hlt
      rw [List.take_of_length_le (by omega)] at ht
      exact ht h
    rw [if_neg ht,hsplit,List.erase_append_right _ ht,List.drop_append,
      List.drop_eq_nil_of_le (by rw [List.length_take_of_le hi]),List.nil_append,
      List.length_take_of_le hi,Nat.sub_self,List.drop_zero]

section Nodup

variable (hn : l.Nodup)
include hn

/-- A visited element is not visited again. -/
theorem not_mem_drop_of_place (h : l[i]? = some y) : y ∉ l.drop (i + 1) := by
  have hdrop := hn.sublist (List.drop_sublist i l)
  rw [drop_of_place h] at hdrop
  exact (List.nodup_cons.mp hdrop).1

theorem not_mem_take (h : x ∈ l.drop i) : x ∉ l.take i := by
  intro ht
  exact List.disjoint_take_drop hn le_rfl ht h

theorem mem_drop_erase_iff [DecidableEq α] (h : m ∈ l) :
    x ∈ (l.erase m).drop i ↔ x ∈ l.drop i ∧ x ≠ m ∧ ¬Skips l m i x := by
  rw [drop_erase h]
  by_cases ht : m ∈ l.take i
  · rw [if_pos ht]
    constructor
    · intro hx
      have hsucc : x ∈ l.drop i := by
        rw [← List.drop_drop] at hx
        exact List.mem_of_mem_drop hx
      refine ⟨hsucc,?_,fun hskip => not_mem_drop_of_place hn hskip.2 hx⟩
      rintro rfl
      exact not_mem_take hn hsucc ht
    · rintro ⟨hx,-,hskip⟩
      cases hplace : l[i]? with
      | none =>
        rw [drop_of_end hplace] at hx
        cases hx
      | some y =>
        rw [drop_of_place hplace] at hx
        rcases List.mem_cons.mp hx with rfl | hx
        · exact absurd ⟨ht,hplace⟩ hskip
        · exact hx
  · rw [if_neg ht,(hn.sublist (List.drop_sublist i l)).mem_erase_iff]
    constructor
    · rintro ⟨hne,hx⟩
      exact ⟨hx,hne,fun hskip => ht hskip.1⟩
    · rintro ⟨hx,hne,-⟩
      exact ⟨hne,hx⟩

end Nodup

end IndexLoop
end EntryAnalyse
