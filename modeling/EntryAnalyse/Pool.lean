import Mathlib.Tactic

/-! A pool of parties, kept as a list that is changed in place: one party takes a step and is
put back where it stood. What is known of all, of some, or of the number of the parties is
carried over such a step from what is known of the one party. -/
namespace EntryAnalyse
namespace Pool

variable {α : Type} {l : List α} {i : ℕ} {a b : α}

theorem forall_mem_set {P : α → Prop} (h : ∀ x ∈ l, P x) (hb : P b) : ∀ x ∈ l.set i b, P x := by
  intro x hx
  rcases List.mem_or_eq_of_mem_set hx with hx | rfl
  · exact h x hx
  · exact hb

theorem exists_mem_set {P : α → Prop} (ha : l[i]? = some a) (hab : P a → P b)
    (h : ∃ x ∈ l, P x) : ∃ x ∈ l.set i b, P x := by
  obtain ⟨hi,ha⟩ := List.getElem?_eq_some_iff.mp ha
  obtain ⟨x,hx,hp⟩ := h
  obtain ⟨j,hj,rfl⟩ := List.mem_iff_getElem.mp hx
  by_cases hij : i = j
  · subst hij
    rw [ha] at hp
    exact ⟨b,List.mem_set hi b,hab hp⟩
  · refine ⟨l[j],?_,hp⟩
    apply List.mem_of_getElem?
    rw [List.getElem?_set_ne hij]
    exact List.getElem?_eq_getElem hj

theorem map_set_of_eq {β : Type} {f : α → β} (ha : l[i]? = some a) (h : f b = f a) :
    (l.set i b).map f = l.map f := by
  rw [List.map_set,h]
  apply List.ext_getElem?
  intro j
  by_cases hij : i = j
  · subst hij
    obtain ⟨hi,rfl⟩ := List.getElem?_eq_some_iff.mp ha
    simp [hi]
  · rw [List.getElem?_set_ne hij]

theorem set_self (ha : l[i]? = some a) : l.set i a = l := by
  have hmap := map_set_of_eq (f := id) ha rfl
  simpa using hmap

/-- A sum over the parties, when the summand changes for the one party only. -/
theorem sum_map_set {f g : α → ℕ} (ha : l[i]? = some a)
    (hfg : ∀ j x, j ≠ i → l[j]? = some x → g x = f x) :
    ((l.set i b).map g).sum + f a = (l.map f).sum + g b := by
  induction l generalizing i with
  | nil => cases ha
  | cons x l ih =>
    cases i with
    | zero =>
      obtain rfl : x = a := Option.some.inj ha
      have hrest : l.map g = l.map f := List.map_congr_left fun y hy => by
        obtain ⟨j,hj⟩ := List.mem_iff_getElem?.mp hy
        exact hfg (j + 1) y (Nat.succ_ne_zero j) hj
      simp only [List.set_cons_zero,List.map_cons,List.sum_cons,hrest]
      omega
    | succ i =>
      have hrest := ih (i := i) ha fun j y hj hy => hfg (j + 1) y (by omega) hy
      have hx := hfg 0 x (Nat.succ_ne_zero i).symm rfl
      simp only [List.set_cons_succ,List.map_cons,List.sum_cons]
      omega

/-- Where the parties differ in `g`, it tells their places. -/
theorem eq_of_nodup {β : Type} {g : α → β} (hn : (l.map g).Nodup) {j : ℕ} {x : α}
    (ha : l[i]? = some a) (hx : l[j]? = some x) (h : g x = g a) : j = i := by
  obtain ⟨hj,-⟩ := List.getElem?_eq_some_iff.mp hx
  have hmap : (l.map g)[j]? = (l.map g)[i]? := by
    rw [List.getElem?_map,List.getElem?_map,hx,ha,Option.map_some,Option.map_some,h]
  exact (List.getElem?_inj (by simpa using hj) hn).mp hmap

/-- Where the parties differ in `g`, all but the one that moved differ from it still. -/
theorem eq_or_ne_of_mem_set {β : Type} {g : α → β} (hn : (l.map g).Nodup) (ha : l[i]? = some a)
    {x : α} (hx : x ∈ l.set i b) : x = b ∨ x ∈ l ∧ g x ≠ g a := by
  obtain ⟨j,hj,rfl⟩ := List.mem_iff_getElem.mp hx
  rw [List.getElem_set]
  by_cases hij : i = j
  · exact .inl (if_pos hij)
  · rw [if_neg hij]
    have hj' : j < l.length := by simpa using hj
    refine .inr ⟨List.getElem_mem hj',fun heq => hij ?_⟩
    exact (eq_of_nodup hn ha (List.getElem?_eq_getElem hj') heq).symm

section Count

variable {p : α → Bool}

/-- The one party counts before and after, or neither before nor after. -/
theorem countP_set_of_eq (ha : l[i]? = some a) (h : p b = p a) :
    (l.set i b).countP p = l.countP p := by
  obtain ⟨hi,ha⟩ := List.getElem?_eq_some_iff.mp ha
  rw [List.countP_set hi,ha,h]
  by_cases hp : p a = true
  · have hpos : 0 < l.countP p := List.countP_pos_iff.mpr ⟨a,ha ▸ List.getElem_mem hi,hp⟩
    simp only [hp,if_true]
    omega
  · simp [hp]

/-- The one party still counts if it did. -/
theorem countP_le_countP_set (ha : l[i]? = some a) (h : p a = true → p b = true) :
    l.countP p ≤ (l.set i b).countP p := by
  obtain ⟨hi,ha⟩ := List.getElem?_eq_some_iff.mp ha
  rw [List.countP_set hi,ha]
  by_cases hp : p a = true
  · simp only [hp,h hp,if_true]
    omega
  · simp [hp]

theorem countP_set_of_new (ha : l[i]? = some a) (hpa : p a = false) (hpb : p b = true) :
    (l.set i b).countP p = l.countP p + 1 := by
  obtain ⟨hi,ha⟩ := List.getElem?_eq_some_iff.mp ha
  rw [List.countP_set hi,ha,hpa,hpb]
  simp

/-- Parties that differ in `g`: at most one of them has a given value of it. -/
theorem countP_le_one {β : Type} [DecidableEq β] {g : α → β} (h : (l.map g).Nodup) (y : β) :
    l.countP (fun x => g x = y) ≤ 1 := by
  have hcount := List.nodup_iff_count_le_one.mp h y
  rw [List.count,List.countP_map] at hcount
  refine (List.countP_mono_left fun x _ hx => ?_).trans hcount
  simpa using hx

/-- As long as one party does not count, the count is below the number of the parties. -/
theorem countP_lt_of_mem (ha : a ∈ l) (hpa : p a = false) : l.countP p < l.length := by
  apply lt_of_le_of_ne List.countP_le_length
  intro h
  have hall := List.countP_eq_length.mp h a ha
  rw [hpa] at hall
  cases hall

end Count

end Pool
end EntryAnalyse
