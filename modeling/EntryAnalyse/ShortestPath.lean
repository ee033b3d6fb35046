import Mathlib.Tactic
import Mathlib.Data.List.Cycle

/-! Walks of a directed graph, their shortest lengths, and the shortest pairs of a level from those
of the level before. A cycle of at least two vertices is an edge back to the start of a shortest
walk. -/
namespace EntryAnalyse
namespace ShortestPath

variable {V : Type} {E : V → V → Prop}

/-- `Walk E a d k`: from `a` one comes to `d` along `k` edges. -/
inductive Walk (E : V → V → Prop) (a : V) : V → ℕ → Prop
  | nil : Walk E a a 0
  | snoc {m d : V} {k : ℕ} : Walk E a m k → E m d → Walk E a d (k + 1)

/-- The shortest walk from `a` to `d` has length `k`. -/
def Shortest (E : V → V → Prop) (a d : V) (k : ℕ) : Prop :=
  Walk E a d k ∧ ∀ j, Walk E a d j → k ≤ j

/-- Some walk from `a` to `d` has at most `n` edges. -/
def Within (E : V → V → Prop) (n : ℕ) (a d : V) : Prop := ∃ k ≤ n, Walk E a d k

theorem Walk.cons {a b d : V} {k : ℕ} (he : E a b) (h : Walk E b d k) : Walk E a d (k + 1) := by
  induction h with
  | nil => exact .snoc .nil he
  | snoc _ hmd ih => exact .snoc ih hmd

theorem Walk.append {a b d : V} {j k : ℕ} (h : Walk E a b j) (h' : Walk E b d k) :
    Walk E a d (j + k) := by
  induction h' with
  | nil => exact h
  | snoc _ he ih => exact .snoc ih he

theorem Walk.eq_of_zero {a d : V} (h : Walk E a d 0) : a = d := by
  cases h
  rfl

theorem Walk.ends {a d : V} {k : ℕ} (h : Walk E a d (k + 1)) : ∃ m, Walk E a m k ∧ E m d := by
  cases h with
  | snoc hw he => exact ⟨_,hw,he⟩

section Shortest

variable {a b d : V} {j k n : ℕ}

theorem exists_shortest (h : Walk E a d k) : ∃ j ≤ k, Shortest E a d j := by
  classical
  have hex : ∃ k, Walk E a d k := ⟨k,h⟩
  exact ⟨Nat.find hex,Nat.find_min' hex h,Nat.find_spec hex,fun j hj => Nat.find_min' hex hj⟩

theorem Shortest.unique (h : Shortest E a d j) (h' : Shortest E a d k) : j = k :=
  Nat.le_antisymm (h.2 k h'.1) (h'.2 j h.1)

theorem within_iff_shortest : Within E n a d ↔ ∃ k ≤ n, Shortest E a d k := by
  constructor
  · rintro ⟨k,hk,hw⟩
    obtain ⟨j,hj,hs⟩ := exists_shortest hw
    exact ⟨j,hj.trans hk,hs⟩
  · rintro ⟨k,hk,hs⟩
    exact ⟨k,hk,hs.1⟩

theorem Within.mono (h : Within E j a d) (hjk : j ≤ k) : Within E k a d := by
  obtain ⟨i,hi,hw⟩ := h
  exact ⟨i,hi.trans hjk,hw⟩

theorem shortest_self : Shortest E a a 0 := ⟨.nil,fun _ _ => Nat.zero_le _⟩

theorem Shortest.pos (h : Shortest E a d k) (hne : a ≠ d) : 0 < k := by
  rcases Nat.eq_zero_or_pos k with rfl | hk
  · exact absurd h.1.eq_of_zero hne
  · exact hk

/-- An edge between two vertices is a shortest walk. -/
theorem shortest_one_iff : Shortest E a d 1 ↔ a ≠ d ∧ E a d := by
  constructor
  · intro h
    obtain ⟨m,hm,he⟩ := h.1.ends
    rw [← hm.eq_of_zero] at he
    refine ⟨?_,he⟩
    rintro rfl
    exact absurd (h.2 0 .nil) (by omega)
  · rintro ⟨hne,he⟩
    refine ⟨.snoc .nil he,fun j hj => ?_⟩
    rcases Nat.eq_zero_or_pos j with rfl | hpos
    · exact absurd hj.eq_of_zero hne
    · exact hpos

/-- A shortest walk goes on along an edge from a shortest walk. -/
theorem Shortest.ends (h : Shortest E a d (k + 1)) : ∃ m, Shortest E a m k ∧ E m d := by
  obtain ⟨m,hw,he⟩ := h.1.ends
  refine ⟨m,⟨hw,fun j hj => ?_⟩,he⟩
  have hlong := h.2 (j + 1) (.snoc hj he)
  omega

/-- The pairs of the next level: one edge further, and in no level before. -/
theorem shortest_succ_iff :
    Shortest E a d (k + 1) ↔ (∃ m, Shortest E a m k ∧ E m d) ∧ ¬Within E k a d := by
  constructor
  · intro h
    refine ⟨h.ends,?_⟩
    rintro ⟨j,hj,hw⟩
    have hshort := h.2 j hw
    omega
  · rintro ⟨⟨m,hm,he⟩,hnot⟩
    refine ⟨.snoc hm.1 he,fun j hj => ?_⟩
    by_contra hlt
    exact hnot ⟨j,by omega,hj⟩

/-- A level without a pair ends all shortest walks. -/
theorem Shortest.level (h : Shortest E a d k) (hj : j ≤ k) : ∃ m, Shortest E a m j := by
  induction k generalizing d with
  | zero =>
    rw [Nat.le_zero.mp hj]
    exact ⟨d,h⟩
  | succ k ih =>
    rcases Nat.lt_or_eq_of_le hj with hlt | rfl
    · obtain ⟨m,hm,-⟩ := h.ends
      exact ih hm (by omega)
    · exact ⟨d,h⟩

/-- The vertices on a shortest walk are at different distances from its start. -/
theorem Shortest.exists_path (h : Shortest E a d k) :
    ∃ l : List V, l.length = k ∧ (l ++ [d]).IsChain E ∧ (l ++ [d]).head? = some a ∧
      (l ++ [d]).Nodup ∧ ∀ x ∈ l, ∃ i < k, Shortest E a x i := by
  induction k generalizing d with
  | zero =>
    have heq := h.1.eq_of_zero
    subst heq
    exact ⟨[],by simp⟩
  | succ k ih =>
    obtain ⟨m,hm,he⟩ := h.ends
    obtain ⟨l,hlen,hchain,hhead,hnodup,hdist⟩ := ih hm
    have hdist' : ∀ x ∈ l ++ [m], ∃ i < k + 1, Shortest E a x i := by
      intro x hx
      rcases List.mem_append.mp hx with hx | hx
      · obtain ⟨i,hi,hs⟩ := hdist x hx
        exact ⟨i,by omega,hs⟩
      · rw [List.mem_singleton.mp hx]
        exact ⟨k,by omega,hm⟩
    have hfresh : d ∉ l ++ [m] := by
      intro hd
      obtain ⟨i,hi,hs⟩ := hdist' d hd
      have hsame := hs.unique h
      omega
    refine ⟨l ++ [m],by simp [hlen],?_,?_,?_,hdist'⟩
    · rw [List.isChain_append]
      refine ⟨hchain,List.isChain_singleton d,?_⟩
      intro x hx y hy
      rw [List.getLast?_concat,Option.mem_some] at hx
      rw [List.head?_cons,Option.mem_some] at hy
      rw [← hx,← hy]
      exact he
    · rw [List.head?_append,hhead]
      rfl
    · rw [List.nodup_append]
      refine ⟨hnodup,List.nodup_singleton d,?_⟩
      intro x hx y hy hxy
      rw [List.mem_singleton.mp hy] at hxy
      rw [hxy] at hx
      exact hfresh hx

/-- The list of vertices that a walk passes. -/
theorem walk_of_chain {l : List V} (h : (a :: l).IsChain E) :
    Walk E a ((a :: l).getLast (List.cons_ne_nil a l)) l.length := by
  induction l generalizing a with
  | nil => exact .nil
  | cons b l ih =>
    rw [List.isChain_cons_cons] at h
    have hlast : (a :: b :: l).getLast (List.cons_ne_nil a (b :: l)) =
        (b :: l).getLast (List.cons_ne_nil b l) := List.getLast_cons_cons
    rw [hlast]
    exact (ih h.2).cons h.1

end Shortest

/-! ## Cycles -/

/-- `c` is a cycle of the graph: its vertices are different, and each has an edge to the next. -/
def IsCycle (E : V → V → Prop) (c : Cycle V) : Prop := c.Nodup ∧ c.Chain E

/-- A cycle of at most `n` vertices exists iff some shortest walk is closed by an edge. -/
theorem exists_cycle_iff {n : ℕ} :
    (∃ c : Cycle V, IsCycle E c ∧ 2 ≤ c.length ∧ c.length ≤ n) ↔
      ∃ a d k, a ≠ d ∧ Shortest E a d k ∧ E d a ∧ k + 1 ≤ n := by
  constructor
  · rintro ⟨c,⟨hnodup,hchain⟩,htwo,hn⟩
    induction c using Quotient.inductionOn' with
    | h l =>
      cases l with
      | nil =>
        rw [Cycle.mk''_eq_coe,Cycle.length_coe] at htwo
        simp at htwo
      | cons a l =>
        rw [Cycle.mk''_eq_coe,Cycle.length_coe,List.length_cons] at htwo hn
        rw [Cycle.mk''_eq_coe,Cycle.nodup_coe_iff] at hnodup
        rw [Cycle.mk''_eq_coe,Cycle.chain_coe_cons,← List.cons_append,
          List.isChain_append] at hchain
        obtain ⟨hpath,-,hback⟩ := hchain
        have hl : l ≠ [] := by
          rintro rfl
          simp at htwo
        have hlast : (a :: l).getLast (List.cons_ne_nil a l) = l.getLast hl :=
          List.getLast_cons hl
        have hwalk := walk_of_chain hpath
        rw [hlast] at hwalk
        obtain ⟨k,hk,hs⟩ := exists_shortest hwalk
        refine ⟨a,l.getLast hl,k,?_,hs,?_,by omega⟩
        · intro heq
          rw [List.nodup_cons] at hnodup
          refine hnodup.1 ?_
          rw [heq]
          exact List.getLast_mem hl
        · refine hback _ ?_ a (by simp)
          rw [List.getLast?_eq_some_getLast (List.cons_ne_nil a l),hlast]
          exact Option.mem_some_self _
  · rintro ⟨a,d,k,hne,hs,he,hk⟩
    obtain ⟨l,hlen,hchain,hhead,hnodup,-⟩ := hs.exists_path
    cases l with
    | nil =>
      simp only [List.nil_append,List.head?_cons,Option.some.injEq] at hhead
      exact absurd hhead.symm hne
    | cons b l =>
      rw [List.cons_append,List.head?_cons,Option.some.injEq] at hhead
      subst hhead
      refine ⟨((b :: (l ++ [d]) : List V) : Cycle V),⟨?_,?_⟩,?_,?_⟩
      · rw [Cycle.nodup_coe_iff]
        exact hnodup
      · rw [Cycle.chain_coe_cons,← List.cons_append,List.isChain_append]
        refine ⟨hchain,List.isChain_singleton b,?_⟩
        intro x hx y hy
        rw [← List.cons_append,List.getLast?_concat,Option.mem_some] at hx
        rw [List.head?_cons,Option.mem_some] at hy
        rw [← hx,← hy]
        exact he
      · rw [Cycle.length_coe]
        simp
      · rw [Cycle.length_coe,← List.cons_append,List.length_append,hlen]
        simpa using hk

end ShortestPath
end EntryAnalyse
