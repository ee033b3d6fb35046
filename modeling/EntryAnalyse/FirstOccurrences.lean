import Mathlib.Tactic
import Mathlib.Data.List.Basic

/-! The members of a list, each once, in the order in which they first occur. -/
namespace EntryAnalyse
namespace FirstOccurrences

variable {α : Type} [DecidableEq α]

/-- One more member, if it is new. -/
def add (seen : List α) (a : α) : List α := if a ∈ seen then seen else seen ++ [a]

def firsts (l : List α) : List α := l.foldl add []

/-- `out` holds the wanted members of `l`, each once and the earlier ones first. -/
structure Lists (l : List α) (wanted : α → Prop) (out : List α) : Prop where
  once : out.Nodup
  mem : ∀ a, a ∈ out ↔ a ∈ l ∧ wanted a
  order : out.Pairwise fun a b => l.idxOf a < l.idxOf b

section Firsts
variable {l : List α} {a b : α}

theorem firsts_concat (l : List α) (a : α) : firsts (l ++ [a]) = add (firsts l) a := by
  rw [firsts,List.foldl_append]
  rfl

theorem mem_add {seen : List α} : b ∈ add seen a ↔ b ∈ seen ∨ b = a := by
  unfold add
  split
  · rename_i h
    constructor
    · exact Or.inl
    · rintro (hb | rfl)
      · exact hb
      · exact h
  · simp

theorem mem_firsts : a ∈ firsts l ↔ a ∈ l := by
  induction l using List.reverseRecOn with
  | nil => simp [firsts]
  | append_singleton l b ih => rw [firsts_concat,mem_add,ih,List.mem_append,List.mem_singleton]

theorem nodup_firsts (l : List α) : (firsts l).Nodup := by
  induction l using List.reverseRecOn with
  | nil => exact List.nodup_nil
  | append_singleton l a ih =>
    rw [firsts_concat]
    unfold add
    split
    · exact ih
    · rename_i h
      rw [← List.concat_eq_append]
      exact ih.concat h

theorem order_firsts (l : List α) : (firsts l).Pairwise fun a b => l.idxOf a < l.idxOf b := by
  induction l using List.reverseRecOn with
  | nil => exact List.Pairwise.nil
  | append_singleton l a ih =>
    have hkeep : (firsts l).Pairwise fun b c => (l ++ [a]).idxOf b < (l ++ [a]).idxOf c := by
      refine ih.imp_of_mem fun {b c} hb hc h => ?_
      rw [List.idxOf_append_of_mem (mem_firsts.mp hb),List.idxOf_append_of_mem (mem_firsts.mp hc)]
      exact h
    rw [firsts_concat]
    unfold add
    split
    · exact hkeep
    · rename_i hnew
      refine List.pairwise_append.mpr ⟨hkeep,List.pairwise_singleton _ _,fun b hb c hc => ?_⟩
      obtain rfl := List.mem_singleton.mp hc
      rw [List.idxOf_append_of_mem (mem_firsts.mp hb),
        List.idxOf_append_of_notMem fun h => hnew (mem_firsts.mpr h)]
      exact Nat.lt_add_right _ (List.idxOf_lt_length_iff.mpr (mem_firsts.mp hb))

/-- What is filtered out changes the order of no two others. -/
theorem idxOf_filter_lt {p : α → Bool} (ha : p a = true) (hb : p b = true) :
    (l.filter p).idxOf a < (l.filter p).idxOf b ↔ l.idxOf a < l.idxOf b := by
  induction l with
  | nil => exact Iff.rfl
  | cons c l ih =>
    by_cases hc : p c = true
    · rw [List.filter_cons_of_pos hc]
      by_cases hca : c = a
      · subst hca
        by_cases hcb : c = b
        · rw [hcb]
          exact iff_of_false (lt_irrefl _) (lt_irrefl _)
        · rw [List.idxOf_cons_self,List.idxOf_cons_self,List.idxOf_cons_ne _ hcb,
            List.idxOf_cons_ne _ hcb]
          exact iff_of_true (Nat.succ_pos _) (Nat.succ_pos _)
      · rw [List.idxOf_cons_ne _ hca,List.idxOf_cons_ne _ hca]
        by_cases hcb : c = b
        · subst hcb
          rw [List.idxOf_cons_self,List.idxOf_cons_self]
          exact iff_of_false (Nat.not_lt_zero _) (Nat.not_lt_zero _)
        · rw [List.idxOf_cons_ne _ hcb,List.idxOf_cons_ne _ hcb,Nat.succ_lt_succ_iff,
            Nat.succ_lt_succ_iff]
          exact ih
    · have hca : c ≠ a := fun h => hc (h ▸ ha)
      have hcb : c ≠ b := fun h => hc (h ▸ hb)
      rw [List.filter_cons_of_neg hc,ih,List.idxOf_cons_ne _ hca,List.idxOf_cons_ne _ hcb]
      exact Nat.succ_lt_succ_iff.symm

omit [DecidableEq α] in
theorem pairwise_or {R : α → α → Prop} (h : l.Pairwise R) (ha : a ∈ l) (hb : b ∈ l) (hne : a ≠ b) :
    R a b ∨ R b a := by
  have hsymm : Std.Symm fun x y => R x y ∨ R y x := ⟨fun _ _ h => h.symm⟩
  exact (h.imp fun {x y} hr => (Or.inl hr : R x y ∨ R y x)).forall ha hb hne

theorem lists_firsts (l : List α) (p : α → Bool) :
    Lists l (fun a => p a = true) (firsts (l.filter p)) where
  once := nodup_firsts _
  mem a := by rw [mem_firsts,List.mem_filter]
  order := by
    refine (order_firsts _).imp_of_mem fun {a b} ha hb h => ?_
    have hpa := (List.mem_filter.mp (mem_firsts.mp ha)).2
    have hpb := (List.mem_filter.mp (mem_firsts.mp hb)).2
    exact (idxOf_filter_lt hpa hpb).mp h

end Firsts

/-- What lists the members of one list lists those of another one exactly if the two have the same
wanted members, in the same order of first occurrence. -/
theorem Lists.iff_of_lists {k l out : List α} {P Q : α → Prop} (h : Lists l Q out) :
    Lists k P out ↔ (∀ a, a ∈ k ∧ P a ↔ a ∈ l ∧ Q a) ∧
      ∀ a b, a ∈ k ∧ P a → b ∈ k ∧ P b → k.idxOf a < k.idxOf b → l.idxOf a < l.idxOf b := by
  constructor
  · intro hk
    refine ⟨fun a => (hk.mem a).symm.trans (h.mem a),fun a b ha hb hlt => ?_⟩
    have hne : a ≠ b := by
      rintro rfl
      exact lt_irrefl _ hlt
    -- the one of the two that stands first in `out` is the first one in both lists
    have hboth : out.Pairwise fun a b => k.idxOf a < k.idxOf b ∧ l.idxOf a < l.idxOf b :=
      hk.order.and h.order
    rcases pairwise_or hboth ((hk.mem a).mpr ha) ((hk.mem b).mpr hb) hne with h | h
    · exact h.2
    · exact absurd h.1 (Nat.lt_asymm hlt)
  · rintro ⟨hmem,horder⟩
    refine ⟨h.once,fun a => (h.mem a).trans (hmem a).symm,?_⟩
    refine h.order.imp_of_mem fun {a b} ha hb hlt => ?_
    have ha' := (hmem a).mpr ((h.mem a).mp ha)
    have hb' := (hmem b).mpr ((h.mem b).mp hb)
    rcases Nat.lt_trichotomy (k.idxOf a) (k.idxOf b) with hk | hk | hk
    · exact hk
    · have hab : a = b := (List.idxOf_inj ha'.1).mp hk
      rw [hab] at hlt
      exact absurd hlt (lt_irrefl _)
    · exact absurd (horder b a hb' ha' hk) (Nat.lt_asymm hlt)

end FirstOccurrences
end EntryAnalyse
