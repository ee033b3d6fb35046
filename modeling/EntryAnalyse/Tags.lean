import EntryAnalyse.GapAnswers

/-! Tags in a text: where a search for one of them can match when the text is put together from
pieces. -/
namespace EntryAnalyse
namespace Tags

open GapAnswers (splitFirst)

/-- `<name>`, or `</name>`. -/
def IsTag (pat : List Char) : Prop :=
  ∃ name, pat = '<' :: (name ++ ['>']) ∧ '<' ∉ name ∧ '>' ∉ name

/-- No tag runs over the border of two pieces. -/
def Border (a b : List Char) : Prop := a = [] ∨ a.getLast? = some '>' ∨ b = [] ∨ b.head? = some '<'

section Search

variable {pat a b cs : List Char}

theorem Border.of_cons {c : Char} (h : Border (c :: a) b) : Border a b := by
  cases a with
  | nil => exact .inl rfl
  | cons d a =>
    rcases h with h | h | h
    · cases h
    · exact .inr (.inl (by rwa [List.getLast?_cons_cons] at h))
    · exact .inr (.inr h)

theorem prefix_of_tag (tag : IsTag pat) (border : Border a b) (some : a ≠ [])
    (h : pat <+: a ++ b) : pat <+: a := by
  rcases List.prefix_or_prefix_of_prefix h (List.prefix_append a b) with inside | ⟨rest,eq⟩
  · exact inside
  obtain ⟨name,shape,opening,closing⟩ := tag
  rw [← eq] at h
  have inside : rest <+: b := (List.prefix_append_right_inj a).mp h
  by_cases nil : rest = []
  · rw [nil,List.append_nil] at eq
    exact eq ▸ List.prefix_rfl
  -- otherwise the tag would reach into `b`
  exfalso
  have front : ∀ c ∈ a, c ≠ '>' := by
    obtain ⟨rest,last,rfl⟩ := (List.eq_nil_or_concat rest).resolve_left nil
    rw [shape,List.concat_eq_append,← List.append_assoc,← List.cons_append] at eq
    have same := (List.append_inj' eq rfl).1
    intro c hc is
    have inside : c ∈ '<' :: name := same ▸ List.mem_append_left rest hc
    rcases List.mem_cons.mp inside with rfl | inside
    · exact absurd is (by decide)
    · exact closing (is ▸ inside)
  have back : ∀ c ∈ rest, c ≠ '<' := by
    obtain ⟨c,a,rfl⟩ := List.exists_cons_of_ne_nil some
    rw [shape,List.cons_append] at eq
    have same := (List.cons.inj eq).2
    intro c hc is
    have inside : c ∈ name ++ ['>'] := same ▸ List.mem_append_right a hc
    rcases List.mem_append.mp inside with inside | inside
    · exact opening (is ▸ inside)
    · exact absurd (is ▸ List.mem_singleton.mp inside) (by decide)
  rcases border with empty | last | rfl | first
  · exact some empty
  · exact front '>' (List.mem_of_getLast? last) rfl
  · exact nil (List.prefix_nil.mp inside)
  · obtain ⟨c,rest,rfl⟩ := List.exists_cons_of_ne_nil nil
    obtain ⟨tail,rfl⟩ := inside
    exact back c List.mem_cons_self (Option.some.inj first)

theorem infix_append_iff (tag : IsTag pat) (border : Border a b) :
    pat <:+: a ++ b ↔ pat <:+: a ∨ pat <:+: b := by
  constructor
  · intro h
    induction a with
    | nil => exact .inr h
    | cons c a ih =>
      rw [List.cons_append,List.infix_cons_iff] at h
      rcases h with h | h
      · exact .inl (prefix_of_tag tag border (List.cons_ne_nil c a) h).isInfix
      · exact (ih border.of_cons h).imp_left (List.infix_cons ·)
  · rintro (h | h)
    · exact List.infix_append_of_infix_left h
    · exact List.infix_append_of_infix_right h

theorem splitFirst_eq_none (h : ¬pat <:+: cs) : splitFirst pat cs = none := by
  induction cs with
  | nil =>
    rw [splitFirst,if_neg]
    intro nil
    exact h (List.isEmpty_iff.mp nil ▸ List.nil_infix)
  | cons c cs ih =>
    rw [List.infix_cons_iff,not_or] at h
    rw [splitFirst,if_neg fun hp => h.1 (List.isPrefixOf_iff_prefix.mp hp),ih h.2]
    rfl

/-- The search passes over a piece without a match. -/
theorem splitFirst_append (tag : IsTag pat) (border : Border a b) (h : ¬pat <:+: a) :
    splitFirst pat (a ++ b) = (splitFirst pat b).map fun p => (a ++ p.1,p.2) := by
  induction a with
  | nil => simp
  | cons c a ih =>
    have here : ¬pat.isPrefixOf (c :: (a ++ b)) = true := fun hp =>
      h (prefix_of_tag tag border (List.cons_ne_nil c a) (List.isPrefixOf_iff_prefix.mp hp)).isInfix
    rw [List.infix_cons_iff,not_or] at h
    rw [List.cons_append,splitFirst,if_neg here,ih border.of_cons h.2,Option.map_map]
    rfl

theorem splitFirst_self (tag : IsTag pat) (rest : List Char) :
    splitFirst pat (pat ++ rest) = some ([],rest) := by
  obtain ⟨name,rfl,-⟩ := tag
  rw [List.cons_append,splitFirst,if_pos]
  · have behind : (('<' :: (name ++ ['>'])) ++ rest).drop ('<' :: (name ++ ['>'])).length = rest :=
      List.drop_left
    exact congrArg (fun r => some ([],r)) behind
  · exact List.isPrefixOf_iff_prefix.mpr (List.prefix_append ('<' :: (name ++ ['>'])) rest)

/-- The first match, behind a piece without one. -/
theorem splitFirst_at (tag : IsTag pat) (h : ¬pat <:+: a) (rest : List Char) :
    splitFirst pat (a ++ (pat ++ rest)) = some (a,rest) := by
  have border : Border a (pat ++ rest) := by
    obtain ⟨name,rfl,-⟩ := tag
    exact .inr (.inr (.inr rfl))
  rw [splitFirst_append tag border h,splitFirst_self tag]
  simp

end Search

end Tags
end EntryAnalyse
