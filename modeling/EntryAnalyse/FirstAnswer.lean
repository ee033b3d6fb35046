import Mathlib.Tactic

/-! Lookups that are tried in turn: each one answers, is silent or fails, and the first one that is
not silent decides. -/
namespace EntryAnalyse
namespace FirstAnswer

variable {κ ε α : Type}

def firstAnswer (look : κ → Except ε (Option α)) (nothing : ε) : List κ → Except ε α
  | [] => .error nothing
  | k :: ks =>
    match look k with
    | .error e => .error e
    | .ok (some a) => .ok a
    | .ok none => firstAnswer look nothing ks

/-- The first lookup that is not silent. -/
def Decides (look : κ → Except ε (Option α)) (ks : List κ) (k : κ) : Prop :=
  look k ≠ .ok none ∧ ∃ before after, ks = before ++ k :: after ∧ ∀ m ∈ before, look m = .ok none

variable {look : κ → Except ε (Option α)} {nothing e : ε} {ks : List κ} {k : κ} {a : α}

theorem decides_cons_of_silent {m : κ} (h : look m = .ok none) :
    Decides look (m :: ks) k ↔ Decides look ks k := by
  refine and_congr_right fun hk => ⟨?_,?_⟩
  · rintro ⟨before,after,heq,hbefore⟩
    cases before with
    | nil =>
      cases heq
      exact absurd h hk
    | cons m' before =>
      cases heq
      exact ⟨before,after,rfl,(List.forall_mem_cons.mp hbefore).2⟩
  · rintro ⟨before,after,rfl,hbefore⟩
    exact ⟨m :: before,after,rfl,List.forall_mem_cons.mpr ⟨h,hbefore⟩⟩

theorem decides_cons_of_loud {m : κ} (h : look m ≠ .ok none) :
    Decides look (m :: ks) k ↔ k = m := by
  constructor
  · rintro ⟨-,before,after,heq,hbefore⟩
    cases before with
    | nil => exact (List.cons.inj heq).1.symm
    | cons m' before =>
      cases heq
      exact absurd (hbefore _ List.mem_cons_self) h
  · rintro rfl
    exact ⟨h,[],ks,rfl,fun m hm => absurd hm List.not_mem_nil⟩

theorem firstAnswer_eq_ok_iff : firstAnswer look nothing ks = .ok a ↔
    ∃ k, Decides look ks k ∧ look k = .ok (some a) := by
  induction ks with
  | nil =>
    refine iff_of_false (by simp [firstAnswer]) ?_
    rintro ⟨k,⟨-,before,after,heq,-⟩,-⟩
    simp at heq
  | cons m ks ih =>
    unfold firstAnswer
    cases hm : look m with
    | error e =>
      refine iff_of_false (by simp) ?_
      rintro ⟨k,hk,hka⟩
      rw [(decides_cons_of_loud (by simp [hm])).mp hk,hm] at hka
      cases hka
    | ok found =>
      cases found with
      | none =>
        rw [ih]
        exact exists_congr fun k => and_congr_left fun _ => (decides_cons_of_silent hm).symm
      | some b =>
        constructor
        · intro h
          cases h
          exact ⟨m,(decides_cons_of_loud (by simp [hm])).mpr rfl,hm⟩
        · rintro ⟨k,hk,hka⟩
          rw [(decides_cons_of_loud (by simp [hm])).mp hk,hm] at hka
          cases hka
          rfl

theorem exists_decides (h : k ∈ ks) (hk : look k ≠ .ok none) : ∃ k', Decides look ks k' := by
  induction ks with
  | nil => cases h
  | cons m ks ih =>
    by_cases hm : look m = .ok none
    · rcases List.mem_cons.mp h with rfl | h
      · exact absurd hm hk
      · obtain ⟨k',hk'⟩ := ih h
        exact ⟨k',(decides_cons_of_silent hm).mpr hk'⟩
    · exact ⟨m,(decides_cons_of_loud hm).mpr rfl⟩

theorem Decides.unique {k' : κ} (h : Decides look ks k) (h' : Decides look ks k') : k = k' := by
  induction ks with
  | nil =>
    obtain ⟨-,before,after,heq,-⟩ := h
    simp at heq
  | cons m ks ih =>
    by_cases hm : look m = .ok none
    · exact ih ((decides_cons_of_silent hm).mp h) ((decides_cons_of_silent hm).mp h')
    · rw [(decides_cons_of_loud hm).mp h,(decides_cons_of_loud hm).mp h']

/-- There is an answer where some lookup is not silent and the one that decides does not fail. -/
theorem exists_answer_iff : (∃ a, firstAnswer look nothing ks = .ok a) ↔
    (∃ k ∈ ks, look k ≠ .ok none) ∧ ∀ k, Decides look ks k → ∀ e, look k ≠ .error e := by
  constructor
  · rintro ⟨a,ha⟩
    obtain ⟨k,hk,hka⟩ := firstAnswer_eq_ok_iff.mp ha
    refine ⟨⟨k,?_,hk.1⟩,fun k' hk' e he => ?_⟩
    · obtain ⟨-,before,after,rfl,-⟩ := hk
      exact List.mem_append_right _ List.mem_cons_self
    · rw [hk'.unique hk,hka] at he
      cases he
  · rintro ⟨⟨k,hk,hloud⟩,hno⟩
    obtain ⟨k',hk'⟩ := exists_decides hk hloud
    cases hl : look k' with
    | error e => exact absurd hl (hno k' hk' e)
    | ok found =>
      cases found with
      | none => exact absurd hl hk'.1
      | some a => exact ⟨a,firstAnswer_eq_ok_iff.mpr ⟨k',hk',hl⟩⟩

end FirstAnswer
end EntryAnalyse
