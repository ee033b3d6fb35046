import Mathlib.Data.List.Infix
import Mathlib.Tactic

/-! Starts and ends that are matched first in, first out. The matched starts are the first ones, an end
is never matched with a later start, and what stays open is the largest surplus of starts over ends
that any last part of the sequence has. -/
namespace EntryAnalyse
namespace FifoMatching

variable {α β : Type}

inductive Mark (α β : Type)
  | start (a : α)
  | done (b : β)

/-- The starts that wait for an end, and the pairs made so far. -/
structure Matching (α β : Type) where
  pending : List α := []
  pairs : List (α × β) := []

def feed (m : Matching α β) : Mark α β → Matching α β
  | .start a => { m with pending := m.pending ++ [a] }
  | .done b =>
    match m.pending with
    | [] => m
    | a :: rest => { pending := rest, pairs := m.pairs ++ [(a,b)] }

def matching (l : List (Mark α β)) : Matching α β := l.foldl feed {}

def starts (l : List (Mark α β)) : List α := l.filterMap fun
  | .start a => some a
  | .done _ => none

def ends (l : List (Mark α β)) : List β := l.filterMap fun
  | .start _ => none
  | .done b => some b

/-- The surplus of starts. -/
def surplus (l : List (Mark α β)) : ℤ := (starts l).length - (ends l).length

@[simp] theorem matching_nil : matching ([] : List (Mark α β)) = {} := rfl

@[simp] theorem matching_concat (l : List (Mark α β)) (x : Mark α β) :
    matching (l ++ [x]) = feed (matching l) x := by
  simp [matching]

@[simp] theorem starts_nil : starts ([] : List (Mark α β)) = [] := rfl
@[simp] theorem ends_nil : ends ([] : List (Mark α β)) = [] := rfl

@[simp] theorem starts_append (l k : List (Mark α β)) : starts (l ++ k) = starts l ++ starts k := by
  simp [starts]

@[simp] theorem ends_append (l k : List (Mark α β)) : ends (l ++ k) = ends l ++ ends k := by
  simp [ends]

@[simp] theorem starts_start (a : α) : starts [(Mark.start a : Mark α β)] = [a] := rfl
@[simp] theorem starts_done (b : β) : starts [(Mark.done b : Mark α β)] = [] := rfl
@[simp] theorem ends_start (a : α) : ends [(Mark.start a : Mark α β)] = [] := rfl
@[simp] theorem ends_done (b : β) : ends [(Mark.done b : Mark α β)] = [b] := rfl

theorem surplus_nil : surplus ([] : List (Mark α β)) = 0 := by simp [surplus]

theorem surplus_concat_start (l : List (Mark α β)) (a : α) :
    surplus (l ++ [.start a]) = surplus l + 1 := by
  simp [surplus]
  omega

theorem surplus_concat_done (l : List (Mark α β)) (b : β) :
    surplus (l ++ [.done b]) = surplus l - 1 := by
  simp [surplus]
  omega

/-- Every start is matched or open, and the matched ones are the first. -/
theorem pairs_fst (l : List (Mark α β)) :
    (matching l).pairs.map (·.1) ++ (matching l).pending = starts l := by
  induction l using List.reverseRecOn with
  | nil => rfl
  | append_singleton l x ih =>
    rw [matching_concat,starts_append,← ih]
    cases x with
    | start a => simp [feed]
    | done b =>
      cases h : (matching l).pending with
      | nil => simp [feed,h]
      | cons a rest => simp [feed,h]

/-- The matched ends are ends, in their order. -/
theorem pairs_snd (l : List (Mark α β)) : ((matching l).pairs.map (·.2)).Sublist (ends l) := by
  induction l using List.reverseRecOn with
  | nil => exact List.Sublist.refl _
  | append_singleton l x ih =>
    rw [matching_concat,ends_append]
    cases x with
    | start a => simpa [feed] using ih
    | done b =>
      cases h : (matching l).pending with
      | nil => simpa [feed,h] using ih.trans (List.sublist_append_left _ _)
      | cons a rest => simpa [feed,h] using ih

/-- What stays open is the largest surplus of a last part. -/
theorem pending_length (l : List (Mark α β)) :
    (∀ s, s <:+ l → surplus s ≤ (matching l).pending.length) ∧
      ∃ s, s <:+ l ∧ surplus s = (matching l).pending.length := by
  induction l using List.reverseRecOn with
  | nil =>
    refine ⟨fun s hs => ?_,[],List.suffix_rfl,by simp [surplus_nil]⟩
    simp [List.suffix_nil.mp hs,surplus_nil]
  | append_singleton l x ih =>
    obtain ⟨hle,s₀,hs₀,heq⟩ := ih
    cases x with
    | start a =>
      have hlen : (matching (l ++ [.start a])).pending.length = (matching l).pending.length + 1 := by
        simp [feed]
      refine ⟨fun s hs => ?_,s₀ ++ [.start a],List.suffix_concat_iff.mpr (.inr ⟨s₀,rfl,hs₀⟩),?_⟩
      · rcases List.suffix_concat_iff.mp hs with rfl | ⟨s',rfl,hs'⟩
        · rw [surplus_nil]
          omega
        · have := hle s' hs'
          rw [surplus_concat_start,hlen]
          omega
      · rw [surplus_concat_start,heq,hlen]
        omega
    | done b =>
      have hlen : (matching (l ++ [.done b])).pending.length = (matching l).pending.length - 1 := by
        cases h : (matching l).pending <;> simp [feed,h]
      refine ⟨fun s hs => ?_,?_⟩
      · rcases List.suffix_concat_iff.mp hs with rfl | ⟨s',rfl,hs'⟩
        · rw [surplus_nil]
          omega
        · have := hle s' hs'
          rw [surplus_concat_done,hlen]
          omega
      · by_cases hzero : (matching l).pending.length = 0
        · exact ⟨[],List.nil_suffix,by rw [surplus_nil,hlen]; omega⟩
        · refine ⟨s₀ ++ [.done b],List.suffix_concat_iff.mpr (.inr ⟨s₀,rfl,hs₀⟩),?_⟩
          rw [surplus_concat_done,heq,hlen]
          omega

section Time

variable {τ : Type} [Preorder τ] (startTime : α → τ) (doneTime : β → τ)

def time : Mark α β → τ
  | .start a => startTime a
  | .done b => doneTime b

variable {startTime doneTime}

/-- In the order of time nothing ends before it starts. -/
theorem pairs_le {l : List (Mark α β)}
    (h : l.Pairwise fun x y => time startTime doneTime x ≤ time startTime doneTime y) :
    ∀ p ∈ (matching l).pairs, startTime p.1 ≤ doneTime p.2 := by
  induction l using List.reverseRecOn with
  | nil => simp
  | append_singleton l x ih =>
    obtain ⟨hl,-,hlast⟩ := List.pairwise_append.mp h
    rw [matching_concat]
    cases x with
    | start a => exact ih hl
    | done b =>
      cases hp : (matching l).pending with
      | nil => simpa [feed,hp] using ih hl
      | cons a rest =>
        have ha : a ∈ starts l := by
          rw [← pairs_fst,hp]
          simp
        obtain ⟨y,hy,hya⟩ := List.mem_filterMap.mp ha
        have hb := hlast y hy (.done b) (List.mem_singleton_self _)
        intro p hmem
        simp only [feed,hp,List.mem_append,List.mem_singleton] at hmem
        rcases hmem with hmem | rfl
        · exact ih hl p hmem
        · cases y with
          | start a' =>
            obtain rfl : a' = a := by simpa using hya
            exact hb
          | done _ => simp at hya

end Time

end FifoMatching
end EntryAnalyse
