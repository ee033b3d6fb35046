import Mathlib.Tactic
import Mathlib.Data.List.Sort

/-! Priority queues by their documented behaviour: the entries in ascending order. Popping
yields the least entry; an entry that has died while it was queued is dropped when it comes
to the front. -/
namespace EntryAnalyse

/-- The entries of a heap, least first. -/
structure HeapQueue (α : Type) [LinearOrder α] where
  items : List α
  sorted : items.Pairwise (· ≤ ·)

namespace HeapQueue

variable {α : Type} [LinearOrder α]

def empty : HeapQueue α := ⟨[],.nil⟩

/-- `heappush`. -/
def push (q : HeapQueue α) (x : α) : HeapQueue α :=
  ⟨q.items.orderedInsert (· ≤ ·) x,q.sorted.orderedInsert x _⟩

/-- Dropping entries from the underlying list and `heapify`. -/
def keep (q : HeapQueue α) (p : α → Bool) : HeapQueue α := ⟨q.items.filter p,q.sorted.filter p⟩

/-- `heappop` until an entry is not dead. -/
def popLive (q : HeapQueue α) (dead : α → Bool) : Option (α × HeapQueue α) :=
  match h : q.items.dropWhile dead with
  | [] => none
  | x :: rest =>
    have hs : (x :: rest).Pairwise (· ≤ ·) := h ▸ q.sorted.sublist (List.dropWhile_sublist dead)
    some (x,⟨rest,(List.pairwise_cons.mp hs).2⟩)

@[simp] theorem items_empty : (empty : HeapQueue α).items = [] := rfl

@[simp] theorem items_keep (q : HeapQueue α) (p : α → Bool) :
    (q.keep p).items = q.items.filter p := rfl

@[simp] theorem mem_push {q : HeapQueue α} {x y : α} :
    y ∈ (q.push x).items ↔ y = x ∨ y ∈ q.items := by simp [push]

theorem nodup_push {q : HeapQueue α} {x : α} (h : q.items.Nodup) (hx : x ∉ q.items) :
    (q.push x).items.Nodup :=
  (List.perm_orderedInsert _ x q.items).nodup_iff.mpr (List.nodup_cons.mpr ⟨hx,h⟩)

theorem ext {q r : HeapQueue α} (h : q.items = r.items) : q = r := by
  cases q; cases r; simpa using h

/-- With no dead entries, a pop finds the first entry, or an empty queue. -/
theorem popLive_cases (q : HeapQueue α) (dead : α → Bool) (h : ∀ x ∈ q.items, dead x = false) :
    q.items = [] ∧ q.popLive dead = none ∨
      ∃ x r, q.items = x :: r.items ∧ q.popLive dead = some (x,r) := by
  have hdrop : q.items.dropWhile dead = q.items := by
    cases hq : q.items with
    | nil => rfl
    | cons x rest => simp [h x (by simp [hq])]
  unfold popLive
  split
  · rename_i hnil
    exact .inl ⟨hdrop.symm.trans hnil,rfl⟩
  · rename_i x rest hcons
    exact .inr ⟨x,_,hdrop.symm.trans hcons,rfl⟩

end HeapQueue
end EntryAnalyse
