import Mathlib.Tactic

/-! Column-wise write-back of a loaded record. A unit of work loads a record, assigns to
its attributes in memory, and at the flush sends only those columns whose assigned value
differs from the loaded one. Columns it did not change keep whatever another writer has
stored in the meantime. -/
namespace EntryAnalyse
namespace ColumnWrite

variable {α : Type} [DecidableEq α]

/-- The stored value of one column after the flush. -/
def flushColumn (loaded target current : α) : α :=
  if target = loaded then current else target

/-- An attribute that was not assigned to is not written. -/
@[simp] theorem flushColumn_unassigned (loaded current : α) :
    flushColumn loaded loaded current = current := by simp [flushColumn]

/-- Writing what is already stored changes nothing. -/
@[simp] theorem flushColumn_stored (loaded target : α) :
    flushColumn loaded target target = target := by simp [flushColumn]

theorem flushColumn_of_ne {loaded target : α} (h : target ≠ loaded) (current : α) :
    flushColumn loaded target current = target := by simp [flushColumn,h]

theorem flushColumn_eq_or (loaded target current : α) :
    flushColumn loaded target current = current ∨ flushColumn loaded target current = target := by
  by_cases h : target = loaded <;> simp [flushColumn,h]

/-- The write leaves the column alone iff it is not sent or stores the same value. -/
theorem flushColumn_eq_current_iff (loaded target current : α) :
    flushColumn loaded target current = current ↔ target = loaded ∨ target = current := by
  by_cases h : target = loaded <;> simp [flushColumn,h]

end ColumnWrite
end EntryAnalyse
