import Mathlib.Data.List.Infix
import Mathlib.Tactic

/-! A log of records that are appended one after the other, each behind a separator, and that is read
while the last record is being written. What is read is a beginning of what was recorded, and it only
grows with the log. -/
namespace EntryAnalyse
namespace AppendLog

/-- Records as texts. A text that is not complete cannot be read. -/
structure Format (α ε : Type) where
  sep : α
  dumps : ε → List α
  loads : List α → Option ε
  sep_notMem : ∀ e, sep ∉ dumps e
  loads_nil : loads [] = none
  loads_dumps : ∀ e, loads (dumps e) = some e
  loads_torn : ∀ e text, text <+: dumps e → text ≠ dumps e → loads text = none

variable {α ε : Type} (F : Format α ε)

namespace Format

/-- The log of the records. -/
def text (es : List ε) : List α := es.flatMap fun e => F.dumps e ++ [F.sep]

variable {F} {es : List ε} {e : ε} {log log' : List α}

@[simp] theorem text_nil : F.text [] = [] := rfl

theorem text_cons : F.text (e :: es) = F.dumps e ++ F.sep :: F.text es := by
  simp [text]

theorem text_concat : F.text (es ++ [e]) = F.text es ++ (F.dumps e ++ [F.sep]) := by
  simp [text]

variable [DecidableEq α]

variable (F) in
/-- The records that are read from a log. -/
def read (log : List α) : List ε := (log.splitOn F.sep).filterMap F.loads

theorem read_nil : F.read [] = [] := by
  simp [read,F.loads_nil]

theorem read_cons (rest : List α) : F.read (F.dumps e ++ F.sep :: rest) = e :: F.read rest := by
  simp only [read,List.splitOn_append_cons_self_of_not_mem (F.sep_notMem e)]
  simp [F.loads_dumps]

theorem read_torn (h : log <+: F.dumps e) : F.read log = if log = F.dumps e then [e] else [] := by
  have hsep : F.sep ∉ log := fun hin => F.sep_notMem e (h.subset hin)
  simp only [read,List.splitOn_eq_singleton hsep]
  split_ifs with heq
  · simp [heq,F.loads_dumps]
  · simp [F.loads_torn e log h heq]

omit [DecidableEq α] in
/-- A beginning of a log ends in its first record, or behind it. -/
theorem prefix_cases (h : log <+: F.text (e :: es)) :
    log <+: F.dumps e ∨ ∃ rest, log = F.dumps e ++ F.sep :: rest ∧ rest <+: F.text es := by
  rw [text_cons] at h
  rcases List.prefix_or_prefix_of_prefix h (List.prefix_append _ _) with h' | ⟨rest,rfl⟩
  · exact .inl h'
  · have hrest := (List.prefix_append_right_inj _).mp h
    cases rest with
    | nil => exact .inl (by simp)
    | cons a rest =>
      obtain ⟨rfl,htail⟩ := List.cons_prefix_cons.mp hrest
      exact .inr ⟨rest,rfl,htail⟩

theorem read_prefix (h : log <+: F.text es) : F.read log <+: es := by
  induction es generalizing log with
  | nil =>
    rw [List.prefix_nil.mp h,read_nil]
  | cons e es ih =>
    rcases prefix_cases h with h | ⟨rest,rfl,hrest⟩
    · rw [read_torn h]
      split_ifs
      · exact List.prefix_append [e] es
      · exact List.nil_prefix
    · rw [read_cons,List.prefix_cons_inj]
      exact ih hrest

theorem read_mono (h : log <+: log') (h' : log' <+: F.text es) : F.read log <+: F.read log' := by
  induction es generalizing log log' with
  | nil =>
    obtain rfl := List.prefix_nil.mp h'
    rw [List.prefix_nil.mp h]
  | cons e es ih =>
    rcases prefix_cases (h.trans h') with hlog | ⟨rest,rfl,hrest⟩
    · rw [read_torn hlog]
      split_ifs with heq
      · rcases prefix_cases h' with h'' | ⟨rest',rfl,-⟩
        · have hsame : log' = F.dumps e := (h''.eq_of_length_le (heq ▸ h.length_le))
          rw [hsame,read_torn (List.prefix_refl _),if_pos rfl]
        · rw [read_cons]
          exact List.prefix_append [e] _
      · exact List.nil_prefix
    · rcases prefix_cases h' with h'' | ⟨rest',rfl,hrest'⟩
      · have hlen := (h.trans h'').length_le
        simp at hlen
      · have hle : rest <+: rest' := by
          have := (List.prefix_append_right_inj _).mp h
          exact (List.cons_prefix_cons.mp this).2
        rw [read_cons,read_cons,List.prefix_cons_inj]
        exact ih hle hrest'

theorem read_text (es : List ε) : F.read (F.text es) = es := by
  induction es with
  | nil => exact read_nil
  | cons e es ih => rw [text_cons,read_cons,ih]

end Format

end AppendLog
end EntryAnalyse
