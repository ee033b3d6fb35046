import Mathlib.Data.List.DropRight

/-! The repair of a session file after its writer was killed. -/
namespace EntryAnalyse
namespace SessionRepair

section Lines

variable {α : Type} {sep : α}

/-- Lines, each with the separator behind it. -/
def terminated (sep : α) (lines : List (List α)) : List α := lines.flatMap (· ++ [sep])

@[simp] theorem terminated_nil : terminated sep [] = [] := rfl

@[simp] theorem terminated_cons (line : List α) (lines : List (List α)) :
    terminated sep (line :: lines) = line ++ sep :: terminated sep lines := by
  simp [terminated]

theorem terminated_append (ls ms : List (List α)) :
    terminated sep (ls ++ ms) = terminated sep ls ++ terminated sep ms :=
  List.flatMap_append

theorem terminated_concat (lines : List (List α)) (line : List α) :
    terminated sep (lines ++ [line]) = terminated sep lines ++ line ++ [sep] := by
  simp [terminated_append]

theorem getLast?_terminated (sep : α) {lines : List (List α)} (h : lines ≠ []) :
    (terminated sep lines).getLast? = some sep := by
  obtain rfl | ⟨front,line,rfl⟩ := lines.eq_nil_or_concat
  · exact absurd rfl h
  · simp [terminated_concat]

variable [DecidableEq α]

theorem splitOn_terminated {lines : List (List α)} (h : ∀ line ∈ lines, sep ∉ line)
    (rest : List α) :
    (terminated sep lines ++ rest).splitOn sep = lines ++ rest.splitOn sep := by
  induction lines with
  | nil => rfl
  | cons line lines ih =>
    rw [terminated_cons,List.append_assoc,List.cons_append,
      List.splitOn_append_cons_self_of_not_mem (h line List.mem_cons_self),
      ih fun l hl => h l (List.mem_cons_of_mem line hl)]
    rfl

theorem terminated_splitOn (sep : α) (xs : List α) : terminated sep (xs.splitOn sep) = xs ++ [sep] := by
  induction xs with
  | nil => rfl
  | cons x xs ih =>
    rw [List.splitOn_cons_eq_if_modifyHead]
    obtain ⟨line,lines,eq⟩ := List.exists_cons_of_ne_nil (List.splitOn_ne_nil sep xs)
    rw [eq,terminated_cons] at ih
    split
    · rename_i same
      rw [eq,terminated_cons,terminated_cons,ih,eq_of_beq same]
      rfl
    · rw [eq,List.modifyHead_cons,terminated_cons,List.cons_append,ih]
      rfl

theorem sep_not_mem {xs line : List α} (h : line ∈ xs.splitOn sep) : sep ∉ line := by
  induction xs generalizing line with
  | nil =>
    rw [List.splitOn_nil,List.mem_singleton] at h
    exact h ▸ List.not_mem_nil
  | cons x xs ih =>
    obtain ⟨first,lines,eq⟩ := List.exists_cons_of_ne_nil (List.splitOn_ne_nil sep xs)
    rw [List.splitOn_cons_eq_if_modifyHead,eq] at h
    rw [eq] at ih
    split at h
    · rcases List.mem_cons.mp h with rfl | h
      · exact List.not_mem_nil
      · exact ih h
    · rename_i other
      rw [List.modifyHead_cons] at h
      rcases List.mem_cons.mp h with rfl | h
      · refine List.not_mem_cons_of_ne_of_not_mem ?_ (ih List.mem_cons_self)
        exact fun same => other (beq_iff_eq.mpr same.symm)
      · exact ih (List.mem_cons_of_mem first h)

/-- A text ends at the end of a line iff nothing stands behind its last separator. -/
theorem ends_iff (xs : List α) :
    xs = [] ∨ xs.getLast? = some sep ↔ (xs.splitOn sep).getLast? = some [] := by
  have whole := terminated_splitOn sep xs
  obtain nil | ⟨front,last,eq⟩ := (xs.splitOn sep).eq_nil_or_concat
  · exact absurd nil (List.splitOn_ne_nil sep xs)
  have clear : sep ∉ last := by
    refine sep_not_mem (?_ : last ∈ xs.splitOn sep)
    rw [eq]
    simp
  rw [eq,List.concat_eq_append] at whole ⊢
  rw [terminated_concat] at whole
  have text := List.append_cancel_right whole
  rw [List.getLast?_concat,Option.some.injEq,← text]
  constructor
  · rintro (nil | ends)
    · exact (List.append_eq_nil_iff.mp nil).2
    · by_contra some
      rw [List.getLast?_append_of_ne_nil _ some] at ends
      exact clear (List.mem_of_getLast? ends)
  · rintro rfl
    rw [List.append_nil]
    by_cases nil : front = []
    · exact .inl (by rw [nil,terminated_nil])
    · exact .inr (getLast?_terminated sep nil)

end Lines

abbrev Bytes := List UInt8

def newline : UInt8 := 0x0A

/-- The bytes that `bytes.strip` takes off. -/
def whitespace : Bytes := [0x09,0x0A,0x0B,0x0C,0x0D,0x20]

def stripBytes (line : Bytes) : Bytes :=
  (line.dropWhile whitespace.contains).rdropWhile whitespace.contains

variable (parses : Bytes → Bool)

/-- A line that the loop takes for complete: `json.loads` reads it (`parses`). -/
def isValid (line : Bytes) : Bool := !(stripBytes line).isEmpty && parses (stripBytes line)

def isBlank (line : Bytes) : Bool := (stripBytes line).isEmpty

/-- One turn of the loop, on `pos` and `last_valid_pos`. -/
def scanLine (at' : ℕ × ℕ) (line : Bytes) : ℕ × ℕ :=
  let pos := at'.1 + line.length + 1
  (pos,if isValid parses line then pos else at'.2)

def lastValidPos (content : Bytes) : ℕ :=
  ((content.splitOn newline).foldl (scanLine parses) (0,0)).2

/-- `_truncate_session_to_last_complete_line` on the bytes of the file. -/
def truncateSession (content : Bytes) : Bytes :=
  if content.isEmpty then content
  else if lastValidPos parses content < content.length ∧ 0 < lastValidPos parses content then
    content.take (lastValidPos parses content)
  else content

/-- The lines up to the last valid one. -/
def upToLastValid (lines : List Bytes) : List Bytes :=
  lines.rdropWhile fun line => !isValid parses line

/-- What the repair is for. -/
structure Repaired (before after : Bytes) : Prop where
  part : after <+: before
  lines : ∀ line ∈ after.splitOn newline, isBlank line = true ∨ isValid parses line = true
  boundary : after = [] ∨ after.getLast? = some newline
  kept : ∀ run line, (∀ l ∈ run, newline ∉ l ∧ (isBlank l = true ∨ isValid parses l = true)) →
    newline ∉ line → isValid parses line = true →
    terminated newline (run ++ [line]) <+: before → terminated newline (run ++ [line]) <+: after

/-- The files that the loop can repair: no complete line stands behind the last newline, no
broken line in front of a valid one, and without a valid line there is nothing but blank lines. -/
structure Repairable (content : Bytes) : Prop where
  ended : ∀ line, (content.splitOn newline).getLast? = some line → isValid parses line = false
  unbroken : ∀ line ∈ upToLastValid parses (content.splitOn newline),
    isBlank line = true ∨ isValid parses line = true
  empty : (∀ line ∈ content.splitOn newline, isValid parses line = false) →
    (∀ line ∈ content.splitOn newline, isBlank line = true) ∧
      (content.splitOn newline).getLast? = some []

variable {parses}

/-- A valid line may follow a repaired file. -/
theorem Repaired.append {before after line : Bytes} (h : Repaired parses before after)
    (clear : newline ∉ line) (valid : isValid parses line = true) :
    ∀ l ∈ (after ++ line ++ [newline]).splitOn newline,
      isBlank l = true ∨ isValid parses l = true := by
  intro l hl
  obtain nil | ⟨front,last,eq⟩ := (after.splitOn newline).eq_nil_or_concat
  · exact absurd nil (List.splitOn_ne_nil newline after)
  have ends := (ends_iff after).mp h.boundary
  have whole := terminated_splitOn newline after
  have inside : ∀ x ∈ front, x ∈ after.splitOn newline := fun x hx => by
    rw [eq,List.concat_eq_append]
    exact List.mem_append_left _ hx
  rw [eq,List.concat_eq_append] at ends whole
  rw [List.getLast?_concat,Option.some.injEq] at ends
  rw [ends,terminated_concat,List.append_nil] at whole
  have text : after ++ line ++ [newline] = terminated newline (front ++ [line]) ++ [] := by
    rw [terminated_concat,List.append_nil,List.append_cancel_right whole]
  rw [text,splitOn_terminated] at hl
  · rcases List.mem_append.mp hl with hl | hl
    · rcases List.mem_append.mp hl with hl | hl
      · exact h.lines l (inside l hl)
      · exact .inr (List.mem_singleton.mp hl ▸ valid)
    · exact .inl (List.mem_singleton.mp hl ▸ rfl)
  · intro x hx
    rcases List.mem_append.mp hx with hx | hx
    · exact sep_not_mem (inside x hx)
    · exact List.mem_singleton.mp hx ▸ clear

theorem scan_eq (lines : List Bytes) : lines.foldl (scanLine parses) (0,0) =
    ((terminated newline lines).length,
      (terminated newline (upToLastValid parses lines)).length) := by
  induction lines using List.reverseRecOn with
  | nil => rfl
  | append_singleton lines line ih =>
    have length : (terminated newline (lines ++ [line])).length =
        (terminated newline lines).length + line.length + 1 := by
      simp [terminated_concat]
      omega
    rw [List.foldl_append,ih,List.foldl_cons,List.foldl_nil,scanLine,length]
    cases valid : isValid parses line with
    | true =>
      have kept : upToLastValid parses (lines ++ [line]) = lines ++ [line] :=
        List.rdropWhile_concat_neg _ _ _ (by simp [valid])
      rw [kept,length]
      rfl
    | false =>
      have dropped : upToLastValid parses (lines ++ [line]) = upToLastValid parses lines :=
        List.rdropWhile_concat_pos _ _ _ (by simp [valid])
      rw [dropped]
      rfl

theorem upToLastValid_isPrefix (parses : Bytes → Bool) (lines : List Bytes) : upToLastValid parses lines <+: lines :=
  List.rdropWhile_prefix _ lines

/-- What the repair writes. -/
theorem truncateSession_eq (parses : Bytes → Bool) (content : Bytes) :
    truncateSession parses content =
      if upToLastValid parses (content.splitOn newline) = [] ∨
          upToLastValid parses (content.splitOn newline) = content.splitOn newline then content
      else terminated newline (upToLastValid parses (content.splitOn newline)) := by
  obtain ⟨back,eq⟩ := upToLastValid_isPrefix parses (content.splitOn newline)
  have whole := terminated_splitOn newline content
  have last : lastValidPos parses content =
      (terminated newline (upToLastValid parses (content.splitOn newline))).length := by
    rw [lastValidPos,scan_eq]
  generalize upToLastValid parses (content.splitOn newline) = front at eq last ⊢
  by_cases all : front = [] ∨ front = content.splitOn newline
  · rw [if_pos all,truncateSession,last]
    have untouched : ¬((terminated newline front).length < content.length ∧
        0 < (terminated newline front).length) := by
      rcases all with rfl | rfl
      · exact fun h => absurd h.2 (Nat.lt_irrefl 0)
      · rw [whole,List.length_append]
        exact fun h => absurd h.1 (by simp)
    rw [if_neg untouched,ite_self]
  · rw [if_neg all]
    obtain ⟨some,less⟩ := not_or.mp all
    obtain rfl | ⟨bs,b,rfl⟩ := back.eq_nil_or_concat
    · exact absurd (eq ▸ (List.append_nil front).symm) less
    rw [← eq,terminated_append,List.concat_eq_append,terminated_concat,← List.append_assoc] at whole
    have text := List.append_cancel_right whole
    have positive : 0 < (terminated newline front).length := by
      refine List.length_pos_iff.mpr fun nil => ?_
      have ends := getLast?_terminated newline some
      rw [nil] at ends
      cases ends
    have nonempty : content.isEmpty = false := by
      rw [← text,List.isEmpty_eq_false_iff]
      exact List.append_ne_nil_of_left_ne_nil (List.ne_nil_of_length_pos positive) _
    rw [truncateSession,last,nonempty,if_neg Bool.false_ne_true]
    split
    · rw [← text]
      exact List.take_left
    · rename_i whole
      have none : (terminated newline bs ++ b).length = 0 := by
        rw [← text,List.length_append] at whole
        omega
      rw [← text,List.eq_nil_of_length_eq_zero none,List.append_nil]

/-- Behind the last valid line none is valid. -/
theorem mem_upToLastValid {run : List Bytes} {line : Bytes} {lines : List Bytes}
    (h : run ++ [line] <+: lines) (valid : isValid parses line = true) :
    run ++ [line] <+: upToLastValid parses lines := by
  obtain ⟨rest,rfl⟩ := h
  induction rest using List.reverseRecOn with
  | nil =>
    have kept : upToLastValid parses (run ++ [line]) = run ++ [line] :=
      List.rdropWhile_concat_neg _ _ _ (by simp [valid])
    simp only [List.append_nil,kept,List.prefix_rfl]
  | append_singleton rest last ih =>
    rw [← List.append_assoc]
    cases valid' : isValid parses last with
    | true =>
      have kept : upToLastValid parses (run ++ [line] ++ rest ++ [last]) =
          run ++ [line] ++ rest ++ [last] :=
        List.rdropWhile_concat_neg _ _ _ (by simp [valid'])
      rw [kept,List.append_assoc]
      exact List.prefix_append _ _
    | false =>
      have dropped : upToLastValid parses (run ++ [line] ++ rest ++ [last]) =
          upToLastValid parses (run ++ [line] ++ rest) :=
        List.rdropWhile_concat_pos _ _ _ (by simp [valid'])
      rwa [dropped]

theorem upToLastValid_eq_nil {lines : List Bytes} :
    upToLastValid parses lines = [] ↔ ∀ line ∈ lines, isValid parses line = false := by
  rw [upToLastValid,List.rdropWhile_eq_nil_iff]
  simp only [Bool.not_eq_true']

/-- The last line of a text is not valid iff the valid lines end before it. -/
theorem upToLastValid_ne_self {lines : List Bytes} (h : lines ≠ []) :
    upToLastValid parses lines ≠ lines ↔
      ∀ line, lines.getLast? = some line → isValid parses line = false := by
  obtain rfl | ⟨front,last,rfl⟩ := lines.eq_nil_or_concat
  · exact absurd rfl h
  rw [List.concat_eq_append,List.getLast?_concat]
  simp only [Option.some.injEq,forall_eq']
  cases valid : isValid parses last with
  | true =>
    have kept : upToLastValid parses (front ++ [last]) = front ++ [last] :=
      List.rdropWhile_concat_neg _ _ _ (by simp [valid])
    simp [kept]
  | false =>
    have dropped : upToLastValid parses (front ++ [last]) = upToLastValid parses front :=
      List.rdropWhile_concat_pos _ _ _ (by simp [valid])
    refine iff_of_true (fun same => ?_) rfl
    have short := (upToLastValid_isPrefix parses front).length_le
    rw [← dropped,same,List.length_append] at short
    exact absurd short (by simp)

theorem run_isPrefix {run : List Bytes} {content : Bytes} (clear : ∀ line ∈ run, newline ∉ line)
    (h : terminated newline run <+: content) : run <+: content.splitOn newline := by
  obtain ⟨rest,rfl⟩ := h
  rw [splitOn_terminated clear]
  exact List.prefix_append _ _

theorem terminated_isPrefix {ls ms : List Bytes} (h : ls <+: ms) :
    terminated newline ls <+: terminated newline ms := by
  obtain ⟨rest,rfl⟩ := h
  rw [terminated_append]
  exact List.prefix_append _ _

/-- The repair of a file with a valid line, none of them behind the last newline. -/
theorem repaired_cut {content : Bytes}
    (some : upToLastValid parses (content.splitOn newline) ≠ [])
    (ended : upToLastValid parses (content.splitOn newline) ≠ content.splitOn newline) :
    Repaired parses content (terminated newline (upToLastValid parses (content.splitOn newline))) ↔
      ∀ line ∈ upToLastValid parses (content.splitOn newline),
        isBlank line = true ∨ isValid parses line = true := by
  have written := truncateSession_eq parses content
  rw [if_neg (not_or.mpr ⟨some,ended⟩)] at written
  have clear : ∀ line ∈ upToLastValid parses (content.splitOn newline), newline ∉ line :=
    fun line h => sep_not_mem ((upToLastValid_isPrefix _ _).subset h)
  have lines := splitOn_terminated clear []
  rw [List.append_nil,List.splitOn_nil] at lines
  constructor
  · intro right line hline
    refine right.lines line ?_
    rw [lines]
    exact List.mem_append_left _ hline
  · intro unbroken
    refine ⟨?_,?_,.inr (getLast?_terminated newline some),?_⟩
    · rw [← written,truncateSession]
      split
      · exact List.prefix_rfl
      · split
        · exact List.take_prefix _ _
        · exact List.prefix_rfl
    · intro line hline
      rw [lines] at hline
      rcases List.mem_append.mp hline with hline | hline
      · exact unbroken line hline
      · exact .inl (List.mem_singleton.mp hline ▸ rfl)
    · intro run line hrun hline valid inside
      refine terminated_isPrefix (mem_upToLastValid (run_isPrefix ?_ inside) valid)
      intro l hl
      rcases List.mem_append.mp hl with hl | hl
      · exact (hrun l hl).1
      · exact List.mem_singleton.mp hl ▸ hline

/-- A file that is left alone. -/
theorem repaired_self (content : Bytes) : Repaired parses content content ↔
    (∀ line ∈ content.splitOn newline, isBlank line = true ∨ isValid parses line = true) ∧
      (content.splitOn newline).getLast? = some [] := by
  constructor
  · exact fun right => ⟨right.lines,(ends_iff content).mp right.boundary⟩
  · exact fun h => ⟨List.prefix_rfl,h.1,(ends_iff content).mpr h.2,fun _ _ _ _ _ h => h⟩

theorem session_repaired_iff (parses : Bytes → Bool) (content : Bytes) :
    Repaired parses content (truncateSession parses content) ↔ Repairable parses content := by
  rw [truncateSession_eq]
  have lines := List.splitOn_ne_nil newline content
  by_cases none : upToLastValid parses (content.splitOn newline) = []
  · have invalid := upToLastValid_eq_nil.mp none
    rw [if_pos (.inl none),repaired_self]
    constructor
    · rintro ⟨right,ends⟩
      refine ⟨fun line h => invalid line (List.mem_of_getLast? h),?_,fun _ => ⟨?_,ends⟩⟩
      · exact fun line h => right line ((upToLastValid_isPrefix _ _).subset h)
      · intro line h
        exact (right line h).resolve_right (Bool.not_eq_true _ ▸ invalid line h)
    · intro able
      obtain ⟨blank,ends⟩ := able.empty invalid
      exact ⟨fun line h => .inl (blank line h),ends⟩
  · by_cases ended : upToLastValid parses (content.splitOn newline) = content.splitOn newline
    · -- the last line has no newline behind it and stays
      rw [if_pos (.inr ended),repaired_self]
      refine iff_of_false ?_ fun able => (upToLastValid_ne_self lines).mpr able.ended ended
      rintro ⟨-,ends⟩
      refine (upToLastValid_ne_self lines).mpr (fun line last => ?_) ended
      rw [ends] at last
      exact Option.some.inj last ▸ rfl
    · rw [if_neg (not_or.mpr ⟨none,ended⟩),repaired_cut none ended]
      constructor
      · intro unbroken
        refine ⟨(upToLastValid_ne_self lines).mp ended,unbroken,fun invalid => ?_⟩
        exact absurd (upToLastValid_eq_nil.mpr invalid) none
      · exact fun able => able.unbroken

/-- A file that holds a torn line only keeps it. -/
theorem torn_line_kept : ¬Repaired (· = [0x7B,0x7D]) [0x7B] (truncateSession (· = [0x7B,0x7D]) [0x7B]) := by
  intro right
  exact absurd right.boundary (by decide)

end SessionRepair
end EntryAnalyse
