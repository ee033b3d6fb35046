import Mathlib.Data.List.Basic
import Mathlib.Tactic

/-! A reader that gets a stream in chunks and handles what stands between separators. How the stream
is cut does not matter: it handles what splitting the whole stream gives, and the last piece is kept. -/
namespace EntryAnalyse
namespace LineReader

variable {α σ : Type} [DecidableEq α] (sep : α) (handle : σ → List α → σ)

/-- What stands before and after the first separator. -/
def splitFirst : List α → Option (List α × List α)
  | [] => none
  | a :: rest =>
    if a = sep then some ([],rest)
    else (splitFirst rest).map fun p => (a :: p.1,p.2)

variable {sep} in
theorem splitFirst_eq_some {buffer line rest : List α} (h : splitFirst sep buffer = some (line,rest)) :
    buffer = line ++ sep :: rest ∧ sep ∉ line := by
  induction buffer generalizing line with
  | nil => cases h
  | cons a buffer ih =>
    by_cases ha : a = sep
    · simp [splitFirst,ha] at h
      simp [ha,h.1,h.2]
    · simp only [splitFirst,if_neg ha,Option.map_eq_some_iff] at h
      obtain ⟨⟨line',rest'⟩,hsplit,heq⟩ := h
      obtain ⟨rfl,rfl⟩ := Prod.mk.inj heq
      obtain ⟨rfl,hmem⟩ := ih hsplit
      simp [Ne.symm ha,hmem]

variable {sep} in
theorem splitFirst_eq_none {buffer : List α} (h : splitFirst sep buffer = none) : sep ∉ buffer := by
  induction buffer with
  | nil => simp
  | cons a buffer ih =>
    by_cases ha : a = sep
    · simp [splitFirst,ha] at h
    · simp only [splitFirst,if_neg ha,Option.map_eq_none_iff] at h
      simp [Ne.symm ha,ih h]

/-- Handle every piece that is complete, and give what is left in the buffer. -/
def drain (s : σ) (buffer : List α) : σ × List α :=
  match _h : splitFirst sep buffer with
  | none => (s,buffer)
  | some (line,rest) => drain (handle s line) rest
termination_by buffer.length
decreasing_by
  rw [(splitFirst_eq_some _h).1]
  simp
  omega

/-- The reader with its next chunk. -/
def feed (s : σ × List α) (chunk : List α) : σ × List α := drain sep handle s.1 (s.2 ++ chunk)

/-- The pieces that a separator follows. -/
def complete (stream : List α) : List (List α) := (stream.splitOn sep).dropLast

/-- The piece that is not complete. -/
def remainder (stream : List α) : List α := (stream.splitOn sep).getLast (List.splitOn_ne_nil _ _)

variable {sep}

theorem complete_of_notMem {buffer : List α} (h : sep ∉ buffer) :
    complete sep buffer = [] ∧ remainder sep buffer = buffer := by
  simp [complete,remainder,List.splitOn_eq_singleton h]

theorem complete_line {line : List α} (h : sep ∉ line) (rest : List α) :
    complete sep (line ++ sep :: rest) = line :: complete sep rest ∧
      remainder sep (line ++ sep :: rest) = remainder sep rest := by
  have hne := List.splitOn_ne_nil sep rest
  simp only [complete,remainder,List.splitOn_append_cons_self_of_not_mem h]
  exact ⟨List.dropLast_cons_of_ne_nil hne,List.getLast_cons hne⟩

variable {handle}

theorem drain_eq (s : σ) (buffer : List α) :
    drain sep handle s buffer = ((complete sep buffer).foldl handle s,remainder sep buffer) := by
  fun_induction drain sep handle s buffer with
  | case1 s buffer h =>
    simp [complete_of_notMem (splitFirst_eq_none h)]
  | case2 s buffer line rest h ih =>
    obtain ⟨rfl,hmem⟩ := splitFirst_eq_some h
    rw [ih,(complete_line hmem rest).1,(complete_line hmem rest).2,List.foldl_cons]

theorem drain_append (s : σ) (a b : List α) :
    drain sep handle s (a ++ b) = feed sep handle (drain sep handle s a) b := by
  fun_induction drain sep handle s a with
  | case1 s a h => rfl
  | case2 s a line rest h ih =>
    obtain ⟨rfl,hmem⟩ := splitFirst_eq_some h
    rw [← ih,drain_eq,drain_eq,List.append_assoc,List.cons_append,(complete_line hmem _).1,
      (complete_line hmem _).2,List.foldl_cons]

/-- Whatever the chunks are, the complete pieces of the stream are handled and the rest is left. -/
theorem foldl_feed (s : σ) (chunks : List (List α)) :
    chunks.foldl (feed sep handle) (s,[]) =
      ((complete sep chunks.flatten).foldl handle s,remainder sep chunks.flatten) := by
  rw [← drain_eq]
  induction chunks using List.reverseRecOn with
  | nil => rw [List.foldl_nil,List.flatten_nil,drain_eq]; simp [complete,remainder]
  | append_singleton chunks chunk ih =>
    rw [List.foldl_concat,ih,List.flatten_append,List.flatten_singleton,drain_append]

end LineReader
end EntryAnalyse
