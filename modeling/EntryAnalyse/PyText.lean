import EntryAnalyse.PyJson

/-! Python's text methods as the modelled functions use them: slices, lines and joined lines. -/
namespace EntryAnalyse
namespace PyText

open PyJson

/-- `xs[a:b]`; a negative bound counts from the end. -/
def slice {α : Type} (xs : List α) (a b : ℤ) : List α :=
  let bound (i : ℤ) : ℕ := (if i < 0 then i + xs.length else i).toNat
  (xs.take (bound b)).drop (bound a)

def startsWith (text pre : String) : Bool := pre.toList.isPrefixOf text.toList

/-- The characters at which `str.splitlines` ends a line. -/
def lineBreaks : List ℕ := [0x0A,0x0B,0x0C,0x0D,0x1C,0x1D,0x1E,0x85,0x2028,0x2029]

def isBreak (c : Char) : Bool := lineBreaks.contains c.toNat

/-- The lines from here on, the current one reversed in `cur`. A `\r\n` is one break. -/
def splitFrom : List Char → List Char → List (List Char)
  | cur,[] => if cur.isEmpty then [] else [cur.reverse]
  | cur,c :: cs =>
    if c == '\r' && cs.head? == some '\n' then splitFrom cur cs
    else if isBreak c then cur.reverse :: splitFrom [] cs
    else splitFrom (c :: cur) cs

/-- `text.splitlines()`. -/
def splitlines (text : String) : List String := (splitFrom [] text.toList).map String.ofList

example : splitlines "ab\r\ncd\n\ne" = ["ab","cd","","e"] := by decide +kernel

/-- `"\n".join(lines)`. -/
def joinLines (lines : List String) : String := "\n".intercalate lines

/-- `text.rstrip()`. -/
def rstrip (text : String) : String := String.ofList (text.toList.rdropWhile pyIsSpace)

section Lines

theorem splitFrom_no_break {cur cs : List Char} (hcur : ∀ c ∈ cur, isBreak c = false) :
    ∀ l ∈ splitFrom cur cs, ∀ c ∈ l, isBreak c = false := by
  induction cs generalizing cur with
  | nil =>
    intro l hl c hc
    rw [splitFrom] at hl
    split at hl
    · cases hl
    · rw [List.mem_singleton.mp hl] at hc
      exact hcur c (List.mem_reverse.mp hc)
  | cons d cs ih =>
    intro l hl
    rw [splitFrom] at hl
    split at hl
    · exact ih hcur l hl
    · split at hl
      · rcases List.mem_cons.mp hl with rfl | hl
        · exact fun c hc => hcur c (List.mem_reverse.mp hc)
        · exact ih (fun c hc => absurd hc List.not_mem_nil) l hl
      · rename_i hd
        exact ih (List.forall_mem_cons.mpr ⟨Bool.eq_false_iff.mpr hd,hcur⟩) l hl

/-- A line holds no line break. -/
theorem newline_not_mem {text l : String} (h : l ∈ splitlines text) : '\n' ∉ l.toList := by
  obtain ⟨cs,hcs,rfl⟩ := List.mem_map.mp h
  rw [String.toList_ofList]
  intro hn
  exact absurd (splitFrom_no_break (fun c hc => absurd hc List.not_mem_nil) cs hcs _ hn) (by decide)

/-- Joined lines hold one break fewer than there are lines. -/
theorem count_joinLines {lines : List String} (hne : lines ≠ [])
    (h : ∀ l ∈ lines, '\n' ∉ l.toList) :
    (joinLines lines).toList.count '\n' + 1 = lines.length := by
  induction lines with
  | nil => exact absurd rfl hne
  | cons l ls ih =>
    have hl : l.toList.count '\n' = 0 := List.count_eq_zero.mpr (h l List.mem_cons_self)
    cases ls with
    | nil => simp [joinLines,hl]
    | cons m ls =>
      have ih := ih (List.cons_ne_nil _ _) fun x hx => h x (List.mem_cons_of_mem _ hx)
      rw [joinLines,String.intercalate_cons_cons,String.toList_append,String.toList_append,
        List.count_append,List.count_append,hl]
      rw [joinLines] at ih
      rw [List.length_cons,← ih]
      simp only [show "\n".toList.count '\n' = 1 by decide]
      omega

/-- Pieces of a text with the same joined lines have as many lines. -/
theorem length_eq_of_joinLines {ls ms : List String} (hl : ls ≠ []) (hm : ms ≠ [])
    (hls : ∀ l ∈ ls, '\n' ∉ l.toList) (hms : ∀ l ∈ ms, '\n' ∉ l.toList)
    (h : joinLines ls = joinLines ms) : ls.length = ms.length := by
  rw [← count_joinLines hl hls,← count_joinLines hm hms,h]

end Lines

section Slice

variable {α : Type} {xs : List α} {a b : ℤ}

theorem slice_eq (ha : 0 ≤ a) (hb : 0 ≤ b) : slice xs a b = (xs.take b.toNat).drop a.toNat := by
  simp only [slice,if_neg (not_lt.mpr ha),if_neg (not_lt.mpr hb)]

theorem mem_of_mem_slice {x : α} (h : x ∈ slice xs a b) : x ∈ xs :=
  List.mem_of_mem_take (List.mem_of_mem_drop h)

theorem length_slice (ha : 0 ≤ a) (hb : 0 ≤ b) :
    ((slice xs a b).length : ℤ) = max 0 (min b xs.length - a) := by
  rw [slice_eq ha hb,List.length_drop,List.length_take]
  omega

end Slice

/-- A property of the characters of a text is decided at these alone, not at every character
there is. -/
scoped instance (priority := 1100) decidableForallMemText (cs : List Char) (P : Char → Prop)
    [DecidablePred P] : Decidable (∀ c ∈ cs, P c) :=
  List.decidableBAll P cs

theorem not_space_of_printable {c : Char} (hlow : 33 ≤ c.toNat) (hhigh : c.toNat ≤ 126) :
    pyIsSpace c = false := by
  simp only [pyIsSpace,Bool.or_eq_false_iff,Bool.and_eq_false_iff,decide_eq_false_iff_not,
    beq_eq_false_iff_ne]
  omega

/-! ## Texts without white space at their ends -/

/-- `strip` of a list of characters. -/
def trim (cs : List Char) : List Char := (cs.dropWhile pyIsSpace).rdropWhile pyIsSpace

section Trim

variable {cs ds : List Char} {c : Char}

theorem trim_eq_self_iff : trim cs = cs ↔
    (∀ x ∈ cs.head?, pyIsSpace x = false) ∧ ∀ x ∈ cs.getLast?, pyIsSpace x = false := by
  constructor
  · intro h
    have hlen := congrArg List.length h
    have hfront : (cs.dropWhile pyIsSpace).length ≤ cs.length :=
      (List.dropWhile_suffix pyIsSpace).length_le
    have hback : (trim cs).length ≤ (cs.dropWhile pyIsSpace).length :=
      (List.rdropWhile_prefix pyIsSpace _).length_le
    have hdrop : cs.dropWhile pyIsSpace = cs :=
      (List.dropWhile_suffix pyIsSpace).eq_of_length (by omega)
    have hrdrop : cs.rdropWhile pyIsSpace = cs := by
      rwa [trim,hdrop] at h
    refine ⟨fun x hx => ?_,fun x hx => ?_⟩
    · obtain ⟨xs,rfl⟩ := List.head?_eq_some_iff.mp hx
      cases hsp : pyIsSpace x with
      | false => rfl
      | true =>
        rw [List.dropWhile_cons_of_pos hsp] at hdrop
        have := congrArg List.length hdrop
        have := (List.dropWhile_suffix (l := xs) pyIsSpace).length_le
        simp at *
        omega
    · obtain ⟨xs,rfl⟩ := List.getLast?_eq_some_iff.mp hx
      cases hsp : pyIsSpace x with
      | false => rfl
      | true =>
        rw [List.rdropWhile_concat_pos _ _ _ hsp] at hrdrop
        have := congrArg List.length hrdrop
        have := (List.rdropWhile_prefix (l := xs) pyIsSpace).length_le
        simp at *
        omega
  · rintro ⟨hhead,hlast⟩
    have hdrop : cs.dropWhile pyIsSpace = cs := by
      cases cs with
      | nil => rfl
      | cons x xs => exact List.dropWhile_cons_of_neg (by simp [hhead x rfl])
    rw [trim,hdrop]
    induction cs using List.reverseRecOn with
    | nil => rfl
    | append_singleton xs x ih =>
      exact List.rdropWhile_concat_neg _ _ _ (by simp [hlast x (by simp)])

theorem mem_of_mem_trim (h : c ∈ trim cs) : c ∈ cs :=
  (List.dropWhile_suffix pyIsSpace).subset ((List.rdropWhile_prefix pyIsSpace _).subset h)

theorem mem_trim (h : c ∈ cs) (hc : pyIsSpace c = false) : c ∈ trim cs := by
  have hdrop : ∀ {xs : List Char}, c ∈ xs → c ∈ xs.dropWhile pyIsSpace := by
    intro xs hx
    rw [← List.takeWhile_append_dropWhile (p := pyIsSpace) (l := xs)] at hx
    rcases List.mem_append.mp hx with hx | hx
    · have hspace := List.mem_takeWhile_imp hx
      rw [hc] at hspace
      cases hspace
    · exact hx
  rw [trim,List.rdropWhile]
  exact List.mem_reverse.mpr (hdrop (List.mem_reverse.mpr (hdrop h)))

theorem trim_trim : trim (trim cs) = trim cs := by
  have h := strip_strip (String.ofList cs)
  rw [← String.toList_inj,strip_toList,strip_toList,String.toList_ofList] at h
  exact h

theorem trim_space_cons (h : pyIsSpace c = true) : trim (c :: cs) = trim cs := by
  rw [trim,List.dropWhile_cons_of_pos h,trim]

theorem trim_concat_space (h : pyIsSpace c = true) : trim (cs ++ [c]) = trim cs := by
  rw [trim,trim,List.dropWhile_append]
  cases hnil : cs.dropWhile pyIsSpace with
  | nil =>
    rw [List.isEmpty_nil,if_pos rfl,List.dropWhile_cons_of_pos h]
    rfl
  | cons d ds => exact List.rdropWhile_concat_pos _ _ _ h

theorem toList_strip (s : String) : (strip s).toList = trim s.toList := strip_toList s

end Trim

end PyText
end EntryAnalyse
