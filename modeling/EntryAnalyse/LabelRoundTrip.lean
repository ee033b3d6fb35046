import EntryAnalyse.MetricsFaithful

/-! The labels of an exported sample as the reader of the metrics sees them. A text is split at
more characters than the labels escape, and a backslash in front of an `n` is read as a line
break. -/
namespace EntryAnalyse
namespace Metrics

open Runner

/-! ## Replacing a text that is not empty -/

section Replace

variable {o o' a c : Char} {os new text rest cs : List Char}

def replaceAll (old new text : List Char) : List Char := replaceChars old new text.length text

theorem replaceChars_fuel {n m : ℕ} (hn : text.length ≤ n) (hm : text.length ≤ m) :
    replaceChars (o :: os) new n text = replaceChars (o :: os) new m text := by
  induction n generalizing m text with
  | zero =>
    rw [List.length_eq_zero_iff.mp (Nat.le_zero.mp hn)]
    cases m <;> rfl
  | succ n ih =>
    cases text with
    | nil => cases m <;> rfl
    | cons c cs =>
      cases m with
      | zero => cases hm
      | succ m =>
        have hn := Nat.le_of_succ_le_succ hn
        have hm := Nat.le_of_succ_le_succ hm
        have hdrop : ((c :: cs).drop (o :: os).length).length ≤ cs.length := by simp
        rw [replaceChars,replaceChars,ih hn hm,ih (hdrop.trans hn) (hdrop.trans hm)]

theorem replaceAll_start :
    replaceAll (o :: os) new (o :: os ++ rest) = new ++ replaceAll (o :: os) new rest := by
  have hpre : (o :: os).isPrefixOf (o :: (os ++ rest)) = true :=
    List.isPrefixOf_iff_prefix.mpr (List.prefix_append (o :: os) rest)
  have hdrop : (o :: (os ++ rest)).drop (o :: os).length = rest := List.drop_left
  rw [replaceAll,List.cons_append,List.length_cons,replaceChars,if_pos hpre,hdrop]
  rw [replaceChars_fuel (by simp) le_rfl]
  rfl

theorem replaceAll_skip (h : ¬o :: os <+: c :: cs) :
    replaceAll (o :: os) new (c :: cs) = c :: replaceAll (o :: os) new cs := by
  rw [replaceAll,List.length_cons,replaceChars,if_neg fun hp => h (List.isPrefixOf_iff_prefix.mp hp)]
  rfl

theorem replaceAll_pair :
    replaceAll [o,o'] new (o :: o' :: rest) = new ++ replaceAll [o,o'] new rest :=
  replaceAll_start

/-- A character that the old text does not begin with stays. -/
theorem replaceAll_ne (h : c ≠ o) :
    replaceAll (o :: os) new (c :: cs) = c :: replaceAll (o :: os) new cs :=
  replaceAll_skip fun hp => h (List.cons_prefix_cons.mp hp).1.symm

/-- So does the first character of the old text where the second one does not follow. -/
theorem replaceAll_half (h : cs.head? ≠ some o') :
    replaceAll [o,o'] new (c :: cs) = c :: replaceAll [o,o'] new cs := by
  refine replaceAll_skip fun hp => h ?_
  obtain ⟨-,rest,rfl⟩ := List.cons_prefix_cons.mp hp
  rfl

theorem replaceAll_single :
    replaceAll [a] new text = text.flatMap fun c => if c = a then new else [c] := by
  induction text with
  | nil => rfl
  | cons c cs ih =>
    rw [List.flatMap_cons,← ih]
    by_cases hc : c = a
    · rw [hc,if_pos rfl]
      exact replaceAll_start
    · rw [if_neg hc]
      exact replaceAll_ne hc

theorem length_replaceAll (hnew : new.length < (o :: os).length) :
    (replaceAll (o :: os) new text).length ≤ text.length ∧
      (o :: os <:+: text → (replaceAll (o :: os) new text).length < text.length) := by
  induction hlen : text.length using Nat.strong_induction_on generalizing text with
  | _ n ih =>
    by_cases hp : o :: os <+: text
    · obtain ⟨rest,rfl⟩ := hp
      rw [List.length_append] at hlen
      have hle := (ih rest.length (by rw [← hlen]; simp) rfl).1
      rw [replaceAll_start,List.length_append]
      exact ⟨by omega,fun _ => by omega⟩
    · cases text with
      | nil => exact ⟨Nat.zero_le n,fun h => absurd h.length_le (by simp)⟩
      | cons c cs =>
        rw [List.length_cons] at hlen
        obtain ⟨hle,hlt⟩ := ih cs.length (by omega) rfl
        rw [replaceAll_skip hp,List.length_cons]
        refine ⟨by omega,fun h => ?_⟩
        rcases List.infix_cons_iff.mp h with h | h
        · exact absurd h hp
        · have := hlt h
          omega

/-- A text is as before iff nothing in it was replaced by less. -/
theorem replaceAll_eq_self_iff (hnew : new.length < (o :: os).length) :
    replaceAll (o :: os) new text = text ↔ ¬o :: os <:+: text := by
  constructor
  · intro h hin
    have hlt := (length_replaceAll hnew).2 hin
    rw [h] at hlt
    exact lt_irrefl _ hlt
  · intro h
    induction text with
    | nil => rfl
    | cons c cs ih =>
      have hskip : ¬o :: os <+: c :: cs := fun hp => h hp.isInfix
      rw [replaceAll_skip hskip,ih fun hin => h (List.infix_cons hin)]

end Replace

/-! ## A value that is escaped and read back -/

section Value

variable {v rest : List Char}

/-- What stands for a character in a label. -/
def escapeChar (c : Char) : List Char :=
  if c = '\\' then ['\\','\\'] else if c = '\n' then ['\\','n'] else if c = '"' then ['\\','"']
  else [c]

theorem escapeLabel_toList (value : String) :
    (escapeLabel value).toList = value.toList.flatMap escapeChar := by
  have hreplace : ∀ (a : Char) (new text : List Char),
      replaceText (String.ofList [a]) (String.ofList new) (String.ofList text) =
        String.ofList (text.flatMap fun c => if c = a then new else [c]) := by
    intro a new text
    rw [replaceText,String.toList_ofList,String.toList_ofList,String.toList_ofList]
    exact congrArg String.ofList replaceAll_single
  have hvalue : escapeLabel value = replaceText (String.ofList ['"']) (String.ofList ['\\','"'])
      (replaceText (String.ofList ['\n']) (String.ofList ['\\','n'])
        (replaceText (String.ofList ['\\']) (String.ofList ['\\','\\'])
          (String.ofList value.toList))) := by
    rw [String.ofList_toList]
    rfl
  rw [hvalue,hreplace,hreplace,hreplace,String.toList_ofList,List.flatMap_assoc,List.flatMap_assoc]
  congr 1
  funext c
  unfold escapeChar
  split_ifs with h₁ h₂ h₃
  · rfl
  · subst h₂
    rfl
  · simp [h₃]
  · simp [h₂,h₃]

/-- What is left of it once the backslashes are read. -/
def escapeQuote (c : Char) : List Char :=
  if c = '\n' then ['\\','n'] else if c = '"' then ['\\','"'] else [c]

/-- And once the quotes are. -/
def escapeBreak (c : Char) : List Char := if c = '\n' then ['\\','n'] else [c]

theorem unescape_backslash :
    replaceAll ['\\','\\'] ['\\'] (v.flatMap escapeChar) = v.flatMap escapeQuote := by
  induction v with
  | nil => rfl
  | cons c cs ih =>
    have hn : ∀ d : Char, d ≠ '\\' → ∀ text, replaceAll ['\\','\\'] ['\\'] ('\\' :: d :: text) =
        '\\' :: d :: replaceAll ['\\','\\'] ['\\'] text := by
      intro d hd text
      rw [replaceAll_half (by simpa using hd),replaceAll_ne hd]
    rw [List.flatMap_cons,List.flatMap_cons,← ih]
    unfold escapeChar escapeQuote
    split_ifs with h₁ h₂ h₃
    · rw [h₁] at h₂
      exact absurd h₂ (by decide)
    · rw [h₁] at h₃
      exact absurd h₃ (by decide)
    · rw [h₁]
      exact replaceAll_pair
    · exact hn 'n' (by decide) _
    · exact hn '"' (by decide) _
    · exact replaceAll_ne h₁

theorem head_escapeQuote : (v.flatMap escapeQuote).head? ≠ some '"' := by
  cases v with
  | nil => simp
  | cons c cs =>
    rw [List.flatMap_cons]
    unfold escapeQuote
    split_ifs with h₁ h₂
    · simp
    · simp
    · simpa using h₂

theorem unescape_quote :
    replaceAll ['\\','"'] ['"'] (v.flatMap escapeQuote) = v.flatMap escapeBreak := by
  induction v with
  | nil => rfl
  | cons c cs ih =>
    rw [List.flatMap_cons,List.flatMap_cons,← ih]
    unfold escapeBreak
    by_cases h₁ : c = '\n'
    · rw [if_pos h₁,escapeQuote,if_pos h₁]
      exact (replaceAll_half (by simp)).trans (congrArg _ (replaceAll_ne (by decide)))
    · rw [if_neg h₁,escapeQuote,if_neg h₁]
      by_cases h₂ : c = '"'
      · rw [if_pos h₂,h₂]
        exact replaceAll_pair
      · rw [if_neg h₂]
        exact replaceAll_half head_escapeQuote

theorem head_escapeBreak (h : v.head? ≠ some 'n') : (v.flatMap escapeBreak).head? ≠ some 'n' := by
  cases v with
  | nil => simp
  | cons c cs =>
    rw [List.flatMap_cons]
    unfold escapeBreak
    split_ifs
    · simp
    · simpa using h

/-- Line breaks are put back, also where there were none. -/
theorem unescape_break : replaceAll ['\\','n'] ['\n'] (v.flatMap escapeBreak) =
    replaceAll ['\\','n'] ['\n'] v := by
  induction hlen : v.length using Nat.strong_induction_on generalizing v with
  | _ n ih =>
    cases v with
    | nil => rfl
    | cons c cs =>
      have hcs := ih cs.length (by rw [← hlen]; simp) rfl
      by_cases h₁ : c = '\n'
      · rw [List.flatMap_cons,escapeBreak,if_pos h₁,h₁,replaceAll_ne (by decide),← hcs]
        exact replaceAll_pair
      · rw [List.flatMap_cons,escapeBreak,if_neg h₁,List.singleton_append]
        by_cases h₂ : c = '\\' ∧ cs.head? = some 'n'
        · obtain ⟨rfl,hn⟩ := h₂
          obtain ⟨ds,rfl⟩ := List.head?_eq_some_iff.mp hn
          have hds := ih ds.length (by rw [← hlen]; simp) rfl
          have hrest : ('n' :: ds).flatMap escapeBreak = 'n' :: ds.flatMap escapeBreak := rfl
          rw [hrest,replaceAll_pair,replaceAll_pair,hds]
        · have hkeep : ∀ text : List Char, (cs.head? ≠ some 'n' → text.head? ≠ some 'n') →
              replaceAll ['\\','n'] ['\n'] (c :: text) =
                c :: replaceAll ['\\','n'] ['\n'] text := by
            intro text htext
            by_cases hc : c = '\\'
            · exact replaceAll_half (htext fun hn => h₂ ⟨hc,hn⟩)
            · exact replaceAll_ne hc
          rw [hkeep _ head_escapeBreak,hkeep cs id,hcs]

/-- What is read is the value with a line break for each backslash in front of an `n`. -/
theorem unescape_escapeLabel (value : String) :
    (unescape (escapeLabel value)).toList = replaceAll ['\\','n'] ['\n'] value.toList := by
  have htext : ∀ old new text : List Char,
      replaceText (String.ofList old) (String.ofList new) (String.ofList text) =
        String.ofList (replaceAll old new text) := by
    intro old new text
    rw [replaceText,String.toList_ofList,String.toList_ofList,String.toList_ofList]
    rfl
  have hvalue : unescape (escapeLabel value) =
      replaceText (String.ofList ['\\','n']) (String.ofList ['\n'])
        (replaceText (String.ofList ['\\','"']) (String.ofList ['"'])
          (replaceText (String.ofList ['\\','\\']) (String.ofList ['\\'])
            (String.ofList (escapeLabel value).toList))) := by
    rw [String.ofList_toList]
    rfl
  rw [hvalue,escapeLabel_toList,htext,unescape_backslash,htext,unescape_quote,htext,
    String.toList_ofList,unescape_break]

/-- The reader of a quoted text stops at the quote behind the value. -/
theorem matchQuoted_escaped :
    matchQuoted (v.flatMap escapeChar ++ '"' :: rest) = some (v.flatMap escapeChar,rest) := by
  induction v with
  | nil => rfl
  | cons c cs ih =>
    have hpair : ∀ d : Char, d ≠ '\n' →
        matchQuoted ('\\' :: d :: (cs.flatMap escapeChar ++ '"' :: rest)) =
          some ('\\' :: d :: cs.flatMap escapeChar,rest) := by
      intro d hd
      rw [matchQuoted,if_neg hd,ih]
      rfl
    rw [List.flatMap_cons,escapeChar]
    by_cases h₁ : c = '\\'
    · rw [if_pos h₁]
      exact hpair '\\' (by decide)
    · by_cases h₂ : c = '\n'
      · rw [if_neg h₁,if_pos h₂]
        exact hpair 'n' (by decide)
      · by_cases h₃ : c = '"'
        · rw [if_neg h₁,if_neg h₂,if_pos h₃]
          exact hpair '"' (by decide)
        · rw [if_neg h₁,if_neg h₂,if_neg h₃,List.singleton_append,List.cons_append,matchQuoted,ih]
          · rfl
          · exact fun h => absurd h h₁
          · exact fun _ _ h => absurd h h₁
          · exact h₃

end Value

/-! ## Lookups -/

section Lookup

variable {κ β : Type} [DecidableEq κ] {l : List (κ × β)} {k : κ} {b : β}

theorem lookup_iff_mem (hnd : (l.map Prod.fst).Nodup) : l.lookup k = some b ↔ (k,b) ∈ l := by
  induction l with
  | nil => simp
  | cons q l ih =>
    obtain ⟨hq,hl⟩ := List.nodup_cons.mp hnd
    rw [List.lookup_cons,List.mem_cons]
    by_cases hk : k = q.1
    · have hnot : (k,b) ∉ l := fun h => hq (hk ▸ List.mem_map_of_mem h)
      rw [hk,beq_self_eq_true,Prod.ext_iff]
      rw [hk] at hnot
      simp [hnot,eq_comm]
    · rw [beq_false_of_ne hk,Prod.ext_iff]
      simp only [hk,false_and,false_or]
      exact ih hl

/-- Where no key comes twice, the last entry of a key is the first. -/
theorem lookup_reverse (hnd : (l.map Prod.fst).Nodup) : l.reverse.lookup k = l.lookup k := by
  have hnd' : (l.reverse.map Prod.fst).Nodup := by
    rw [List.map_reverse,List.nodup_reverse]
    exact hnd
  apply Option.ext
  intro b
  rw [lookup_iff_mem hnd',lookup_iff_mem hnd,List.mem_reverse]

end Lookup

/-! ## The labels of a line -/

/-- A name that the reader takes for the name of a label. -/
def isLabelName (name : String) : Bool :=
  match name.toList with
  | [] => false
  | c :: cs => isNameStart c && cs.all isLabelPart

/-- A name that it takes for the name of a metric. -/
def isMetricName (name : String) : Bool :=
  match name.toList with
  | [] => false
  | c :: cs => isMetricStart c && cs.all isMetricPart

theorem splitChars_unbroken {line : List Char} (h : ∀ c ∈ line, isLineBoundary c = false)
    (hne : line ≠ []) : splitChars line = [line] := by
  induction line with
  | nil => exact absurd rfl hne
  | cons c cs ih =>
    rw [List.forall_mem_cons] at h
    cases cs with
    | nil => rw [splitChars,if_neg (by simp [h.1])]
    | cons d ds => rw [splitChars,if_neg (by simp [h.1]),ih h.2 (by simp)]

section Line

variable {p : String × String} {pairs : List (String × String)} {rest value : List Char}

theorem isLabelName_iff {name : String} : isLabelName name = true ↔
    ∃ c cs, name.toList = c :: cs ∧ isNameStart c = true ∧ ∀ d ∈ cs, isLabelPart d = true := by
  unfold isLabelName
  cases name.toList with
  | nil => simp
  | cons c cs => simp

theorem isMetricName_iff {name : String} : isMetricName name = true ↔
    ∃ c cs, name.toList = c :: cs ∧ isMetricStart c = true ∧ ∀ d ∈ cs, isMetricPart d = true := by
  unfold isMetricName
  cases name.toList with
  | nil => simp
  | cons c cs => simp

/-- A label as it is written. -/
def labelText (p : String × String) : List Char :=
  p.1.toList ++ '=' :: '"' :: (p.2.toList.flatMap escapeChar ++ ['"'])

def labelsText (pairs : List (String × String)) : List Char :=
  [','].intercalate (pairs.map labelText) ++ ['\x7d']

theorem labels_toList (hpairs : pairs ≠ []) :
    (labels pairs).toList = '\x7b' :: labelsText pairs := by
  have hparts : (pairs.map fun p => p.1 ++ "=\"" ++ escapeLabel p.2 ++ "\"").map String.toList =
      pairs.map labelText := by
    rw [List.map_map]
    apply List.map_congr_left
    intro p _
    rw [Function.comp_apply]
    simp [labelText,escapeLabel_toList]
  unfold labels
  rw [if_neg (by simpa using hpairs),String.toList_append,String.toList_append,
    String.toList_intercalate,hparts]
  rfl

theorem matchLabel_labelText (hname : isLabelName p.1 = true) :
    matchLabel (labelText p ++ rest) = some (p.1.toList,p.2.toList.flatMap escapeChar,rest) := by
  obtain ⟨c,cs,hp,hc,hcs⟩ := isLabelName_iff.mp hname
  have hall : ∀ d ∈ c :: cs, isLabelPart d = true := by
    rw [List.forall_mem_cons]
    exact ⟨by rw [isLabelPart,hc]; rfl,hcs⟩
  have hend : isLabelPart '=' = false := by decide
  have htext : labelText p ++ rest =
      c :: cs ++ '=' :: '"' :: (p.2.toList.flatMap escapeChar ++ '"' :: rest) := by
    rw [labelText,hp]
    simp
  have hdrop : (labelText p ++ rest).dropWhile isLabelPart =
      '=' :: '"' :: (p.2.toList.flatMap escapeChar ++ '"' :: rest) := by
    rw [htext,List.dropWhile_append_of_pos hall,List.dropWhile_cons_of_neg (by simp [hend])]
  have htake : (labelText p ++ rest).takeWhile isLabelPart = p.1.toList := by
    rw [htext,List.takeWhile_append_of_pos hall,List.takeWhile_cons_of_neg (by simp [hend]),hp,
      List.append_nil]
  rw [htext,List.cons_append,matchLabel,if_pos hc,← List.cons_append,← htext,hdrop]
  change (matchQuoted (p.2.toList.flatMap escapeChar ++ '"' :: rest)).map
    (fun q => ((labelText p ++ rest).takeWhile isLabelPart,q.1,q.2)) = _
  rw [matchQuoted_escaped,htake]
  rfl

theorem findLabels_skip {fuel : ℕ} {c : Char} {cs : List Char} (h : isNameStart c = false) :
    findLabels (fuel + 1) (c :: cs) = findLabels fuel cs := by
  have hnone : matchLabel (c :: cs) = none := by
    rw [matchLabel,if_neg (by simp [h])]
  rw [findLabels,hnone]

theorem findLabels_labelText {fuel : ℕ} (hname : isLabelName p.1 = true) :
    findLabels (fuel + 1) (labelText p ++ rest) =
      (p.1.toList,p.2.toList.flatMap escapeChar) :: findLabels fuel rest := by
  obtain ⟨c,cs,hp,-,-⟩ := isLabelName_iff.mp hname
  have hcons : ∃ d ds, labelText p ++ rest = d :: ds := ⟨c,_,by rw [labelText,hp]; rfl⟩
  obtain ⟨d,ds,hcons⟩ := hcons
  have hmatch : matchLabel (labelText p ++ rest) =
      some (p.1.toList,p.2.toList.flatMap escapeChar,rest) := matchLabel_labelText hname
  rw [hcons] at hmatch ⊢
  rw [findLabels,hmatch]

/-- Every label is found, in the order in which they are written. -/
theorem findLabels_labelsText {fuel : ℕ} (hnames : ∀ p ∈ pairs, isLabelName p.1 = true)
    (hfuel : (labelsText pairs).length ≤ fuel) : findLabels fuel (labelsText pairs) =
      pairs.map fun p => (p.1.toList,p.2.toList.flatMap escapeChar) := by
  have hbrace : ∀ n, findLabels n ['\x7d'] = [] := by
    intro n
    cases n with
    | zero => rfl
    | succ n =>
      rw [findLabels_skip (by decide)]
      cases n <;> rfl
  induction pairs generalizing fuel with
  | nil => exact hbrace fuel
  | cons p pairs ih =>
    rw [List.forall_mem_cons] at hnames
    cases fuel with
    | zero =>
      rw [labelsText,List.length_append] at hfuel
      exact absurd hfuel (by simp)
    | succ fuel =>
      cases pairs with
      | nil =>
        have hone : labelsText [p] = labelText p ++ ['\x7d'] := by
          rw [labelsText,List.map_singleton,List.intercalate_singleton]
        rw [hone,findLabels_labelText hnames.1,hbrace]
        rfl
      | cons p' pairs =>
        have hmore : labelsText (p :: p' :: pairs) = labelText p ++ ',' :: labelsText (p' :: pairs) := by
          rw [labelsText,List.map_cons,List.map_cons,List.intercalate_cons_cons]
          simp [labelsText]
        rw [hmore,List.length_append,List.length_cons] at hfuel
        have hpos : 0 < (labelText p).length := by simp [labelText]
        rw [hmore,findLabels_labelText hnames.1]
        cases fuel with
        | zero => omega
        | succ fuel =>
          rw [findLabels_skip (by decide),ih hnames.2 (by omega)]
          rfl

theorem matchValue_plain (hne : value ≠ []) (hplain : ∀ c ∈ value, pyIsSpace c = false) :
    matchValue (' ' :: value) = some value := by
  have hdrop : value.dropWhile pyIsSpace = value := by
    cases value with
    | nil => rfl
    | cons c cs => rw [List.dropWhile_cons_of_neg (by simp [hplain c List.mem_cons_self])]
  have hnot : ∀ c ∈ value, (!pyIsSpace c) = true := fun c hc => by rw [hplain c hc]; rfl
  have hspace : pyIsSpace ' ' = true := by decide
  rw [matchValue,if_pos hspace]
  dsimp only
  rw [hdrop,List.takeWhile_eq_self_iff.mpr hnot,List.dropWhile_eq_nil_iff.mpr hnot,
    if_neg (by simpa using hne),if_pos List.isEmpty_nil]

/-- No brace of the value has a space behind it. -/
theorem matchLabels_plain (hplain : ∀ c ∈ value, pyIsSpace c = false) :
    matchLabels value = none := by
  induction value with
  | nil => rfl
  | cons c cs ih =>
    rw [List.forall_mem_cons] at hplain
    rw [matchLabels,ih hplain.2]
    have hnone : matchValue cs = none := by
      cases cs with
      | nil => rfl
      | cons d ds => rw [matchValue,if_neg (by simp [hplain.2 d List.mem_cons_self])]
    rw [hnone]
    exact ite_self _

/-- The last brace is the one that closes the labels. -/
theorem matchLabels_labelsText (hne : value ≠ []) (hplain : ∀ c ∈ value, pyIsSpace c = false) :
    matchLabels (labelsText pairs ++ ' ' :: value) = some (labelsText pairs,value) := by
  have hfront : ∀ front : List Char, matchLabels (front ++ '\x7d' :: ' ' :: value) =
      some (front ++ ['\x7d'],value) := by
    intro front
    induction front with
    | nil =>
      have hspace : matchLabels (' ' :: value) = none := by
        rw [matchLabels,matchLabels_plain hplain]
        exact if_neg (by decide)
      rw [List.nil_append,matchLabels,hspace,matchValue_plain hne hplain]
      rfl
    | cons c cs ih => rw [List.cons_append,matchLabels,ih,List.cons_append]
  rw [labelsText,List.append_assoc]
  exact hfront _

end Line

/-! ## Samples -/

/-- A sample of a metric: its name, its labels, and a text that is read as its value. -/
structure Sample (py : PyRuntime) where
  name : String
  pairs : List (String × String)
  valueText : String
  value : PyFloat
  named : isMetricName name = true
  labelled : ∀ p ∈ pairs, isLabelName p.1 = true
  nodup : (pairs.map Prod.fst).Nodup
  plain : valueText ≠ "" ∧ ∀ c ∈ valueText.toList, pyIsSpace c = false
  reads : py.floatOfStr valueText = some value

variable {py : PyRuntime}

/-- The line in which the sample is exported. -/
def Sample.line (s : Sample py) : String := s.name ++ labels s.pairs ++ " " ++ s.valueText

/-- The reader finds one sample in the line, with the name, the labels and the value of `s`. -/
def Sample.ReadBack (s : Sample py) : Prop :=
  ∃ row, parsePrometheusMetrics py s.line = [row] ∧ row.name = s.name ∧ row.value = s.value ∧
    ∀ key, row.get key = s.pairs.lookup key

theorem isMetricPart_of_start {c : Char} (h : isMetricStart c = true) : isMetricPart c = true := by
  simp only [isMetricStart,isMetricPart,isLabelPart,Bool.or_eq_true] at h ⊢
  tauto

theorem isMetricPart_range {c : Char} (h : isMetricPart c = true) : 48 ≤ c.toNat ∧ c.toNat ≤ 122 := by
  simp only [isMetricPart,isLabelPart,isNameStart,Bool.or_eq_true,Bool.and_eq_true,
    decide_eq_true_eq,beq_iff_eq,Char.le_def,UInt32.le_iff_toNat_le] at h
  rcases h with ((((⟨hlow,hhigh⟩ | ⟨hlow,hhigh⟩) | rfl) | ⟨hlow,hhigh⟩) | rfl)
  · exact ⟨le_trans (by decide) hlow,hhigh⟩
  · exact ⟨le_trans (by decide) hlow,le_trans hhigh (by decide)⟩
  · decide
  · exact ⟨hlow,le_trans hhigh (by decide)⟩
  · decide

theorem isSpace_metricPart {c : Char} (h : isMetricPart c = true) : pyIsSpace c = false := by
  have hrange := isMetricPart_range h
  simp only [pyIsSpace,Bool.or_eq_false_iff,Bool.and_eq_false_iff,decide_eq_false_iff_not,
    beq_eq_false_iff_ne]
  omega

/-- Every end of a line is white space. -/
theorem isLineBoundary_of_plain {c : Char} (h : pyIsSpace c = false) : isLineBoundary c = false := by
  simp only [pyIsSpace,isLineBoundary,Bool.or_eq_false_iff,Bool.and_eq_false_iff,
    decide_eq_false_iff_not,beq_eq_false_iff_ne] at h ⊢
  omega

namespace Sample

variable (s : Sample py)

theorem name_part : ∀ c ∈ s.name.toList, isMetricPart c = true := by
  obtain ⟨c,cs,hname,hc,hcs⟩ := isMetricName_iff.mp s.named
  rw [hname,List.forall_mem_cons]
  exact ⟨isMetricPart_of_start hc,hcs⟩

theorem line_toList : s.line.toList =
    s.name.toList ++ ((labels s.pairs).toList ++ ' ' :: s.valueText.toList) := by
  rw [line,String.toList_append,String.toList_append,String.toList_append]
  simp

theorem value_ne : s.valueText.toList ≠ [] := fun h =>
  s.plain.1 (String.toList_eq_nil_iff.mp h)

theorem strip_line : strip s.line = s.line := by
  obtain ⟨c,cs,hname,hc,-⟩ := isMetricName_iff.mp s.named
  obtain ⟨front,e,hvalue⟩ := (List.eq_nil_or_concat' _).resolve_left s.value_ne
  have he : e ∈ s.valueText.toList := by rw [hvalue]; simp
  refine strip_of_ends (isSpace_metricPart (isMetricPart_of_start hc)) (s.plain.2 e he) ?_ ?_
  · rw [line_toList,hname]
    rfl
  · have hline : s.line.toList =
        s.name.toList ++ (labels s.pairs).toList ++ ' ' :: front ++ [e] := by
      rw [line_toList,hvalue]
      simp
    rw [hline,List.getLast?_concat]

theorem matchMetric_line : matchMetric s.line.toList =
    some (s.name.toList,(labels s.pairs).toList,s.valueText.toList) := by
  obtain ⟨c,cs,hname,hc,-⟩ := isMetricName_iff.mp s.named
  have hhead : ∃ d ds, (labels s.pairs).toList ++ ' ' :: s.valueText.toList = d :: ds ∧
      isMetricPart d = false := by
    by_cases hp : s.pairs = []
    · rw [hp]
      exact ⟨' ',_,rfl,by decide⟩
    · rw [labels_toList hp]
      exact ⟨'\x7b',_,rfl,by decide⟩
  obtain ⟨d,ds,hrest,hd⟩ := hhead
  have htake : s.line.toList.takeWhile isMetricPart = s.name.toList := by
    rw [line_toList,List.takeWhile_append_of_pos s.name_part,hrest,
      List.takeWhile_cons_of_neg (by simp [hd]),List.append_nil]
  have hdrop : s.line.toList.dropWhile isMetricPart =
      (labels s.pairs).toList ++ ' ' :: s.valueText.toList := by
    rw [line_toList,List.dropWhile_append_of_pos s.name_part,hrest,
      List.dropWhile_cons_of_neg (by simp [hd])]
  have hcons : s.line.toList = c :: (cs ++ ((labels s.pairs).toList ++ ' ' :: s.valueText.toList)) := by
    rw [line_toList,hname]
    rfl
  unfold matchMetric
  rw [htake,hdrop,hcons]
  dsimp only
  rw [if_pos hc]
  by_cases hp : s.pairs = []
  · have hnone : (labels s.pairs).toList = [] := by rw [hp]; rfl
    rw [hnone,List.nil_append]
    change (matchValue (' ' :: s.valueText.toList)).map (fun value => (s.name.toList,[],value)) = _
    rw [matchValue_plain s.value_ne s.plain.2]
    rfl
  · rw [labels_toList hp,List.cons_append]
    change (matchLabels (labelsText s.pairs ++ ' ' :: s.valueText.toList)).map
      (fun q => (s.name.toList,'\x7b' :: q.1,q.2)) = _
    rw [matchLabels_labelsText s.value_ne s.plain.2]
    rfl

/-- The labels as they are read. -/
def readLabels : List (String × String) :=
  s.pairs.map fun p => (p.1,unescape (escapeLabel p.2))

theorem findLabels_line : ((findLabels (labels s.pairs).toList.length (labels s.pairs).toList).map
    fun p => (String.ofList p.1,unescape (String.ofList p.2))) = s.readLabels := by
  by_cases hp : s.pairs = []
  · rw [readLabels,hp]
    rfl
  · rw [labels_toList hp,List.length_cons,findLabels_skip (by decide),
      findLabels_labelsText s.labelled le_rfl,List.map_map,readLabels]
    apply List.map_congr_left
    intro p _
    rw [Function.comp_apply,← escapeLabel_toList,String.ofList_toList,String.ofList_toList]

theorem parse_line :
    parseLine py s.line = some ⟨s.name,familyName s.name,s.readLabels,s.value⟩ := by
  obtain ⟨c,cs,hname,hc,-⟩ := isMetricName_iff.mp s.named
  have hhead : s.line.toList.head? = some c := by
    rw [line_toList,hname]
    rfl
  have hempty : s.line ≠ "" := fun h => by
    rw [h] at hhead
    cases hhead
  have hcomment : s.line.toList.head? ≠ some '#' := fun h => by
    rw [hhead] at h
    rw [Option.some.inj h] at hc
    exact absurd hc (by decide)
  unfold parseLine
  dsimp only
  rw [s.strip_line,if_neg (by simp [hempty,hcomment]),s.matchMetric_line]
  simp only [Option.bind_eq_bind,Option.bind_some,String.ofList_toList]
  rw [s.reads,Option.bind_some,s.findLabels_line]

/-- A line whose labels break no line is read as one row. -/
theorem parse_unbroken (h : ∀ p ∈ s.pairs, Clean p.2) : parsePrometheusMetrics py s.line =
    [⟨s.name,familyName s.name,s.readLabels,s.value⟩] := by
  have hlabels : Unbroken (labels s.pairs) := unbroken_labels fun p hp => by
    obtain ⟨c,cs,hname,hc,hcs⟩ := isLabelName_iff.mp (s.labelled p hp)
    refine ⟨?_,h p hp⟩
    have hpart : ∀ d ∈ p.1.toList, isMetricPart d = true := by
      rw [hname,List.forall_mem_cons]
      exact ⟨isMetricPart_of_start (by rw [isMetricStart,hc]; rfl),
        fun d hd => by rw [isMetricPart,hcs d hd]; rfl⟩
    exact fun d hd => isLineBoundary_of_plain (isSpace_metricPart (hpart d hd))
  have hline : Unbroken s.line :=
    unbroken_append (unbroken_append (unbroken_append
      (fun c hc => isLineBoundary_of_plain (isSpace_metricPart (s.name_part c hc))) hlabels)
      (by decide)) fun c hc => isLineBoundary_of_plain (s.plain.2 c hc)
  have hne : s.line.toList ≠ [] := by
    rw [line_toList]
    simp
  rw [parsePrometheusMetrics,splitlines,splitChars_unbroken hline hne,List.map_singleton,
    String.ofList_toList,List.filterMap_cons_some s.parse_line,List.filterMap_nil]

theorem nodup_readLabels : (s.readLabels.map Prod.fst).Nodup := by
  have hkeys : s.readLabels.map Prod.fst = s.pairs.map Prod.fst := by
    rw [readLabels,List.map_map]
    rfl
  rw [hkeys]
  exact s.nodup

/-- A value survives the writer's escapes and the reader's. -/
theorem unescape_escapeLabel_iff {value : String} :
    unescape (escapeLabel value) = value ↔ ¬['\\','n'] <:+: value.toList := by
  rw [← String.toList_inj,unescape_escapeLabel]
  exact replaceAll_eq_self_iff (by decide)

theorem clean_of_readBack (back : s.ReadBack) :
    ∀ p ∈ s.pairs, Clean p.2 ∧ ¬['\\','n'] <:+: p.2.toList := by
  obtain ⟨row,hparse,-,-,hget⟩ := back
  have hfound : ∀ p ∈ s.pairs, row.get p.1 = some p.2 := fun p hp => by
    rw [hget]
    exact (lookup_iff_mem s.nodup).mpr hp
  have hclean : ∀ p ∈ s.pairs, Clean p.2 := fun p hp =>
    get_clean (parse_clean (by rw [hparse]; exact List.mem_singleton_self _)) (hfound p hp)
  intro p hp
  refine ⟨hclean p hp,unescape_escapeLabel_iff.mp ?_⟩
  rw [s.parse_unbroken hclean] at hparse
  have hrow := hfound p hp
  rw [← List.singleton_inj.mp hparse,MetricRow.get,lookup_reverse s.nodup_readLabels] at hrow
  have hread : (p.1,unescape (escapeLabel p.2)) ∈ s.readLabels :=
    List.mem_map.mpr ⟨p,hp,rfl⟩
  exact Option.some.inj (((lookup_iff_mem s.nodup_readLabels).mpr hread).symm.trans hrow)

/-- The line is read back iff no value breaks it, and none has a backslash in front of an `n`. -/
theorem readBack_iff :
    s.ReadBack ↔ ∀ p ∈ s.pairs, Clean p.2 ∧ ¬['\\','n'] <:+: p.2.toList := by
  refine ⟨s.clean_of_readBack,fun h => ?_⟩
  refine ⟨_,s.parse_unbroken fun p hp => (h p hp).1,rfl,rfl,fun key => ?_⟩
  have hread : s.readLabels = s.pairs := by
    rw [readLabels]
    conv_rhs => rw [← List.map_id s.pairs]
    apply List.map_congr_left
    intro p hp
    rw [unescape_escapeLabel_iff.mpr (h p hp).2]
    rfl
  rw [MetricRow.get,hread,lookup_reverse s.nodup]

end Sample

/-- An interpreter that reads one number. -/
def readsOne : PyRuntime :=
  { plainRuntime with floatOfStr := fun text => if text = "1" then some (.finite 1) else none }

/-- A path of Windows as the value of a label. -/
def windowsSample : Sample readsOne where
  name := "jobs"
  pairs := [("path","C:\\new")]
  valueText := "1"
  value := .finite 1
  named := by decide
  labelled := by decide
  nodup := by decide
  plain := ⟨by decide,fun c hc => by
    have hc : c = '1' := List.mem_singleton.mp hc
    rw [hc]
    rfl⟩
  reads := by decide

/-- The backslash and the `n` behind it are read as a line break. -/
theorem label_not_read_back : ¬windowsSample.ReadBack := by
  intro back
  exact absurd (windowsSample.clean_of_readBack back) (by decide)

end Metrics
end EntryAnalyse
