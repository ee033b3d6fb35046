import EntryAnalyse.JudgeVerdict
import EntryAnalyse.ParameterNames
import EntryAnalyse.Tags

/-! `_parse_is_entry` reads whether a function is an entry: from a member of a JSON object, from a
bare digit, or from a word with a digit behind it. -/
namespace EntryAnalyse
namespace EntryAnswers

open PyJson PyText Runner Patterns ParameterNames JudgeVerdict

/-! ## `_parse_is_entry` -/

def digitVerdict (c : Char) : Option Bool :=
  if c = '1' then some true else if c = '0' then some false else none

def quotedName : Text := ['"','i','s','_','e','n','t','r','y','"']

/-- `"is_entry"\s*:\s*([01])` at the start of a text. -/
def pairHere (cs : Text) : Option Bool :=
  if quotedName.isPrefixOf cs then
    match (cs.drop 10).dropWhile pyIsSpace with
    | ':' :: rest => (rest.dropWhile pyIsSpace).head?.bind digitVerdict
    | _ => none
  else none

/-- The group of the first match. -/
def firstPair : Text → Option Bool
  | [] => none
  | c :: cs => (pairHere (c :: cs)).or (firstPair cs)

/-- The text is a digit and nothing else. -/
def bare (cs : Text) : Option Bool :=
  if strip (String.ofList cs) = "1" then some true
  else if strip (String.ofList cs) = "0" then some false
  else none

/-- `.*[=:]\s*` and the digit at the start of a text. -/
def digitBehind (digit : Char) : Text → Bool
  | [] => false
  | c :: cs =>
    ((c == '=' || c == ':') && (cs.dropWhile pyIsSpace).head? == some digit) ||
      (c != '\n' && digitBehind digit cs)

def keywords : List String := ["is","entry","外部入口","是入口"]

variable (k : Letters)

/-- A keyword between two boundaries at the start of a text, with the digit behind it. -/
def keywordHere (digit : Char) (before : Option Char) (cs : Text) : Bool :=
  keywords.any fun w =>
    (matchHere k.toWordChars (.boundary :: (word w ++ [.boundary])) before cs).any
      (digitBehind digit)

/-- `re.search` of the keywords. -/
def keyword (digit : Char) : Option Char → Text → Bool
  | before,[] => keywordHere k digit before []
  | before,c :: cs => keywordHere k digit before (c :: cs) || keyword digit (some c) cs

/-- What the words around a digit say. -/
def wordsSay (cs : Text) : Option Bool :=
  if keyword k '1' none cs then some true
  else if keyword k '0' none cs then some false
  else none

def parseIsEntry (text : String) : Option Bool :=
  -- the think blocks are taken out as for a judge
  let cs := judgeText text
  match firstPair cs with
  | some v => some v
  | none =>
    match bare cs with
    | some v => some v
    | none => wordsSay k cs

/-! ## What a response states -/

/-- Think blocks, with blanks around them. -/
inductive Thoughts : Text → Prop
  | nil : Thoughts []
  | blank {c : Char} {cs : Text} (hc : pyIsSpace c = true) (h : Thoughts cs) : Thoughts (c :: cs)
  | block {inner cs : Text} (hinner : ¬"</think>".toList <:+: inner) (h : Thoughts cs) :
      Thoughts ("<think>".toList ++ (inner ++ ("</think>".toList ++ cs)))

/-- What stands behind the think blocks of a response, without the blanks around it. -/
structure Answer (text : String) (body : Text) : Prop where
  stripped : trim body = body
  notThought : ¬"<think>".toList <+: body
  split : ∃ thoughts blanks, Thoughts thoughts ∧ (∀ c ∈ blanks, pyIsSpace c = true) ∧
    text.toList = thoughts ++ (body ++ blanks)

def digitOf (v : Bool) : Char := if v then '1' else '0'

/-- A JSON object whose `is_entry` is the verdict. -/
def IsObject (loads : String → Option PyJson) (body : Text) (v : Bool) : Prop :=
  ∃ kvs, loads (String.ofList body) = some (.dict kvs) ∧
    PyDict.get kvs "is_entry" = some (.int (if v then 1 else 0))

/-- `is_entry: 1`, or with `=`. -/
def IsPair (body : Text) (v : Bool) : Prop :=
  ∃ a sep b, (∀ c ∈ a ++ b, pyIsSpace c = true) ∧ (sep = ':' ∨ sep = '=') ∧
    body = "is_entry".toList ++ (a ++ sep :: (b ++ [digitOf v]))

def IsBare (body : Text) (v : Bool) : Prop := body = [digitOf v]

/-- The response says the verdict somewhere: `is_entry` as a word of its own, quoted or not, with
the digit behind it. -/
def Mentions (body : Text) (v : Bool) : Prop :=
  ∃ front quote a sep b rest, (∀ c ∈ front.getLast?, k.isWord c = false) ∧
    (quote = [] ∨ quote = ['"']) ∧ (∀ c ∈ a ++ b, pyIsSpace c = true) ∧ (sep = ':' ∨ sep = '=') ∧
    (∀ c ∈ rest.head?, k.isWord c = false ∧ c ≠ '.') ∧
    body = front ++ ("is_entry".toList ++ (quote ++ (a ++ sep :: (b ++ digitOf v :: rest))))

variable (loads : String → Option PyJson)

/-- The value of `is_entry` that a response states. -/
def States (body : Text) (v : Bool) : Prop :=
  IsObject loads body v ∨ Mentions k body v ∨ IsBare body v

/-- The verdict of every accepted form is read, and never the opposite of the one that is stated,
unless both are. -/
structure ReadRight (text : String) : Prop where
  object : ∀ body v, Answer text body → IsObject loads body v → parseIsEntry k text = some v
  pair : ∀ body v, Answer text body → IsPair body v → parseIsEntry k text = some v
  bare : ∀ body v, Answer text body → IsBare body v → parseIsEntry k text = some v
  stated : ∀ body v, Answer text body → States k loads body v → ¬States k loads body (!v) →
    parseIsEntry k text ≠ some !v

/-- The first quoted pair in the text has the verdict or, without one, the digit that the text is
or, without that too, the words. -/
def Shows (cs : Text) (v : Bool) : Prop :=
  firstPair cs = some v ∨ firstPair cs = none ∧
    (bare cs = some v ∨ bare cs = none ∧ wordsSay k cs = some v)

/-- The responses that are read as they should be: not a pair without quotes, and neither in an
object nor where the verdict is said otherwise a pair before it, or words, that show another. -/
structure Readable (text : String) : Prop where
  object : ∀ body v, Answer text body → IsObject loads body v → Shows k (judgeText text) v
  pair : ∀ body v, Answer text body → ¬IsPair body v
  stated : ∀ body v, Answer text body → States k loads body v → ¬States k loads body (!v) →
    ¬Shows k (judgeText text) (!v)

/-! ## Think blocks -/

section Thoughts

theorem removeThink_drop (n : ℕ) (cs : Text) : removeThink n cs = removeThink 0 (cs.drop n) := by
  induction n generalizing cs with
  | zero => rfl
  | succ n ih =>
    cases cs with
    | nil => rfl
    | cons c cs => exact ih cs

theorem isTag_close : Tags.IsTag "</think>".toList := ⟨"/think".toList,rfl,by decide,by decide⟩

theorem thinkLength_block {inner : Text} (h : ¬"</think>".toList <:+: inner) (cs : Text) :
    thinkLength ("<think>".toList ++ (inner ++ ("</think>".toList ++ cs))) =
      some (7 + inner.length + 8) := by
  have hopen : "<think>".toList.isPrefixOf
      ("<think>".toList ++ (inner ++ ("</think>".toList ++ cs))) = true :=
    List.isPrefixOf_iff_prefix.mpr (List.prefix_append _ _)
  have hdrop : ("<think>".toList ++ (inner ++ ("</think>".toList ++ cs))).drop 7 =
      inner ++ ("</think>".toList ++ cs) := rfl
  rw [thinkLength,if_pos hopen,hdrop,Tags.splitFirst_at isTag_close h]
  rfl

/-- The blocks go, and the blanks between them stay. -/
theorem removeThink_thoughts {thoughts : Text} (h : Thoughts thoughts) (rest : Text) :
    ∃ blanks, (∀ c ∈ blanks, pyIsSpace c = true) ∧
      removeThink 0 (thoughts ++ rest) = blanks ++ removeThink 0 rest := by
  induction h with
  | nil => exact ⟨[],by simp,rfl⟩
  | @blank c cs hc h ih =>
    obtain ⟨blanks,hblanks,heq⟩ := ih
    refine ⟨c :: blanks,List.forall_mem_cons.mpr ⟨hc,hblanks⟩,?_⟩
    have hangle : ∀ x ∈ [c], x ≠ '<' := by
      intro x hx
      rw [List.mem_singleton.mp hx]
      rintro rfl
      exact absurd hc (by decide)
    rw [List.cons_append,← List.singleton_append,removeThink_append _ hangle,heq]
    rfl
  | @block inner cs hinner h ih =>
    obtain ⟨blanks,hblanks,heq⟩ := ih
    refine ⟨blanks,hblanks,?_⟩
    have hassoc : "<think>".toList ++ (inner ++ ("</think>".toList ++ cs)) ++ rest =
        "<think>".toList ++ (inner ++ ("</think>".toList ++ (cs ++ rest))) := by
      simp only [List.append_assoc]
    have hlength := thinkLength_block hinner (cs ++ rest)
    have hcons : "<think>".toList ++ (inner ++ ("</think>".toList ++ (cs ++ rest))) =
        '<' :: ("think>".toList ++ (inner ++ ("</think>".toList ++ (cs ++ rest)))) := rfl
    have htail : ("think>".toList ++ (inner ++ ("</think>".toList ++ (cs ++ rest)))).drop
        (7 + inner.length + 8 - 1) = cs ++ rest := by
      have hcount : 7 + inner.length + 8 - 1 =
          ("think>".toList ++ (inner ++ "</think>".toList)).length := by
        simp only [List.length_append]
        show 7 + inner.length + 8 - 1 = 6 + (inner.length + 8)
        omega
      rw [hcount,← List.append_assoc inner,← List.append_assoc]
      exact List.drop_left
    rw [hcons] at hlength
    rw [hassoc,hcons,removeThink,hlength]
    dsimp only
    rw [removeThink_drop,htail,heq]

theorem trim_blanks {a body b : Text} (ha : ∀ c ∈ a, pyIsSpace c = true)
    (hb : ∀ c ∈ b, pyIsSpace c = true) : trim (a ++ (body ++ b)) = trim body := by
  induction a with
  | nil =>
    rw [List.nil_append]
    induction b using List.reverseRecOn with
    | nil => rw [List.append_nil]
    | append_singleton b c ih =>
      rw [← List.append_assoc,trim_concat_space (hb c (by simp))]
      exact ih fun d hd => hb d (List.mem_append_left _ hd)
  | cons c a ih =>
    rw [List.cons_append,trim_space_cons (ha c List.mem_cons_self)]
    exact ih fun d hd => ha d (List.mem_cons_of_mem c hd)

/-- An answer without angle brackets is what is left of the text. -/
theorem judgeText_of_answer {text : String} {body : Text} (h : Answer text body)
    (hangle : '<' ∉ body) (hne : body ≠ []) : judgeText text = body := by
  obtain ⟨thoughts,blanks,hthoughts,hblanks,hsplit⟩ := h.split
  obtain ⟨front,hfront,heq⟩ := removeThink_thoughts hthoughts (body ++ blanks)
  have hrest : ∀ x ∈ body ++ blanks, x ≠ '<' := by
    intro x hx
    rcases List.mem_append.mp hx with hx | hx
    · exact fun he => hangle (he ▸ hx)
    · rintro rfl
      exact absurd (hblanks _ hx) (by decide)
  have hclean : removeThink 0 text.toList = front ++ (body ++ blanks) := by
    have hself := @removeThink_append (body ++ blanks) [] hrest
    rw [List.append_nil] at hself
    rw [hsplit,heq,hself]
    exact congrArg (front ++ ·) (List.append_nil _)
  rw [judgeText,toList_strip,String.toList_ofList,hclean,trim_blanks hfront hblanks,h.stripped,
    if_neg]
  rw [List.isEmpty_iff]
  exact hne

end Thoughts

/-! ## What is read -/

section Read

variable {k} {text : String} {body : Text} {v : Bool}

theorem parseIsEntry_eq_some : parseIsEntry k text = some v ↔ Shows k (judgeText text) v := by
  unfold parseIsEntry Shows
  dsimp only
  cases firstPair (judgeText text) with
  | some w => simp
  | none => cases bare (judgeText text) with
    | some w => simp
    | none => simp

theorem firstPair_eq_none (h : '"' ∉ body) : firstPair body = none := by
  induction body with
  | nil => rfl
  | cons c cs ih =>
    rw [List.mem_cons,not_or] at h
    have hpre : quotedName.isPrefixOf (c :: cs) = false := by
      have hfirst : ('"' == c) = false := beq_eq_false_iff_ne.mpr h.1
      rw [quotedName,List.isPrefixOf,hfirst,Bool.false_and]
    rw [firstPair,ih h.2,pairHere,hpre,if_neg Bool.false_ne_true,Option.none_or]

theorem parse_bare (h : Answer text body) (hb : IsBare body v) : parseIsEntry k text = some v := by
  obtain rfl : body = [digitOf v] := hb
  have htext : judgeText text = [digitOf v] := by
    refine judgeText_of_answer h ?_ (List.cons_ne_nil _ _)
    cases v <;> decide
  have hpair : firstPair [digitOf v] = none := firstPair_eq_none (by cases v <;> decide)
  have hbare : bare [digitOf v] = some v := by
    cases v <;> rfl
  rw [parseIsEntry_eq_some,htext]
  exact Or.inr ⟨hpair,Or.inl hbare⟩

/-- Blanks are compared as they stand. -/
theorem foldCase_space {c : Char} (h : pyIsSpace c = true) : foldCase c = c := by
  simp only [pyIsSpace,Bool.or_eq_true,Bool.and_eq_true,decide_eq_true_eq,beq_iff_eq] at h
  have hval : c.val.toNat = c.toNat := rfl
  unfold foldCase Char.toLower
  rw [if_neg (by omega),if_neg (by omega),if_neg (by omega),dif_neg]
  rintro ⟨hlow,hhigh⟩
  have hlow' : 65 ≤ c.val.toNat := hlow
  have hhigh' : c.val.toNat ≤ 90 := hhigh
  omega

/-- No keyword begins with the character. -/
def isQuiet (c : Char) : Bool := keywords.all fun w => !starts (word w) c

theorem isQuiet_of_fixed {c : Char} (h : foldCase c = c) (hc : c ∉ ['i','e','外','是']) :
    isQuiet c = true := by
  have heq : isQuiet c = (!(foldCase c == 'i') && (!(foldCase c == 'e') && (!(foldCase c == '外') &&
      (!(foldCase c == '是') && true)))) := rfl
  rw [heq,h]
  simp only [List.mem_cons,List.not_mem_nil,or_false,not_or] at hc
  simp [hc]

theorem solid_keyword : ∀ w ∈ keywords, solid (.boundary :: (word w ++ [.boundary])) = true := by
  decide

theorem starts_keyword {w : String} (hw : w ∈ keywords) (c : Char) :
    starts (.boundary :: (word w ++ [.boundary])) c = starts (word w) c := by
  simp only [keywords,List.mem_cons,List.not_mem_nil,or_false] at hw
  rcases hw with rfl | rfl | rfl | rfl <;> rfl

theorem matchHere_quiet {c : Char} {w : String} (hw : w ∈ keywords)
    (hstarts : starts (word w) c = false) (before : Option Char) (cs : Text) :
    matchHere k.toWordChars (.boundary :: (word w ++ [.boundary])) before (c :: cs) = none :=
  matchHere_of_not_starts (solid_keyword w hw) (starts_keyword hw c ▸ hstarts)

theorem keywordHere_quiet {c : Char} (h : isQuiet c = true) (digit : Char)
    (before : Option Char) (cs : Text) : keywordHere k digit before (c :: cs) = false := by
  rw [keywordHere,List.any_eq_false]
  intro w hw
  have hstarts := List.all_eq_true.mp h w hw
  rw [Bool.not_eq_true'] at hstarts
  rw [matchHere_quiet hw hstarts]
  exact Bool.false_ne_true

theorem keyword_quiet {cs : Text} (h : ∀ c ∈ cs, isQuiet c = true) (digit : Char)
    (before : Option Char) : keyword k digit before cs = false := by
  induction cs generalizing before with
  | nil =>
    rw [keyword,keywordHere,List.any_eq_false]
    intro w hw
    rw [matchHere_nil (solid_keyword w hw)]
    exact Bool.false_ne_true
  | cons c cs ih =>
    obtain ⟨hc,hcs⟩ := List.forall_mem_cons.mp h
    rw [keyword,keywordHere_quiet hc,ih hcs,Bool.or_false]

theorem isWord_underscore : k.isWord '_' = true := by
  rw [k.ascii '_' (by decide)]
  decide

/-- The keyword `is` does not end in front of `_`. -/
theorem keywordHere_is (digit : Char) (cs : Text) :
    keywordHere k digit none ('i' :: 's' :: '_' :: cs) = false := by
  have his : matchHere k.toWordChars (.boundary :: (word "is" ++ [.boundary])) none
      ('i' :: 's' :: '_' :: cs) = none := by
    have hs : k.isWord 's' = true := k.letter 's' (by decide)
    have hword : word "is" = [.oneOf fun c => foldCase c == 'i',.oneOf fun c => foldCase c == 's'] :=
      rfl
    have hi : (foldCase 'i' == 'i') = true := by decide
    have hfold : (foldCase 's' == 's') = true := by decide
    simp [hword,matchHere,atBoundary,hi,hfold,hs,isWord_underscore]
  rw [keywordHere,List.any_eq_false]
  intro w hw
  by_cases heq : w = "is"
  · rw [heq,his]
    exact Bool.false_ne_true
  · have hstarts : starts (word w) 'i' = false := by
      simp only [keywords,List.mem_cons,List.not_mem_nil,or_false] at hw
      rcases hw with rfl | rfl | rfl | rfl
      · exact absurd rfl heq
      · rfl
      · rfl
      · rfl
    rw [matchHere_quiet hw hstarts]
    exact Bool.false_ne_true

/-- No keyword begins behind `_`. -/
theorem keywordHere_entry (digit : Char) (cs : Text) :
    keywordHere k digit (some '_') ('e' :: cs) = false := by
  have he : k.isWord 'e' = true := k.letter 'e' (by decide)
  rw [keywordHere,List.any_eq_false]
  intro w hw
  have hnone : matchHere k.toWordChars (.boundary :: (word w ++ [.boundary])) (some '_')
      ('e' :: cs) = none := by
    simp [matchHere,atBoundary,isWord_underscore,he]
  rw [hnone]
  exact Bool.false_ne_true

/-- A pair without quotes is not read. -/
theorem parse_pair (h : Answer text body) (hp : IsPair body v) : parseIsEntry k text = none := by
  obtain ⟨a,sep,b,hblank,hsep,rfl⟩ := hp
  obtain ⟨ha,hb⟩ := List.forall_mem_append.mp hblank
  have hquiet : ∀ c ∈ "ntry".toList ++ (a ++ sep :: (b ++ [digitOf v])), isQuiet c = true := by
    have hspace : ∀ c, pyIsSpace c = true → isQuiet c = true := by
      intro c hc
      refine isQuiet_of_fixed (foldCase_space hc) ?_
      intro hmem
      revert hc
      simp only [List.mem_cons,List.not_mem_nil,or_false] at hmem
      rcases hmem with rfl | rfl | rfl | rfl <;> decide
    have hmid : isQuiet sep = true := by
      rcases hsep with rfl | rfl <;> decide
    have hdigit : isQuiet (digitOf v) = true := by
      cases v <;> decide
    intro c hc
    simp only [List.mem_append,List.mem_cons,List.not_mem_nil,or_false] at hc
    rcases hc with hc | hc | rfl | hc | rfl
    · revert c
      decide
    · exact hspace c (ha c hc)
    · exact hmid
    · exact hspace c (hb c hc)
    · exact hdigit
  have hmem (x : Char) (hx : pyIsSpace x = false) (hn : x ∉ "is_entry:=01".toList) :
      x ∉ "is_entry".toList ++ (a ++ sep :: (b ++ [digitOf v])) := by
    have hname : ∀ c ∈ "is_entry".toList, c ∈ "is_entry:=01".toList := by decide
    intro hmem
    simp only [List.mem_append,List.mem_cons,List.not_mem_nil,or_false] at hmem
    rcases hmem with hmem | hmem | rfl | hmem | rfl
    · exact hn (hname x hmem)
    · rw [ha x hmem] at hx
      cases hx
    · rcases hsep with rfl | rfl
      · exact hn (by decide)
      · exact hn (by decide)
    · rw [hb x hmem] at hx
      cases hx
    · cases v
      · exact hn (by decide)
      · exact hn (by decide)
  have htext := judgeText_of_answer h (hmem '<' (by decide) (by decide)) (List.cons_ne_nil _ _)
  have hwords (digit : Char) : keyword k digit none
      ("is_entry".toList ++ (a ++ sep :: (b ++ [digitOf v]))) = false := by
    have hs : isQuiet 's' = true := by decide
    have hunder : isQuiet '_' = true := by decide
    show keyword k digit none ('i' :: 's' :: '_' :: 'e' :: ("ntry".toList ++ _)) = false
    rw [keyword,keywordHere_is,keyword,keywordHere_quiet hs,keyword,keywordHere_quiet hunder,
      keyword,keywordHere_entry,keyword_quiet hquiet]
    rfl
  have hbare : bare ("is_entry".toList ++ (a ++ sep :: (b ++ [digitOf v]))) = none := by
    have hne (digit : Char) (hd : digit ≠ 'i') :
        strip (String.ofList ("is_entry".toList ++ (a ++ sep :: (b ++ [digitOf v])))) ≠
          String.ofList [digit] := by
      intro heq
      have hlist := congrArg String.toList heq
      rw [toList_strip,String.toList_ofList,h.stripped] at hlist
      have hhead : some 'i' = some digit := congrArg List.head? (hlist.trans String.toList_ofList)
      exact hd (Option.some.inj hhead).symm
    rw [bare,if_neg (hne '1' (by decide)),if_neg (hne '0' (by decide))]
  unfold parseIsEntry
  dsimp only
  rw [htext,firstPair_eq_none (hmem '"' (by decide) (by decide)),hbare,wordsSay,hwords,hwords]
  rfl

end Read

/-- The responses that are read as they should be. -/
theorem readRight_iff (k : Letters) (loads : String → Option PyJson) (text : String) :
    ReadRight k loads text ↔ Readable k loads text := by
  constructor
  · intro w
    refine ⟨fun body v h ho => parseIsEntry_eq_some.mp (w.object body v h ho),
      fun body v h hp => ?_,fun body v h hs hno => ?_⟩
    · have hread := w.pair body v h hp
      rw [parse_pair h hp] at hread
      cases hread
    · exact fun hshows => w.stated body v h hs hno (parseIsEntry_eq_some.mpr hshows)
  · intro w
    refine ⟨fun body v h ho => parseIsEntry_eq_some.mpr (w.object body v h ho),
      fun body v h hp => absurd hp (w.pair body v h),fun body v h hb => parse_bare h hb,
      fun body v h hs hno hread => w.stated body v h hs hno (parseIsEntry_eq_some.mp hread)⟩

end EntryAnswers
end EntryAnalyse
