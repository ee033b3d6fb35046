import EntryAnalyse.AgentResult
import EntryAnalyse.PyText

/-! The name of a module in the sentence that a task is given: how it is written there, and how it
is read. -/
namespace EntryAnalyse
namespace ModulePrompts

open PyJson PyText Runner

/-! ## The sentences -/

def mentionsAny (keywords : List String) (name : String) : Bool :=
  keywords.any fun kw => containsText name kw

/-- `generate_prompt_from_module`. -/
def generatePromptFromModule (moduleName : String) : String :=
  let nameLower := lower moduleName
  let subject :=
    if mentionsAny ["ipsec","vpn","ssl","tls"] nameLower then "IPSec/VPN 相关模块"
    else if mentionsAny ["firewall","fw","acl","filter"] nameLower then "防火墙/过滤模块"
    else if mentionsAny ["crypto","cipher","hash","hmac"] nameLower then "加密/哈希模块"
    else if mentionsAny ["socket","tcp","udp","net"] nameLower then "网络通信模块"
    else if mentionsAny ["auth","login","passwd","session"] nameLower then "认证/会话模块"
    else "模块 \x60" ++ moduleName ++ "\x60"
  "分析" ++ subject ++ "的所有外部入口点，重点关注：导出函数、系统调用、IPC接口、网络接口及权限边界。"

/-- The sentence of the chained runner. -/
def chainedPrompt (module : String) : String := "分析 " ++ module ++ " 模块的外部入口"

/-! ## The reader -/

/-- The characters of an identifier, its letters in any case. -/
def isId (c : Char) : Bool :=
  ('a' ≤ foldCase c && foldCase c ≤ 'z') || ('0' ≤ c && c ≤ '9') || c == '_' || c == '.' ||
    c == '/' || c == '-'

/-- What is left behind one of the words, in any case. -/
def dropWord (words : List String) (text : List Char) : Option (List Char) :=
  words.findSome? fun w => dropLiteral w.toList text

/-- One of the expressions: the words in front of the identifier, whether there must be a space
between, and what must follow. -/
structure Pattern where
  front : List String
  spaced : Bool
  tail : List Char → Bool

def analyze : List String := ["分析","analyze"]

def module : List String := ["模块","module"]

/-- `\s*(?:模块|module)`. -/
def moduleFollows (text : List Char) : Bool := (dropWord module (text.dropWhile pyIsSpace)).isSome

/-- `\s*(?:的|$)`. -/
def ofFollows (text : List Char) : Bool :=
  let rest := text.dropWhile pyIsSpace
  rest.isEmpty || rest.head? == some '的'

/-- `\s*(?:的外部|的入口)`. -/
def entryFollows (text : List Char) : Bool :=
  (dropWord ["的外部","的入口"] (text.dropWhile pyIsSpace)).isSome

def patterns : List Pattern :=
  [⟨analyze,false,moduleFollows⟩,⟨module,false,ofFollows⟩,⟨analyze,false,entryFollows⟩,
    ⟨analyze,true,fun _ => true⟩]

/-- The longest beginning, of at most `n` characters, behind which the tail follows. -/
def longest (tail : List Char → Bool) : ℕ → List Char → Option (List Char)
  | 0,_ => none
  | n + 1,text =>
    if tail (text.drop (n + 1)) then some (text.take (n + 1)) else longest tail n text

/-- The identifier of a match at the start of a text. -/
def matchAt (p : Pattern) (text : List Char) : Option (List Char) := do
  let rest ← dropWord p.front text
  let body := rest.dropWhile pyIsSpace
  if p.spaced && !rest.head?.any pyIsSpace then none
  else longest p.tail (body.takeWhile isId).length body

/-- The identifier of the first match. -/
def search (p : Pattern) : List Char → Option (List Char)
  | [] => none
  | c :: cs => (matchAt p (c :: cs)).orElse fun _ => search p cs

/-- `_EXCLUDE`. -/
def excluded : List String :=
  ["的","所有","全部","外部","入口","模块","分析","进行","完成","data","flow","analysis","the",
    "input","external","entries","entry","module","analyze"]

def isExcluded (candidate : List Char) : Bool :=
  excluded.contains (lower (String.ofList candidate))

/-- `parse_module_prompt`. -/
def parseModulePrompt (prompt : String) : String :=
  String.ofList ((patterns.findSome? fun p =>
    (search p prompt.toList).filter fun candidate => !isExcluded candidate).getD [])

example : parseModulePrompt "分析libipsec模块的外部入口" = "libipsec" := by decide +kernel

/-! ## What is read -/

/-- What may stand in front of an identifier: a space, or the last letter of a word. -/
def isFront (c : Char) : Bool := pyIsSpace c || ['析','块','e'].contains (foldCase c)

section Read

variable {p : Pattern} {text rest g w : List Char} {m : String}

theorem dropLiteral_split {literal : List Char} (h : dropLiteral literal text = some rest) :
    ∃ w, text = w ++ rest ∧ w.map foldCase = literal := by
  induction literal generalizing text with
  | nil =>
    cases h
    exact ⟨[],rfl,rfl⟩
  | cons l literal ih =>
    cases text with
    | nil => cases h
    | cons c text =>
      rw [dropLiteral] at h
      split at h
      · rename_i hc
        obtain ⟨w,rfl,hw⟩ := ih h
        exact ⟨c :: w,rfl,by rw [List.map_cons,hc,hw]⟩
      · cases h

/-- The words of the patterns end in one of three letters. -/
theorem dropWord_split {words : List String}
    (hwords : ∀ w ∈ words, w.toList.getLast?.any ['析','块','e'].contains = true)
    (h : dropWord words text = some rest) :
    ∃ x c, text = x ++ c :: rest ∧ isFront c = true := by
  obtain ⟨word,hmem,hword⟩ := List.exists_of_findSome?_eq_some h
  obtain ⟨w,rfl,hw⟩ := dropLiteral_split hword
  have hlast := hwords word hmem
  rw [← hw,List.getLast?_map] at hlast
  obtain ⟨x,c,hx⟩ : ∃ x c, w = x ++ [c] := by
    rcases List.eq_nil_or_concat' w with rfl | ⟨x,c,hx⟩
    · cases hlast
    · exact ⟨x,c,hx⟩
  rw [hx,List.getLast?_concat] at hlast
  refine ⟨x,c,by rw [hx]; simp,?_⟩
  have hc : ['析','块','e'].contains (foldCase c) = true := hlast
  rw [isFront,hc,Bool.or_true]

theorem longest_some {tail : List Char → Bool} {n : ℕ} (h : longest tail n text = some g) :
    ∃ k, 0 < k ∧ k ≤ n ∧ g = text.take k := by
  induction n with
  | zero => cases h
  | succ n ih =>
    rw [longest] at h
    split at h
    · cases h
      exact ⟨n + 1,Nat.succ_pos n,le_rfl,rfl⟩
    · obtain ⟨k,hpos,hle,hg⟩ := ih h
      exact ⟨k,hpos,Nat.le_succ_of_le hle,hg⟩

/-- A text that is an identifier, behind something that may stand in front of it. -/
def Found (text g : List Char) : Prop :=
  g ≠ [] ∧ (∀ c ∈ g, isId c = true) ∧ ∃ x c y, text = x ++ c :: (g ++ y) ∧ isFront c = true

theorem front_words : ∀ w ∈ analyze ++ module,
    w.toList.getLast?.any ['析','块','e'].contains = true := by
  decide

theorem patterns_front (hp : p ∈ patterns) : ∀ w ∈ p.front, w ∈ analyze ++ module := by
  have hfront : p.front = analyze ∨ p.front = module := by
    simp only [patterns,List.mem_cons,List.not_mem_nil,or_false] at hp
    rcases hp with rfl | rfl | rfl | rfl
    · exact Or.inl rfl
    · exact Or.inr rfl
    · exact Or.inl rfl
    · exact Or.inl rfl
  intro w hw
  rcases hfront with h | h
  · exact List.mem_append_left _ (h ▸ hw)
  · exact List.mem_append_right _ (h ▸ hw)

/-- Spaces behind something that may stand in front leave something that may. -/
theorem front_spaces {x : List Char} {c : Char} (hc : isFront c = true) (rest : List Char) :
    ∃ x' c', x ++ c :: rest = x' ++ c' :: rest.dropWhile pyIsSpace ∧ isFront c' = true := by
  induction rest generalizing x c with
  | nil => exact ⟨x,c,rfl,hc⟩
  | cons d rest ih =>
    by_cases hd : pyIsSpace d = true
    · rw [List.dropWhile_cons_of_pos hd]
      obtain ⟨x',c',heq,hc'⟩ := ih (x := x ++ [c]) (by rw [isFront,hd,Bool.true_or])
      exact ⟨x',c',by rw [← heq]; simp,hc'⟩
    · rw [List.dropWhile_cons_of_neg hd]
      exact ⟨x,c,rfl,hc⟩

theorem matchAt_found (hp : p ∈ patterns) (h : matchAt p text = some g) : Found text g := by
  obtain ⟨rest,hrest,h⟩ := Option.bind_eq_some_iff.mp h
  dsimp only at h
  split at h
  · cases h
  · obtain ⟨k,hpos,hle,rfl⟩ := longest_some h
    obtain ⟨x,c,rfl,hc⟩ := dropWord_split (fun w hw => front_words w (patterns_front hp w hw)) hrest
    obtain ⟨x',c',heq,hc'⟩ := front_spaces (x := x) hc rest
    have htake : (rest.dropWhile pyIsSpace).take k =
        ((rest.dropWhile pyIsSpace).takeWhile isId).take k := by
      conv_lhs => rw [← List.takeWhile_append_dropWhile (p := isId) (l := rest.dropWhile pyIsSpace)]
      exact List.take_append_of_le_length hle
    refine ⟨?_,?_,x',c',(rest.dropWhile pyIsSpace).drop k,?_,hc'⟩
    · rw [htake]
      intro hnil
      have hlen := congrArg List.length hnil
      rw [List.length_take,List.length_nil] at hlen
      omega
    · rw [htake]
      exact fun d hd => List.mem_takeWhile_imp (List.mem_of_mem_take hd)
    · rw [List.take_append_drop,heq]

theorem search_found (hp : p ∈ patterns) (h : search p text = some g) : Found text g := by
  induction text with
  | nil => cases h
  | cons c cs ih =>
    rw [search] at h
    cases hm : matchAt p (c :: cs) with
    | some g' =>
      rw [hm] at h
      cases h
      exact matchAt_found hp hm
    | none =>
      rw [hm] at h
      obtain ⟨hne,hid,x,d,y,rfl,hd⟩ := ih h
      exact ⟨hne,hid,c :: x,d,y,rfl,hd⟩

/-- What is read from a sentence is empty, or found in it. -/
theorem parse_found (m : String) :
    parseModulePrompt m = "" ∨ Found m.toList (parseModulePrompt m).toList ∧
      isExcluded (parseModulePrompt m).toList = false := by
  unfold parseModulePrompt
  cases hf : patterns.findSome? fun p =>
      (search p m.toList).filter fun candidate => !isExcluded candidate with
  | none => exact Or.inl rfl
  | some g =>
    right
    obtain ⟨p,hp,h⟩ := List.exists_of_findSome?_eq_some hf
    obtain ⟨hsearch,hkeep⟩ := Option.filter_eq_some_iff.mp h
    rw [Option.getD_some,String.toList_ofList]
    exact ⟨search_found hp hsearch,by simpa using hkeep⟩

/-! ## The sentence of a module -/

/-- An identifier between two characters that are none is not found where nothing else in the text
is behind something that may stand in front of it. -/
theorem not_found_between {front back : List Char} {q q' : Char}
    (hfront : ∀ c ∈ front ++ [q], isId c = false) (hq : isFront q = false) (hq' : isId q' = false)
    (hback : ∀ x c d y, q' :: back = x ++ c :: d :: y → isId d = true → isFront c = false)
    (g : List Char) : ¬Found (front ++ [q] ++ (g ++ q' :: back)) g := by
  rintro ⟨hne,hid,x,c,y,heq,hc⟩
  have hassoc : x ++ c :: (g ++ y) = (x ++ [c]) ++ (g ++ y) := by simp
  rw [hassoc] at heq
  have hcq : x ++ [c] ≠ front ++ [q] := by
    intro h
    rw [(List.append_singleton_inj.mp h).2,hq] at hc
    cases hc
  rcases List.append_eq_append_iff.mp heq with ⟨a,hx,ha⟩ | ⟨a,hx,ha⟩
  · rcases List.append_eq_append_iff.mp ha with ⟨b,rfl,hb⟩ | ⟨b,hg,hb⟩
    · -- the occurrence lies behind the identifier
      rcases List.eq_nil_or_concat' b with rfl | ⟨b',e,rfl⟩
      · obtain ⟨d,g',rfl⟩ := List.exists_cons_of_ne_nil hne
        rw [(List.cons.inj hb).1,hid d List.mem_cons_self] at hq'
        cases hq'
      · obtain ⟨d,g',rfl⟩ := List.exists_cons_of_ne_nil hne
        have hce : c = e := by
          have hlast := congrArg List.getLast? hx
          rw [← List.append_assoc,← List.append_assoc,List.getLast?_concat,
            List.getLast?_concat] at hlast
          exact Option.some.inj hlast
        have hsplit : q' :: back = b' ++ e :: d :: (g' ++ y) := by
          rw [hb]
          simp
        rw [hce,hback b' e d _ hsplit (hid d List.mem_cons_self)] at hc
        cases hc
    · -- it begins in the identifier, and ends behind it
      have hane : a ≠ [] := by
        rintro rfl
        rw [List.append_nil] at hx
        exact hcq hx
      have hlen : b.length < g.length := by
        rw [hg,List.length_append]
        have := List.length_pos_iff.mpr hane
        omega
      rcases List.append_eq_append_iff.mp hb with ⟨b',hb',-⟩ | ⟨b',hb',hrest⟩
      · rw [hb',List.length_append] at hlen
        omega
      · have hmem : q' ∈ g := by
          rw [hb']
          cases b' with
          | nil =>
            rw [hb'] at hlen
            simp at hlen
          | cons e b' =>
            rw [(List.cons.inj hrest).1]
            simp
        rw [hid q' hmem] at hq'
        cases hq'
  · -- it begins in the front
    cases a with
    | nil =>
      rw [List.append_nil] at hx
      exact hcq hx.symm
    | cons e a =>
      obtain ⟨d,g',rfl⟩ := List.exists_cons_of_ne_nil hne
      have hde : d = e := (List.cons.inj ha).1
      have hmem : d ∈ front ++ [q] := by
        rw [hx,hde]
        simp
      have hfd := hfront d hmem
      rw [hid d List.mem_cons_self] at hfd
      cases hfd

/-- Nothing that may stand in front of an identifier does. -/
def apart : List Char → Bool
  | c :: d :: cs => (!isId d || !isFront c) && apart (d :: cs)
  | _ => true

theorem apart_split {x y : List Char} {c d : Char} (h : apart (x ++ c :: d :: y) = true)
    (hd : isId d = true) : isFront c = false := by
  induction x with
  | nil =>
    rw [List.nil_append,apart,Bool.and_eq_true] at h
    simpa [hd] using h.1
  | cons e x ih =>
    cases x with
    | nil =>
      rw [List.singleton_append,apart,Bool.and_eq_true] at h
      exact ih h.2
    | cons e' x =>
      rw [List.cons_append,List.cons_append,apart,Bool.and_eq_true] at h
      exact ih h.2

/-- The end of the generated sentence, behind its subject. -/
def generatedEnd : String :=
  "的所有外部入口点，重点关注：导出函数、系统调用、IPC接口、网络接口及权限边界。"

theorem toList_generatedEnd : generatedEnd.toList = ['的','所','有','外','部','入','口','点','，','重','点','关',
    '注','：','导','出','函','数','、','系','统','调','用','、','I','P','C','接','口','、','网','络','接','口','及','权','限',
    '边','界','。'] :=
  String.toList_ofList

/-- The sentence of a subject, from which nothing is read where it is a phrase. -/
def generatedPrompt (subject : String) : String := "分析" ++ subject ++ generatedEnd

/-- What is generated for a name: its characters stand between two backticks. -/
theorem toList_quoted (m : String) : (generatedPrompt ("模块 \x60" ++ m ++ "\x60")).toList =
    "分析模块 ".toList ++ ['\x60'] ++ (m.toList ++ '\x60' :: generatedEnd.toList) := by
  rw [generatedPrompt,String.toList_append,String.toList_append,String.toList_append,
    String.toList_append,List.append_assoc,List.append_assoc,List.append_assoc]
  exact (List.append_assoc ['分','析'] "模块 \x60".toList _).symm

/-- Nothing is read from the sentence of a phrase, nor from that of a name that is empty or a
single word. -/
theorem parse_subjects : (∀ subject ∈ ["IPSec/VPN 相关模块","防火墙/过滤模块","加密/哈希模块","网络通信模块",
    "认证/会话模块"], parseModulePrompt (generatedPrompt subject) = "") ∧
    ∀ m ∈ ["","libfoo"], parseModulePrompt (generatedPrompt ("模块 \x60" ++ m ++ "\x60")) = "" := by
  simp only [List.forall_mem_cons,List.not_mem_nil,IsEmpty.forall_iff,implies_true,and_true,
    parseModulePrompt,toList_quoted]
  simp only [generatedPrompt,toList_generatedEnd,String.toList_append]
  decide +kernel

theorem generated_cases (m : String) : (∃ subject ∈ ["IPSec/VPN 相关模块","防火墙/过滤模块",
    "加密/哈希模块","网络通信模块","认证/会话模块"],
      generatePromptFromModule m = generatedPrompt subject) ∨
    generatePromptFromModule m = generatedPrompt ("模块 \x60" ++ m ++ "\x60") := by
  unfold generatePromptFromModule
  dsimp only
  split_ifs
  · exact Or.inl ⟨_,by simp,rfl⟩
  · exact Or.inl ⟨_,by simp,rfl⟩
  · exact Or.inl ⟨_,by simp,rfl⟩
  · exact Or.inl ⟨_,by simp,rfl⟩
  · exact Or.inl ⟨_,by simp,rfl⟩
  · exact Or.inr rfl

theorem parse_generated_eq (h : parseModulePrompt (generatedPrompt ("模块 \x60" ++ m ++ "\x60")) = "") :
    parseModulePrompt (generatePromptFromModule m) = "" := by
  rcases generated_cases m with ⟨subject,hmem,heq⟩ | heq
  · rw [heq,parse_subjects.1 subject hmem]
  · rw [heq,h]

/-- No name but the empty one is read from its generated sentence. -/
theorem parse_generated (h : parseModulePrompt (generatePromptFromModule m) = m) : m = "" := by
  rcases generated_cases m with ⟨subject,hmem,heq⟩ | heq
  · rw [← h,heq,parse_subjects.1 subject hmem]
  · rcases parse_found (generatePromptFromModule m) with hnone | ⟨hfound,-⟩
    · rw [← h,hnone]
    · exfalso
      rw [h,heq,toList_quoted] at hfound
      have hend : apart ('\x60' :: generatedEnd.toList) = true := by
        rw [toList_generatedEnd]
        decide
      refine not_found_between ?_ (by decide) (by decide) ?_ m.toList hfound
      · decide
      · intro x c d y hsplit hd
        rw [hsplit] at hend
        exact apart_split hend hd

/-- The end of the chained sentence, behind the name of the module. -/
def chainedEnd : String := " 模块的外部入口"

theorem toList_chainedEnd : chainedEnd.toList = [' ','模','块','的','外','部','入','口'] :=
  String.toList_ofList

theorem toList_chainedPrompt (m : String) :
    (chainedPrompt m).toList = '分' :: '析' :: ' ' :: (m.toList ++ chainedEnd.toList) := by
  change ("分析 " ++ m ++ chainedEnd).toList = _
  rw [String.toList_append,String.toList_append,List.append_assoc]
  rfl

/-- The longest beginning is the whole text where the tail follows that. -/
theorem longest_all {tail : List Char → Bool} {body back : List Char} (hne : body ≠ [])
    (htail : tail back = true) : longest tail body.length (body ++ back) = some body := by
  obtain ⟨n,hn⟩ := Nat.exists_eq_succ_of_ne_zero (List.length_pos_iff.mpr hne).ne'
  have hdrop : (body ++ back).drop (n + 1) = back := by
    rw [← Nat.succ_eq_add_one,← hn,List.drop_left]
  have htake : (body ++ back).take (n + 1) = body := by
    rw [← Nat.succ_eq_add_one,← hn,List.take_left]
  rw [hn,Nat.succ_eq_add_one,longest,hdrop,if_pos htail,htake]

def spaces : List ℕ :=
  [9,10,11,12,13,28,29,30,31,32,0x85,0xA0,0x1680,0x2000,0x2001,0x2002,0x2003,0x2004,0x2005,0x2006,
    0x2007,0x2008,0x2009,0x200A,0x2028,0x2029,0x202F,0x205F,0x3000]

theorem isId_spaces : ∀ n ∈ spaces, isId (Char.ofNat n) = false := by decide

theorem isId_not_space {c : Char} (h : isId c = true) : pyIsSpace c = false := by
  by_contra hspace
  have hmem : c.toNat ∈ spaces := by
    simp only [pyIsSpace,Bool.not_eq_false,Bool.or_eq_true,Bool.and_eq_true,decide_eq_true_eq,
      beq_iff_eq] at hspace
    rcases hspace with (((((((((⟨hlow,hhigh⟩ | ⟨hlow,hhigh⟩) | hn) | hn) | hn) | ⟨hlow,hhigh⟩) | hn) |
      hn) | hn) | hn) | hn
    all_goals first
      | rw [hn]; decide
      | interval_cases c.toNat <;> decide
  have hnot := isId_spaces c.toNat hmem
  rw [Char.ofNat_toNat,h] at hnot
  cases hnot

/-- An identifier is read from its chained sentence, by the first expression. -/
theorem parse_chained (hne : m.toList ≠ []) (hid : ∀ c ∈ m.toList, isId c = true)
    (hkeep : isExcluded m.toList = false) : parseModulePrompt (chainedPrompt m) = m := by
  have hwhile : (m.toList ++ chainedEnd.toList).takeWhile isId = m.toList := by
    rw [List.takeWhile_append_of_pos hid]
    exact List.append_nil _
  have hbody : (' ' :: (m.toList ++ chainedEnd.toList)).dropWhile pyIsSpace =
      m.toList ++ chainedEnd.toList := by
    obtain ⟨c,cs,hcs⟩ := List.exists_cons_of_ne_nil hne
    rw [List.dropWhile_cons_of_pos (by decide),hcs,List.cons_append,List.dropWhile_cons_of_neg]
    rw [isId_not_space (hid c (hcs ▸ List.mem_cons_self))]
    decide
  have hfollows : moduleFollows chainedEnd.toList = true := by
    rw [toList_chainedEnd]
    decide
  have hlongest := longest_all hne hfollows
  have hmatch : matchAt ⟨analyze,false,moduleFollows⟩ (chainedPrompt m).toList =
      some m.toList := by
    rw [toList_chainedPrompt]
    change longest moduleFollows
      (((' ' :: (m.toList ++ chainedEnd.toList)).dropWhile pyIsSpace).takeWhile isId).length
      ((' ' :: (m.toList ++ chainedEnd.toList)).dropWhile pyIsSpace) = _
    rw [hbody,hwhile,hlongest]
  have hsearch : search ⟨analyze,false,moduleFollows⟩ (chainedPrompt m).toList =
      some m.toList := by
    rw [toList_chainedPrompt] at hmatch ⊢
    rw [search,hmatch]
    rfl
  have hfirst : (patterns.findSome? fun p => (search p (chainedPrompt m).toList).filter
      fun candidate => !isExcluded candidate) = some m.toList := by
    rw [patterns,List.findSome?_cons,hsearch,Option.filter_some,hkeep]
    rfl
  rw [parseModulePrompt,hfirst,Option.getD_some,String.ofList_toList]

/-- A name is read from the chained sentence iff it is an identifier that is not excluded. -/
theorem parse_chained_iff : parseModulePrompt (chainedPrompt m) = m ↔
    m = "" ∨ (∀ c ∈ m.toList, isId c = true) ∧ isExcluded m.toList = false := by
  constructor
  · intro h
    rcases parse_found (chainedPrompt m) with hnone | ⟨⟨-,hid,-⟩,hkeep⟩
    · exact Or.inl (by rw [← h,hnone])
    · rw [h] at hid hkeep
      exact Or.inr ⟨hid,hkeep⟩
  · have hempty : parseModulePrompt (chainedPrompt "") = "" := by
      rw [parseModulePrompt,toList_chainedPrompt,toList_chainedEnd]
      decide
    rintro (rfl | ⟨hid,hkeep⟩)
    · exact hempty
    · by_cases hm : m.toList = []
      · rw [String.toList_eq_nil_iff.mp hm]
        exact hempty
      · exact parse_chained hm hid hkeep

/-- The sentence is read as the module, and so as no other one. -/
def ReadBack (m prompt : String) : Prop :=
  parseModulePrompt prompt = m ∧ (parseModulePrompt prompt ≠ "" → parseModulePrompt prompt = m)

theorem readBack_iff_eq {prompt : String} : ReadBack m prompt ↔ parseModulePrompt prompt = m :=
  ⟨And.left,fun h => ⟨h,fun _ => h⟩⟩

/-- From its generated sentence only the empty name is read back, from the chained one what is an
identifier and not one of the words. -/
theorem modules_readBack_iff (m : String) : (ReadBack m (generatePromptFromModule m) ↔ m = "") ∧
    (ReadBack m (chainedPrompt m) ↔
      m = "" ∨ (∀ c ∈ m.toList, isId c = true) ∧ isExcluded m.toList = false) := by
  rw [readBack_iff_eq,readBack_iff_eq]
  refine ⟨⟨parse_generated,?_⟩,parse_chained_iff⟩
  rintro rfl
  exact parse_generated_eq (parse_subjects.2 "" List.mem_cons_self)

/-- From the generated sentence of a module nothing is read, and from the chained sentence of one
with a space another module is. -/
theorem modules_not_read_back : parseModulePrompt (generatePromptFromModule "libfoo") = "" ∧
    parseModulePrompt (chainedPrompt "my mod") = "my" ∧
      ¬∀ m, ReadBack m (generatePromptFromModule m) ∧ ReadBack m (chainedPrompt m) := by
  have hnone : parseModulePrompt (generatePromptFromModule "libfoo") = "" :=
    parse_generated_eq (parse_subjects.2 "libfoo" (by simp))
  refine ⟨hnone,by decide +kernel,?_⟩
  intro h
  have hread := (h "libfoo").1.1
  rw [hnone] at hread
  exact absurd hread (by decide)

end Read

end ModulePrompts
end EntryAnalyse
