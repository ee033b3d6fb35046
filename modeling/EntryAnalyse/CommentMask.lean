import EntryAnalyse.CLexing

/-! `_strip_comments_and_strings` of `r1_worker.py` blanks the comments and literals of a gap
before the script filter looks at it. -/
namespace EntryAnalyse
namespace CommentMask

open CLexing

inductive State
  | code | lineComment | blockComment | string | char
deriving DecidableEq

/-- The quote that closes the literal. -/
def State.quote : State → Option Char
  | string => some '"'
  | char => some '\''
  | _ => none

/-- The state of the loop. `skip` stands before the second character that a step takes with the
first one: of a comment mark, or behind a backslash. -/
structure Mask where
  state : State := .code
  skip : Bool := false

def blank (ch : Char) : Char := if ch = '\n' then '\n' else ' '

/-- What is put out for a character, and the state behind it. -/
def Mask.step (m : Mask) (ch : Char) (nxt : Option Char) : Char × Mask :=
  if m.skip then (blank ch,{ m with skip := false })
  else match m.state with
    | .code =>
      if ch = '/' ∧ nxt = some '/' then (' ',⟨.lineComment,true⟩)
      else if ch = '/' ∧ nxt = some '*' then (' ',⟨.blockComment,true⟩)
      else if ch = '"' then (' ',⟨.string,false⟩)
      else if ch = '\'' then (' ',⟨.char,false⟩)
      else (ch,m)
    | .lineComment => (blank ch,if ch = '\n' then {} else m)
    | .blockComment => (blank ch,if ch = '*' ∧ nxt = some '/' then ⟨.code,true⟩ else m)
    | .string | .char =>
      (blank ch,if ch = '\\' then { m with skip := true }
        else if m.state.quote = some ch then {} else m)

def stripFrom : Mask → List Char → List Char
  | _,[] => []
  | m,ch :: cs => (m.step ch cs.head?).1 :: stripFrom (m.step ch cs.head?).2 cs

/-- `_strip_comments_and_strings`. -/
def stripCommentsAndStrings (text : String) : String := String.ofList (stripFrom {} text.toList)

/-- The text has its comments and literals blanked, and nothing else. -/
structure Masks (text out : List Char) : Prop where
  length : out.length = text.length
  newline : ∀ i : ℕ, out[i]? = some '\n' ↔ text[i]? = some '\n'
  outside : ∀ (i : ℕ) (c : Char), (readText text)[i]? = some (c,false) → out[i]? = some c
  inside : ∀ (i : ℕ) (c : Char), (readText text)[i]? = some (c,true) → c ≠ '\n' → out[i]? = some ' '

/-- The text that `Masks` asks for. -/
def hide (p : Char × Bool) : Char := if p.2 then blank p.1 else p.1

/-- What the loop knows where a character stands, as C reads the text. -/
def Reads (m : Mask) (rest : List Char) (p : Place) : Prop :=
  match p with
  | .lineComment => m.state = .lineComment ∧ (m.skip = true → rest.head? = some '/')
  | .opened => m = ⟨.blockComment,true⟩ ∧ rest.head? = some '*'
  | .blockComment => m = ⟨.blockComment,false⟩
  | .closing => m = ⟨.code,true⟩ ∧ rest.head? = some '/'
  | .literal left => ∃ q, m.state.quote = some q ∧
      if m.skip then ∃ d ds k, rest = d :: ds ∧ d ≠ '\n' ∧ literalLength q ds = some k ∧ left = k + 1
      else literalLength q rest = some left
  | p => m = {} ∧ p.SignAhead rest

section Step
variable {m : Mask} {c : Char} {cs : List Char} {p : Place}

theorem blank_of_ne (h : c ≠ '\n') : blank c = ' ' := if_neg h

theorem blank_eq_newline_iff : blank c = '\n' ↔ c = '\n' := by
  unfold blank
  split
  · rename_i h
    exact iff_of_true rfl h
  · rename_i h
    exact iff_of_false (by decide) h

theorem isQuote_blank (c : Char) : isQuote (blank c) = false := by
  unfold blank
  split <;> rfl

/-- No quote is ever put out. -/
theorem isQuote_step (m : Mask) (c : Char) (nxt : Option Char) :
    isQuote (m.step c nxt).1 = false := by
  obtain ⟨state,skip⟩ := m
  cases skip with
  | true => exact isQuote_blank c
  | false =>
    cases state with
    | code =>
      by_cases hline : c = '/' ∧ nxt = some '/'
      · simp [Mask.step,hline,isQuote]
      by_cases hblock : c = '/' ∧ nxt = some '*'
      · simp [Mask.step,hblock,isQuote]
      by_cases hd : c = '"'
      · simp [Mask.step,hd,isQuote]
      by_cases hs : c = '\''
      · simp [Mask.step,hs,isQuote]
      · simp [Mask.step,hline,hblock,hd,hs,isQuote]
    | _ => exact isQuote_blank c

theorem isQuote_stripFrom (m : Mask) (cs : List Char) :
    ∀ c ∈ stripFrom m cs, isQuote c = false := by
  induction cs generalizing m with
  | nil => exact fun c hc => absurd hc List.not_mem_nil
  | cons c cs ih => exact List.forall_mem_cons.mpr ⟨isQuote_step m c cs.head?,ih _⟩

/-- In the code the loop and C see the same comments and literals begin. -/
theorem step_code (hcode : p.hidden = false) (hsign : p.SignAhead (c :: cs))
    (hq : isQuote c = true → p.inside c cs = true) :
    (({} : Mask).step c cs.head?).1 = hide (c,p.inside c cs) ∧
      Reads (({} : Mask).step c cs.head?).2 cs (p.next c cs) := by
  have hinside : p.inside c cs = (p.next c cs).hidden := by
    unfold Place.inside
    rw [hcode,if_neg Bool.false_ne_true]
  by_cases hline : c = '/' ∧ cs.head? = some '/'
  · obtain ⟨rfl,hhead⟩ := hline
    have hnext : p.next '/' cs = .lineComment := by
      rw [Place.next_slash hcode hsign]
      exact if_pos ⟨rfl,hhead⟩
    rw [hinside,hnext]
    refine ⟨?_,?_⟩
    · simp [Mask.step,hhead,hide,blank,Place.hidden]
    · simp [Mask.step,hhead,Reads]
  by_cases hblock : c = '/' ∧ cs.head? = some '*'
  · obtain ⟨rfl,hhead⟩ := hblock
    have hnext : p.next '/' cs = .opened := by
      rw [Place.next_slash hcode hsign]
      exact (if_neg hline).trans (if_pos ⟨rfl,hhead⟩)
    rw [hinside,hnext]
    refine ⟨?_,?_⟩
    · simp [Mask.step,hhead,hide,blank,Place.hidden]
    · simp [Mask.step,hhead,Reads]
  cases hquote : isQuote c with
  | true =>
    obtain ⟨n,hlen,hnext⟩ := Place.next_quote hcode hquote (hinside ▸ hq hquote)
    rw [hinside,hnext]
    have hc : c = '"' ∨ c = '\'' := by simpa [isQuote] using hquote
    rcases hc with rfl | rfl
    · exact ⟨rfl,'"',rfl,hlen⟩
    · exact ⟨rfl,'\'',rfl,hlen⟩
  | false =>
    obtain ⟨hhid,hahead⟩ := Place.next_plain hcode hline hblock hquote
    have hstep : ({} : Mask).step c cs.head? = (c,{}) := by
      have hc : c ≠ '"' ∧ c ≠ '\'' := by simpa [isQuote] using hquote
      simp [Mask.step,hline,hblock,hc]
    rw [hinside,hstep,hhid]
    refine ⟨rfl,?_⟩
    cases hn : p.next c cs with
    | lineComment => rw [hn] at hhid; cases hhid
    | opened => rw [hn] at hhid; cases hhid
    | blockComment => rw [hn] at hhid; cases hhid
    | closing => rw [hn] at hhid; cases hhid
    | literal left => rw [hn] at hhid; cases hhid
    | _ => exact ⟨rfl,hn ▸ hahead⟩

theorem step_literal {left : ℕ} (h : Reads m (c :: cs) (.literal left)) :
    (m.step c cs.head?).1 = blank c ∧
      Reads (m.step c cs.head?).2 cs ((Place.literal left).next c cs) := by
  obtain ⟨state,skip⟩ := m
  obtain ⟨q,hq,hleft⟩ := h
  cases skip with
  | true =>
    obtain ⟨d,ds,k,heq,-,hk,rfl⟩ := hleft
    obtain ⟨rfl,rfl⟩ := List.cons.inj heq
    refine ⟨rfl,?_⟩
    have hpos := literalLength_pos hk
    have hnext : (Place.literal (k + 1)).next c cs = .literal k := if_neg (by omega)
    rw [hnext]
    exact ⟨q,hq,hk⟩
  | false =>
    have hlen : literalLength q (c :: cs) = some left := hleft
    have hstep : (Mask.mk state false).step c cs.head? =
        (blank c,if c = '\\' then ⟨state,true⟩
          else if state.quote = some c then {} else ⟨state,false⟩) := by
      cases state with
      | string => rfl
      | char => rfl
      | _ => cases hq
    have hback : q ≠ '\\' := by
      cases state with
      | string => cases hq; decide
      | char => cases hq; decide
      | _ => cases hq
    refine ⟨congrArg Prod.fst hstep,?_⟩
    rw [hstep]
    unfold literalLength at hlen
    by_cases hnl : c = '\n'
    · rw [if_pos hnl] at hlen
      cases hlen
    rw [if_neg hnl] at hlen
    by_cases hcq : c = q
    · subst hcq
      rw [if_pos rfl] at hlen
      cases hlen
      rw [if_neg hback,if_pos hq]
      exact ⟨rfl,fun h => by cases h⟩
    rw [if_neg hcq] at hlen
    by_cases hc : c = '\\'
    · rw [if_pos hc] at hlen ⊢
      cases cs with
      | nil => cases hlen
      | cons d ds =>
        by_cases hd : d = '\n'
        · simp [hd] at hlen
        · simp only [hd,if_false] at hlen
          obtain ⟨k,hk,rfl⟩ := Option.map_eq_some_iff.mp hlen
          have hnext : (Place.literal (k + 2)).next c (d :: ds) = .literal (k + 1) := by
            simp [Place.next]
          rw [hnext]
          exact ⟨q,hq,d,ds,k,rfl,hd,hk,rfl⟩
    · rw [if_neg hc] at hlen ⊢
      obtain ⟨k,hk,rfl⟩ := Option.map_eq_some_iff.mp hlen
      have hpos := literalLength_pos hk
      have hnext : (Place.literal (k + 1)).next c cs = .literal k := if_neg (by omega)
      have hopen : state.quote ≠ some c := by
        rw [hq]
        exact fun h => hcq (Option.some.inj h).symm
      rw [hnext,if_neg hopen]
      exact ⟨q,hq,hk⟩

/-- One step of the loop follows one step of the reading, where no quote is left over. -/
theorem step_reads (h : Reads m (c :: cs) p) (hq : isQuote c = true → p.inside c cs = true) :
    (m.step c cs.head?).1 = hide (c,p.inside c cs) ∧
      Reads (m.step c cs.head?).2 cs (p.next c cs) := by
  obtain ⟨state,skip⟩ := m
  cases p with
  | lineComment =>
    obtain ⟨hstate,hskip⟩ := h
    cases hstate
    by_cases hnl : c = '\n'
    · subst hnl
      cases skip with
      | true => cases hskip rfl
      | false => exact ⟨rfl,rfl,fun h => by cases h⟩
    · have hnext : Place.lineComment.next c cs = .lineComment := if_neg hnl
      have hin : Place.lineComment.inside c cs = true := by
        simp [Place.inside,Place.hidden,hnl]
      rw [hin,hnext]
      cases skip with
      | true => exact ⟨rfl,rfl,fun h => by cases h⟩
      | false =>
        refine ⟨rfl,?_⟩
        rw [show ((Mask.mk .lineComment false).step c cs.head?).2 = ⟨.lineComment,false⟩
          from if_neg hnl]
        exact ⟨rfl,fun h => by cases h⟩
  | opened =>
    obtain ⟨heq,-⟩ := h
    cases heq
    exact ⟨rfl,rfl⟩
  | blockComment =>
    cases h
    refine ⟨rfl,?_⟩
    by_cases hclose : c = '*' ∧ cs.head? = some '/'
    · rw [show Place.blockComment.next c cs = .closing from if_pos hclose,
        show ((Mask.mk .blockComment false).step c cs.head?).2 = ⟨.code,true⟩
          from if_pos hclose]
      exact ⟨rfl,hclose.2⟩
    · rw [show Place.blockComment.next c cs = .blockComment from if_neg hclose,
        show ((Mask.mk .blockComment false).step c cs.head?).2 = ⟨.blockComment,false⟩
          from if_neg hclose]
      rfl
  | closing =>
    obtain ⟨heq,-⟩ := h
    cases heq
    exact ⟨rfl,rfl,fun h => by cases h⟩
  | literal left =>
    obtain ⟨hfst,hsnd⟩ := step_literal h
    exact ⟨hfst,hsnd⟩
  | _ =>
    obtain ⟨heq,hsign⟩ := h
    cases heq
    exact step_code rfl hsign hq

end Step

theorem length_stripFrom (m : Mask) (cs : List Char) : (stripFrom m cs).length = cs.length := by
  induction cs generalizing m with
  | nil => rfl
  | cons c cs ih => exact congrArg (· + 1) (ih _)

theorem length_readFrom (p : Place) (cs : List Char) : (readFrom p cs).length = cs.length := by
  induction cs generalizing p with
  | nil => rfl
  | cons c cs ih => exact congrArg (· + 1) (ih _)

theorem map_fst_readFrom (p : Place) (cs : List Char) : (readFrom p cs).map Prod.fst = cs := by
  induction cs generalizing p with
  | nil => rfl
  | cons c cs ih => exact congrArg (c :: ·) (ih _)

/-- By induction on the text: the loop puts out what is to be seen of each character. -/
theorem stripFrom_eq {m : Mask} {cs : List Char} {p : Place} (h : Reads m cs p)
    (hq : QuotesInside (readFrom p cs)) : stripFrom m cs = (readFrom p cs).map hide := by
  induction cs generalizing m p with
  | nil => rfl
  | cons c cs ih =>
    obtain ⟨hhead,htail⟩ := List.forall_mem_cons.mp hq
    obtain ⟨hfst,hsnd⟩ := step_reads h hhead
    rw [stripFrom,readFrom,List.map_cons,hfst,ih hsnd htail]

theorem masks_hide (text : List Char) : Masks text ((readText text).map hide) where
  length := by rw [List.length_map,readText,length_readFrom]
  newline := fun i => by
    have hfst : text[i]? = ((readText text)[i]?).map Prod.fst := by
      rw [← List.getElem?_map,readText,map_fst_readFrom]
    rw [hfst,List.getElem?_map]
    cases (readText text)[i]? with
    | none => exact Iff.rfl
    | some p =>
      obtain ⟨c,b⟩ := p
      cases b with
      | true =>
        rw [Option.map_some,Option.map_some,Option.some_inj,Option.some_inj]
        exact blank_eq_newline_iff
      | false => exact Iff.rfl
  outside := fun i c h => by
    rw [List.getElem?_map,h]
    rfl
  inside := fun i c h hc => by
    rw [List.getElem?_map,h]
    exact congrArg some (blank_of_ne hc)

/-- The mask is right exactly where no quote stands outside the comments and literals: a digit
separator, or a quote that nothing closes on its line. -/
theorem mask_right_iff (text : String) :
    Masks text.toList (stripCommentsAndStrings text).toList ↔ QuotesInside (readText text.toList) := by
  rw [stripCommentsAndStrings,String.toList_ofList]
  constructor
  · intro h p hp hquote
    obtain ⟨c,b⟩ := p
    cases b with
    | true => rfl
    | false =>
      obtain ⟨i,hi⟩ := List.mem_iff_getElem?.mp hp
      have hmem := List.mem_of_getElem? (h.outside i c hi)
      have hnone := isQuote_stripFrom {} text.toList c hmem
      rw [hnone] at hquote
      cases hquote
  · intro h
    have hstart : Reads {} text.toList .gap := ⟨rfl,fun h => by cases h⟩
    rw [stripFrom_eq hstart h]
    exact masks_hide text.toList

/-- The separator of a number hides the brace behind it. -/
theorem separator_swallows : ¬Masks "1'0\x7b".toList (stripCommentsAndStrings "1'0\x7b").toList := by
  intro h
  have hout := h.outside 3 '\x7b' (by decide +kernel)
  revert hout
  decide +kernel

end CommentMask
end EntryAnalyse
