import EntryAnalyse.Tags

/-! The fields of a diagnosis report, as they are read out of the answer of the model, which may
have been cut off. -/
namespace EntryAnalyse
namespace ReportFields

open GapAnswers (splitFirst)
open PyText Tags

/-- `_FIELDS`. -/
inductive Field
  | phenomenon | rootCause | solution | codeScene | patchCode
  deriving DecidableEq, Repr

def fields : List Field := [.phenomenon,.rootCause,.solution,.codeScene,.patchCode]

def Field.name : Field → String
  | .phenomenon => "phenomenon"
  | .rootCause => "root_cause"
  | .solution => "solution"
  | .codeScene => "code_scene"
  | .patchCode => "patch_code"

/-- `_FIELD_LABELS`. -/
def Field.label : Field → String
  | .phenomenon => "问题现象"
  | .rootCause => "问题根因"
  | .solution => "解决方法"
  | .codeScene => "代码现场"
  | .patchCode => "补丁代码"

def openTag (f : Field) : List Char := '<' :: (f.name.toList ++ ['>'])

def closeTag (f : Field) : List Char := '<' :: ('/' :: f.name.toList ++ ['>'])

/-- The text in front of the first opening tag of a field. -/
def untilTag : List Char → List Char
  | [] => []
  | c :: cs =>
    if fields.any fun f => (openTag f).isPrefixOf (c :: cs) then [] else c :: untilTag cs

/-- A field in tags, of which the closing one may be missing. -/
def tagged (block : List Char) (f : Field) : Option (List Char) :=
  match splitFirst (openTag f) block with
  | none => none
  | some (_,rest) =>
    match splitFirst (closeTag f) rest with
    | some (content,_) => some (trim content)
    | none => if trim (untilTag rest) = [] then none else some (trim (untilTag rest))

/-- The marks of a headline at the start of the text, `#{1,3}`, with what is behind them. -/
def marks (cs : List Char) : Option (List Char) :=
  let hashes := cs.takeWhile (· == '#')
  if hashes.length = 0 ∨ 3 < hashes.length then none else some (cs.drop hashes.length)

/-- The text in front of the next headline, or of the end. -/
def untilHeadline : List Char → List Char
  | [] => []
  | c :: cs =>
    if ((marks (c :: cs)).bind List.head?).any pyIsSpace then []
    else if c = '\n' ∧ cs = [] then []
    else c :: untilHeadline cs

/-- The text below the first headline with the label. -/
def belowHeadline (label : List Char) : List Char → Option (List Char)
  | [] => none
  | c :: cs =>
    match (marks (c :: cs)).map (List.dropWhile pyIsSpace) with
    | some rest =>
      if label.isPrefixOf rest then
        some (untilHeadline ((rest.drop label.length).dropWhile pyIsSpace))
      else belowHeadline label cs
    | none => belowHeadline label cs

/-- A field below a headline. -/
def markdown (block : List Char) (f : Field) : Option (List Char) :=
  ((belowHeadline f.label.toList block).map trim).filter fun content => !content.isEmpty

/-- `_parse_report_output`. -/
def parseReportOutput (raw : List Char) : Field → Option (List Char) :=
  let block := match splitFirst "<report>".toList raw with
    | some (_,rest) => rest
    | none => raw
  if fields.any fun f => (tagged block f).isSome then tagged block
  else if fields.any fun f => (markdown block f).isSome then markdown block
  else fun f => if f = .phenomenon then some ((trim raw).take 20000) else none

/-! ## The prescribed form -/

variable (v : Field → List Char)

def element (f : Field) : List Char := openTag f ++ (v f ++ (closeTag f ++ ['\n']))

def header : List Char := "<report>\n".toList

def footer : List Char := "</report>".toList

def render : List Char := header ++ (fields.flatMap (element v) ++ footer)

/-- No tag of a report. -/
def NoTags (cs : List Char) : Prop :=
  ¬"<report>".toList <:+: cs ∧ ¬"</report>".toList <:+: cs ∧
    ∀ f, ¬openTag f <:+: cs ∧ ¬closeTag f <:+: cs

/-- The text through the opening tag of a field. -/
def opened (f : Field) : List Char :=
  header ++ ((fields.takeWhile (· ≠ f)).flatMap (element v) ++ openTag f)

/-- The text through the value of a field. -/
def valued (f : Field) : List Char := opened v f ++ v f

/-- The text through the closing tag of a field. -/
def closed (f : Field) : List Char := valued v f ++ closeTag f

/-- What a report that was cut off must give: the closed fields, and of the others nothing that
is not theirs. -/
def Survives (cut : List Char) : Prop :=
  ∀ f, (closed v f <+: cut → parseReportOutput cut f = some (trim (v f))) ∧
    ∀ x, parseReportOutput cut f = some x → x <+: trim (v f)

/-- The cut is not inside a closing tag. -/
def Torn (cut : List Char) (f : Field) : Prop :=
  valued v f <+: cut ∧ cut ≠ valued v f ∧ ¬closed v f <+: cut

/-- The cuts that do no harm: not inside the closing tag of a field, and not before the first
value has begun. -/
structure Harmless (cut : List Char) : Prop where
  whole : ∀ f, ¬Torn v cut f
  begun : ∀ p, p <+: v .phenomenon → cut = opened v .phenomenon ++ p → trim p ≠ []

section Tagged

variable {v}

theorem isTag_openTag (f : Field) : IsTag (openTag f) := ⟨f.name.toList,rfl,by cases f <;> decide,
  by cases f <;> decide⟩

theorem isTag_closeTag (f : Field) : IsTag (closeTag f) :=
  ⟨'/' :: f.name.toList,rfl,by cases f <;> decide,by cases f <;> decide⟩

theorem openTag_infix_openTag {f g : Field} (h : openTag f <:+: openTag g) : f = g := by
  revert h
  cases f <;> cases g <;> decide

theorem not_openTag_infix_closeTag (f g : Field) : ¬openTag f <:+: closeTag g := by
  cases f <;> cases g <;> decide

theorem border_close (f : Field) (a b : List Char) : Border a (closeTag f ++ b) :=
  .inr (.inr (.inr rfl))

theorem border_open (f : Field) (b : List Char) : Border (openTag f) b := by
  refine .inr (.inl ?_)
  rw [openTag,← List.cons_append,List.getLast?_concat]

theorem border_closed (f : Field) (b : List Char) : Border (closeTag f) b := by
  refine .inr (.inl ?_)
  rw [closeTag,← List.cons_append,List.getLast?_concat]

theorem not_infix_newline (f : Field) : ¬openTag f <:+: ['\n'] := by
  cases f <;> decide

/-- An element holds no other field's opening tag. -/
theorem openTag_infix_element (clean : ∀ f, NoTags (v f)) {f g : Field}
    (h : openTag f <:+: element v g) : f = g := by
  rw [element,infix_append_iff (isTag_openTag f) (border_open g _),
    infix_append_iff (isTag_openTag f) (border_close g _ _),
    infix_append_iff (isTag_openTag f) (border_closed g _)] at h
  rcases h with h | h | h | h
  · exact openTag_infix_openTag h
  · exact absurd h ((clean g).2.2 f).1
  · exact absurd h (not_openTag_infix_closeTag f g)
  · exact absurd h (not_infix_newline f)

theorem tagged_none {block : List Char} {f : Field} (h : ¬openTag f <:+: block) :
    tagged block f = none := by
  rw [tagged,splitFirst_eq_none h]

theorem tagged_closed (clean : ∀ f, NoTags (v f)) {a : List Char} {f : Field}
    (h : ¬openTag f <:+: a) (rest : List Char) :
    tagged (a ++ (openTag f ++ (v f ++ (closeTag f ++ rest)))) f = some (trim (v f)) := by
  have content := splitFirst_at (isTag_closeTag f) ((clean f).2.2 f).2 rest
  rw [tagged,splitFirst_at (isTag_openTag f) h]
  dsimp only
  rw [content]

theorem untilTag_eq {cs : List Char} (h : ∀ g, ¬openTag g <:+: cs) : untilTag cs = cs := by
  induction cs with
  | nil => rfl
  | cons c cs ih =>
    rw [untilTag,if_neg,ih fun g hg => h g (List.infix_cons hg)]
    intro found
    obtain ⟨g,-,hg⟩ := List.any_eq_true.mp found
    exact h g (List.isPrefixOf_iff_prefix.mp hg).isInfix

theorem tagged_open {a p : List Char} {f : Field} (h : ¬openTag f <:+: a)
    (noClose : ¬closeTag f <:+: p) (noOpen : ∀ g, ¬openTag g <:+: p) :
    tagged (a ++ (openTag f ++ p)) f = if trim p = [] then none else some (trim p) := by
  rw [tagged,splitFirst_at (isTag_openTag f) h]
  dsimp only
  rw [splitFirst_eq_none noClose,untilTag_eq noOpen]

/-- A piece before which no tag is cut off. -/
def Starts (q : List Char) : Prop := q = [] ∨ q.head? = some '<'

theorem starts_elements (gs : List Field) {q : List Char} (h : Starts q) :
    Starts (gs.flatMap (element v) ++ q) := by
  cases gs with
  | nil => exact h
  | cons g gs => exact .inr rfl

theorem openTag_infix_elements (clean : ∀ f, NoTags (v f)) {f : Field} {gs : List Field}
    {q : List Char} (starts : Starts q) (h : openTag f <:+: '\n' :: (gs.flatMap (element v) ++ q)) :
    f ∈ gs ∨ openTag f <:+: q := by
  rw [List.infix_cons_iff] at h
  rcases h with ⟨rest,eq⟩ | h
  · cases (List.cons.inj eq).1
  induction gs with
  | nil => exact .inr h
  | cons g gs ih =>
    rw [List.flatMap_cons,List.append_assoc,
      infix_append_iff (isTag_openTag f) (.inr (.inr (starts_elements gs starts)))] at h
    rcases h with h | h
    · exact .inl (openTag_infix_element clean h ▸ List.mem_cons_self)
    · exact (ih h).imp_left (List.mem_cons_of_mem g ·)

/-- What is read of a text that begins with complete elements. -/
theorem tagged_elements (clean : ∀ f, NoTags (v f)) {f : Field} {gs : List Field}
    (nodup : gs.Nodup) (q : List Char) (h : f ∈ gs) :
    tagged ('\n' :: (gs.flatMap (element v) ++ q)) f = some (trim (v f)) := by
  obtain ⟨a,b,rfl⟩ := List.append_of_mem h
  have new : ¬openTag f <:+: '\n' :: (a.flatMap (element v) ++ []) := fun inside =>
    (openTag_infix_elements clean (.inl rfl) inside).elim
      (fun old => (List.nodup_append.mp nodup).2.2 f old f List.mem_cons_self rfl)
      (fun none => by cases f <;> revert none <;> decide)
  rw [List.append_nil] at new
  have text : '\n' :: ((a ++ f :: b).flatMap (element v) ++ q) =
      '\n' :: a.flatMap (element v) ++
        (openTag f ++ (v f ++ (closeTag f ++ ('\n' :: (b.flatMap (element v) ++ q))))) := by
    simp [element]
  rw [text,tagged_closed clean new]

theorem parse_eq_tagged {block : List Char} {f : Field} (h : (tagged block f).isSome = true) :
    parseReportOutput ("<report>".toList ++ block) = tagged block := by
  have isTag : IsTag "<report>".toList := ⟨"report".toList,rfl,by decide,by decide⟩
  rw [parseReportOutput,splitFirst_self isTag]
  exact if_pos (List.any_eq_true.mpr ⟨f,by cases f <;> decide,h⟩)

end Tagged

section Cut

variable {v}

theorem prefix_append_cases {p a b : List Char} (h : p <+: a ++ b) :
    (p <+: a ∧ p ≠ a) ∨ ∃ q, q <+: b ∧ p = a ++ q := by
  rcases List.prefix_or_prefix_of_prefix h (List.prefix_append a b) with inside | ⟨q,rfl⟩
  · by_cases eq : p = a
    · exact .inr ⟨[],List.nil_prefix,by rw [eq,List.append_nil]⟩
    · exact .inl ⟨inside,eq⟩
  · exact .inr ⟨q,(List.prefix_append_right_inj a).mp h,rfl⟩

/-- Where a cut lies: behind all elements, or in one of them. -/
theorem cut_cases {gs : List Field} {p : List Char} (h : p <+: gs.flatMap (element v) ++ footer) :
    (∃ q, q <+: footer ∧ p = gs.flatMap (element v) ++ q) ∨
      ∃ done f later q, gs = done ++ f :: later ∧ q <+: element v f ∧ q ≠ element v f ∧
        p = done.flatMap (element v) ++ q := by
  induction gs generalizing p with
  | nil => exact .inl ⟨p,h,rfl⟩
  | cons g gs ih =>
    rw [List.flatMap_cons,List.append_assoc] at h
    rcases prefix_append_cases h with ⟨inside,less⟩ | ⟨p,inside,rfl⟩
    · exact .inr ⟨[],g,gs,p,rfl,inside,less,rfl⟩
    · rcases ih inside with ⟨q,hq,rfl⟩ | ⟨done,f,later,q,rfl,hq,less,rfl⟩
      · exact .inl ⟨q,hq,by rw [List.flatMap_cons,List.append_assoc]⟩
      · exact .inr ⟨g :: done,f,later,q,rfl,hq,less,by rw [List.flatMap_cons,List.append_assoc]⟩

/-- Where a cut in an element lies. -/
theorem element_cases {f : Field} {q : List Char} (h : q <+: element v f) (less : q ≠ element v f) :
    (q <+: openTag f ∧ q ≠ openTag f) ∨ (∃ p, p <+: v f ∧ q = openTag f ++ p) ∨
      (∃ r, r <+: closeTag f ∧ r ≠ [] ∧ r ≠ closeTag f ∧ q = openTag f ++ (v f ++ r)) ∨
      q = openTag f ++ (v f ++ (closeTag f ++ [])) := by
  rcases prefix_append_cases h with inside | ⟨p,hp,rfl⟩
  · exact .inl inside
  refine .inr ?_
  rcases prefix_append_cases hp with ⟨inside,-⟩ | ⟨r,hr,rfl⟩
  · exact .inl ⟨p,inside,rfl⟩
  rcases prefix_append_cases hr with ⟨inside,torn⟩ | ⟨s,hs,rfl⟩
  · by_cases none : r = []
    · exact .inl ⟨v f,List.prefix_rfl,by rw [none,List.append_nil]⟩
    · exact .inr (.inl ⟨r,inside,none,torn,rfl⟩)
  · refine .inr (.inr ?_)
    rcases List.prefix_cons_iff.mp hs with rfl | ⟨t,rfl,ht⟩
    · rfl
    · obtain rfl := List.prefix_nil.mp ht
      exact absurd rfl less

theorem nodup_fields : fields.Nodup := by decide

theorem takeWhile_fields {done later : List Field} {f : Field} (h : fields = done ++ f :: later) :
    fields.takeWhile (· ≠ f) = done := by
  have nodup := nodup_fields
  rw [h] at nodup ⊢
  rw [List.takeWhile_append_of_pos,List.takeWhile_cons_of_neg (by simp),List.append_nil]
  intro g hg
  exact decide_eq_true fun eq => (List.nodup_append.mp nodup).2.2 g hg f List.mem_cons_self eq

theorem opened_eq {done later : List Field} {f : Field} (h : fields = done ++ f :: later) :
    opened v f = header ++ (done.flatMap (element v) ++ openTag f) := by
  rw [opened,takeWhile_fields h]

/-- The elements in front of a cut are closed. -/
theorem closed_isPrefix {gs later : List Field} (h : fields = gs ++ later) {f : Field} (hf : f ∈ gs)
    (q : List Char) : closed v f <+: header ++ (gs.flatMap (element v) ++ q) := by
  obtain ⟨a,b,rfl⟩ := List.append_of_mem hf
  have whole : fields = a ++ f :: (b ++ later) := by rw [h,List.append_assoc]; rfl
  rw [closed,valued,opened_eq whole]
  refine ⟨'\n' :: (b.flatMap (element v) ++ q),?_⟩
  simp [element]

/-- The fields behind a cut are not opened. -/
theorem not_opened {done later : List Field} {f g : Field} (h : fields = done ++ f :: later)
    (hg : g ∈ later) {q : List Char} (hq : q <+: element v f) :
    ¬opened v g <+: header ++ (done.flatMap (element v) ++ q) := by
  obtain ⟨a,b,rfl⟩ := List.append_of_mem hg
  have whole : fields = (done ++ f :: a) ++ g :: b := by rw [h]; simp
  intro inside
  have short := inside.length_le
  have le := hq.length_le
  rw [opened_eq whole] at short
  simp [openTag] at short
  omega

/-- The text behind `<report>`. -/
theorem header_append (X : List Char) : header ++ X = "<report>".toList ++ '\n' :: X := rfl

theorem starts_of_isPrefix {f : Field} {q : List Char} (h : q <+: element v f) : Starts q := by
  rcases List.prefix_cons_iff.mp h with rfl | ⟨q,rfl,-⟩
  · exact .inl rfl
  · exact .inr rfl

/-- A field that is not opened is not returned. -/
theorem tagged_later (clean : ∀ f, NoTags (v f)) {done : List Field} {g : Field} {q : List Char}
    (starts : Starts q) (hg : g ∉ done) (hq : ¬openTag g <:+: q) :
    tagged ('\n' :: (done.flatMap (element v) ++ q)) g = none :=
  tagged_none fun inside => (openTag_infix_elements clean starts inside).elim hg hq

/-- With one field read, what is read is right iff the fields that are not complete are. -/
theorem survives_of_tagged {cut block : List Char} (eq : parseReportOutput cut = tagged block)
    (h : ∀ f, tagged block f = some (trim (v f)) ∨
      ¬closed v f <+: cut ∧ ∀ x, tagged block f = some x → x <+: trim (v f)) :
    Survives v cut := by
  intro f
  rw [eq]
  rcases h f with whole | ⟨unclosed,part⟩
  · exact ⟨fun _ => whole,fun x hx => Option.some.inj (whole.symm.trans hx) ▸ List.prefix_rfl⟩
  · exact ⟨fun shut => absurd shut unclosed,part⟩

theorem trim_isPrefix {p a : List Char} (h : p <+: a) : trim p <+: trim a := by
  obtain ⟨b,rfl⟩ := h
  rw [trim,trim,List.dropWhile_append]
  split
  · rename_i blank
    rw [List.isEmpty_iff.mp blank]
    exact List.nil_prefix
  · generalize p.dropWhile pyIsSpace = x
    induction b using List.reverseRecOn with
    | nil =>
      rw [List.append_nil]
    | append_singleton b c ih =>
      rw [← List.append_assoc]
      by_cases space : pyIsSpace c = true
      · rwa [List.rdropWhile_concat_pos _ _ _ space]
      · rw [List.rdropWhile_concat_neg _ _ _ space,List.append_assoc]
        exact (List.rdropWhile_prefix pyIsSpace x).trans (List.prefix_append _ _)

/-- What stands at the end of a text, without white space, stays behind the stripped text. -/
theorem trim_append {a b : List Char} (some : b ≠ []) (h : ∀ c ∈ b, pyIsSpace c = false) :
    trim (a ++ b) = a.dropWhile pyIsSpace ++ b := by
  obtain ⟨front,last,rfl⟩ := (List.eq_nil_or_concat b).resolve_left some
  rw [List.concat_eq_append] at h ⊢
  have stays : ∀ x, (x ++ (front ++ [last])).rdropWhile pyIsSpace = x ++ (front ++ [last]) := by
    intro x
    rw [← List.append_assoc]
    exact List.rdropWhile_concat_neg _ _ _ (by simp [h last (by simp)])
  rw [trim,List.dropWhile_append]
  split
  · rename_i blank
    have none : (front ++ [last]).dropWhile pyIsSpace = front ++ [last] := by
      obtain ⟨c,rest,eq⟩ := List.exists_cons_of_ne_nil (l := front ++ [last]) (by simp)
      rw [eq] at h ⊢
      exact List.dropWhile_cons_of_neg (by simp [h c List.mem_cons_self])
    rw [List.isEmpty_iff.mp blank,none]
    exact stays []
  · exact stays _

/-- A part of a closing tag at the end of a value leaves no prefix of it. -/
theorem not_prefix_torn {a r : List Char} (some : r ≠ []) (h : ∀ c ∈ r, pyIsSpace c = false) :
    ¬trim (a ++ r) <+: trim a := by
  intro inside
  have short := inside.length_le
  have le := (List.rdropWhile_prefix pyIsSpace (a.dropWhile pyIsSpace)).length_le
  have positive := List.length_pos_of_ne_nil some
  rw [trim_append some h,List.length_append] at short
  rw [trim] at short
  omega

theorem space_closeTag {f : Field} : ∀ c ∈ closeTag f, pyIsSpace c = false := by
  cases f <;> decide +kernel

theorem closed_length (f : Field) : (closed v f).length =
    (valued v f).length + (closeTag f).length := List.length_append

theorem valued_length (f : Field) : (valued v f).length = (opened v f).length + (v f).length :=
  List.length_append

theorem not_torn_of_closed {cut : List Char} {f : Field} (h : closed v f <+: cut) :
    ¬Torn v cut f := fun torn => torn.2.2 h

theorem not_torn_of_not_valued {cut : List Char} {f : Field} (h : ¬valued v f <+: cut) :
    ¬Torn v cut f := fun torn => h torn.1

theorem not_valued_of_not_opened {cut : List Char} {f : Field} (h : ¬opened v f <+: cut) :
    ¬valued v f <+: cut := fun inside => h ((List.prefix_append _ _).trans inside)

theorem not_closed_of_not_opened {cut : List Char} {f : Field} (h : ¬opened v f <+: cut) :
    ¬closed v f <+: cut := fun inside =>
  not_valued_of_not_opened h ((List.prefix_append _ _).trans inside)

/-- With the first field closed, the value has begun. -/
theorem begun_of_closed {cut : List Char} (h : closed v .phenomenon <+: cut) :
    ∀ p, p <+: v .phenomenon → cut = opened v .phenomenon ++ p → trim p ≠ [] := by
  intro p hp eq
  have long := h.length_le
  have short := hp.length_le
  rw [eq,closed_length,valued_length,List.length_append] at long
  have positive : 0 < (closeTag .phenomenon).length := by decide
  omega

/-- A report that was cut off behind its elements. -/
theorem whole_survives (clean : ∀ f, NoTags (v f)) (q : List Char) :
    Survives v (header ++ (fields.flatMap (element v) ++ q)) := by
  have all : ∀ f, tagged ('\n' :: (fields.flatMap (element v) ++ q)) f = some (trim (v f)) :=
    fun f => tagged_elements clean nodup_fields q (by cases f <;> decide)
  refine survives_of_tagged ?_ fun f => .inl (all f)
  rw [header_append]
  exact parse_eq_tagged (f := .phenomenon) (by rw [all]; rfl)

theorem whole_harmless (q : List Char) :
    Harmless v (header ++ (fields.flatMap (element v) ++ q)) := by
  have shut : ∀ f, closed v f <+: header ++ (fields.flatMap (element v) ++ q) := fun f =>
    closed_isPrefix (List.append_nil fields).symm (by cases f <;> decide) q
  exact ⟨fun f => not_torn_of_closed (shut f),begun_of_closed (shut .phenomenon)⟩

/-- The first field is among those in front of the cut, or is the one that is cut. -/
theorem first_field {done later : List Field} {f : Field} (h : fields = done ++ f :: later) :
    .phenomenon ∈ done ∨ done = [] ∧ f = .phenomenon := by
  cases done with
  | nil => exact .inr ⟨rfl,(List.cons.inj h).1.symm⟩
  | cons g done => exact .inl ((List.cons.inj h).1 ▸ List.mem_cons_self)

theorem field_cases {done later : List Field} {f : Field} (h : fields = done ++ f :: later)
    (g : Field) : g ∈ done ∨ g = f ∨ g ∈ later := by
  have all : g ∈ fields := by cases g <;> decide
  rw [h] at all
  rcases List.mem_append.mp all with old | new
  · exact .inl old
  · exact .inr (List.mem_cons.mp new)

section InElement

variable {done later : List Field} {f : Field} {q : List Char}

theorem not_mem_done (h : fields = done ++ f :: later) {g : Field} (hg : g = f ∨ g ∈ later) :
    g ∉ done := by
  have nodup := nodup_fields
  rw [h] at nodup
  exact fun old => (List.nodup_append.mp nodup).2.2 g old g (List.mem_cons.mpr hg) rfl

theorem not_mem_later (h : fields = done ++ f :: later) {g : Field} (hg : g ∈ later) : g ≠ f := by
  have nodup := nodup_fields
  rw [h] at nodup
  exact fun eq => (List.nodup_cons.mp (List.nodup_append.mp nodup).2.1).1 (eq ▸ hg)

/-- What is read of the fields beside the one that is cut. -/
theorem tagged_other (clean : ∀ f, NoTags (v f)) (h : fields = done ++ f :: later)
    (hq : q <+: element v f) {g : Field} (hg : g ≠ f) :
    tagged ('\n' :: (done.flatMap (element v) ++ q)) g =
      if g ∈ done then some (trim (v g)) else none := by
  have nodup := nodup_fields
  rw [h] at nodup
  split
  · rename_i old
    exact tagged_elements clean (List.nodup_append.mp nodup).1 q old
  · rename_i new
    refine tagged_later clean (starts_of_isPrefix hq) new fun inside => ?_
    exact hg (openTag_infix_element clean (inside.trans hq.isInfix))

/-- When the field that is cut is read right, so is the report. -/
theorem survives_in_element (clean : ∀ f, NoTags (v f)) (h : fields = done ++ f :: later)
    (hq : q <+: element v f)
    (read : (∃ g, (tagged ('\n' :: (done.flatMap (element v) ++ q)) g).isSome = true))
    (cutField : tagged ('\n' :: (done.flatMap (element v) ++ q)) f = some (trim (v f)) ∨
      ¬closed v f <+: header ++ (done.flatMap (element v) ++ q) ∧
        ∀ x, tagged ('\n' :: (done.flatMap (element v) ++ q)) f = some x → x <+: trim (v f)) :
    Survives v (header ++ (done.flatMap (element v) ++ q)) := by
  obtain ⟨g,hg⟩ := read
  refine survives_of_tagged (by rw [header_append]; exact parse_eq_tagged hg) fun g => ?_
  rcases field_cases h g with old | rfl | new
  · have other : g ≠ f := fun eq => not_mem_done h (.inl eq) old
    rw [tagged_other clean h hq other,if_pos old]
    exact .inl rfl
  · exact cutField
  · rw [tagged_other clean h hq (not_mem_later h new),if_neg (not_mem_done h (.inr new))]
    exact .inr ⟨not_closed_of_not_opened (not_opened h new hq),fun x hx => by cases hx⟩

/-- Beside the field that is cut no cut does harm. -/
theorem harmless_in_element (h : fields = done ++ f :: later) (hq : q <+: element v f)
    (whole : ¬Torn v (header ++ (done.flatMap (element v) ++ q)) f)
    (begun : .phenomenon ∈ done ∨ ∀ p, p <+: v .phenomenon →
      header ++ (done.flatMap (element v) ++ q) = opened v .phenomenon ++ p → trim p ≠ []) :
    Harmless v (header ++ (done.flatMap (element v) ++ q)) := by
  refine ⟨fun g => ?_,begun.elim (fun old => begun_of_closed (closed_isPrefix h old q)) id⟩
  rcases field_cases h g with old | rfl | new
  · exact not_torn_of_closed (closed_isPrefix h old q)
  · exact whole
  · exact not_torn_of_not_valued (not_valued_of_not_opened (not_opened h new hq))

theorem read_of_done (clean : ∀ f, NoTags (v f)) (h : fields = done ++ f :: later)
    (hq : q <+: element v f) {g : Field} (hg : g ∈ done) :
    ∃ g, (tagged ('\n' :: (done.flatMap (element v) ++ q)) g).isSome = true := by
  refine ⟨g,?_⟩
  have other : g ≠ f := fun eq => not_mem_done h (.inl eq) hg
  rw [tagged_other clean h hq other,if_pos hg]
  rfl

/-- The field's own opening tag is not in front of it. -/
theorem not_openTag_front (clean : ∀ f, NoTags (v f)) (h : fields = done ++ f :: later) :
    ¬openTag f <:+: '\n' :: done.flatMap (element v) := by
  intro inside
  rw [← List.append_nil (done.flatMap (element v))] at inside
  rcases openTag_infix_elements clean (.inl rfl) inside with old | none
  · exact not_mem_done h (.inl rfl) old
  · revert none
    cases f <;> decide

theorem opened_append (h : fields = done ++ f :: later) (p : List Char) :
    header ++ (done.flatMap (element v) ++ (openTag f ++ p)) = opened v f ++ p := by
  rw [opened_eq h]
  simp

/-- Cut in an opening tag. -/
theorem opening_harmless (clean : ∀ f, NoTags (v f)) (h : fields = done ++ f :: later)
    (first : .phenomenon ∈ done) (hq : q <+: openTag f) (less : q ≠ openTag f) :
    Survives v (header ++ (done.flatMap (element v) ++ q)) ∧
      Harmless v (header ++ (done.flatMap (element v) ++ q)) := by
  have inside : q <+: element v f := hq.trans (List.prefix_append _ _)
  have unopened : ¬opened v f <+: header ++ (done.flatMap (element v) ++ q) := by
    rw [opened_eq h,List.prefix_append_right_inj,List.prefix_append_right_inj]
    exact fun whole => less (hq.eq_of_length_le whole.length_le)
  have unread : tagged ('\n' :: (done.flatMap (element v) ++ q)) f = none := by
    refine tagged_later clean (starts_of_isPrefix inside) (not_mem_done h (.inl rfl)) fun found => ?_
    exact less (hq.eq_of_length_le found.length_le)
  constructor
  · refine survives_in_element clean h inside (read_of_done clean h inside first) (.inr ?_)
    rw [unread]
    exact ⟨not_closed_of_not_opened unopened,fun x hx => by cases hx⟩
  · exact harmless_in_element h inside (not_torn_of_not_valued (not_valued_of_not_opened unopened))
      (.inl first)

theorem tagged_value (clean : ∀ f, NoTags (v f)) (h : fields = done ++ f :: later) {p : List Char}
    (hp : p <+: v f) : tagged ('\n' :: (done.flatMap (element v) ++ (openTag f ++ p))) f =
      if trim p = [] then none else some (trim p) :=
  tagged_open (a := '\n' :: done.flatMap (element v)) (not_openTag_front clean h)
    (fun inside => ((clean f).2.2 f).2 (inside.trans hp.isInfix))
    fun g inside => ((clean f).2.2 g).1 (inside.trans hp.isInfix)

theorem value_isPrefix {p : List Char} (hp : p <+: v f) : openTag f ++ p <+: element v f :=
  (List.prefix_append_right_inj _).mpr (hp.trans (List.prefix_append _ _))

/-- Cut in a value that has begun, or behind the first field. -/
theorem value_harmless (clean : ∀ f, NoTags (v f)) (h : fields = done ++ f :: later)
    {p : List Char} (hp : p <+: v f) (begun : .phenomenon ∈ done ∨ trim p ≠ []) :
    Survives v (header ++ (done.flatMap (element v) ++ (openTag f ++ p))) ∧
      Harmless v (header ++ (done.flatMap (element v) ++ (openTag f ++ p))) := by
  have inside := value_isPrefix (v := v) hp
  have read := tagged_value clean h hp
  have unclosed : ¬closed v f <+: opened v f ++ p := by
    intro shut
    have long := shut.length_le
    have short := hp.length_le
    have positive : 0 < (closeTag f).length := Nat.succ_pos _
    rw [closed_length,valued_length,List.length_append] at long
    omega
  constructor
  · refine survives_in_element clean h inside ?_ (.inr ⟨opened_append h p ▸ unclosed,fun x hx => ?_⟩)
    · rcases begun with old | some
      · exact read_of_done clean h inside old
      · exact ⟨f,by rw [read,if_neg some]; rfl⟩
    · rw [read] at hx
      split at hx
      · cases hx
      · exact Option.some.inj hx ▸ trim_isPrefix hp
  · refine harmless_in_element h inside ?_ ?_
    · rw [opened_append h]
      rintro ⟨reached,other,-⟩
      have whole := (List.prefix_append_right_inj (opened v f)).mp reached
      exact other (by rw [valued,whole.eq_of_length_le hp.length_le])
    · rcases first_field h with old | ⟨rfl,rfl⟩
      · exact .inl old
      · refine .inr fun p' _ eq => ?_
        rw [opened_append h] at eq
        rw [← List.append_cancel_left eq]
        exact begun.resolve_left List.not_mem_nil

theorem space_of_trim {cs : List Char} (h : trim cs = []) : ∀ c ∈ cs, pyIsSpace c = true := by
  have back := List.rdropWhile_eq_nil_iff.mp h
  intro c hc
  rw [← List.takeWhile_append_dropWhile (p := pyIsSpace) (l := cs)] at hc
  rcases List.mem_append.mp hc with hc | hc
  · exact List.mem_takeWhile_imp hc
  · exact back c hc

theorem belowHeadline_none {label cs : List Char} (h : '#' ∉ cs) :
    belowHeadline label cs = none := by
  induction cs with
  | nil => rfl
  | cons c cs ih =>
    rw [List.mem_cons,not_or] at h
    have unmarked : marks (c :: cs) = none := by
      rw [marks,List.takeWhile_cons_of_neg (by simpa using Ne.symm h.1)]
      rfl
    rw [belowHeadline,unmarked]
    exact ih h.2

/-- Before the first value has begun the raw text is taken. -/
theorem unbegun_harms (clean : ∀ f, NoTags (v f)) (h : fields = [] ++ .phenomenon :: later)
    {p : List Char} (hp : p <+: v .phenomenon) (blank : trim p = []) :
    ¬Survives v (header ++ (openTag .phenomenon ++ p)) ∧
      ¬Harmless v (header ++ (openTag .phenomenon ++ p)) := by
  have isTag : IsTag "<report>".toList := ⟨"report".toList,rfl,by decide,by decide⟩
  have unread : ∀ g, tagged ('\n' :: (openTag .phenomenon ++ p)) g = none := by
    intro g
    by_cases eq : g = .phenomenon
    · rw [eq]
      exact (tagged_value clean h hp).trans (if_pos blank)
    · exact (tagged_other clean h (value_isPrefix hp) eq).trans (if_neg List.not_mem_nil)
  have plain : '#' ∉ '\n' :: (openTag .phenomenon ++ p) := by
    intro mem
    rcases List.mem_cons.mp mem with eq | mem
    · exact absurd eq (by decide)
    · rcases List.mem_append.mp mem with mem | mem
      · revert mem
        decide
      · exact absurd (space_of_trim blank '#' mem) (by decide)
  have raw : parseReportOutput (header ++ (openTag .phenomenon ++ p)) .phenomenon =
      some ((trim (header ++ (openTag .phenomenon ++ p))).take 20000) := by
    rw [header_append,parseReportOutput,splitFirst_self isTag]
    simp [unread,markdown,belowHeadline_none plain]
  constructor
  · intro survives
    have inside := (survives .phenomenon).2 _ raw
    have tag : "<report>".toList <+: (trim (header ++ (openTag .phenomenon ++ p))).take 20000 := by
      refine List.prefix_take_iff.mpr ⟨?_,by decide⟩
      exact trim_isPrefix (p := "<report>".toList) (List.prefix_append _ _)
    have found : "<report>".toList <:+: v .phenomenon := by
      refine (tag.trans inside).isInfix.trans ?_
      exact (List.rdropWhile_prefix _ _).isInfix.trans (List.dropWhile_suffix _).isInfix
    exact (clean .phenomenon).1 found
  · exact fun harmless => harmless.begun p hp (opened_append h p) blank

/-- Cut in a closing tag. -/
theorem torn_harms (clean : ∀ f, NoTags (v f)) (h : fields = done ++ f :: later) {r : List Char}
    (hr : r <+: closeTag f) (some' : r ≠ []) (less : r ≠ closeTag f) :
    ¬Survives v (header ++ (done.flatMap (element v) ++ (openTag f ++ (v f ++ r)))) ∧
      ¬Harmless v (header ++ (done.flatMap (element v) ++ (openTag f ++ (v f ++ r)))) := by
  have border : Border (v f) r := by
    refine .inr (.inr (.inr ?_))
    obtain ⟨c,rest,rfl⟩ := List.exists_cons_of_ne_nil some'
    obtain ⟨tail,eq⟩ := hr
    exact congrArg some (List.cons.inj eq).1
  have solid : ∀ c ∈ r, pyIsSpace c = false := fun c hc => space_closeTag c (hr.subset hc)
  have noClose : ¬closeTag f <:+: v f ++ r := by
    rw [infix_append_iff (isTag_closeTag f) border]
    rintro (inside | inside)
    · exact ((clean f).2.2 f).2 inside
    · exact less (hr.eq_of_length_le inside.length_le)
  have noOpen : ∀ g, ¬openTag g <:+: v f ++ r := by
    intro g
    rw [infix_append_iff (isTag_openTag g) border]
    rintro (inside | inside)
    · exact ((clean f).2.2 g).1 inside
    · exact not_openTag_infix_closeTag g f (inside.trans hr.isInfix)
  have read : tagged ('\n' :: (done.flatMap (element v) ++ (openTag f ++ (v f ++ r)))) f =
      some (trim (v f ++ r)) := by
    refine (tagged_open (a := '\n' :: done.flatMap (element v)) (not_openTag_front clean h) noClose
      noOpen).trans (if_neg ?_)
    rw [trim_append some' solid]
    exact List.append_ne_nil_of_right_ne_nil _ some'
  constructor
  · intro survives
    refine not_prefix_torn some' solid ((survives f).2 _ ?_)
    rw [header_append,parse_eq_tagged (f := f) (by rw [read]; rfl),read]
  · intro harmless
    refine harmless.whole f ?_
    have text := opened_append (v := v) h (v f ++ r)
    rw [← List.append_assoc (opened v f)] at text
    rw [text]
    refine ⟨List.prefix_append _ _,fun eq => ?_,fun shut => ?_⟩
    · exact some' (List.append_right_eq_self.mp eq)
    · exact less (hr.eq_of_length_le ((List.prefix_append_right_inj _).mp shut).length_le)

/-- Cut between a closing tag and the end of its line. -/
theorem shut_harmless (clean : ∀ f, NoTags (v f)) (h : fields = done ++ f :: later) :
    Survives v (header ++ (done.flatMap (element v) ++
        (openTag f ++ (v f ++ (closeTag f ++ []))))) ∧
      Harmless v (header ++ (done.flatMap (element v) ++
        (openTag f ++ (v f ++ (closeTag f ++ []))))) := by
  have inside : openTag f ++ (v f ++ (closeTag f ++ [])) <+: element v f := by
    rw [element,List.prefix_append_right_inj,List.prefix_append_right_inj,
      List.prefix_append_right_inj]
    exact List.nil_prefix
  have read : tagged ('\n' :: (done.flatMap (element v) ++
      (openTag f ++ (v f ++ (closeTag f ++ []))))) f = some (trim (v f)) :=
    tagged_closed (a := '\n' :: done.flatMap (element v)) clean (not_openTag_front clean h) []
  have shut : closed v f <+: header ++ (done.flatMap (element v) ++
      (openTag f ++ (v f ++ (closeTag f ++ [])))) := by
    rw [opened_append h,List.append_nil,← List.append_assoc]
    exact List.prefix_rfl
  refine ⟨survives_in_element clean h inside ⟨f,by rw [read]; rfl⟩ (.inl read),
    harmless_in_element h inside (not_torn_of_closed shut) ?_⟩
  rcases first_field h with old | ⟨rfl,rfl⟩
  · exact .inl old
  · exact .inr (begun_of_closed shut)

end InElement

end Cut

theorem report_survives_iff (v : Field → List Char) (clean : ∀ f, NoTags (v f)) :
    (∀ f, parseReportOutput (render v) f = some (trim (v f))) ∧
      ∀ cut, cut <+: render v → opened v .phenomenon <+: cut →
        (Survives v cut ↔ Harmless v cut) := by
  constructor
  · intro f
    refine (whole_survives clean footer f).1 (closed_isPrefix (List.append_nil fields).symm ?_ footer)
    cases f <;> decide
  · intro cut hcut begun
    rcases prefix_append_cases hcut with ⟨short,less⟩ | ⟨X,hX,rfl⟩
    · have long := begun.length_le
      have le := short.length_le
      rw [opened,List.length_append,List.length_append] at long
      have positive : 0 < (openTag .phenomenon).length := Nat.succ_pos _
      omega
    rcases cut_cases hX with ⟨q,hq,rfl⟩ | ⟨done,f,later,q,h,hq,less,rfl⟩
    · exact iff_of_true (whole_survives clean q) (whole_harmless q)
    rcases element_cases hq less with ⟨hq,less⟩ | ⟨p,hp,rfl⟩ | ⟨r,hr,some,torn,rfl⟩ | rfl
    · rcases first_field h with old | ⟨rfl,rfl⟩
      · exact iff_of_true (opening_harmless clean h old hq less).1
          (opening_harmless clean h old hq less).2
      · -- the first opening tag is complete
        rw [opened_eq h,List.prefix_append_right_inj,List.prefix_append_right_inj] at begun
        exact absurd (hq.eq_of_length_le begun.length_le) less
    · by_cases read : .phenomenon ∈ done ∨ trim p ≠ []
      · exact iff_of_true (value_harmless clean h hp read).1 (value_harmless clean h hp read).2
      · obtain ⟨new,blank⟩ := not_or.mp read
        obtain ⟨rfl,rfl⟩ := (first_field h).resolve_left new
        exact iff_of_false (unbegun_harms clean h hp (not_not.mp blank)).1
          (unbegun_harms clean h hp (not_not.mp blank)).2
    · exact iff_of_false (torn_harms clean h hr some torn).1 (torn_harms clean h hr some torn).2
    · exact iff_of_true (shut_harmless clean h).1 (shut_harmless clean h).2

/-- A report of one letter in each field. -/
def brief : Field → List Char := fun _ => ['x']

theorem noTags_letter : NoTags ['x'] := ⟨by decide,by decide,fun g => by cases g <;> decide⟩

theorem brief_survives : Survives brief (opened brief .phenomenon ++ ['x']) ↔
    Harmless brief (opened brief .phenomenon ++ ['x']) :=
  (report_survives_iff brief fun _ => noTags_letter).2 _ (by decide) (List.prefix_append _ _)

/-- A part of the closing tag is returned with the value. -/
theorem torn_tag_returned : ¬Survives brief "<report>\n<phenomenon>x</".toList := by
  intro survives
  exact absurd ((survives .phenomenon).2 "x</".toList (by decide +kernel)) (by decide +kernel)

end ReportFields
end EntryAnalyse
