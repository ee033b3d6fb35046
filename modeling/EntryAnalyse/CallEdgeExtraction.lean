import EntryAnalyse.CallPatterns
import EntryAnalyse.KeyedTable

/-! `extract_call_edges`: the calls among the known functions of a module, from the texts of its
files. First the scans, then what a table holds that they have written. -/
namespace EntryAnalyse
namespace CallchainExtractor

open PyJson PyText

structure KnownFunc where
  funcHash : String
  name : String
  filePath : String
  startLine : ℤ
  endLine : ℤ
deriving DecidableEq

/-- `known_funcs`, in the order of the dict. -/
abbrev KnownFuncs := KeyedTable KnownFunc.funcHash

@[ext] structure Edge where
  callerHash : String
  calleeHash : String
  callSiteLine : ℕ
  callType : CallType
deriving DecidableEq

def Edge.site (e : Edge) : String × String × ℕ := (e.callerHash,e.calleeHash,e.callSiteLine)

def Edge.withType (callType : CallType) (e : Edge) : Edge := { e with callType := callType }

theorem Edge.site_withType (callType : CallType) (e : Edge) : (e.withType callType).site = e.site := rfl

/-- `edges`: one call type for each caller, callee and line. -/
abbrev Edges := KeyedTable Edge.site

/-- What the scan reads, and the order in which the interpreter walks a set. -/
structure Sources where
  isWord : Char → Bool
  order : List String → List String
  order_perm : ∀ l, (order l).Perm l
  /-- The text of a file, if it can be read. -/
  read : String → Option Text

namespace KnownFuncs
variable (known : KeyedTable KnownFunc.funcHash)

/-- The keys of `name_to_hashes`. -/
def names : List String := ((known.rows.map KnownFunc.name).filter (· ≠ "")).dedup

/-- `name_to_hashes[name]`. -/
def hashes (name : String) : List String :=
  (known.rows.filter fun f => f.name = name).map KnownFunc.funcHash

/-- `funcs_by_file[file_path]`. -/
def inFile (filePath : String) : List KnownFunc :=
  known.rows.filter fun f => f.filePath ≠ "" ∧ f.filePath = filePath

end KnownFuncs

/-- `_pick_callee_hash`. -/
def pickCalleeHash (calleeHashes : List String) : Option String := calleeHashes.head?

/-! ## Function bodies -/

/-- The lines of the body with their numbers. -/
def bodyLines (f : KnownFunc) (lines : List Text) : List (Text × ℕ) :=
  if f.startLine ≤ 0 ∨ (lines.length : ℤ) < f.startLine then []
  else
    let start := f.startLine.toNat
    let stop := if 0 < f.endLine then min f.endLine.toNat lines.length
      else min (start + 300) lines.length
    ((lines.take stop).drop (start - 1)).zipIdx start

/-- What a line has to be searched, if anything. -/
def codePart (line : Text) : Option Text :=
  if commentLine line then none
  else if preprocessorLine line then none
  else if (trim (stripLineComment line)).isEmpty then none
  else some (stripLineComment line)

section Scan
variable (src : Sources) (known : KeyedTable KnownFunc.funcHash)

/-- The calls that `_scan_body_for_calls` finds in a body. -/
def scanBodyForCalls (caller : KnownFunc) (lines : List Text) : List Edge :=
  (bodyLines caller lines).flatMap fun (line,lineno) =>
    match codePart line with
    | none => []
    | some code =>
      (src.order ((KnownFuncs.names known).filter (· ≠ caller.name))).filterMap fun name =>
        if name.toList <:+: code then
          match pickCalleeHash (KnownFuncs.hashes known name) with
          | none => none
          | some callee =>
            (classifyCallType code name.toList).map fun callType =>
              ⟨caller.funcHash,callee,lineno,callType⟩
        else none

/-- A call enters the table where there is none yet; `direct` takes the place of another type. -/
def record (edges : Edges) (e : Edge) : Edges :=
  match edges.lookup e.site with
  | none => edges.insertOrIgnore e
  | some existing =>
    if e.callType = .direct ∧ existing.callType ≠ .direct then
      edges.updateWhere (fun r => r.site = e.site) (Edge.withType e.callType)
        (Edge.site_withType e.callType)
    else edges

/-! ## Extern blocks -/

/-- The variables of the loop of `_find_extern_blocks`. -/
structure BlockScan where
  blocks : List (ℕ × ℕ)
  inBlock : Bool
  blockStart : ℕ
  consecutive : ℕ

def blockStep (isWord : Char → Bool) (s : BlockScan) (entry : Text × ℕ) : BlockScan :=
  if externLine isWord entry.1 then
    if s.inBlock then { s with consecutive := s.consecutive + 1 }
    else { s with inBlock := true, blockStart := entry.2 + 1, consecutive := 1 }
  else
    { s with
      blocks :=
        if s.inBlock && decide (3 ≤ s.consecutive) then s.blocks ++ [(s.blockStart,entry.2)]
        else s.blocks
      inBlock := false
      consecutive := 0 }

/-- `_find_extern_blocks`. -/
def findExternBlocks (isWord : Char → Bool) (lines : List Text) : List (ℕ × ℕ) :=
  let s := lines.zipIdx.foldl (blockStep isWord) ⟨[],false,0,0⟩
  if s.inBlock && decide (3 ≤ s.consecutive) then s.blocks ++ [(s.blockStart,lines.length)]
  else s.blocks

def isDispatcher (f : KnownFunc) : Bool :=
  ["dispatch","procmsg","msgproc","handler","process"].any fun kw => Runner.containsText (lower f.name) kw

/-- The edges that `_scan_extern_blocks_for_ptr` finds. -/
def scanExternBlocksForPtr (lines : List Text) (funcsInFile : List KnownFunc) : List Edge :=
  match funcsInFile.find? isDispatcher with
  | none => []
  | some dispatcher =>
    (findExternBlocks src.isWord lines).flatMap fun (first,last) =>
      (List.range' first (last + 1 - first)).flatMap fun lineno =>
        match lines[lineno - 1]? with
        | none => []
        | some line =>
          if externLine src.isWord line then
            (src.order (KnownFuncs.names known)).filterMap fun name =>
              if name.toList <:+: line ∧ externDeclares src.isWord line name.toList = true then
                match pickCalleeHash (KnownFuncs.hashes known name) with
                | none => none
                | some callee =>
                  if callee = dispatcher.funcHash then none
                  else some ⟨dispatcher.funcHash,callee,lineno,.externTable⟩
              else none
          else []

/-! ## All files -/

def bodyCalls (lines : List Text) (filePath : String) : List Edge :=
  (KnownFuncs.inFile known filePath).flatMap fun caller => scanBodyForCalls src known caller lines

def externCalls (lines : List Text) (filePath : String) : List Edge :=
  scanExternBlocksForPtr src known lines (KnownFuncs.inFile known filePath)

/-- One round of the loop over the files. -/
def scanFile (edges : Edges) (filePath : String) : Edges :=
  if (KnownFuncs.inFile known filePath).isEmpty then edges
  else
    match src.read filePath with
    | none => edges
    | some text =>
      let lines := splitFrom [] text
      (externCalls src known lines filePath).foldl KeyedTable.insertOrIgnore
        ((bodyCalls src known lines filePath).foldl record edges)

/-- `extract_call_edges`. -/
def extractCallEdges (sourceFiles : List String) : List Edge :=
  if known.rows.isEmpty then []
  else (sourceFiles.foldl (scanFile src known) KeyedTable.empty).rows

end Scan

/-! ## What the table holds -/

section Table
variable {edges : Edges} {e x : Edge} {l : List Edge} {k : String × String × ℕ}

theorem mem_keys_record : k ∈ (record edges e).keys ↔ k = e.site ∨ k ∈ edges.keys := by
  unfold record
  cases hlook : edges.lookup e.site with
  | none => exact KeyedTable.mem_keys_insertOrIgnore
  | some existing =>
    have hmem : e.site ∈ edges.keys :=
      List.mem_map.mpr ⟨existing,KeyedTable.lookup_eq_some_iff.mp hlook⟩
    have hold : k ∈ edges.keys ↔ k = e.site ∨ k ∈ edges.keys := by
      constructor
      · exact Or.inr
      · rintro (rfl | h)
        · exact hmem
        · exact h
    dsimp only
    split
    · rw [KeyedTable.keys_updateWhere]
      exact hold
    · exact hold

/-- The row that takes another type is the call itself. -/
theorem mem_rows_record (h : x ∈ (record edges e).rows) : x ∈ edges.rows ∨ x = e := by
  unfold record at h
  split at h
  · exact KeyedTable.mem_rows_insertOrIgnore h
  · split at h
    · rcases KeyedTable.mem_rows_updateWhere _ h with h | ⟨r,-,hr,rfl⟩
      · exact Or.inl h
      · right
        have hsite := of_decide_eq_true hr
        unfold Edge.site at hsite
        obtain ⟨hcaller,hrest⟩ := Prod.mk.inj hsite
        obtain ⟨hcallee,hline⟩ := Prod.mk.inj hrest
        unfold Edge.withType
        rw [hcaller,hcallee,hline]
    · exact Or.inl h

theorem mem_keys_foldl_record :
    k ∈ (l.foldl record edges).keys ↔ k ∈ l.map Edge.site ∨ k ∈ edges.keys := by
  induction l generalizing edges with
  | nil => simp
  | cons e l ih =>
    rw [List.foldl_cons,ih,mem_keys_record,List.map_cons,List.mem_cons]
    tauto

theorem mem_rows_foldl_record (h : x ∈ (l.foldl record edges).rows) : x ∈ edges.rows ∨ x ∈ l := by
  induction l generalizing edges with
  | nil => exact Or.inl h
  | cons e l ih =>
    rcases ih h with h | h
    · rcases mem_rows_record h with h | rfl
      · exact Or.inl h
      · exact Or.inr List.mem_cons_self
    · exact Or.inr (List.mem_cons_of_mem e h)

theorem mem_keys_foldl_insertOrIgnore :
    k ∈ (l.foldl KeyedTable.insertOrIgnore edges).keys ↔ k ∈ l.map Edge.site ∨ k ∈ edges.keys := by
  induction l generalizing edges with
  | nil => simp
  | cons e l ih =>
    rw [List.foldl_cons,ih,KeyedTable.mem_keys_insertOrIgnore,List.map_cons,List.mem_cons]
    tauto

/-- What is only inserted was not there yet. -/
theorem mem_rows_foldl_free (h : x ∈ (l.foldl KeyedTable.insertOrIgnore edges).rows) :
    x ∈ edges.rows ∨ x ∈ l ∧ x.site ∉ edges.keys := by
  by_cases hx : x ∈ edges.rows
  · exact Or.inl hx
  · right
    refine ⟨(KeyedTable.mem_rows_foldl_insertOrIgnore h).resolve_left hx,fun hkey => hx ?_⟩
    obtain ⟨y,hy,hsite⟩ := List.mem_map.mp hkey
    have hy' := (KeyedTable.prefix_foldl_insertOrIgnore edges l).subset hy
    rw [List.inj_on_of_nodup_map (l.foldl KeyedTable.insertOrIgnore edges).nodup h hy' hsite.symm]
    exact hy

end Table

section Recorded
variable {src : Sources} {known : KeyedTable KnownFunc.funcHash} {edges : Edges} {e x : Edge}
  {filePath : String} {files : List String} {text : Text}

/-- The edge is one of the file: a call in a body, or an extern declaration where no body calls. -/
def Kept (src : Sources) (known : KeyedTable KnownFunc.funcHash) (filePath : String) (e : Edge) :
    Prop :=
  ∃ text, src.read filePath = some text ∧
    (e ∈ bodyCalls src known (splitFrom [] text) filePath ∨
      e ∈ externCalls src known (splitFrom [] text) filePath ∧
        ∀ b ∈ bodyCalls src known (splitFrom [] text) filePath, b.site ≠ e.site)

theorem bodyCalls_of_no_funcs {lines : List Text} (h : KnownFuncs.inFile known filePath = []) :
    bodyCalls src known lines filePath = [] := by
  unfold bodyCalls
  rw [h,List.flatMap_nil]

theorem externCalls_of_no_funcs {lines : List Text} (h : KnownFuncs.inFile known filePath = []) :
    externCalls src known lines filePath = [] := by
  unfold externCalls scanExternBlocksForPtr
  rw [h]
  rfl

theorem mem_rows_scanFile (h : x ∈ (scanFile src known edges filePath).rows) :
    x ∈ edges.rows ∨ Kept src known filePath x := by
  unfold scanFile at h
  split at h
  · exact Or.inl h
  · split at h
    · exact Or.inl h
    · rename_i text htext
      rcases mem_rows_foldl_free h with h | ⟨h,hfree⟩
      · exact (mem_rows_foldl_record h).imp_right fun h => ⟨text,htext,Or.inl h⟩
      · refine Or.inr ⟨text,htext,Or.inr ⟨h,fun b hb hsite => hfree ?_⟩⟩
        exact mem_keys_foldl_record.mpr (Or.inl (List.mem_map.mpr ⟨b,hb,hsite⟩))

theorem mem_keys_scanFile (h : Kept src known filePath x ∨ x.site ∈ edges.keys) :
    x.site ∈ (scanFile src known edges filePath).keys := by
  unfold scanFile
  by_cases hnone : KnownFuncs.inFile known filePath = []
  · rw [if_pos (List.isEmpty_iff.mpr hnone)]
    rcases h with ⟨text,-,h⟩ | h
    · rw [bodyCalls_of_no_funcs hnone,externCalls_of_no_funcs hnone] at h
      rcases h with h | ⟨h,-⟩ <;> cases h
    · exact h
  · rw [if_neg (mt List.isEmpty_iff.mp hnone)]
    cases htext : src.read filePath with
    | none =>
      rcases h with ⟨text,htext',-⟩ | h
      · rw [htext] at htext'
        cases htext'
      · exact h
    | some text =>
      dsimp only
      rw [mem_keys_foldl_insertOrIgnore,mem_keys_foldl_record]
      rcases h with ⟨text',htext',h⟩ | h
      · cases htext.symm.trans htext'
        rcases h with h | ⟨h,-⟩
        · exact Or.inr (Or.inl (List.mem_map_of_mem h))
        · exact Or.inl (List.mem_map_of_mem h)
      · exact Or.inr (Or.inr h)

theorem mem_rows_scanFiles (h : x ∈ (files.foldl (scanFile src known) edges).rows) :
    x ∈ edges.rows ∨ ∃ filePath ∈ files, Kept src known filePath x := by
  induction files generalizing edges with
  | nil => exact Or.inl h
  | cons filePath files ih =>
    rcases ih h with h | ⟨f,hf,h⟩
    · exact (mem_rows_scanFile h).imp_right fun h => ⟨filePath,List.mem_cons_self,h⟩
    · exact Or.inr ⟨f,List.mem_cons_of_mem filePath hf,h⟩

theorem mem_keys_scanFiles (h : (∃ filePath ∈ files, Kept src known filePath x) ∨
    x.site ∈ edges.keys) : x.site ∈ (files.foldl (scanFile src known) edges).keys := by
  induction files generalizing edges with
  | nil =>
    rcases h with ⟨f,hf,-⟩ | h
    · cases hf
    · exact h
  | cons filePath files ih =>
    apply ih
    rcases h with ⟨f,hf,h⟩ | h
    · rcases List.mem_cons.mp hf with rfl | hf
      · exact Or.inr (mem_keys_scanFile (Or.inl h))
      · exact Or.inl ⟨f,hf,h⟩
    · exact Or.inr (mem_keys_scanFile (Or.inr h))

end Recorded

/-! ## Lines in extern blocks -/

section Blocks
variable {α : Type} {p : α → Bool} {xs run : List α} {y : α} {l : ℕ}

/-- The place, counted from 1, is one of three or more neighbours with the property. -/
def InRun (p : α → Bool) (xs : List α) (l : ℕ) : Prop :=
  ∃ before run after, xs = before ++ (run ++ after) ∧ 3 ≤ run.length ∧ (∀ x ∈ run, p x = true) ∧
    before.length < l ∧ l ≤ before.length + run.length

theorem inRun_concat_of_not (hy : p y = false) : InRun p (xs ++ [y]) l ↔ InRun p xs l := by
  constructor
  · rintro ⟨before,run,after,heq,hlong,hrun,hl⟩
    rcases List.eq_nil_or_concat after with rfl | ⟨after,z,rfl⟩
    · obtain ⟨front,z,rfl⟩ := (List.eq_nil_or_concat run).resolve_left (by rintro rfl; simp at hlong)
      rw [List.append_nil,List.concat_eq_append,← List.append_assoc] at heq
      have hz := (List.append_inj' heq rfl).2
      have htrue := hrun y (by simpa using Or.inr (List.head_eq_of_cons_eq hz))
      rw [hy] at htrue
      cases htrue
    · rw [List.concat_eq_append,← List.append_assoc,← List.append_assoc] at heq
      refine ⟨before,run,after,?_,hlong,hrun,hl⟩
      rw [(List.append_inj' heq rfl).1,List.append_assoc]
  · rintro ⟨before,run,after,rfl,h⟩
    exact ⟨before,run,after ++ [y],by simp,h⟩

theorem inRun_append_run (hrun : ∀ x ∈ run, p x = true) (hfront : ∀ y ∈ xs.getLast?, p y = false) :
    InRun p (xs ++ run) l ↔
      InRun p xs l ∨ 3 ≤ run.length ∧ xs.length < l ∧ l ≤ xs.length + run.length := by
  constructor
  · rintro ⟨before,r,after,heq,hlong,hr,hl⟩
    have hlen := congrArg List.length heq
    simp only [List.length_append] at hlen
    rcases List.append_eq_append_iff.mp heq with ⟨mid,rfl,rfl⟩ | ⟨mid,rfl,hmid⟩
    · right
      simp only [List.length_append] at hlen hl ⊢
      omega
    · rcases List.append_eq_append_iff.mp hmid with ⟨rest,rfl,-⟩ | ⟨rest,rfl,rfl⟩
      · exact Or.inl ⟨before,r,rest,by simp,hlong,hr,hl⟩
      · -- the neighbours begin in the list and may go on behind it
        rcases List.eq_nil_or_concat mid with rfl | ⟨front,z,rfl⟩
        · right
          simp only [List.append_nil,List.nil_append,List.length_append] at hlen hl hlong ⊢
          omega
        · have hz := hfront z (by simp)
          rw [hr z (by simp)] at hz
          cases hz
  · rintro (⟨before,r,after,rfl,h⟩ | ⟨hlong,hl⟩)
    · exact ⟨before,r,after ++ run,by simp,h⟩
    · exact ⟨xs,run,[],by simp,hlong,hrun,hl⟩

variable {isWord : Char → Bool} {lines : List Text}

/-- The blocks found so far are those before the run of extern lines that goes on. -/
structure BlockScan.At (isWord : Char → Bool) (lines : List Text) (s : BlockScan) : Prop where
  split : ∃ before run, lines = before ++ run ∧ (∀ x ∈ run, externLine isWord x = true) ∧
    (∀ y ∈ before.getLast?, externLine isWord y = false) ∧ (s.inBlock = false → run = []) ∧
    (s.inBlock = true → s.blockStart = before.length + 1) ∧ s.consecutive = run.length ∧
    ∀ l, (∃ b ∈ s.blocks, b.1 ≤ l ∧ l ≤ b.2) ↔ InRun (externLine isWord) before l

theorem BlockScan.At.closed {s : BlockScan} (h : s.At isWord lines) (l : ℕ) :
    (∃ b ∈ (if s.inBlock && decide (3 ≤ s.consecutive) then s.blocks ++ [(s.blockStart,lines.length)]
      else s.blocks), b.1 ≤ l ∧ l ≤ b.2) ↔ InRun (externLine isWord) lines l := by
  obtain ⟨before,run,rfl,hrun,hfront,hout,hin,hlen,hblocks⟩ := h.split
  rw [inRun_append_run hrun hfront,← hblocks]
  cases hb : s.inBlock with
  | false =>
    rw [hout hb]
    simp
  | true =>
    rw [Bool.true_and,hlen,hin hb]
    by_cases hlong : 3 ≤ run.length
    · rw [if_pos (decide_eq_true hlong)]
      simp only [List.mem_append,List.mem_singleton,or_and_right,exists_or,exists_eq_left,
        List.length_append,hlong,true_and,Order.add_one_le_iff]
    · rw [if_neg (by simpa using hlong)]
      simp [hlong]

theorem blockStep_at {s : BlockScan} (line : Text) (h : s.At isWord lines) :
    (blockStep isWord s (line,lines.length)).At isWord (lines ++ [line]) := by
  have hclosed := h.closed
  obtain ⟨before,run,rfl,hrun,hfront,hout,hin,hlen,hblocks⟩ := h.split
  unfold blockStep
  cases hline : externLine isWord line with
  | true =>
    rw [if_pos rfl]
    have hall : ∀ x ∈ run ++ [line], externLine isWord x = true := by
      intro x hx
      rcases List.mem_append.mp hx with hx | hx
      · exact hrun x hx
      · rw [List.mem_singleton.mp hx]
        exact hline
    cases hb : s.inBlock with
    | true =>
      rw [if_pos rfl]
      exact ⟨before,run ++ [line],by simp,hall,hfront,by simp,fun _ => hin hb,by simp [hlen],hblocks⟩
    | false =>
      rw [if_neg Bool.false_ne_true]
      have hnil := hout hb
      subst hnil
      exact ⟨before,[line],by simp,hall,hfront,nofun,fun _ => by simp,rfl,hblocks⟩
  | false =>
    rw [if_neg Bool.false_ne_true]
    refine ⟨before ++ run ++ [line],[],by simp,by simp,?_,fun _ => rfl,nofun,rfl,fun l => ?_⟩
    · intro y hy
      rw [List.getLast?_concat] at hy
      cases hy
      exact hline
    · rw [inRun_concat_of_not hline]
      exact hclosed l

theorem mem_findExternBlocks_iff {l : ℕ} :
    (∃ b ∈ findExternBlocks isWord lines, b.1 ≤ l ∧ l ≤ b.2) ↔ InRun (externLine isWord) lines l := by
  have hscan : (lines.zipIdx.foldl (blockStep isWord) ⟨[],false,0,0⟩).At isWord lines := by
    induction lines using List.reverseRecOn with
    | nil =>
      refine ⟨[],[],rfl,by simp,by simp,fun _ => rfl,nofun,rfl,fun l => iff_of_false (by simp) ?_⟩
      rintro ⟨before,run,after,heq,hlong,-⟩
      have hlen := congrArg List.length heq
      simp only [List.length_nil,List.length_append] at hlen
      omega
    | append_singleton lines line ih =>
      rw [List.zipIdx_append,List.foldl_append]
      simpa using blockStep_at line ih
  exact hscan.closed l

end Blocks

/-! ## What each scan finds -/

/-- The line lies in the body of the function. Without a last line that is known, the body goes three
hundred lines beyond the first. -/
def InBody (f : KnownFunc) (l : ℕ) : Prop :=
  0 < f.startLine ∧ f.startLine ≤ l ∧
    (l : ℤ) ≤ if 0 < f.endLine then f.endLine else f.startLine + 300

/-- A line of the body mentions the name in a way that is taken for a call. -/
structure Mention (lines : List Text) (caller : KnownFunc) (name : String) (l : ℕ)
    (callType : CallType) : Prop where
  named : name ≠ "" ∧ name ≠ caller.name
  body : InBody caller l
  line : ∃ line, lines[l - 1]? = some line ∧ ∃ code, codePart line = some code ∧
    classifyCallType code name.toList = some callType

/-- A line of an extern block declares the name. -/
structure Declares (isWord : Char → Bool) (lines : List Text) (name : String) (l : ℕ) : Prop where
  named : name ≠ ""
  block : InRun (externLine isWord) lines l
  line : ∃ line, lines[l - 1]? = some line ∧ externDeclares isWord line name.toList = true

section Found
variable {src : Sources} {known : KeyedTable KnownFunc.funcHash} {caller callee f : KnownFunc}
  {lines : List Text} {line code : Text} {name filePath h : String} {l : ℕ} {e : Edge}
  {callType : CallType}

theorem mem_numbered {start stop : ℕ} (hstart : 0 < start) :
    (line,l) ∈ ((lines.take stop).drop (start - 1)).zipIdx start ↔
      (start ≤ l ∧ l ≤ stop) ∧ lines[l - 1]? = some line := by
  rw [List.mk_mem_zipIdx_iff_le_and_getElem?_sub,List.getElem?_drop,and_assoc]
  refine and_congr_right fun hle => ?_
  have hindex : start - 1 + (l - start) = l - 1 := by omega
  rw [hindex,List.getElem?_take]
  by_cases hstop : l ≤ stop
  · rw [if_pos (by omega),and_iff_right hstop]
  · rw [if_neg (by omega)]
    exact iff_of_false nofun fun h => hstop h.1

theorem mem_bodyLines : (line,l) ∈ bodyLines f lines ↔ InBody f l ∧ lines[l - 1]? = some line := by
  unfold bodyLines InBody
  split
  · rename_i hout
    refine iff_of_false List.not_mem_nil ?_
    rintro ⟨⟨hpos,hle,-⟩,hline⟩
    have hlt := (List.getElem?_eq_some_iff.mp hline).1
    omega
  · rename_i hin
    rw [mem_numbered (by omega)]
    refine and_congr_left fun hline => ?_
    have hlt := (List.getElem?_eq_some_iff.mp hline).1
    split <;> omega

def firstNamed (known : KeyedTable KnownFunc.funcHash) (name : String) : Option KnownFunc :=
  known.rows.find? fun f => f.name = name

theorem name_of_firstNamed (hf : firstNamed known name = some f) : f ∈ known.rows ∧ f.name = name :=
  ⟨List.mem_of_find?_eq_some hf,by simpa using List.find?_some hf⟩

theorem pickCalleeHash_eq_some : pickCalleeHash (KnownFuncs.hashes known name) = some h ↔
    ∃ callee, firstNamed known name = some callee ∧ callee.funcHash = h := by
  unfold pickCalleeHash KnownFuncs.hashes
  rw [List.head?_map,List.head?_filter]
  exact Option.map_eq_some_iff

theorem mem_names : name ∈ KnownFuncs.names known ↔ name ≠ "" ∧ ∃ f ∈ known.rows, f.name = name := by
  unfold KnownFuncs.names
  rw [List.mem_dedup,List.mem_filter,List.mem_map,decide_eq_true_eq,and_comm]

theorem infix_of_occurrence {p : Text × Text → Bool}
    (h : (occurrences name.toList code).any p = true) : name.toList <:+: code := by
  obtain ⟨⟨before,behind⟩,hmem,-⟩ := List.any_eq_true.mp h
  exact ⟨before.reverse,behind,by rw [mem_occurrences.mp hmem,List.append_assoc]⟩

theorem infix_of_classified (h : classifyCallType code name.toList = some callType) :
    name.toList <:+: code := by
  unfold classifyCallType at h
  split at h
  · rename_i hdirect
    exact infix_of_occurrence hdirect
  · split at h
    · rename_i hptr
      exact infix_of_occurrence hptr
    · cases h

theorem externLine_of_declares {isWord : Char → Bool}
    (h : externDeclares isWord line name.toList = true) : externLine isWord line = true := by
  obtain ⟨rest,hrest,-⟩ := (Option.any_eq_true _ _).mp h
  unfold externLine
  rw [hrest]
  rfl

theorem infix_of_declared {isWord : Char → Bool}
    (h : externDeclares isWord line name.toList = true) : name.toList <:+: line := by
  unfold externDeclares at h
  obtain ⟨rest,hrest,h⟩ := (Option.any_eq_true _ _).mp h
  obtain ⟨⟨before,behind⟩,hmem,-⟩ := List.any_eq_true.mp h
  obtain ⟨mid,-,rfl⟩ := mem_occurrencesFrom.mp hmem
  unfold behindExtern at hrest
  dsimp only at hrest
  split at hrest
  · have hsuffix : mid ++ (name.toList ++ behind) <:+ line := by
      rw [← Option.some.inj hrest]
      exact (List.drop_suffix 6 _).trans (List.dropWhile_suffix _)
    obtain ⟨front,hfront⟩ := hsuffix
    exact ⟨front ++ mid,behind,by rw [← hfront]; simp⟩
  · cases hrest

/-- The calls found in a body are the mentions of names; each is one of the first function so named. -/
theorem mem_scanBodyForCalls : e ∈ scanBodyForCalls src known caller lines ↔
    ∃ callee, firstNamed known callee.name = some callee ∧ e.callerHash = caller.funcHash ∧
      e.calleeHash = callee.funcHash ∧
      Mention lines caller callee.name e.callSiteLine e.callType := by
  unfold scanBodyForCalls
  rw [List.mem_flatMap]
  constructor
  · rintro ⟨⟨line,l⟩,hl,he⟩
    obtain ⟨hbody,hline⟩ := mem_bodyLines.mp hl
    dsimp only at he
    split at he
    · cases he
    · rename_i code hcode
      obtain ⟨name,hname,he⟩ := List.mem_filterMap.mp he
      rw [(src.order_perm _).mem_iff,List.mem_filter,mem_names,decide_eq_true_eq] at hname
      obtain ⟨⟨hempty,-⟩,hother⟩ := hname
      split at he
      · split at he
        · cases he
        · rename_i h hpick
          obtain ⟨callee,hfirst,rfl⟩ := pickCalleeHash_eq_some.mp hpick
          obtain ⟨callType,hclass,rfl⟩ := Option.map_eq_some_iff.mp he
          obtain rfl := (name_of_firstNamed hfirst).2
          exact ⟨callee,hfirst,rfl,rfl,⟨hempty,hother⟩,hbody,line,hline,code,hcode,hclass⟩
      · cases he
  · rintro ⟨callee,hfirst,hcaller,hcallee,⟨hempty,hother⟩,hbody,line,hline,code,hcode,hclass⟩
    refine ⟨(line,e.callSiteLine),mem_bodyLines.mpr ⟨hbody,hline⟩,?_⟩
    dsimp only
    rw [hcode]
    refine List.mem_filterMap.mpr ⟨callee.name,?_,?_⟩
    · rw [(src.order_perm _).mem_iff,List.mem_filter,mem_names,decide_eq_true_eq]
      exact ⟨⟨hempty,callee,(name_of_firstNamed hfirst).1,rfl⟩,hother⟩
    · rw [if_pos (infix_of_classified hclass),pickCalleeHash_eq_some.mpr ⟨callee,hfirst,rfl⟩]
      dsimp only
      rw [hclass,← hcaller,← hcallee]
      rfl

theorem find_inFile {p : KnownFunc → Bool} : (KnownFuncs.inFile known filePath).find? p =
    known.rows.find? fun f => decide (f.filePath ≠ "" ∧ f.filePath = filePath) && p f := by
  unfold KnownFuncs.inFile
  rw [List.find?_filter]
  simp

/-- The dispatcher that an extern declaration of the file counts for. -/
def firstDispatcher (known : KeyedTable KnownFunc.funcHash) (filePath : String) : Option KnownFunc :=
  known.rows.find? fun f => decide (f.filePath ≠ "" ∧ f.filePath = filePath) && isDispatcher f

theorem mem_externCalls : e ∈ externCalls src known lines filePath ↔
    ∃ caller callee, firstDispatcher known filePath = some caller ∧
      firstNamed known callee.name = some callee ∧ callee.funcHash ≠ caller.funcHash ∧
      Declares src.isWord lines callee.name e.callSiteLine ∧
      e = ⟨caller.funcHash,callee.funcHash,e.callSiteLine,.externTable⟩ := by
  unfold externCalls scanExternBlocksForPtr firstDispatcher
  rw [find_inFile]
  split
  · rename_i hnone
    refine iff_of_false List.not_mem_nil ?_
    rintro ⟨caller,callee,hcaller,-⟩
    rw [hnone] at hcaller
    cases hcaller
  · rename_i d hd
    rw [List.mem_flatMap]
    constructor
    · rintro ⟨⟨first,last⟩,hblock,he⟩
      obtain ⟨l,hl,he⟩ := List.mem_flatMap.mp he
      rw [List.mem_range'_1] at hl
      split at he
      · cases he
      · rename_i line hline
        split at he
        · obtain ⟨name,hname,he⟩ := List.mem_filterMap.mp he
          rw [(src.order_perm _).mem_iff,mem_names] at hname
          split at he
          · rename_i hdeclared
            split at he
            · cases he
            · rename_i h hpick
              obtain ⟨callee,hfirst,rfl⟩ := pickCalleeHash_eq_some.mp hpick
              obtain rfl := (name_of_firstNamed hfirst).2
              split at he
              · cases he
              · rename_i hne
                cases he
                have hlast : l ≤ last := by omega
                refine ⟨d,callee,hd,hfirst,hne,⟨hname.1,?_,line,hline,hdeclared.2⟩,rfl⟩
                exact mem_findExternBlocks_iff.mp ⟨_,hblock,hl.1,hlast⟩
          · cases he
        · cases he
    · rintro ⟨caller,callee,hcaller,hfirst,hne,⟨hempty,hrun,line,hline,hdeclared⟩,he⟩
      cases hd.symm.trans hcaller
      obtain ⟨⟨first,last⟩,hblock,hl⟩ := mem_findExternBlocks_iff.mpr hrun
      refine ⟨(first,last),hblock,List.mem_flatMap.mpr ⟨e.callSiteLine,?_,?_⟩⟩
      · rw [List.mem_range'_1]
        dsimp only at hl
        omega
      · rw [hline]
        dsimp only
        rw [if_pos (externLine_of_declares hdeclared)]
        refine List.mem_filterMap.mpr ⟨callee.name,?_,?_⟩
        · rw [(src.order_perm _).mem_iff,mem_names]
          exact ⟨hempty,callee,(name_of_firstNamed hfirst).1,rfl⟩
        · rw [if_pos ⟨infix_of_declared hdeclared,hdeclared⟩,
            pickCalleeHash_eq_some.mpr ⟨callee,hfirst,rfl⟩]
          dsimp only
          rw [if_neg hne,← he]

end Found

end CallchainExtractor
end EntryAnalyse
