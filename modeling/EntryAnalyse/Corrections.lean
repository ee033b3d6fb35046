import EntryAnalyse.FunctionEnd
import EntryAnalyse.R1Registration

/-! What `apply_corrections` leaves in the rows: the lines of a function and its body come from
the correction, from the old row or from the search for its end, and `r2_script_validate` compares
them afterwards. -/
namespace EntryAnalyse
namespace Corrections

open PyJson PyText FunctionEnd R1Registration

/-! ## `r2_script_validate` -/

inductive R2Verdict
  | pass
  | mismatch
  deriving DecidableEq

structure R2ScriptResult where
  verdict : R2Verdict
  detail : String

/-- `_norm`: no white space at the ends of the lines and of the text. -/
def norm (text : String) : String := strip (joinLines ((splitlines text).map rstrip))

def r2ScriptValidate (startLine endLine : ℤ) (storedBody : String) (sourceLines : List String) :
    R2ScriptResult :=
  let total : ℤ := sourceLines.length
  let place := "[" ++ toString startLine ++ "," ++ toString endLine ++ "]"
  if startLine ≤ 0 ∨ endLine ≤ 0 ∨ total < startLine ∨ total < endLine then
    ⟨.mismatch,"行号越界 " ++ place ++ "，文件共 " ++ toString total ++ " 行"⟩
  else if norm (joinLines (slice sourceLines (startLine - 1) endLine)) = norm storedBody then
    ⟨.pass,"funcdb body 与源文件 " ++ place ++ " 完全一致"⟩
  else ⟨.mismatch,"funcdb body 与源文件 " ++ place ++ " 不符，转 agent 处理"⟩

/-! ## `apply_corrections` -/

/-- The body between two lines, or a hundred and fifty lines where the second is not behind the
first. -/
def bodyOf (lines : List String) (start stop : ℤ) : String :=
  if start ≤ 0 then ""
  else if start ≤ stop then joinLines (slice lines (start - 1) stop)
  else joinLines (slice lines (start - 1) (start - 1 + 150))

/-- The source file that the corrections are about; no lines where it cannot be read. -/
def fileSources (src : Sources) (lines : List String) : Sources :=
  { src with
    readable := fun _ => !lines.isEmpty
    body := fun _ => bodyOf lines
    findEnd := fun _ => findFunctionEnd lines }

/-- An item of the list. A number that is missing is 0, and a text that is missing is empty or
`none`. -/
structure Item where
  funcHash : String
  delete : Bool := false
  name : String := ""
  signature : Option String := none
  startLine : ℤ := 0
  endLine : ℤ := 0

def nonempty (s : String) : Option String := if s = "" then none else some s

/-- The branch that an item takes; `none` where it is passed over. -/
def Item.correction (c : Item) : Option Correction :=
  if c.funcHash = "" then none
  else if c.delete then some (.delete c.funcHash)
  else if c.funcHash = "new" then
    some (.new c.name (c.signature.getD c.name) c.startLine c.endLine)
  else some (.update c.funcHash (nonempty c.name) (c.signature.bind nonempty) c.startLine c.endLine)

variable (src : Sources) (lines : List String) (picked path : String)

def applyItem (db : FuncDb) (c : Item) : FuncDb :=
  match c.correction with
  | none => db
  | some k => applyCorrection (fileSources src lines) db picked path k

/-- `apply_corrections`; `picked` is the file hash that it takes for new rows. -/
def applyCorrections (db : FuncDb) (cs : List Item) : FuncDb :=
  cs.foldl (applyItem src lines picked path) db

/-! ## Rows in step -/

/-- The lines of a row are a range of the file and its body is what they hold. -/
structure InStep (r : FunctionRow) : Prop where
  first : 1 ≤ r.startLine
  range : r.startLine ≤ r.endLine
  body : r.body = joinLines (slice lines (r.startLine - 1) r.endLine)
  passes : (r2ScriptValidate r.startLine r.endLine r.body lines).verdict = .pass

/-- Where the reading of the old row's body ends. -/
def readTo (r : FunctionRow) : ℤ :=
  min lines.length (if r.startLine ≤ r.endLine then r.endLine else r.startLine + 149)

/-- The lines that an item gives for a row that is there fit together, with the old row's where
it gives none. -/
def FitsUpdate (r : FunctionRow) (start stop : ℤ) : Prop :=
  if 0 < start then if 0 < stop then start ≤ stop else findFunctionEnd lines start ≠ 0
  else 0 < r.startLine ∧
    if r.endLine ≤ 0 then findFunctionEnd lines r.startLine ≠ 0
    else if 0 < stop then r.startLine ≤ stop ∧ stop = readTo lines r
    else r.startLine ≤ r.endLine ∧ r.endLine ≤ lines.length

/-- The lines that an item gives for a new row fit together. -/
def FitsNew (start stop : ℤ) : Prop :=
  if 0 < stop then start ≤ stop else findFunctionEnd lines start ≠ 0

/-- The line numbers that an item gives lie in the file. -/
structure Inside (c : Item) : Prop where
  start_nonneg : 0 ≤ c.startLine
  start_le : c.startLine ≤ lines.length
  stop_nonneg : 0 ≤ c.endLine
  stop_le : c.endLine ≤ lines.length

section Rows

variable {lines}

theorem validate_pass_iff {start stop : ℤ} {body : String} (hstart : 1 ≤ start)
    (hle : start ≤ stop) (hbody : body = joinLines (slice lines (start - 1) stop)) :
    (r2ScriptValidate start stop body lines).verdict = .pass ↔ stop ≤ lines.length := by
  rw [r2ScriptValidate]
  by_cases hstop : stop ≤ lines.length
  · rw [if_neg (by omega),if_pos (by rw [hbody])]
    exact iff_of_true rfl hstop
  · rw [if_pos (by omega)]
    exact iff_of_false (fun h => by cases h) hstop

/-- A row is in step iff its lines are a range of the file and the body is theirs. -/
theorem inStep_iff (r : FunctionRow) : InStep lines r ↔ 1 ≤ r.startLine ∧
    r.startLine ≤ r.endLine ∧ r.endLine ≤ lines.length ∧
    r.body = joinLines (slice lines (r.startLine - 1) r.endLine) := by
  constructor
  · rintro ⟨hfirst,hrange,hbody,hpass⟩
    exact ⟨hfirst,hrange,(validate_pass_iff hfirst hrange hbody).mp hpass,hbody⟩
  · rintro ⟨hfirst,hrange,hlast,hbody⟩
    exact ⟨hfirst,hrange,hbody,(validate_pass_iff hfirst hrange hbody).mpr hlast⟩

theorem bodyOf_range {start stop : ℤ} (hstart : 1 ≤ start) (hle : start ≤ stop) :
    bodyOf lines start stop = joinLines (slice lines (start - 1) stop) := by
  rw [bodyOf,if_neg (by omega),if_pos hle]

/-- Whatever else is read, what lies behind the file does not count. -/
theorem slice_cut {start stop : ℤ} (hstart : 0 ≤ start) (hstop : 0 ≤ stop) :
    slice lines start stop = slice lines start (min lines.length stop) := by
  rw [slice_eq hstart hstop,slice_eq hstart (by omega)]
  congr 1
  rcases le_total stop lines.length with h | h
  · rw [min_eq_right h]
  · rw [min_eq_left h,Int.toNat_natCast,List.take_length,List.take_of_length_le]
    omega

/-- A reading that ends elsewhere in the file gives another body. -/
theorem eq_of_body_eq {start stop stop' : ℤ} (hlines : ∀ l ∈ lines, '\n' ∉ l.toList)
    (hstart : 1 ≤ start) (hstop : start ≤ stop) (hlast : stop ≤ lines.length)
    (hstop' : start ≤ stop')
    (h : joinLines (slice lines (start - 1) stop') = joinLines (slice lines (start - 1) stop)) :
    stop = min (lines.length : ℤ) stop' := by
  have hlen : ((slice lines (start - 1) stop).length : ℤ) = _ :=
    length_slice (by omega) (by omega)
  have hlen' : ((slice lines (start - 1) stop').length : ℤ) = _ :=
    length_slice (by omega) (by omega)
  have hne : slice lines (start - 1) stop ≠ [] := by
    intro hnil
    rw [hnil,List.length_nil] at hlen
    omega
  have hne' : slice lines (start - 1) stop' ≠ [] := by
    intro hnil
    rw [hnil,List.length_nil] at hlen'
    omega
  have heq := length_eq_of_joinLines hne' hne (fun l hl => hlines l (mem_of_mem_slice hl))
    (fun l hl => hlines l (mem_of_mem_slice hl)) h
  omega

end Rows

/-! ## One item -/

variable {src lines picked path}

section Update

variable {db : FuncDb} {h : String} {r : FunctionRow} {name signature : Option String}
  {start stop : ℤ}

/-- The last line that the update reads the body to, before a search. -/
def curEnd (r : FunctionRow) (start stop : ℤ) : ℤ :=
  if 0 < start then if 0 < stop then stop else 0 else r.endLine

def newStart (r : FunctionRow) (start : ℤ) : ℤ := if 0 < start then start else r.startLine

variable (src path name signature stop) in
/-- The row after an update that reads the body again. -/
theorem lookup_updateExisting (hr : db.functions.lookup h = some r) (hlines : lines ≠ [])
    (hstart : 0 < newStart r start) :
    ∃ r', (updateExisting (fileSources src lines) db path h name signature start stop).functions.lookup
        h = some r' ∧ r'.startLine = newStart r start ∧
      r'.endLine = (if curEnd r start stop ≤ 0 then findFunctionEnd lines (newStart r start)
        else if 0 < stop then stop else r.endLine) ∧
      r'.body = bodyOf lines (newStart r start)
        (if curEnd r start stop ≤ 0 then findFunctionEnd lines (newStart r start)
        else curEnd r start stop) := by
  have hread : (!lines.isEmpty) = true := by simpa using hlines
  by_cases hs : 0 < start
  · have hcur : curEnd r start stop = (positive stop).getD 0 := by
      rw [curEnd,if_pos hs,positive]
      split <;> rfl
    have hnew : newStart r start = start := if_pos hs
    rw [hnew] at hstart ⊢
    rw [hcur]
    simp only [updateExisting,positive,fileSources,hread,hs,and_self,if_true,
      FuncDb.updateFunction,FuncDb.lookup_updateFunctions,hr,Option.map_some]
    refine ⟨_,rfl,rfl,?_,rfl⟩
    simp only
    split_ifs <;> rfl
  · have hcur : curEnd r start stop = r.endLine := if_neg hs
    have hnew : newStart r start = r.startLine := if_neg hs
    rw [hnew] at hstart ⊢
    rw [hcur]
    simp only [updateExisting,positive,if_neg hs,fileSources,hread,hstart,hr,Option.map_some,
      Option.getD_some,and_self,if_true,FuncDb.updateFunction,FuncDb.lookup_updateFunctions]
    refine ⟨_,rfl,rfl,?_,rfl⟩
    simp only
    split_ifs <;> rfl

variable (src path name signature stop) in
/-- The row after an update that does not. -/
theorem lookup_updateExisting_blind (hr : db.functions.lookup h = some r)
    (hblind : lines = [] ∨ newStart r start ≤ 0) :
    ∃ r', (updateExisting (fileSources src lines) db path h name signature start stop).functions.lookup
        h = some r' ∧ r'.startLine = newStart r start := by
  have hread : ¬(0 < newStart r start ∧ (!lines.isEmpty) = true) := by
    rintro ⟨hpos,hne⟩
    rcases hblind with rfl | hle
    · cases hne
    · omega
  by_cases hs : 0 < start
  · have hnew : newStart r start = start := if_pos hs
    rw [hnew] at hread ⊢
    simp only [updateExisting,positive,if_pos hs,fileSources,if_neg hread,
      FuncDb.updateFunction,FuncDb.lookup_updateFunctions,hr,Option.map_some]
    exact ⟨_,rfl,rfl⟩
  · have hnew : newStart r start = r.startLine := if_neg hs
    rw [hnew] at hread ⊢
    simp only [updateExisting,positive,if_neg hs,fileSources,hr,Option.map_some,Option.getD_some,
      if_neg hread,FuncDb.updateFunction,FuncDb.lookup_updateFunctions,if_true]
    exact ⟨_,rfl,rfl⟩

/-- A body that is read to the end that is stored. -/
theorem range_iff (hstart : 0 < start) : (1 ≤ start ∧ start ≤ stop ∧ stop ≤ lines.length ∧
    bodyOf lines start stop = joinLines (slice lines (start - 1) stop)) ↔
      start ≤ stop ∧ stop ≤ lines.length := by
  constructor
  · exact fun h => ⟨h.2.1,h.2.2.1⟩
  · exact fun h => ⟨hstart,h.1,h.2,bodyOf_range hstart h.1⟩

/-- An end that is searched for is stored and read to, if it is found. -/
theorem search_iff : (1 ≤ start ∧ start ≤ findFunctionEnd lines start ∧
    findFunctionEnd lines start ≤ lines.length ∧ bodyOf lines start (findFunctionEnd lines start) =
      joinLines (slice lines (start - 1) (findFunctionEnd lines start))) ↔
      findFunctionEnd lines start ≠ 0 := by
  constructor
  · intro h
    omega
  · intro h
    obtain ⟨hfirst,hrange,hlast⟩ := findFunctionEnd_bounds h
    exact ⟨hfirst,hrange,hlast,bodyOf_range hfirst hrange⟩

/-- A body that is read to the old end is that of the new one only where the two agree. -/
theorem read_iff (hlines : ∀ l ∈ lines, '\n' ∉ l.toList) (hpos : 0 < r.startLine)
    (hstop : stop ≤ lines.length) : (1 ≤ r.startLine ∧ r.startLine ≤ stop ∧ stop ≤ lines.length ∧
    bodyOf lines r.startLine r.endLine = joinLines (slice lines (r.startLine - 1) stop)) ↔
      r.startLine ≤ stop ∧ stop = readTo lines r := by
  have hbody : bodyOf lines r.startLine r.endLine = joinLines (slice lines (r.startLine - 1)
      (if r.startLine ≤ r.endLine then r.endLine else r.startLine + 149)) := by
    rw [bodyOf,if_neg (not_le.mpr hpos)]
    split
    · rfl
    · rw [show r.startLine - 1 + 150 = r.startLine + 149 by omega]
  have hread : r.startLine ≤ if r.startLine ≤ r.endLine then r.endLine else r.startLine + 149 := by
    split <;> omega
  rw [hbody]
  constructor
  · rintro ⟨-,hle,-,heq⟩
    exact ⟨hle,eq_of_body_eq hlines hpos hle hstop hread heq⟩
  · rintro ⟨hle,heq⟩
    refine ⟨hpos,hle,hstop,?_⟩
    rw [slice_cut (by omega) (by omega),heq,readTo]

variable (src path name signature) in
theorem inStep_updated (hlines : ∀ l ∈ lines, '\n' ∉ l.toList)
    (hr : db.functions.lookup h = some r) (hstart : start ≤ lines.length) (hstop : 0 ≤ stop)
    (hstop' : stop ≤ lines.length) :
    ∃ r', (updateExisting (fileSources src lines) db path h name signature start stop).functions.lookup
        h = some r' ∧ (InStep lines r' ↔ FitsUpdate lines r start stop) := by
  by_cases hblind : lines = [] ∨ newStart r start ≤ 0
  · obtain ⟨r',hr',hrow⟩ := lookup_updateExisting_blind src path name signature stop hr hblind
    refine ⟨r',hr',iff_of_false (fun hin => ?_) fun hfits => ?_⟩
    · obtain ⟨hfirst,hrange,hlast,-⟩ := (inStep_iff r').mp hin
      rw [hrow] at hfirst hrange
      rcases hblind with rfl | hle
      · simp at hlast
        omega
      · omega
    · rw [FitsUpdate] at hfits
      split at hfits
      · rename_i hs
        rw [newStart,if_pos hs] at hblind
        rcases hblind with rfl | hle
        · simp at hstart
          omega
        · omega
      · rename_i hs
        rw [newStart,if_neg hs] at hblind
        rcases hblind with rfl | hle
        · obtain ⟨hpos,hfits⟩ := hfits
          split at hfits
          · exact absurd (findFunctionEnd_bounds hfits) (by simp; omega)
          · simp at hstop' hfits
            split at hfits <;> omega
        · omega
  · rw [not_or,not_le] at hblind
    obtain ⟨r',hr',hrow,hend,hbody⟩ := 
      lookup_updateExisting src path name signature stop hr hblind.1 hblind.2
    refine ⟨r',hr',?_⟩
    rw [inStep_iff,hrow,hend,hbody]
    by_cases hs : 0 < start
    · simp only [newStart,curEnd,FitsUpdate,if_pos hs]
      by_cases he : 0 < stop
      · rw [if_pos he,if_neg (not_le.mpr he),if_pos he,if_neg (not_le.mpr he),if_pos he,
          range_iff hs]
        exact and_iff_left hstop'
      · rw [if_neg he,if_pos le_rfl,if_pos le_rfl,if_neg he]
        exact search_iff
    · have hpos : 0 < r.startLine := by
        have := hblind.2
        rwa [newStart,if_neg hs] at this
      simp only [newStart,curEnd,FitsUpdate,if_neg hs,and_iff_right hpos]
      by_cases hold : r.endLine ≤ 0
      · rw [if_pos hold,if_pos hold,if_pos hold]
        exact search_iff
      · rw [if_neg hold,if_neg hold,if_neg hold]
        by_cases he : 0 < stop
        · rw [if_pos he,if_pos he]
          exact read_iff hlines hpos hstop'
        · rw [if_neg he,if_neg he]
          exact range_iff hpos

end Update

section Items

variable (src : Sources) (lines : List String) (picked path : String)

/-- The item writes the row of `h`: it updates the row that is there, or adds one. -/
def Writes (db : FuncDb) (c : Item) (h : String) : Prop :=
  match c.correction with
  | some (.update h' _ _ _ _) => h' = h ∧ (db.functions.lookup h).isSome = true
  | some (.new name _ start _) =>
    name ≠ "" ∧ start ≠ 0 ∧ src.funcHash path name start = h ∧ db.functions.lookup h = none
  | _ => False

def Removes (c : Item) (h : String) : Prop := c.correction = some (.delete h)

/-- The lines of the item fit together, in the state that it is applied to. -/
def Fits (db : FuncDb) (c : Item) : Prop :=
  match c.correction with
  | some (.update h _ _ start stop) =>
    ∀ r, db.functions.lookup h = some r → FitsUpdate lines r start stop
  | some (.new _ _ start stop) => FitsNew lines start stop
  | _ => True

variable {src lines picked path} {db : FuncDb} {c : Item} {h : String}

theorem lookup_deleteFunction (db : FuncDb) (d h : String) :
    (db.deleteFunction d).functions.lookup h = if h = d then none else db.functions.lookup h := by
  split
  · rename_i hd
    subst hd
    cases hr : (db.deleteFunction h).functions.lookup h with
    | none => rfl
    | some r =>
      obtain ⟨hmem,hk⟩ := KeyedTable.lookup_eq_some_iff.mp hr
      have hne := (List.mem_filter.mp hmem).2
      simp [hk] at hne
  · rename_i hd
    exact KeyedTable.lookup_deleteWhere_of_ne _ hd

/-- An update leaves the other rows alone. -/
theorem lookup_updateExisting_other {src : Sources} {d : String} {name signature : Option String}
    {start stop : ℤ} (hd : h = d → db.functions.lookup h = none) :
    (updateExisting src db path d name signature start stop).functions.lookup h =
      db.functions.lookup h := by
  have hother : ∀ f hf, (db.updateFunctions d f hf).functions.lookup h = db.functions.lookup h := by
    intro f hf
    rw [FuncDb.lookup_updateFunctions]
    split
    · rename_i heq
      rw [hd heq]
      rfl
    · rfl
  rw [updateExisting]
  simp only [FuncDb.updateFunction]
  split <;> split <;> exact hother _ _

/-- The row of a hash that an item neither writes nor removes stays as it is. -/
theorem lookup_applyItem (hw : ¬Writes src path db c h) (hr : ¬Removes c h) :
    (applyItem src lines picked path db c).functions.lookup h = db.functions.lookup h := by
  rw [Writes] at hw
  rw [Removes] at hr
  rw [applyItem]
  cases hc : c.correction with
  | none => rfl
  | some k =>
    rw [hc] at hw hr
    cases k with
    | delete d =>
      have hne : h ≠ d := fun heq => hr (by rw [heq])
      exact (lookup_deleteFunction db d h).trans (if_neg hne)
    | new name signature start stop =>
      simp only [applyCorrection]
      split
      · rfl
      · rename_i hno
        rw [not_or] at hno
        rw [FuncDb.insertFunction]
        simp only [KeyedTable.lookup_insertOrIgnore]
        cases hl : db.functions.lookup h with
        | some r => rfl
        | none =>
          rw [Option.none_or,if_neg]
          exact fun heq => hw ⟨hno.1,hno.2,heq,hl⟩
    | update d name signature start stop =>
      refine lookup_updateExisting_other fun heq => ?_
      cases hl : db.functions.lookup h with
      | none => rfl
      | some r => exact absurd ⟨heq.symm,by rw [hl]; rfl⟩ hw

theorem lookup_removed (hr : Removes c h) :
    (applyItem src lines picked path db c).functions.lookup h = none := by
  rw [Removes] at hr
  rw [applyItem,hr]
  exact (lookup_deleteFunction db h h).trans (if_pos rfl)

theorem correction_new {name signature : String} {start stop : ℤ}
    (hc : c.correction = some (.new name signature start stop)) :
    start = c.startLine ∧ stop = c.endLine := by
  rw [Item.correction] at hc
  split at hc
  · cases hc
  · split at hc
    · cases hc
    · split at hc
      · cases hc
        exact ⟨rfl,rfl⟩
      · cases hc

theorem correction_update {d : String} {name signature : Option String} {start stop : ℤ}
    (hc : c.correction = some (.update d name signature start stop)) :
    start = c.startLine ∧ stop = c.endLine := by
  rw [Item.correction] at hc
  split at hc
  · cases hc
  · split at hc
    · cases hc
    · split at hc
      · cases hc
      · cases hc
        exact ⟨rfl,rfl⟩

/-- The row that is added. -/
theorem inStep_newRow {funcHash fileHash name signature : String} {start stop : ℤ}
    (hstart : 0 < start) (hstop' : stop ≤ lines.length) :
    InStep lines (newRow funcHash fileHash name signature start
      (if stop ≤ 0 then findFunctionEnd lines start else stop)
      (bodyOf lines start (if stop ≤ 0 then findFunctionEnd lines start else stop))) ↔
      FitsNew lines start stop := by
  rw [inStep_iff,FitsNew]
  simp only [newRow]
  by_cases he : 0 < stop
  · rw [if_neg (not_le.mpr he),if_pos he,range_iff hstart]
    exact and_iff_left hstop'
  · rw [if_pos (not_lt.mp he),if_neg he]
    exact search_iff

variable (picked) in
/-- A row that an item writes is in step iff the lines of the item fit together. -/
theorem inStep_written (hlines : ∀ l ∈ lines, '\n' ∉ l.toList) (hin : Inside lines c)
    (hw : Writes src path db c h) :
    ∃ r, (applyItem src lines picked path db c).functions.lookup h = some r ∧
      (InStep lines r ↔ Fits lines db c) := by
  rw [Writes] at hw
  rw [applyItem,Fits]
  cases hc : c.correction with
  | none =>
    rw [hc] at hw
    exact hw.elim
  | some k =>
    rw [hc] at hw
    cases k with
    | delete d => exact hw.elim
    | new name signature start stop =>
      obtain ⟨rfl,rfl⟩ := correction_new hc
      obtain ⟨hname,hstart,rfl,hnone⟩ := hw
      have hpos : 0 < c.startLine := lt_of_le_of_ne hin.start_nonneg (Ne.symm hstart)
      have hne : lines ≠ [] := by
        rintro rfl
        have := hin.start_le
        simp at this
        omega
      have hread : (!lines.isEmpty) = true := by simpa using hne
      have hskip : ¬(name = "" ∨ c.startLine = 0) := not_or.mpr ⟨hname,hstart⟩
      simp only [applyCorrection,if_neg hskip,fileSources,hread,and_true,FuncDb.insertFunction,
        KeyedTable.lookup_insertOrIgnore,hnone,Option.none_or,newRow,if_true]
      exact ⟨_,rfl,inStep_newRow hpos hin.stop_le⟩
    | update d name signature start stop =>
      obtain ⟨rfl,rfl⟩ := correction_update hc
      obtain ⟨rfl,hsome⟩ := hw
      obtain ⟨r,hr⟩ := Option.isSome_iff_exists.mp hsome
      obtain ⟨r',hr',hiff⟩ := inStep_updated src path name signature hlines hr hin.start_le hin.stop_nonneg hin.stop_le
      refine ⟨r',hr',hiff.trans ?_⟩
      simp only [hr,Option.some.injEq,forall_eq']

end Items

/-! ## A list of items -/

section Lists

variable (src : Sources) (lines : List String) (picked path : String)

def Changes (db : FuncDb) (c : Item) (h : String) : Prop := Writes src path db c h ∨ Removes c h

/-- No item of the list changes the row of `h`. -/
def Quiet (h : String) : FuncDb → List Item → Prop
  | _,[] => True
  | db,c :: cs =>
    ¬Changes src path db c h ∧ Quiet h (applyItem src lines picked path db c) cs

/-- The lines of the item that writes the row of `h` last fit together. -/
def LastFits (h : String) : FuncDb → List Item → Prop
  | _,[] => True
  | db,c :: cs =>
    (Writes src path db c h → Quiet src lines picked path h (applyItem src lines picked path db c) cs →
      Fits lines db c) ∧ LastFits h (applyItem src lines picked path db c) cs

/-- An item names the row of `h`. -/
def Names (c : Item) (h : String) : Prop :=
  (∃ name signature start stop, c.correction = some (.update h name signature start stop)) ∨
    c.correction = some (.delete h)

/-- After the corrections every row that they name or add is in step with the file, and the
other rows are as they were. -/
structure KeepsInStep (db : FuncDb) (cs : List Item) : Prop where
  touched : ∀ h, ((∃ c ∈ cs, Names c h) ∨ db.functions.lookup h = none) →
    ∀ r, (applyCorrections src lines picked path db cs).functions.lookup h = some r → InStep lines r
  others : ∀ h, (∀ c ∈ cs, ¬Names c h) → (db.functions.lookup h).isSome = true →
    (applyCorrections src lines picked path db cs).functions.lookup h = db.functions.lookup h

variable {src lines picked path} {db : FuncDb} {cs : List Item} {h : String}

theorem Quiet.lookup (hq : Quiet src lines picked path h db cs) :
    (applyCorrections src lines picked path db cs).functions.lookup h = db.functions.lookup h := by
  induction cs generalizing db with
  | nil => rfl
  | cons c cs ih =>
    obtain ⟨hno,hq⟩ := hq
    obtain ⟨hw,hr⟩ := not_or.mp hno
    exact (ih hq).trans (lookup_applyItem hw hr)

theorem Quiet.lastFits (hq : Quiet src lines picked path h db cs) :
    LastFits src lines picked path h db cs := by
  induction cs generalizing db with
  | nil => trivial
  | cons c cs ih =>
    obtain ⟨hno,hq⟩ := hq
    exact ⟨fun hw => absurd (.inl hw) hno,ih hq⟩

/-- The row of a hash that the list changes is in step iff the last item that writes it fits. -/
theorem inStep_iff_lastFits (hlines : ∀ l ∈ lines, '\n' ∉ l.toList)
    (hin : ∀ c ∈ cs, Inside lines c) (hq : ¬Quiet src lines picked path h db cs) :
    (∀ r, (applyCorrections src lines picked path db cs).functions.lookup h = some r →
      InStep lines r) ↔ LastFits src lines picked path h db cs := by
  induction cs generalizing db with
  | nil => exact absurd trivial hq
  | cons c cs ih =>
    have hstep : applyCorrections src lines picked path db (c :: cs) =
        applyCorrections src lines picked path (applyItem src lines picked path db c) cs := rfl
    rw [hstep,LastFits]
    by_cases hqs : Quiet src lines picked path h (applyItem src lines picked path db c) cs
    · rw [hqs.lookup,and_iff_left hqs.lastFits]
      have hchange : Changes src path db c h := by
        by_contra hno
        exact hq ⟨hno,hqs⟩
      by_cases hw : Writes src path db c h
      · obtain ⟨r,hr,hiff⟩ := inStep_written picked hlines (hin c List.mem_cons_self) hw
        simp only [hr,Option.some.injEq,forall_eq',hiff]
        exact ⟨fun hf _ _ => hf,fun hf => hf hw hqs⟩
      · rw [lookup_removed (hchange.resolve_left hw)]
        exact iff_of_true (fun r hr => by cases hr) fun hw' => absurd hw' hw
    · rw [and_iff_right fun _ hq' => absurd hq' hqs]
      exact ih (fun d hd => hin d (List.mem_cons_of_mem _ hd)) hqs

theorem names_of_writes {c : Item} (hw : Writes src path db c h)
    (hsome : (db.functions.lookup h).isSome = true) : Names c h := by
  rw [Writes] at hw
  split at hw
  · rename_i hc
    rw [← hw.1]
    exact .inl ⟨_,_,_,_,hc⟩
  · rw [hw.2.2.2] at hsome
    cases hsome
  · exact hw.elim

/-- A row that is there and that no item names is left alone. -/
theorem quiet_of_unnamed (hno : ∀ c ∈ cs, ¬Names c h)
    (hsome : (db.functions.lookup h).isSome = true) : Quiet src lines picked path h db cs := by
  induction cs generalizing db with
  | nil => trivial
  | cons c cs ih =>
    have hc := hno c List.mem_cons_self
    have hchange : ¬Changes src path db c h := by
      rintro (hw | hr)
      · exact hc (names_of_writes hw hsome)
      · exact hc (.inr hr)
    obtain ⟨hw,hr⟩ := not_or.mp hchange
    refine ⟨hchange,ih (fun d hd => hno d (List.mem_cons_of_mem _ hd)) ?_⟩
    rw [lookup_applyItem hw hr]
    exact hsome

/-- A list that names a row that is there changes it. -/
theorem not_quiet_of_names {c : Item} (hc : c ∈ cs) (hn : Names c h)
    (hsome : (db.functions.lookup h).isSome = true) : ¬Quiet src lines picked path h db cs := by
  induction cs generalizing db with
  | nil => cases hc
  | cons d cs ih =>
    rintro ⟨hno,hq⟩
    obtain ⟨hw,hr⟩ := not_or.mp hno
    rcases List.mem_cons.mp hc with rfl | hc
    · rcases hn with ⟨name,signature,start,stop,hcorr⟩ | hcorr
      · refine hw ?_
        rw [Writes,hcorr]
        exact ⟨rfl,hsome⟩
      · exact hr hcorr
    · refine ih hc ?_ hq
      rw [lookup_applyItem hw hr]
      exact hsome

/-- Corrections keep the rows in step iff the lines of each item that is the last to write its
row fit together. -/
theorem keepsInStep_iff (src : Sources) (text picked path : String) (db : FuncDb)
    (cs : List Item) (hin : ∀ c ∈ cs, Inside (splitlines text) c) :
    KeepsInStep src (splitlines text) picked path db cs ↔
      ∀ h, LastFits src (splitlines text) picked path h db cs := by
  have hlines : ∀ l ∈ splitlines text, '\n' ∉ l.toList := fun l hl => newline_not_mem hl
  constructor
  · intro hk h
    by_cases hq : Quiet src (splitlines text) picked path h db cs
    · exact hq.lastFits
    · refine (inStep_iff_lastFits hlines hin hq).mp (hk.touched h ?_)
      by_contra hno
      rw [not_or] at hno
      push Not at hno
      exact hq (quiet_of_unnamed hno.1 (Option.isSome_iff_ne_none.mpr hno.2))
  · intro hfits
    refine ⟨fun h ht r hr => ?_,fun h hno hsome => (quiet_of_unnamed hno hsome).lookup⟩
    by_cases hq : Quiet src (splitlines text) picked path h db cs
    · rw [hq.lookup] at hr
      rcases ht with ⟨c,hc,hn⟩ | hnone
      · exact absurd hq (not_quiet_of_names hc hn (by rw [hr]; rfl))
      · rw [hnone] at hr
        cases hr
    · exact (inStep_iff_lastFits hlines hin hq).mpr (hfits h) r hr

end Lists

/-- A file of two functions. -/
def twoFunctions : String := "int f(void)\n\x7b\n\x7d\nint g(void)\n\x7b\n\x7d\n"

/-- Hashes that tell the functions of one file apart. -/
def plainSources : Sources where
  extract := fun _ => []
  funcHash := fun _ name line => "h" ++ name ++ toString line
  relPath := id
  readable := fun _ => true
  body := fun _ _ _ => ""
  findEnd := fun _ _ => 0
  funcHash_ne := by
    intro path name line h
    simpa using congrArg String.toList h

/-- The first function as it was extracted. -/
def firstStored : FuncDb :=
  FuncDb.empty.insertFunction "hf1" "a1" "f" "int f(void)" 1 3 "int f(void)\n\x7b\n\x7d"

/-- The end of the first function is moved. -/
def endOnly : Item := { funcHash := "hf1", endLine := 6 }

/-- The second function is added; its end is searched for. -/
def addSecond : Item := { funcHash := "new", name := "g", startLine := 4 }

/-- An item that moves only the end of a function leaves the old body, and one whose end lies
before its start stores an inverted range. -/
theorem corrections_out_of_step : Inside (splitlines twoFunctions) endOnly ∧
    (((applyCorrections plainSources (splitlines twoFunctions) "a1" "/a.c" firstStored
      [endOnly]).functions.lookup "hf1").map fun r => (r.startLine,r.endLine,r.body,
        (r2ScriptValidate r.startLine r.endLine r.body (splitlines twoFunctions)).verdict)) =
      some (1,6,"int f(void)\n\x7b\n\x7d",.mismatch) ∧
    ¬KeepsInStep plainSources (splitlines twoFunctions) "a1" "/a.c" firstStored [endOnly] ∧
    (((applyCorrections plainSources (splitlines twoFunctions) "a1" "/a.c" firstStored
      [{ addSecond with endLine := 2 }]).functions.lookup "hg4").map
        fun r => (r.startLine,r.endLine)) = some (4,2) := by
  have hrow : (((applyCorrections plainSources (splitlines twoFunctions) "a1" "/a.c" firstStored
      [endOnly]).functions.lookup "hf1").map fun r => (r.startLine,r.endLine,r.body,
        (r2ScriptValidate r.startLine r.endLine r.body (splitlines twoFunctions)).verdict)) =
      some (1,6,"int f(void)\n\x7b\n\x7d",.mismatch) := by decide
  refine ⟨⟨by decide,by decide +kernel,by decide,by decide +kernel⟩,hrow,fun hk => ?_,
    by decide +kernel⟩
  obtain ⟨r,hr,hrow⟩ := Option.map_eq_some_iff.mp hrow
  have hin := hk.touched "hf1"
    (.inl ⟨_,List.mem_singleton_self _,.inl ⟨none,none,0,6,by decide +kernel⟩⟩) r hr
  have hpass := hin.passes
  rw [(Prod.mk.inj (Prod.mk.inj (Prod.mk.inj hrow).2).2).2] at hpass
  cases hpass

theorem second_kept_in_step :
    KeepsInStep plainSources (splitlines twoFunctions) "a1" "/a.c" firstStored [addSecond] := by
  refine (keepsInStep_iff plainSources twoFunctions "a1" "/a.c" firstStored [addSecond]
    fun c hc => ?_).mpr fun h => ⟨fun _ _ => ?_,trivial⟩
  · rw [List.mem_singleton.mp hc]
    exact ⟨by decide,by decide,by decide,by decide⟩
  · have hfits : FitsNew (splitlines twoFunctions) 4 0 := by
      rw [FitsNew,if_neg (by decide)]
      decide
    exact hfits

end Corrections
end EntryAnalyse
