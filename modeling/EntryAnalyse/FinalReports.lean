import EntryAnalyse.AgentResult
import EntryAnalyse.PyText

/-! The two final reports over the entries of a run: what they render in sections, and what they
count. -/
namespace EntryAnalyse
namespace FinalReports

open PyJson PyText Runner

/-! ## Entries -/

/-- An item of `taint_details` that is an object. -/
structure TaintDetail where
  name : Option String := none
  description : Option String := none

/-- An entry, any of whose fields may be missing. -/
structure Entry where
  function : Option String := none
  tag : Option String := none
  entryRole : Option String := none
  entryCategory : Option String := none
  entryConfidence : Option ℚ := none
  file : Option String := none
  line : Option ℤ := none
  signature : Option String := none
  taints : List PyJson := []
  taintDetails : List TaintDetail := []
  functionDescription : Option String := none
  entryReason : Option String := none
  funcHash : Option String := none
  callerEntry : Option String := none

namespace Entry

variable (e : Entry)

/-- The role under which `generate_report` groups an entry. -/
def role : String := strip (e.entryRole.getD "")

def isProcessing : Bool := e.entryCategory == some "处理入口"

def isActive : Bool := e.tag == some "A"

end Entry

/-- What a report counts. -/
inductive Group where
  | all
  | role (role : String)
  | category (processing : Bool)
  | part (processing : Bool) (role : String)
  | tag (active : Bool)
  deriving DecidableEq

/-- The kinds of groups that divide the entries. -/
inductive Kind where
  | role | category | tag

namespace Group

/-- Whether an entry is of the group, where this is how roles are read. -/
def holds (roleOf : Entry → String) : Group → Entry → Bool
  | all,_ => true
  | role r,e => roleOf e == r
  | category processing,e => e.isProcessing == processing
  | part processing r,e => e.isProcessing == processing && roleOf e == r
  | tag active,e => e.isActive == active

def isOf : Kind → Group → Bool
  | .role,role _ => true
  | .category,category _ => true
  | .tag,tag _ => true
  | _,_ => false

end Group

/-! ## Reports -/

/-- A piece of a line: a text, or the number that is printed for a group. -/
inductive Piece where
  | text (s : String)
  | count (g : Group) (n : ℕ)

/-- A part of a report: a line, the lines of one table, or the section of an entry. -/
inductive Block where
  | line (pieces : List Piece)
  | table (rows : List (List Piece))
  | entry (e : Entry) (text : String)

abbrev Report : Type := List Block

def Piece.render : Piece → String
  | .text s => s
  | .count _ n => toString n

def renderLine (pieces : List Piece) : String := String.join (pieces.map Piece.render)

def Block.render : Block → List String
  | .line pieces => [renderLine pieces]
  | .table rows => rows.map renderLine
  | .entry _ text => [text]

/-- The text of a report. -/
def render (report : Report) : String := joinLines (report.flatMap Block.render)

def Piece.counts : Piece → List (Group × ℕ)
  | .text _ => []
  | .count g n => [(g,n)]

def rowCounts (rows : List (List Piece)) : List (Group × ℕ) := rows.flatten.flatMap Piece.counts

namespace Block

def counts : Block → List (Group × ℕ)
  | line pieces => rowCounts [pieces]
  | table rows => rowCounts rows
  | entry .. => []

def entries : Block → List Entry
  | entry e _ => [e]
  | _ => []

/-- The counts of a table, one by one. -/
def tables : Block → List (List (Group × ℕ))
  | table rows => [rowCounts rows]
  | _ => []

end Block

/-- The entries with a section, in their order. -/
def sections (report : Report) : List Entry := report.flatMap Block.entries

def counts (report : Report) : List (Group × ℕ) := report.flatMap Block.counts

def tables (report : Report) : List (List (Group × ℕ)) := report.flatMap Block.tables

/-- The counts of one kind in a table. -/
def ofKind (kind : Kind) (table : List (Group × ℕ)) : List ℕ :=
  (table.filter fun p => p.1.isOf kind).map Prod.snd

/-- Each entry has one section, each count is the number of sections of its group, and the counts
of one kind in a table add up to all of them. -/
structure Complete (roleOf : Entry → String) (report : Report) (entries : List Entry) : Prop where
  once : (sections report).Perm entries
  counted : ∀ p ∈ counts report, p.2 = (sections report).countP (p.1.holds roleOf)
  sums : ∀ table ∈ tables report, ∀ kind, ofKind kind table = [] ∨
    (ofKind kind table).sum = (sections report).length

def plain (lines : List String) : Report := lines.map fun s => .line [.text s]

/-! ## The first report -/

/-- How Python writes the numbers of a report, and the marks it gives to a confidence. -/
structure Formats where
  fixed2 : ℚ → String
  bar : ℚ → ℕ → String
  label : ℚ → String
  stars : ℚ → String
  mean : List ℚ → ℚ
  percent : ℕ → ℕ → String
  thousands : ℤ → String

variable (py : PyRuntime) (fmt : Formats)

/-- `_ROLE_ORDER`. -/
def roleWeights : List (String × ℕ) :=
  [("boundary",0),("callback",1),("ipc_handler",2),("dispatch_target",3),("",4)]

def roleWeight (role : String) : ℕ := (roleWeights.lookup role).getD 99

/-- `_ROLE_DISPLAY`. -/
def roleDisplay : List (String × String) :=
  [("boundary","模块边界（boundary）"),("callback","框架回调（callback）"),
    ("ipc_handler","IPC处理器（ipc_handler）"),("dispatch_target","分发目标（dispatch_target）"),
    ("","未分类")]

/-- `_ROLE_DESC`. -/
def roleDesc : List (String × String) :=
  [("boundary","直接从模块外部接收原始数据，无本模块上层函数作为数据流入口"),
    ("callback","被外部框架（HA/Timer等）直接回调，接收框架传入的状态/消息数据"),
    ("ipc_handler","处理进程间通信消息（消息队列/pipe/socket），数据来自其他进程"),
    ("dispatch_target",
      "被上层 dispatcher 按消息类型/操作码分发，直接处理特定类型外部数据；**推荐作为污点追踪起点**")]

def roleLabel (role : String) : String :=
  (roleDisplay.lookup role).getD (if role = "" then "未分类" else role)

def defaultDescriptionFragments : List String :=
  ["是当前识别到的外部入口函数","具体职责需结合源码进一步确认","被判定为被动回调型入口",
    "被判定为主动拉取型入口"]

def defaultReasonFragments : List String :=
  ["被判定为外部入口","函数内部存在外部输入读取","参数中携带来自外部的可控输入"]

/-- `_is_placeholder`. -/
def isPlaceholder (text : String) (fragments : List String) : Bool :=
  strip text == "" || fragments.any (containsText text)

/-- `_format_confidence`. -/
def formatConfidence : Option ℚ → String
  | none => "N/A"
  | some score =>
    "\x60" ++ fmt.fixed2 score ++ "\x60 " ++ fmt.bar score 12 ++ " " ++ fmt.label score

/-- `f"{n:02d}"`. -/
def twoDigits (n : ℕ) : String := (if n < 10 then "0" else "") ++ toString n

/-- `_format_duration`. -/
def formatDuration : Option ℕ → String
  | none => "N/A"
  | some ms =>
    let totalSec := ms / 1000
    let m := totalSec / 60
    if totalSec < 60 then toString totalSec ++ "s"
    else if m < 60 then toString m ++ "m" ++ twoDigits (totalSec % 60) ++ "s"
    else toString (m / 60) ++ "h" ++ twoDigits (m % 60) ++ "m" ++ twoDigits (totalSec % 60) ++ "s"

/-- The key of the sort in a group, compared as a pair. -/
def notBehind (e e' : Entry) : Prop :=
  let key (e : Entry) : ℚ × String := (-(e.entryConfidence.getD 0),e.function.getD "")
  (key e).1 < (key e').1 ∨ (key e).1 = (key e').1 ∧ (key e).2 ≤ (key e').2

instance : DecidableRel notBehind := fun e e' => by
  unfold notBehind
  exact inferInstance

/-- `_group_entries`. -/
def groupEntries (entries : List Entry) : List (String × List Entry) :=
  ((entries.map Entry.role).eraseDups.map fun role =>
    (role,(entries.filter fun e => e.role = role).insertionSort notBehind)).insertionSort
      fun g g' => roleWeight g.1 ≤ roleWeight g'.1

def hashable : PyJson → Bool
  | .list _ | .dict _ => false
  | _ => true

/-- `taint_map.get(t, "（待补充）")`: lists and objects cannot be keys of a dictionary. -/
def taintDescription (details : List TaintDetail) : PyJson → Except PyError String
  | .str t => .ok (((details.reverse.find? fun d => t != "" && strip (d.name.getD "") == t).map
      fun d => strip (d.description.getD "")).getD "（待补充）")
  | .list _ | .dict _ => .error .typeError
  | _ => .ok "（待补充）"

def taintRow (details : List TaintDetail) (t : PyJson) : Except PyError String := do
  let desc ← taintDescription details t
  let desc := if isPlaceholder desc ["被识别为外部可控污点","需要在下游"] then "（待补充）" else desc
  pure ("| \x60" ++ py.str t ++ "\x60 | " ++ desc ++ " |")

/-- `tag == "P"` after `strip` and `upper`. -/
def isPassiveTag (e : Entry) : Bool :=
  let tag := strip (if e.tag.getD "" = "" then "P" else e.tag.getD "")
  tag == "P" || tag == "p"

/-- The lines of a section in front of the table of its taints. -/
def sectionHead (e : Entry) (index : ℕ) : List String :=
  let funcName := strip (e.function.getD "")
  let fileName := strip (e.file.getD "")
  let lineNo := e.line.getD 0
  let signature := strip (e.signature.getD "")
  let funcDesc := strip (e.functionDescription.getD "")
  let entryReason := strip (e.entryReason.getD "")
  let funcHash := strip (e.funcHash.getD "")
  let title := if funcName = "" then "条目 #" ++ toString index else "\x60" ++ funcName ++ "\x60"
  let roleText := (roleDisplay.lookup e.role).getD ("未知角色 \x60" ++ e.role ++ "\x60")
  ["### " ++ toString index ++ ". " ++ title ++ " " ++
      (e.entryConfidence.elim "☆☆☆☆☆" fmt.stars),"",
    "**类型**: " ++ (if isPassiveTag e then "P（被动型）" else "A（主动型）") ++ " | **角色**: " ++
      roleText ++ " | **置信度**: " ++ formatConfidence fmt e.entryConfidence,""] ++
  (if fileName = "" ∧ lineNo = 0 then []
    else [" | ".intercalate ((if fileName = "" then [] else ["**文件**: \x60" ++ fileName ++ "\x60"]) ++
      (if lineNo = 0 then [] else ["**行号**: \x60" ++ toString lineNo ++ "\x60"])),""]) ++
  (if signature = "" ∨ signature = funcName then []
    else ["**签名**: \x60" ++ String.ofList (signature.toList.take 120) ++ "\x60",""]) ++
  (if funcHash = "" then [] else ["**func_hash**: \x60" ++ funcHash ++ "\x60",""]) ++
  (if e.taints.isEmpty then []
    else ["**污点参数**: " ++ "、".intercalate (e.taints.map fun t => "\x60" ++ py.str t ++ "\x60"),""]) ++
  ["**功能描述**","",
    "> " ++ (if isPlaceholder funcDesc defaultDescriptionFragments then "（待补充）" else funcDesc),"",
    "**判断依据**","",
    "> " ++ (if isPlaceholder entryReason defaultReasonFragments then "（待补充）" else entryReason),""]

/-- `_render_entry_section`. -/
def renderEntrySection (e : Entry) (index : ℕ) : Except PyError String := do
  let rows ← e.taints.mapM (taintRow py e.taintDetails)
  pure (joinLines (sectionHead py fmt e index ++
    (if e.taints.isEmpty then [] else ["**污点详情**","","| 参数 | 语义描述 |","|---|---|"] ++ rows ++ [""]) ++
    ["---",""]))

/-- The sections of a group, the first of them with the next number. -/
def entryBlocks (n : ℕ) (group : List Entry) : Except PyError Report :=
  (group.zipIdx (n + 1)).mapM fun p => do
    let text ← renderEntrySection py fmt p.1 p.2
    pure (.entry p.1 text)

def groupHead (processing : Bool) (role : String) (n : ℕ) : Report :=
  [.line [.text ("#### 📌 " ++ roleLabel role ++ "（"),.count (.part processing role) n,.text " 个）"],
    .line [.text ""]] ++
  ((roleDesc.lookup role).elim [] fun desc => plain ["*" ++ desc ++ "*",""])

/-- The loop over the groups, after `n` sections. -/
def groupBlocks (processing : Bool) : ℕ → List (String × List Entry) → Except PyError Report
  | _,[] => pure []
  | n,(role,group) :: groups => do
    let blocks ← entryBlocks py fmt n group
    let rest ← groupBlocks processing (n + group.length) groups
    pure (groupHead processing role group.length ++ blocks ++ rest)

/-- The part of the report for one category, left out where it has no entries. -/
def categoryBlocks (processing : Bool) (title : String) (notes : List String) (n : ℕ)
    (entries : List Entry) : Except PyError Report :=
  if entries.isEmpty then pure []
  else do
    let blocks ← groupBlocks py fmt processing n (groupEntries entries)
    pure ([.line [.text (title ++ "（"),.count (.category processing) entries.length,.text " 个）"]] ++
      plain ([""] ++ notes ++ [""]) ++ blocks)

/-- `stats`, with the token counts that it sums. -/
structure Stats where
  fileCount : ℤ := 0
  totalDurationMs : Option ℕ := none
  totalTokens : List ℤ := []

def external (entries : List Entry) : List Entry := entries.filter fun e => !e.isProcessing

def processing (entries : List Entry) : List Entry := entries.filter Entry.isProcessing

def confidences (entries : List Entry) : List ℚ := entries.filterMap Entry.entryConfidence

/-- The number of all entries, with those of each category. -/
def totalLine (entries : List Entry) : List Piece :=
  [.text "> **入口总数**: ",.count .all entries.length,.text "（外部入口 ",
    .count (.category false) (external entries).length,.text " 个、处理入口 ",
    .count (.category true) (processing entries).length,.text " 个）"]

def reportHead (entries : List Entry) (moduleName : String) (stats : Stats) (now : String) : Report :=
  plain (["# 外部入口分析报告 — \x60" ++ moduleName ++ "\x60","","> **生成时间**: " ++ now] ++
    (if stats.fileCount = 0 then [] else ["> **分析文件数**: " ++ toString stats.fileCount])) ++
  [.table [totalLine entries]] ++
  plain ((if (confidences entries).isEmpty then []
      else
        let mean := fmt.mean (confidences entries)
        ["> **置信度均值**: " ++ fmt.fixed2 mean ++ " " ++ fmt.bar mean 10 ++ " " ++ fmt.label mean]) ++
    (stats.totalDurationMs.elim [] fun ms => ["> **分析耗时**: " ++ formatDuration (some ms)]) ++
    (if stats.totalTokens.sum = 0 then []
      else ["> **Token 消耗**: " ++ fmt.thousands stats.totalTokens.sum]) ++
    ["","## 摘要统计",""])

/-- A row of the table of roles. -/
def roleRow (total : ℕ) (g : String × List Entry) : List Piece :=
  let mean := fmt.mean (confidences g.2)
  let avg := if (confidences g.2).isEmpty then "N/A" else fmt.fixed2 mean
  let desc := (roleDesc.lookup g.1).getD ""
  let short := if 50 < desc.length then String.ofList (desc.toList.take 50) ++ "…" else desc
  [.text ("| " ++ roleLabel g.1 ++ " | "),.count (.role g.1) g.2.length,
    .text (" | " ++ fmt.percent g.2.length total ++ " | " ++ avg ++ " | " ++ short ++ " |")]

def roleTable (entries : List Entry) : Block :=
  .table ([[.text "| 入口角色 | 数量 | 占比 | 置信度均值 | 说明 |"],[.text "|---|---|---|---|---|"]] ++
    (groupEntries entries).map (roleRow fmt entries.length))

def usage : List String :=
  ["## 使用说明","",
    "- **boundary** / **callback** / **ipc_handler**：模块外部边界，适合作为 Fuzzer 入口或安全审计起点",
    "- **dispatch_target**：被 dispatcher 分发的处理函数，**推荐作为污点分析（Taint Analysis）起点**，可避免从 dispatcher 追踪造成路径爆炸",
    "- **置信度** \x600.0-1.0\x60：基于 tag/entry_role/R3-J验证/调用链等多维证据综合评分，分数越高越可信",
    "","## 入口详情",""]

/-- `generate_report`. -/
def generateReport (entries : List Entry) (moduleName : String) (stats : Stats) (now : String) :
    Except PyError Report :=
  if entries.isEmpty then
    pure (reportHead fmt entries moduleName stats now ++
      plain ["> ⚠️ 模块 \x60" ++ moduleName ++ "\x60 未识别到任何外部入口。",
        "> 该模块可能是纯内部工具库，或源码中没有可识别的外部数据接收接口。",""])
  else do
    let externalBlocks ← categoryBlocks py fmt false "### 🌏 外部入口 External Entry"
      ["> 调用链最顶端，直接暴露于外部，是安全分析的优先起点。"] 0 (external entries)
    let processingBlocks ← categoryBlocks py fmt true "### 🔄 处理入口 Processing Entry"
      ["> 被外部入口通过 dispatch/callback 機制调用，负责处理特定类型请求。",
        "> 在污点分析中，应同时跟踪从外部入口到处理入口的数据路径。"]
      (external entries).length (processing entries)
    pure (reportHead fmt entries moduleName stats now ++
      [roleTable fmt entries] ++
      plain ([""] ++ usage) ++ externalBlocks ++ processingBlocks ++
      plain ["","---","","*本报告由 SecFlow 入口分析引擎自动生成，生成时间 " ++ now ++ "*",""])

/-! ## The second report -/

/-- `ROLE_ORDER`. -/
def roleOrder : List String := ["boundary","dispatch_target","callback","ipc_handler"]

/-- `ROLE_LABEL`. -/
def roleLabels : List (String × String) :=
  [("boundary","模块边界（boundary）"),("dispatch_target","分发目标（dispatch_target）"),
    ("callback","框架回调（callback）"),("ipc_handler","IPC 处理（ipc_handler）")]

/-- `str(e.get("entry_role") or "boundary")`. -/
def Entry.partsRole (e : Entry) : String :=
  if e.entryRole.getD "" = "" then "boundary" else e.entryRole.getD ""

/-- A caller of a function in the call chain database. -/
structure Caller where
  name : String
  callerHash : Option String
  funcHash : Option String

/-- What the second report reads besides the entries: the reports of the functions, and the callers
of a function where there is a database of call chains. -/
structure Parts where
  report : String → Option String
  callers : String → List Caller

/-- `entries` after the callers of the dispatch targets are filled in. -/
def withCallers (parts : Parts) (entries : List Entry) : List Entry :=
  let hashes := (entries.map fun e => e.funcHash.getD "").filter (· ≠ "")
  entries.map fun e =>
    if e.entryRole = some "dispatch_target" ∧ e.callerEntry.getD "" = "" ∧ e.funcHash.getD "" ≠ "" then
      match (parts.callers (e.funcHash.getD "")).find? fun c =>
          c.callerHash.any hashes.contains || c.funcHash.any hashes.contains with
      | some c => { e with callerEntry := some c.name }
      | none => e
    else e

/-- The report of a function, with a note behind its first line where it has a caller. -/
def withNote (e : Entry) (content : String) : String :=
  let caller := e.callerEntry.getD ""
  if caller ≠ "" ∧ e.partsRole = "dispatch_target" then
    let note := "> **上级入口**：\x60" ++ caller ++ "\x60（该函数由上级入口分发触达，并列为独立入口以便污点追踪）\n"
    let lines := content.toList.splitOn '\n'
    joinLines ((lines.take 1).map String.ofList ++ note :: (lines.drop 1).map String.ofList)
  else content

/-- The section of an entry: the report of its function, or what the entry says. -/
def partsSection (parts : Parts) (e : Entry) : String :=
  let fh := e.funcHash.getD ""
  match if fh = "" then none else parts.report fh with
  | some md => joinLines [withNote e (strip md),""]
  | none =>
    let name := if e.function.getD "" ≠ "" then e.function.getD ""
      else if fh ≠ "" then String.ofList (fh.toList.take 8) else "未知"
    let taints := ", ".intercalate (e.taints.map py.str)
    joinLines ["### \x60" ++ name ++ "\x60","",
      "**类型**：" ++ (if e.isActive then "A（主动型）" else "P（被动型）") ++ "  ",
      "**污点参数**：" ++ (if taints = "" then "未知" else taints) ++ "  ",""]

def ofRole (entries : List Entry) (role : String) : List Entry :=
  entries.filter fun e => e.partsRole = role

def roleSection (parts : Parts) (entries : List Entry) (role : String) : Report :=
  if (ofRole entries role).isEmpty then []
  else
    plain ["---",""] ++
    [.line [.text ("## " ++ (roleLabels.lookup role).getD role ++ "（"),
      .count (.role role) (ofRole entries role).length,.text " 个）"],.line [.text ""]] ++
    (ofRole entries role).map fun e => .entry e (partsSection py parts e)

/-- A row that prints a role with its share of all entries. -/
def shareRow (entries : List Entry) (role : String) : List Piece :=
  let n := (ofRole entries role).length
  [.text ("| " ++ role ++ " | "),.count (.role role) n,
    .text (" (" ++ toString (n * 100 / entries.length) ++ "%) |")]

def summaryTable (entries : List Entry) : Block :=
  let tagA := (entries.filter Entry.isActive).length
  .table ([[.text "| 分类 | 数量 |"],[.text "|---|---:|"]] ++
    (roleOrder.map fun role =>
      [.text ("| " ++ (roleLabels.lookup role).getD role ++ " | "),
        .count (.role role) (ofRole entries role).length,.text " |"]) ++
    [[.text "| 主动型（A） | ",.count (.tag true) tagA,.text " |"],
      [.text "| 被动型（P） | ",.count (.tag false) (entries.length - tagA),.text " |"]])

def coverageTable (entries : List Entry) : Block :=
  let files := (entries.map fun e => e.file.getD "").dedup
  .table ([[.text "| 指标 | 値 |"],[.text "|---|---|"],
      [.text ("| 分析文件数 | " ++ toString files.length ++ " |")],
      [.text "| 识别入口总数 | ",.count .all entries.length,.text " |"]] ++
    roleOrder.map (shareRow entries))

/-- The text that `generate_final_report_from_parts` writes, as a report over the entries with
their callers. -/
def finalReport (parts : Parts) (moduleName now : String) (entries : List Entry) : Report :=
  plain ["# " ++ moduleName ++ " 外部入口安全分析报告","","**生成时间**：" ++ now ++ "  "] ++
  [.line [.text "**入口总数**：",.count .all entries.length]] ++
  plain ["","---","","## 概要统计",""] ++ [summaryTable entries] ++ plain [""] ++
  roleOrder.flatMap (roleSection py parts entries) ++
  plain ["---","","## 覆盖率评估",""] ++ [coverageTable entries] ++
  plain ["","---","","*本报告由 SecFlow 入口分析引擎自动生成，生成时间 " ++ now ++ "。*",""]

/-- `generate_final_report_from_parts`. -/
def generateFinalReportFromParts (parts : Parts) (moduleName now : String) (entries : List Entry) :
    Report :=
  finalReport py parts moduleName now (withCallers parts entries)

end FinalReports
end EntryAnalyse
