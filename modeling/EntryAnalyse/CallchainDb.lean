import EntryAnalyse.KeyedTable

/-! The call-chain database as far as R6 uses it: the transitive closure of the call edges with
shortest depths, and the classification of the kept functions by it. -/
namespace EntryAnalyse

/-- A row of `closure`. -/
structure ClosureRow where
  ancestor : String
  descendant : String
  depth : ℕ

/-- A row of `nodes`, with the column that the classification writes. -/
structure CallNode where
  funcHash : String
  entryCategory : String

structure CallchainDb where
  nodes : KeyedTable CallNode.funcHash
  closure : KeyedTable (fun r : ClosureRow => (r.ancestor,r.descendant))

/-- What R6 makes of a kept function: the start of a call tree, a function near one, or one
too deep to be listed. -/
inductive EntryCategory
  | external | processing | internal
  deriving DecidableEq

def EntryCategory.label : EntryCategory → String
  | .external => "外部入口"
  | .processing => "处理入口"
  | .internal => "内部实现"

namespace CallchainDb

/-- A database that was just opened. -/
def empty : CallchainDb := ⟨.empty,.empty⟩

/-- `COUNT(*) > 0` over the closure rows that end in `fh` and start in another kept function. -/
def hasKeptAncestor (cc : CallchainDb) (kept : List String) (fh : String) : Bool :=
  cc.closure.rows.any (fun r => r.descendant == fh && kept.contains r.ancestor && r.ancestor != fh)

/-- `MIN(c.depth)` over the closure rows from an external entry to `fh`, 999 if there are
none. -/
def minDepth (cc : CallchainDb) (external : List String) (fh : String) : ℕ :=
  (((cc.closure.rows.filter (fun r => external.contains r.ancestor && r.descendant == fh)).map
    ClosureRow.depth).min?).getD 999

/-- The first pass: an active function, or one without a kept ancestor. -/
def isExternal (cc : CallchainDb) (kept aType : List String) (fh : String) : Bool :=
  aType.contains fh || !cc.hasKeptAncestor kept fh

def categoryOf (cc : CallchainDb) (kept aType : List String) (maxDepth : ℕ) (fh : String) :
    EntryCategory :=
  if cc.isExternal kept aType fh then .external
  else if cc.minDepth (kept.filter (cc.isExternal kept aType)) fh ≤ maxDepth then .processing
  else .internal

/-- `detail` of `classify_entry_categories`. -/
def classifyDetail (cc : CallchainDb) (kept aType : List String) (maxDepth : ℕ) :
    List (String × EntryCategory) :=
  kept.map (fun fh => (fh,cc.categoryOf kept aType maxDepth fh))

/-- `classify_entry_categories`: the categories are also written to the nodes. -/
def classifyEntryCategories (cc : CallchainDb) (kept aType : List String) (maxDepth : ℕ) :
    CallchainDb × List (String × EntryCategory) :=
  let detail := cc.classifyDetail kept aType maxDepth
  let nodes := detail.foldl (fun t p =>
    t.updateWhere (fun n => n.funcHash = p.1) (fun n => { n with entryCategory := p.2.label })
      (fun _ => rfl)) cc.nodes
  ({ cc with nodes := nodes },detail)

end CallchainDb
end EntryAnalyse
