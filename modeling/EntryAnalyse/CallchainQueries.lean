import EntryAnalyse.AgentResult
import EntryAnalyse.EntryTrees
import EntryAnalyse.InsertCounts

/-! What is read of the call-chain database: the callers and ancestors that R3 sees, and the role of a
function in the call chain, which the pipeline and the agents' script work out each on their own. -/
namespace EntryAnalyse
namespace CallchainQueries

open InsertCounts ShortestPath CallchainDb

/-- The columns of `edges` that the closure and the trees read. -/
def callEdge (e : EdgeRow) : CallEdge := ⟨e.callerHash,e.calleeHash,e.callSiteLine.toInt⟩

theorem key_callEdge (e : EdgeRow) : (callEdge e).key = Prod.map id (Prod.map id Int64.toInt) e.key :=
  rfl

theorem nodup_callEdges (edges : KeyedTable EdgeRow.key) :
    ((edges.rows.map callEdge).map CallEdge.key).Nodup := by
  have hinj : Function.Injective (Prod.map id (Prod.map id Int64.toInt) :
      String × String × Int64 → String × String × ℤ) :=
    Function.injective_id.prodMap (Function.injective_id.prodMap fun _ _ h => Int64.toInt_inj.mp h)
  have hkeys : (edges.rows.map callEdge).map CallEdge.key =
      (edges.rows.map EdgeRow.key).map (Prod.map id (Prod.map id Int64.toInt)) := by
    rw [List.map_map,List.map_map]
    exact List.map_congr_left fun e _ => key_callEdge e
  rw [hkeys]
  exact edges.nodup.map hinj

def callEdges (db : Db) : CallEdges := ⟨db.edges.rows.map callEdge,nodup_callEdges db.edges⟩

/-- A call site of a function, joined with the node of the caller. -/
structure Caller where
  callerHash : String
  name : Option String
  callType : String
  callSiteLine : Int64
  isR3Entry : Bool
  isExternal : Bool
  deriving DecidableEq

/-- `LEFT JOIN nodes n ON n.func_hash = e.caller_hash`. -/
def caller (db : Db) (e : EdgeRow) : Caller :=
  match db.nodes.lookup e.callerHash with
  | some n => ⟨e.callerHash,some n.name,e.callType,e.callSiteLine,n.isR3Entry,n.isExternal⟩
  | none => ⟨e.callerHash,none,e.callType,e.callSiteLine,false,false⟩

def sites (db : Db) (funcHash : String) : List EdgeRow :=
  db.edges.rows.filter (·.calleeHash = funcHash)

/-- `get_callers`. -/
def getCallers (db : Db) (funcHash : String) : List Caller :=
  ((sites db funcHash).mergeSort fun a b => decide (a.callSiteLine ≤ b.callSiteLine)).map (caller db)

structure Ancestor where
  ancestorHash : String
  name : Option String
  depth : ℕ
  deriving DecidableEq

/-- `ORDER BY c.depth, c.ancestor`. -/
def Ancestor.before (a b : Ancestor) : Prop :=
  a.depth < b.depth ∨ (a.depth = b.depth ∧ a.ancestorHash ≤ b.ancestorHash)

instance : DecidableRel Ancestor.before := fun _ _ => inferInstanceAs (Decidable (_ ∨ _))

/-- The rows of the closure above a function whose depth is in the range. -/
def ancestorsBetween (db : Db) (closure : ClosureTable) (funcHash : String) (low high : ℕ) :
    List Ancestor :=
  (((closure.rows.filter fun r => r.descendant = funcHash ∧ low ≤ r.depth ∧ r.depth ≤ high).map
    fun r => ⟨r.ancestor,(db.nodes.lookup r.ancestor).map NodeRow.name,r.depth⟩)).mergeSort
      fun a b => decide (a.before b)

structure CallerContext where
  directCallers : List Caller
  ancestors : List Ancestor
  hasAnyCaller : Bool

/-- `get_caller_context`. -/
def getCallerContext (db : Db) (closure : ClosureTable) (funcHash : String) : CallerContext where
  directCallers := getCallers db funcHash
  ancestors := ancestorsBetween db closure funcHash 2 3
  hasAnyCaller := !(getCallers db funcHash).isEmpty

section Context

variable {db : Db} {closure : ClosureTable} {funcHash : String} {low high : ℕ}

theorem calls_callEdges {a d : String} : Calls (callEdges db) a d ↔
    ∃ e ∈ db.edges.rows, e.callerHash = a ∧ e.calleeHash = d := by
  simp [Calls,callEdges,callEdge]

theorem caller_hash (e : EdgeRow) : (caller db e).callerHash = e.callerHash := by
  unfold caller
  split <;> rfl

theorem mem_getCallers {c : Caller} :
    c ∈ getCallers db funcHash ↔ ∃ e ∈ sites db funcHash, caller db e = c := by
  simp [getCallers]

theorem mem_callers {a : String} :
    a ∈ (getCallers db funcHash).map Caller.callerHash ↔ Calls (callEdges db) a funcHash := by
  rw [calls_callEdges]
  constructor
  · intro h
    obtain ⟨c,hc,rfl⟩ := List.mem_map.mp h
    obtain ⟨e,he,rfl⟩ := mem_getCallers.mp hc
    obtain ⟨hrow,hcallee⟩ := List.mem_filter.mp he
    exact ⟨e,hrow,(caller_hash e).symm,by simpa using hcallee⟩
  · rintro ⟨e,hrow,rfl,hcallee⟩
    have he : e ∈ sites db funcHash := List.mem_filter.mpr ⟨hrow,by simpa using hcallee⟩
    exact List.mem_map.mpr ⟨caller db e,mem_getCallers.mpr ⟨e,he,rfl⟩,caller_hash e⟩

theorem mem_ancestorsBetween {a : Ancestor} :
    a ∈ ancestorsBetween db closure funcHash low high ↔
      ⟨a.ancestorHash,funcHash,a.depth⟩ ∈ closure.rows ∧ (low ≤ a.depth ∧ a.depth ≤ high) ∧
        a.name = (db.nodes.lookup a.ancestorHash).map NodeRow.name := by
  obtain ⟨hash,name,depth⟩ := a
  simp only [ancestorsBetween,List.mem_mergeSort,List.mem_map,List.mem_filter,
    decide_eq_true_eq,Ancestor.mk.injEq]
  constructor
  · rintro ⟨⟨a,d,k⟩,⟨hrow,rfl,hk⟩,rfl,rfl,rfl⟩
    exact ⟨hrow,hk,rfl⟩
  · rintro ⟨hrow,hk,rfl⟩
    exact ⟨⟨hash,funcHash,depth⟩,⟨hrow,rfl,hk⟩,rfl,rfl,rfl⟩

theorem nodup_ancestorsBetween :
    ((ancestorsBetween db closure funcHash low high).map Ancestor.ancestorHash).Nodup := by
  refine ((List.mergeSort_perm _ _).map _).nodup_iff.mpr ?_
  rw [List.map_map]
  refine (List.nodup_map_iff_inj_on ?_).mpr ?_
  · exact (List.Nodup.of_map _ closure.nodup).filter _
  · intro r hr r' hr' heq
    obtain ⟨hrow,hr⟩ := List.mem_filter.mp hr
    obtain ⟨hrow',hr'⟩ := List.mem_filter.mp hr'
    have hd : r.descendant = r'.descendant :=
      (of_decide_eq_true hr).1.trans (of_decide_eq_true hr').1.symm
    exact List.inj_on_of_nodup_map closure.nodup hrow hrow' (Prod.ext heq hd)

theorem sorted_ancestorsBetween :
    (ancestorsBetween db closure funcHash low high).Pairwise Ancestor.before := by
  have h := @List.pairwise_mergeSort Ancestor (fun a b => decide (a.before b)) ?_ ?_
    ((closure.rows.filter fun r => r.descendant = funcHash ∧ low ≤ r.depth ∧ r.depth ≤ high).map
      fun r => ⟨r.ancestor,(db.nodes.lookup r.ancestor).map NodeRow.name,r.depth⟩)
  · exact h.imp of_decide_eq_true
  · intro a b c hab hbc
    have hab := of_decide_eq_true hab
    have hbc := of_decide_eq_true hbc
    refine decide_eq_true ?_
    rcases hab with hab | ⟨hab,hle⟩
    · exact .inl (hbc.elim hab.trans fun h => h.1 ▸ hab)
    · rcases hbc with hbc | ⟨hbc,hle'⟩
      · exact .inl (hab ▸ hbc)
      · exact .inr ⟨hab.trans hbc,String.le_trans hle hle'⟩
  · intro a b
    rw [Bool.or_eq_true,decide_eq_true_eq,decide_eq_true_eq]
    rcases lt_trichotomy a.depth b.depth with h | h | h
    · exact .inl (.inl h)
    · exact (String.le_total a.ancestorHash b.ancestorHash).imp (fun hle => .inr ⟨h,hle⟩)
        fun hle => .inr ⟨h.symm,hle⟩
    · exact .inr (.inl h)

variable (db funcHash)

/-- What R3 sees of the calls above a function once the closure is built to a depth of 3 or more: the
callers are the functions that call it, the ancestors are those from which the shortest chain of calls
to it has 2 or 3 steps, each once, by depth and then by hash, and none of them is a caller. -/
theorem callerContext_correct (cc : CallchainDb) {maxDepth : ℕ} (h : 3 ≤ maxDepth) :
    let context := getCallerContext db (cc.buildClosure (callEdges db) maxDepth).1.closure funcHash
    (∀ a, a ∈ context.directCallers.map Caller.callerHash ↔ Calls (callEdges db) a funcHash) ∧
      (context.hasAnyCaller = true ↔ ∃ a, Calls (callEdges db) a funcHash) ∧
      (∀ a k, (∃ name, ⟨a,name,k⟩ ∈ context.ancestors) ↔
        Shortest (Calls (callEdges db)) a funcHash k ∧ (k = 2 ∨ k = 3)) ∧
      (context.ancestors.map Ancestor.ancestorHash).Nodup ∧
      context.ancestors.Pairwise Ancestor.before ∧
      ∀ c ∈ context.directCallers, c.callerHash ∉ context.ancestors.map Ancestor.ancestorHash := by
  intro context
  have hrows := (upTo_build (callEdges db) (le_trans (by decide) h : 1 ≤ maxDepth)).rows
  have hancestor : ∀ a k, (∃ name, ⟨a,name,k⟩ ∈ context.ancestors) ↔
      Shortest (Calls (callEdges db)) a funcHash k ∧ (k = 2 ∨ k = 3) := by
    intro a k
    constructor
    · rintro ⟨name,hmem⟩
      obtain ⟨hrow,hk,-⟩ := mem_ancestorsBetween.mp hmem
      exact ⟨((hrows _).mp hrow).2.1,by dsimp only at hk; omega⟩
    · rintro ⟨hs,hk⟩
      have hne : a ≠ funcHash := by
        rintro rfl
        have := shortest_self.unique hs
        omega
      have hrow := (hrows ⟨a,funcHash,k⟩).mpr ⟨hne,hs,by dsimp only; omega⟩
      exact ⟨(db.nodes.lookup a).map NodeRow.name,
        mem_ancestorsBetween.mpr ⟨hrow,by dsimp only; omega,rfl⟩⟩
  refine ⟨fun a => mem_callers,?_,hancestor,nodup_ancestorsBetween,sorted_ancestorsBetween,?_⟩
  · have hany : context.hasAnyCaller = true ↔ getCallers db funcHash ≠ [] := by
      simp [context,getCallerContext]
    rw [hany]
    constructor
    · intro hne
      obtain ⟨c,hc⟩ := List.exists_mem_of_ne_nil _ hne
      exact ⟨_,mem_callers.mp (List.mem_map_of_mem hc)⟩
    · rintro ⟨a,ha⟩ hnil
      have hmem := mem_callers.mpr ha
      rw [hnil] at hmem
      cases hmem
  · intro c hc hin
    obtain ⟨⟨hash,name,k⟩,hmem,heq⟩ := List.mem_map.mp hin
    obtain ⟨hs,hk⟩ := (hancestor hash k).mp ⟨name,hmem⟩
    have hcall : Calls (callEdges db) hash funcHash := by
      have := mem_callers.mp (List.mem_map_of_mem hc)
      rwa [← heq] at this
    have hle := hs.2 1 (Walk.cons hcall .nil)
    omega

/-- A chain of three calls between functions that were not inserted as nodes. -/
def chain : Db := (insertEdges 0
  [{ callerHash := some "recv", calleeHash := some "parse", callSiteLine := some 12 },
    { callerHash := some "parse", calleeHash := some "handle", callSiteLine := some 30 },
    { callerHash := some "handle", calleeHash := some "copy", callSiteLine := some 44 }]
  ⟨.empty,.empty,⟨"init",0,0,0⟩,by simp [KeyedTable.empty]⟩).1

theorem callerContext_correct_chain :
    let context := getCallerContext chain (CallchainDb.empty.buildClosure (callEdges chain) 10).1.closure
      "copy"
    (∀ a, a ∈ context.directCallers.map Caller.callerHash ↔ Calls (callEdges chain) a "copy") ∧
      (context.hasAnyCaller = true ↔ ∃ a, Calls (callEdges chain) a "copy") ∧
      (∀ a k, (∃ name, ⟨a,name,k⟩ ∈ context.ancestors) ↔
        Shortest (Calls (callEdges chain)) a "copy" k ∧ (k = 2 ∨ k = 3)) ∧
      (context.ancestors.map Ancestor.ancestorHash).Nodup ∧
      context.ancestors.Pairwise Ancestor.before ∧
      ∀ c ∈ context.directCallers, c.callerHash ∉ context.ancestors.map Ancestor.ancestorHash :=
  callerContext_correct chain "copy" .empty (by decide)

end Context

/-! ## The role in the call chain -/

/-- What `get_callchain_role` returns for a node; the difference is exact. -/
structure Role where
  funcHash : String
  name : String
  entryRole : String
  callersCount : ℕ
  callersInR3 : List (Option String)
  callersOutsideModule : ℕ
  isOnlyCalledByDispatcher : Bool
  inHowManyTrees : ℕ
  suggestedEntryRole : String
  confidenceDelta : ℚ
  deriving DecidableEq

/-- `COUNT(DISTINCT root_hash)` of the trees that list the function. -/
def treeCount (trees : EntryTrees) (funcHash : String) : ℕ :=
  ((trees.rows.filter fun r => r.nodeHash = funcHash).map TreeRow.rootHash).toFinset.card

def dispatcherNames : List String := ["Dispatch","ProcMsg","MsgProc","Handler","Process","Router"]

/-- `get_callchain_role`. -/
def getCallchainRole (db : Db) (trees : EntryTrees) (funcHash : String) : Option Role :=
  match db.nodes.lookup funcHash with
  | none => none
  | some node =>
    let callers := getCallers db funcHash
    let external := callers.filter (·.isExternal)
    let isOnlyByDispatcher := !callers.isEmpty && (callers.filter (!·.isExternal)).all fun c =>
      dispatcherNames.any fun kw => Runner.containsText (lower (c.name.getD "")) (lower kw)
    let isolated : ℚ := if callers = [] ∨ external ≠ [] then 15 / 100 else 0
    let dispatched : ℚ := if isOnlyByDispatcher then 5 / 100 else 0
    let shared : ℚ := if 3 < callers.length ∧ external = [] then 10 / 100 else 0
    some {
      funcHash := funcHash
      name := node.name
      entryRole := node.entryRole
      callersCount := callers.length
      callersInR3 := (callers.filter (·.isR3Entry)).map Caller.name
      callersOutsideModule := external.length
      isOnlyCalledByDispatcher := isOnlyByDispatcher
      inHowManyTrees := treeCount trees funcHash
      suggestedEntryRole :=
        if node.entryRole ≠ "" then node.entryRole
        else if isOnlyByDispatcher then "dispatch_target"
        else "boundary"
      confidenceDelta := isolated + dispatched - shared }

/-- What the agents' script prints. -/
structure ScriptRole extends Role where
  entryConfidence : Option PyFloat
  recommendation : String

def dispatcherKws : List String := ["dispatch","procmsg","msgproc","handler","process","router"]

/-- `cmd_callchain_role` of the script; `rows` are the call sites as its query gives them. -/
def cmdCallchainRole (db : Db) (trees : EntryTrees) (rows : List EdgeRow) (funcHash : String) :
    Option ScriptRole :=
  match db.nodes.lookup funcHash with
  | none => none
  | some node =>
    let callersList := rows.map (caller db)
    let extCallers := callersList.countP (·.isExternal)
    let isOnlyDispatcher := !callersList.isEmpty &&
      (callersList.filter (!·.isExternal)).all fun c =>
        dispatcherKws.any fun kw => Runner.containsText (lower (c.name.getD "")) kw
    let suggested :=
      if node.entryRole ≠ "" then node.entryRole
      else if isOnlyDispatcher then "dispatch_target"
      else "boundary"
    let isolated : ℚ := if callersList.isEmpty ∨ extCallers ≠ 0 then 15 / 100 else 0
    let dispatched : ℚ := if isOnlyDispatcher then 5 / 100 else 0
    let shared : ℚ := if 3 < callersList.length ∧ extCallers = 0 then 10 / 100 else 0
    some {
      funcHash := funcHash
      name := node.name
      entryRole := node.entryRole
      entryConfidence := node.entryConfidence
      callersCount := callersList.length
      callersInR3 := (callersList.filter (·.isR3Entry)).map Caller.name
      callersOutsideModule := extCallers
      isOnlyCalledByDispatcher := isOnlyDispatcher
      inHowManyTrees := treeCount trees funcHash
      suggestedEntryRole := suggested
      confidenceDelta := isolated + dispatched - shared
      recommendation :=
        if suggested = "dispatch_target" then "保留（dispatch_target，推荐作为污点追踪起点）"
        else if suggested = "boundary" ∧ callersList.isEmpty then
          "保留（boundary，没有模块内调用者，是模块内最外层入口）"
        else if 3 < callersList.length ∧ extCallers = 0 then
          "建议考虑删除（被多个模块内函数调用，可能是工具函数）"
        else "保留" }

/-- The script says what the pipeline works with, up to the order of the callers in R3. -/
inductive Agrees : Option Role → Option ScriptRole → Prop
  | unknown : Agrees none none
  | known (role : Role) (script : ScriptRole)
      (callers : script.callersInR3.Perm role.callersInR3)
      (same : { script.toRole with callersInR3 := role.callersInR3 } = role) :
      Agrees (some role) (some script)

section Roles

variable {db : Db} {trees : EntryTrees} {funcHash : String}

theorem getCallers_perm {rows : List EdgeRow} (h : rows.Perm (sites db funcHash)) :
    (rows.map (caller db)).Perm (getCallers db funcHash) :=
  (h.trans (List.mergeSort_perm _ _).symm).map _

theorem dispatcherNames_lower (text : String) :
    (dispatcherNames.any fun kw => Runner.containsText text (lower kw)) =
      dispatcherKws.any fun kw => Runner.containsText text kw := by
  have hlower : dispatcherNames.map lower = dispatcherKws := by decide
  rw [← hlower,List.any_map]
  rfl

theorem role_agrees {rows : List EdgeRow} (h : rows.Perm (sites db funcHash)) :
    Agrees (getCallchainRole db trees funcHash) (cmdCallchainRole db trees rows funcHash) := by
  have hperm := getCallers_perm h
  unfold getCallchainRole cmdCallchainRole
  cases db.nodes.lookup funcHash with
  | none => exact .unknown
  | some node =>
    refine .known _ _ ((hperm.filter _).map _) ?_
    have hext : (rows.map (caller db)).countP (·.isExternal) =
        ((getCallers db funcHash).filter (·.isExternal)).length := by
      rw [hperm.countP_eq,List.countP_eq_length_filter]
    have hempty : (rows.map (caller db)).isEmpty = (getCallers db funcHash).isEmpty := by
      rw [Bool.eq_iff_iff,List.isEmpty_iff_length_eq_zero,List.isEmpty_iff_length_eq_zero,
        hperm.length_eq]
    have honly : ((rows.map (caller db)).filter (!·.isExternal)).all (fun c =>
          dispatcherKws.any fun kw => Runner.containsText (lower (c.name.getD "")) kw) =
        ((getCallers db funcHash).filter (!·.isExternal)).all fun c =>
          dispatcherNames.any fun kw => Runner.containsText (lower (c.name.getD "")) (lower kw) := by
      simp only [dispatcherNames_lower]
      exact (hperm.filter _).all_eq
    simp only [hext,hempty,honly,hperm.length_eq,List.isEmpty_iff,List.length_eq_zero_iff,ne_eq]

theorem mem_trees_iff {edges : CallEdges} {roots : List String} {maxDepth : ℕ} {root : String}
    (hroots : roots ≠ []) :
    (∃ r ∈ (buildEntryTrees trees edges roots maxDepth).1.rows,
        r.nodeHash = funcHash ∧ r.rootHash = root) ↔
      root ∈ roots ∧ Within (Calls edges) maxDepth root funcHash := by
  rw [within_iff_shortest]
  constructor
  · rintro ⟨⟨root',node,k,path⟩,hrow,rfl,rfl⟩
    have hroot : root' ∈ roots := by
      have hrow' := hrow
      rw [buildEntryTrees,if_neg hroots] at hrow'
      exact (mem_growTrees.mp hrow').1
    obtain ⟨hs,hk⟩ := (lists_iff_shortest trees hroot (Int.natCast_nonneg _)).mp ⟨path,hrow⟩
    exact ⟨hroot,k,by exact_mod_cast hk,hs⟩
  · rintro ⟨hroot,k,hk,hs⟩
    obtain ⟨path,hrow⟩ := (lists_iff_shortest trees hroot (Int.natCast_nonneg maxDepth)).mpr
      ⟨hs,by exact_mod_cast hk⟩
    exact ⟨_,hrow,rfl,rfl⟩

open scoped Classical in
/-- The trees that a function is in are those of the roots within the depth. -/
theorem treeCount_build {edges : CallEdges} {roots : List String} {maxDepth : ℕ}
    (hroots : roots ≠ []) :
    treeCount (buildEntryTrees trees edges roots maxDepth).1 funcHash =
      (roots.toFinset.filter fun root => Within (Calls edges) maxDepth root funcHash).card := by
  unfold treeCount
  congr 1
  ext root
  rw [List.mem_toFinset,Finset.mem_filter,List.mem_toFinset,← @mem_trees_iff trees _ _ _ _ _ hroots]
  simp [and_comm,and_assoc]

theorem mem_callers_of_role {role : Role} (h : getCallchainRole db trees funcHash = some role) :
    role.callersCount = (sites db funcHash).length ∧
      role.inHowManyTrees = treeCount trees funcHash ∧
      (role.isOnlyCalledByDispatcher = true ↔ sites db funcHash ≠ [] ∧
        ∀ e ∈ sites db funcHash, (caller db e).isExternal = true ∨
          ∃ kw ∈ dispatcherKws,
            Runner.containsText (lower ((caller db e).name.getD "")) kw = true) := by
  unfold getCallchainRole at h
  cases hnode : db.nodes.lookup funcHash with
  | none => simp [hnode] at h
  | some node =>
    simp only [hnode,Option.some_inj] at h
    subst h
    have hperm := getCallers_perm (List.Perm.refl (sites db funcHash))
    refine ⟨?_,rfl,?_⟩
    · simp [← hperm.length_eq]
    · simp only [dispatcherNames_lower,Bool.and_eq_true,List.all_eq_true,List.mem_filter,
        ← hperm.mem_iff,List.mem_map,List.any_eq_true,Bool.not_eq_true',
        List.isEmpty_eq_false_iff,ne_eq,← List.length_eq_zero_iff,← hperm.length_eq,List.length_map]
      refine and_congr_right fun _ => ?_
      constructor
      · intro hall e he
        cases hext : (caller db e).isExternal with
        | false => exact .inr (hall _ ⟨⟨e,he,rfl⟩,hext⟩)
        | true => exact .inl rfl
      · rintro hall c ⟨⟨e,he,rfl⟩,hext⟩
        exact (hall e he).resolve_left (by simp [hext])

open scoped Classical in
/-- The role that the pipeline works with is the one that the script tells the agents, whatever the
order in which the script reads the call sites. Once the trees are built its counts are those of the
graph, and only dispatchers call a function iff it has callers and each of them is outside of the
module or has a dispatcher's name. -/
theorem callchainRole_correct (db : Db) (trees : EntryTrees) (root : String) (roots : List String)
    (maxDepth : ℕ) (funcHash : String) :
    let built := (buildEntryTrees trees (callEdges db) (root :: roots) maxDepth).1
    (∀ rows : List EdgeRow, rows.Perm (sites db funcHash) →
        Agrees (getCallchainRole db built funcHash) (cmdCallchainRole db built rows funcHash)) ∧
      ∀ role, getCallchainRole db built funcHash = some role →
        role.callersCount = (sites db funcHash).length ∧
          role.inHowManyTrees = ((root :: roots).toFinset.filter fun r =>
            Within (Calls (callEdges db)) maxDepth r funcHash).card ∧
          (role.isOnlyCalledByDispatcher = true ↔ sites db funcHash ≠ [] ∧
            ∀ e ∈ sites db funcHash, (caller db e).isExternal = true ∨
              ∃ kw ∈ dispatcherKws,
                Runner.containsText (lower ((caller db e).name.getD "")) kw = true) := by
  intro built
  refine ⟨fun rows h => role_agrees h,fun role h => ?_⟩
  obtain ⟨hcount,htrees,honly⟩ := mem_callers_of_role h
  exact ⟨hcount,htrees.trans (treeCount_build (by simp)),honly⟩

end Roles

end CallchainQueries
end EntryAnalyse
