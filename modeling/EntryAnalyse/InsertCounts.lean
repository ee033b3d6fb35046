import EntryAnalyse.PyJson
import EntryAnalyse.KeyedTable

/-! The nodes and edges of the call-chain database as they are inserted in bulk, and the number
of rows that the insertions report. -/
namespace EntryAnalyse

namespace KeyedTable

variable {κ ρ : Type} {key : ρ → κ} [DecidableEq κ]

/-- `executemany("INSERT OR IGNORE …",rows)`, and the `changes()` after it, which speak of the
statement that was run last. -/
def executeMany (t : KeyedTable key) (rows : List ρ) : KeyedTable key × ℕ :=
  rows.foldl (fun p r => (p.1.insertOrIgnore r,if key r ∈ p.1.keys then 0 else 1)) (t,0)

/-- The rows that were not in the table before. -/
def added (before after : KeyedTable key) : List ρ :=
  after.rows.filter fun r => key r ∉ before.keys

theorem insertOrIgnore_of_mem {t : KeyedTable key} {r : ρ} (h : key r ∈ t.keys) :
    t.insertOrIgnore r = t := dif_pos h

theorem foldl_of_mem {t : KeyedTable key} {rows : List ρ} (h : ∀ r ∈ rows, key r ∈ t.keys) :
    rows.foldl insertOrIgnore t = t := by
  induction rows with
  | nil => rfl
  | cons r rows ih =>
    rw [List.foldl_cons,insertOrIgnore_of_mem (h r List.mem_cons_self)]
    exact ih fun r' h' => h r' (List.mem_cons_of_mem r h')

theorem mem_keys_foldl (t : KeyedTable key) (rows : List ρ) (k : κ) :
    k ∈ (rows.foldl insertOrIgnore t).keys ↔ k ∈ t.keys ∨ k ∈ rows.map key := by
  induction rows generalizing t with
  | nil => simp
  | cons r rows ih =>
    rw [List.foldl_cons,ih,mem_keys_insertOrIgnore,List.map_cons,List.mem_cons]
    tauto

theorem executeMany_concat (t : KeyedTable key) (rows : List ρ) (r : ρ) :
    t.executeMany (rows ++ [r]) = ((rows.foldl insertOrIgnore t).insertOrIgnore r,
      if key r ∈ (rows.foldl insertOrIgnore t).keys then 0 else 1) := by
  have table : ∀ (rows : List ρ) (p : KeyedTable key × ℕ),
      (rows.foldl (fun p r => (p.1.insertOrIgnore r,if key r ∈ p.1.keys then 0 else 1)) p).1 =
        rows.foldl insertOrIgnore p.1 := by
    intro rows
    induction rows with
    | nil => exact fun _ => rfl
    | cons r rows ih => exact fun p => ih _
  rw [executeMany,List.foldl_append,List.foldl_cons,List.foldl_nil,table]

theorem executeMany_fst (t : KeyedTable key) (rows : List ρ) :
    (t.executeMany rows).1 = rows.foldl insertOrIgnore t := by
  rcases rows.eq_nil_or_concat with rfl | ⟨rows,r,rfl⟩
  · rfl
  · rw [List.concat_eq_append,executeMany_concat,List.foldl_append]
    rfl

theorem length_added (t : KeyedTable key) (rows : List ρ) :
    (added t (rows.foldl insertOrIgnore t)).length + t.rows.length =
      (rows.foldl insertOrIgnore t).rows.length := by
  obtain ⟨new,eq⟩ := prefix_foldl_insertOrIgnore t rows
  have distinct := (rows.foldl insertOrIgnore t).nodup
  rw [← eq,List.map_append,List.nodup_append] at distinct
  have old : t.rows.filter (fun r => key r ∉ t.keys) = [] := by
    rw [List.filter_eq_nil_iff]
    intro r hr
    exact fun new => of_decide_eq_true new (List.mem_map_of_mem hr)
  have fresh : new.filter (fun r => key r ∉ t.keys) = new := by
    rw [List.filter_eq_self]
    intro r hr
    refine decide_eq_true fun h => ?_
    exact distinct.2.2 _ h _ (List.mem_map_of_mem hr) rfl
  rw [added,← eq,List.filter_append,old,fresh,List.nil_append,List.length_append,Nat.add_comm]

/-- The last statement's count is the number of new rows iff no row in front of it was new. -/
theorem changes_eq_iff (t : KeyedTable key) (rows : List ρ) :
    (t.executeMany rows).2 = (added t (t.executeMany rows).1).length ↔
      ∀ r ∈ rows.dropLast, key r ∈ t.keys := by
  rw [executeMany_fst]
  rcases rows.eq_nil_or_concat with rfl | ⟨rows,r,rfl⟩
  · have none := length_added t []
    rw [List.foldl_nil] at none
    simp only [List.dropLast_nil,List.not_mem_nil,false_imp_iff,implies_true,iff_true]
    change 0 = _
    rw [List.foldl_nil]
    omega
  · have whole := length_added t (rows ++ [r])
    have front := length_added t rows
    rw [List.concat_eq_append,executeMany_concat,List.dropLast_concat]
    rw [List.foldl_append,List.foldl_cons,List.foldl_nil] at whole ⊢
    have last : ((rows.foldl insertOrIgnore t).insertOrIgnore r).rows.length =
        (rows.foldl insertOrIgnore t).rows.length +
          if key r ∈ (rows.foldl insertOrIgnore t).keys then 0 else 1 := by
      split
      · rename_i h
        rw [insertOrIgnore_of_mem h,Nat.add_zero]
      · rename_i h
        rw [rows_insertOrIgnore_of_not_mem h,List.length_append]
        rfl
    constructor
    · intro counted r' hr'
      by_contra new
      have key' : key r' ∈ (rows.foldl insertOrIgnore t).keys :=
        (mem_keys_foldl t rows _).mpr (.inr (List.mem_map_of_mem hr'))
      have more : (added t (rows.foldl insertOrIgnore t)).length ≠ 0 := by
        obtain ⟨x,hx,eq⟩ := List.mem_map.mp key'
        have inside : x ∈ added t (rows.foldl insertOrIgnore t) :=
          List.mem_filter.mpr ⟨hx,decide_eq_true (by rwa [eq])⟩
        exact (List.length_pos_of_mem inside).ne'
      omega
    · intro known
      rw [foldl_of_mem known] at whole last ⊢
      omega

theorem executeMany_of_mem {t : KeyedTable key} {rows : List ρ}
    (known : ∀ r ∈ rows, key r ∈ t.keys) : t.executeMany rows = (t,0) := by
  rcases rows.eq_nil_or_concat with rfl | ⟨rows,r,rfl⟩
  · rfl
  · rw [List.concat_eq_append] at known ⊢
    have last : key r ∈ t.keys := known r (by simp)
    rw [executeMany_concat,foldl_of_mem fun r' h => known r' (List.mem_append_left _ h),
      insertOrIgnore_of_mem last,if_pos last]

/-- Rows that were inserted change nothing when they are inserted again, and count as none. -/
theorem executeMany_again (t : KeyedTable key) (rows : List ρ) :
    (t.executeMany rows).1.executeMany rows = ((t.executeMany rows).1,0) := by
  refine executeMany_of_mem fun r hr => ?_
  rw [executeMany_fst,mem_keys_foldl]
  exact .inr (List.mem_map_of_mem hr)

end KeyedTable

namespace InsertCounts

/-- The phases in which a build of the database is left by the insertions. -/
structure BuildStatus where
  phase : String
  totalNodes : ℕ
  totalEdges : ℕ
  builtAt : ℚ

/-- A row of `nodes`, with the columns that an insertion fills. -/
structure NodeRow where
  funcHash : String
  name : String
  signature : String
  fileHash : String
  startLine : Int64
  isR3Entry : Bool
  isExternal : Bool
  entryRole : String
  entryConfidence : Option PyFloat
  createdAt : ℚ
  deriving DecidableEq

/-- A row of `edges`. -/
structure EdgeRow where
  callerHash : String
  calleeHash : String
  callSiteLine : Int64
  callType : String
  deriving DecidableEq

/-- `UNIQUE(caller_hash, callee_hash, call_site_line)`. -/
def EdgeRow.key (e : EdgeRow) : String × String × Int64 := (e.callerHash,e.calleeHash,e.callSiteLine)

/-- The database. Nothing deletes a node, so the endpoints of the stored edges stay in `nodes`. -/
structure Db where
  nodes : KeyedTable NodeRow.funcHash
  edges : KeyedTable EdgeRow.key
  status : BuildStatus
  referenced : ∀ e ∈ edges.rows, e.callerHash ∈ nodes.keys ∧ e.calleeHash ∈ nodes.keys

/-- A node as it is handed to `insert_nodes`; numbers fit into a column. -/
structure NodeItem where
  funcHash : Option String := none
  name : Option String := none
  signature : Option String := none
  fileHash : Option String := none
  startLine : Option Int64 := none
  isR3Entry : Bool := false
  isExternal : Bool := false
  entryRole : Option String := none
  entryConfidence : Option PyFloat := none

def NodeItem.row (now : ℚ) (n : NodeItem) : NodeRow :=
  ⟨n.funcHash.getD "",n.name.getD "",n.signature.getD "",n.fileHash.getD "",n.startLine.getD 0,
    n.isR3Entry,n.isExternal,n.entryRole.getD "",n.entryConfidence,now⟩

theorem mem_executeMany {κ ρ : Type} {key : ρ → κ} [DecidableEq κ] (t : KeyedTable key)
    (rows : List ρ) (k : κ) :
    k ∈ (t.executeMany rows).1.keys ↔ k ∈ t.keys ∨ k ∈ rows.map key := by
  rw [KeyedTable.executeMany_fst,KeyedTable.mem_keys_foldl]

/-- `insert_nodes`. -/
def insertNodes (now : ℚ) (items : List NodeItem) (db : Db) : Db × ℕ :=
  if items.isEmpty then (db,0)
  else
    let inserted := db.nodes.executeMany (items.map (NodeItem.row now))
    ({ nodes := inserted.1
       edges := db.edges
       status := { db.status with
         phase := "nodes", totalNodes := inserted.1.rows.length, builtAt := now }
       referenced := fun e he =>
         ⟨(mem_executeMany _ _ _).mpr (.inl (db.referenced e he).1),
           (mem_executeMany _ _ _).mpr (.inl (db.referenced e he).2)⟩ },inserted.2)

/-- An edge as it is handed to `insert_edges`. -/
structure EdgeItem where
  callerHash : Option String := none
  calleeHash : Option String := none
  callerName : Option String := none
  calleeName : Option String := none
  callSiteLine : Option Int64 := none
  callType : Option String := none

/-- The two endpoints of an edge with the names that it has for them. -/
def EdgeItem.endpoints (e : EdgeItem) : List (String × String) :=
  let side (hash name : Option String) := (hash.getD "",name.getD (hash.getD ""))
  [side e.callerHash e.callerName,side e.calleeHash e.calleeName]

/-- The loop that collects the placeholders; `known` grows with them. -/
def placeholders : List String → List (String × String) → List NodeItem
  | _,[] => []
  | known,(hash,name) :: rest =>
    if hash ≠ "" ∧ hash ∉ known then
      { funcHash := some hash, name := some name, isExternal := true } ::
        placeholders (hash :: known) rest
    else placeholders known rest

/-- The rows of the edges that have both endpoints. -/
def edgeRows (items : List EdgeItem) : List EdgeRow :=
  (items.filter fun e => e.callerHash.getD "" ≠ "" ∧ e.calleeHash.getD "" ≠ "").map fun e =>
    ⟨e.callerHash.getD "",e.calleeHash.getD "",e.callSiteLine.getD 0,
      if e.callType.getD "" = "" then "direct" else e.callType.getD ""⟩

/-- The placeholders are for the unknown hashes. -/
theorem mem_placeholders (known : List String) (endpoints : List (String × String)) (now : ℚ)
    (k : String) : k ∈ ((placeholders known endpoints).map (NodeItem.row now)).map NodeRow.funcHash ↔
      k ∉ known ∧ k ≠ "" ∧ k ∈ endpoints.map Prod.fst := by
  induction endpoints generalizing known with
  | nil => simp [placeholders]
  | cons p endpoints ih =>
    obtain ⟨hash,name⟩ := p
    rw [placeholders]
    split
    · rename_i new
      rw [List.map_cons,List.map_cons,List.mem_cons,ih,List.map_cons,List.mem_cons,List.mem_cons]
      change k = hash ∨ _ ↔ _
      by_cases eq : k = hash
      · subst eq
        simp [new.1,new.2]
      · simp [eq]
    · rename_i old
      rw [ih,List.map_cons,List.mem_cons]
      by_cases eq : k = hash
      · subst eq
        constructor
        · exact fun h => ⟨h.1,h.2.1,.inr h.2.2⟩
        · exact fun h => absurd ⟨h.2.1,h.1⟩ old
      · simp [eq]

theorem keys_insertNodes (now : ℚ) (items : List NodeItem) (db : Db) (k : String) :
    k ∈ (insertNodes now items db).1.nodes.keys ↔
      k ∈ db.nodes.keys ∨ k ∈ (items.map (NodeItem.row now)).map NodeRow.funcHash := by
  unfold insertNodes
  split
  · rename_i none
    rw [List.isEmpty_iff.mp none]
    simp
  · exact mem_executeMany _ _ _

/-- The database with placeholders for the unknown endpoints. -/
def withPlaceholders (now : ℚ) (items : List EdgeItem) (db : Db) : Db :=
  (insertNodes now (placeholders db.nodes.keys (items.flatMap EdgeItem.endpoints)) db).1

theorem keys_withPlaceholders (now : ℚ) (items : List EdgeItem) (db : Db) (k : String) :
    k ∈ (withPlaceholders now items db).nodes.keys ↔ k ∈ db.nodes.keys ∨
      k ≠ "" ∧ k ∈ (items.flatMap EdgeItem.endpoints).map Prod.fst := by
  rw [withPlaceholders,keys_insertNodes,mem_placeholders]
  tauto

theorem endpoints_edgeRows {items : List EdgeItem} {e : EdgeRow} (h : e ∈ edgeRows items) :
    (e.callerHash ≠ "" ∧ e.callerHash ∈ (items.flatMap EdgeItem.endpoints).map Prod.fst) ∧
      e.calleeHash ≠ "" ∧ e.calleeHash ∈ (items.flatMap EdgeItem.endpoints).map Prod.fst := by
  obtain ⟨item,hitem,rfl⟩ := List.mem_map.mp h
  obtain ⟨hmem,some⟩ := List.mem_filter.mp hitem
  have some := of_decide_eq_true some
  have inside : ∀ p ∈ item.endpoints, p.1 ∈ (items.flatMap EdgeItem.endpoints).map Prod.fst :=
    fun p hp => List.mem_map_of_mem (List.mem_flatMap.mpr ⟨item,hmem,hp⟩)
  exact ⟨⟨some.1,inside _ List.mem_cons_self⟩,some.2,
    inside _ (List.mem_cons_of_mem _ List.mem_cons_self)⟩

theorem edges_withPlaceholders (now : ℚ) (items : List EdgeItem) (db : Db) :
    (withPlaceholders now items db).edges = db.edges := by
  unfold withPlaceholders insertNodes
  split <;> rfl

/-- `insert_edges`. -/
def insertEdges (now : ℚ) (items : List EdgeItem) (db : Db) : Db × ℕ :=
  if items.isEmpty then (db,0)
  else
    let known := withPlaceholders now items db
    let rows := edgeRows items
    if rows.isEmpty then (known,0)
    else
      let inserted := known.edges.executeMany rows
      ({ nodes := known.nodes
         edges := inserted.1
         status := { known.status with
           phase := "edges", totalEdges := inserted.1.rows.length, builtAt := now }
         referenced := fun e he => by
           have from' : e ∈ known.edges.rows ∨ e ∈ rows := by
             rw [KeyedTable.executeMany_fst] at he
             exact KeyedTable.mem_rows_foldl_insertOrIgnore he
           rcases from' with old | new
           · exact known.referenced e old
           · obtain ⟨caller,callee⟩ := endpoints_edgeRows new
             exact ⟨(keys_withPlaceholders ..).mpr (.inr caller),
               (keys_withPlaceholders ..).mpr (.inr callee)⟩ },inserted.2)

/-- What `insert_nodes` promises: it reports the rows that were not in the table, and the same
call again reports none and leaves both tables alone. -/
structure NodesRight (now now' : ℚ) (items : List NodeItem) (db : Db) : Prop where
  counted : (insertNodes now items db).2 =
    (KeyedTable.added db.nodes (insertNodes now items db).1.nodes).length
  repeated : (insertNodes now' items (insertNodes now items db).1).2 = 0
  nodes : (insertNodes now' items (insertNodes now items db).1).1.nodes =
    (insertNodes now items db).1.nodes
  edges : (insertNodes now' items (insertNodes now items db).1).1.edges =
    (insertNodes now items db).1.edges

/-- What `insert_edges` promises: the same, and new nodes for the unknown endpoints, which are
marked external. -/
structure EdgesRight (now now' : ℚ) (items : List EdgeItem) (db : Db) : Prop where
  counted : (insertEdges now items db).2 =
    (KeyedTable.added db.edges (insertEdges now items db).1.edges).length
  repeated : (insertEdges now' items (insertEdges now items db).1).2 = 0
  nodes : (insertEdges now' items (insertEdges now items db).1).1.nodes =
    (insertEdges now items db).1.nodes
  edges : (insertEdges now' items (insertEdges now items db).1).1.edges =
    (insertEdges now items db).1.edges
  endpoints : ∀ e ∈ (insertEdges now items db).1.edges.rows,
    e.callerHash ∈ (insertEdges now items db).1.nodes.keys ∧
      e.calleeHash ∈ (insertEdges now items db).1.nodes.keys
  old : db.nodes.rows <+: (insertEdges now items db).1.nodes.rows
  external : ∀ r ∈ KeyedTable.added db.nodes (insertEdges now items db).1.nodes,
    r.isExternal = true
  placed : ∀ k, k ∈ (insertEdges now items db).1.nodes.keys ↔ k ∈ db.nodes.keys ∨
    k ≠ "" ∧ k ∈ (items.flatMap EdgeItem.endpoints).map Prod.fst

theorem insertNodes_eq (now : ℚ) (items : List NodeItem) (db : Db) :
    (insertNodes now items db).1.nodes =
        (db.nodes.executeMany (items.map (NodeItem.row now))).1 ∧
      (insertNodes now items db).1.edges = db.edges ∧
      (insertNodes now items db).2 = (db.nodes.executeMany (items.map (NodeItem.row now))).2 := by
  unfold insertNodes
  split
  · rename_i none
    rw [List.isEmpty_iff.mp none]
    exact ⟨rfl,rfl,rfl⟩
  · exact ⟨rfl,rfl,rfl⟩

theorem insertEdges_eq (now : ℚ) (items : List EdgeItem) (db : Db) :
    (insertEdges now items db).1.nodes = (withPlaceholders now items db).nodes ∧
      (insertEdges now items db).1.edges = (db.edges.executeMany (edgeRows items)).1 ∧
      (insertEdges now items db).2 = (db.edges.executeMany (edgeRows items)).2 := by
  have same := edges_withPlaceholders now items db
  unfold insertEdges
  split
  · rename_i none
    rw [List.isEmpty_iff.mp none]
    exact ⟨rfl,rfl,rfl⟩
  · dsimp only
    split
    · rename_i none
      rw [List.isEmpty_iff.mp none]
      exact ⟨rfl,same,rfl⟩
    · refine ⟨rfl,?_,?_⟩
      · exact congrArg (fun t => (t.executeMany (edgeRows items)).1) same
      · exact congrArg (fun t => (t.executeMany (edgeRows items)).2) same

/-- Nodes whose hashes are all known are ignored. -/
theorem insertNodes_known (now : ℚ) {items : List NodeItem} {db : Db}
    (known : ∀ n ∈ items, n.funcHash.getD "" ∈ db.nodes.keys) :
    (insertNodes now items db).1.nodes = db.nodes ∧ (insertNodes now items db).2 = 0 := by
  obtain ⟨nodes,-,count⟩ := insertNodes_eq now items db
  have known' : ∀ r ∈ items.map (NodeItem.row now), r.funcHash ∈ db.nodes.keys := by
    intro r hr
    obtain ⟨n,hn,rfl⟩ := List.mem_map.mp hr
    exact known n hn
  rw [nodes,count,KeyedTable.executeMany_of_mem known']
  exact ⟨rfl,rfl⟩

theorem known_after (now : ℚ) (items : List NodeItem) (db : Db) :
    ∀ n ∈ items, n.funcHash.getD "" ∈ (insertNodes now items db).1.nodes.keys := by
  intro n hn
  rw [keys_insertNodes]
  exact .inr (List.mem_map_of_mem (List.mem_map_of_mem hn))

theorem placeholders_known {known : List String} {endpoints : List (String × String)}
    (h : ∀ p ∈ endpoints, p.1 = "" ∨ p.1 ∈ known) : placeholders known endpoints = [] := by
  induction endpoints with
  | nil => rfl
  | cons p endpoints ih =>
    obtain ⟨hash,name⟩ := p
    rw [placeholders,if_neg]
    · exact ih fun p hp => h p (List.mem_cons_of_mem _ hp)
    · rintro ⟨some,new⟩
      exact (h _ List.mem_cons_self).elim some new

theorem placeholders_external {known : List String} {endpoints : List (String × String)}
    {n : NodeItem} (h : n ∈ placeholders known endpoints) : n.isExternal = true := by
  induction endpoints generalizing known with
  | nil => cases h
  | cons p endpoints ih =>
    obtain ⟨hash,name⟩ := p
    rw [placeholders] at h
    split at h
    · rcases List.mem_cons.mp h with rfl | h
      · rfl
      · exact ih h
    · exact ih h

theorem nodesRight_iff (now now' : ℚ) (items : List NodeItem) (db : Db) :
    NodesRight now now' items db ↔
      ∀ n ∈ items.dropLast, n.funcHash.getD "" ∈ db.nodes.keys := by
  obtain ⟨nodes,-,count⟩ := insertNodes_eq now items db
  have counted : (insertNodes now items db).2 =
      (KeyedTable.added db.nodes (insertNodes now items db).1.nodes).length ↔
      ∀ n ∈ items.dropLast, n.funcHash.getD "" ∈ db.nodes.keys := by
    rw [nodes,count,KeyedTable.changes_eq_iff,← List.map_dropLast]
    exact List.forall_mem_map
  obtain ⟨again,zero⟩ := insertNodes_known now' (known_after now items db)
  have edges := (insertNodes_eq now' items (insertNodes now items db).1).2.1
  exact ⟨fun right => counted.mp right.counted,fun h => ⟨counted.mpr h,zero,again,edges⟩⟩

theorem edgesRight_iff (now now' : ℚ) (items : List EdgeItem) (db : Db) :
    EdgesRight now now' items db ↔ ∀ e ∈ (edgeRows items).dropLast, e.key ∈ db.edges.keys := by
  obtain ⟨nodes,edges,count⟩ := insertEdges_eq now items db
  obtain ⟨nodes',edges',count'⟩ := insertEdges_eq now' items (insertEdges now items db).1
  have counted : (insertEdges now items db).2 =
      (KeyedTable.added db.edges (insertEdges now items db).1.edges).length ↔
      ∀ e ∈ (edgeRows items).dropLast, e.key ∈ db.edges.keys := by
    rw [edges,count,KeyedTable.changes_eq_iff]
  refine ⟨fun right => counted.mp right.counted,fun h => ⟨counted.mpr h,?_,?_,?_,?_,?_,?_,?_⟩⟩
  · rw [count',edges,KeyedTable.executeMany_again]
  · -- no endpoint is unknown any more
    have none : placeholders (insertEdges now items db).1.nodes.keys
        (items.flatMap EdgeItem.endpoints) = [] := by
      refine placeholders_known fun p hp => or_iff_not_imp_left.mpr fun some => ?_
      rw [nodes,keys_withPlaceholders]
      exact .inr ⟨some,List.mem_map_of_mem hp⟩
    rw [nodes',withPlaceholders,none]
    rfl
  · rw [edges',edges,KeyedTable.executeMany_again]
  · exact (insertEdges now items db).1.referenced
  · rw [nodes,withPlaceholders,(insertNodes_eq _ _ db).1,KeyedTable.executeMany_fst]
    exact KeyedTable.prefix_foldl_insertOrIgnore _ _
  · intro r hr
    obtain ⟨inside,new⟩ := List.mem_filter.mp hr
    rw [nodes,withPlaceholders,(insertNodes_eq _ _ db).1,KeyedTable.executeMany_fst] at inside
    rcases KeyedTable.mem_rows_foldl_insertOrIgnore inside with old | placed
    · exact absurd (List.mem_map_of_mem old) (of_decide_eq_true new)
    · obtain ⟨n,hn,rfl⟩ := List.mem_map.mp placed
      exact placeholders_external hn
  · intro k
    rw [nodes]
    exact keys_withPlaceholders now items db k

theorem insert_counts_iff (now now' : ℚ) (db : Db) :
    (∀ items, NodesRight now now' items db ↔
      ∀ n ∈ items.dropLast, n.funcHash.getD "" ∈ db.nodes.keys) ∧
    ∀ items, EdgesRight now now' items db ↔
      ∀ e ∈ (edgeRows items).dropLast, e.key ∈ db.edges.keys :=
  ⟨fun items => nodesRight_iff now now' items db,fun items => edgesRight_iff now now' items db⟩

/-- A database that was just opened. -/
def opened : Db := ⟨.empty,.empty,⟨"init",0,0,0⟩,fun e he => by cases he⟩

/-- Of two new nodes one is reported. -/
theorem two_nodes_counted_once : ¬NodesRight 0 1 [{ funcHash := some "a" },{ funcHash := some "b" }]
    opened := by
  intro right
  exact absurd right.counted (by decide)

end InsertCounts
end EntryAnalyse
