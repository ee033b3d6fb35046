import EntryAnalyse.BreadthFirst
import EntryAnalyse.CallchainClosure

/-! The tree of the functions below each entry, as `build_entry_trees` stores it, against the
distances in the graph of the calls and against the closure table. -/
namespace EntryAnalyse

open ShortestPath BreadthFirst

/-- A row of `entry_trees`; the path is stored as JSON. -/
structure TreeRow where
  rootHash : String
  nodeHash : String
  depth : ℕ
  path : List String

abbrev EntryTrees := KeyedTable (fun r : TreeRow => (r.rootHash,r.nodeHash))

/-- What `build_entry_trees` returns. -/
structure TreeSummary where
  trees : ℕ
  totalNodes : ℕ
  truncatedRoots : List String

/-- The variables of the loop over the roots, with the table that it fills. -/
structure TreeBuild where
  table : EntryTrees
  totalNodes : ℕ
  truncatedRoots : List String

namespace CallchainDb

/-- `SELECT caller_hash, callee_hash FROM edges`. -/
def edgePairs (edges : CallEdges) : List (String × String) :=
  edges.rows.map fun e => (e.callerHash,e.calleeHash)

def treeRows (edges : CallEdges) (maxDepth : ℤ) (root : String) : List TreeRow :=
  (search (edgePairs edges) maxDepth root).done.map fun i => ⟨root,i.node,i.depth,i.path⟩

/-- The body of the loop over the roots. -/
def growTree (edges : CallEdges) (maxDepth : ℤ) (s : TreeBuild) (root : String) : TreeBuild where
  table := (treeRows edges maxDepth root).foldl KeyedTable.insertOrReplace s.table
  totalNodes := s.totalNodes + (treeRows edges maxDepth root).length
  truncatedRoots :=
    if (search (edgePairs edges) maxDepth root).cut then s.truncatedRoots ++ [root]
    else s.truncatedRoots

def growTrees (edges : CallEdges) (maxDepth : ℤ) (roots : List String) : TreeBuild :=
  roots.foldl (growTree edges maxDepth) ⟨.empty,0,[]⟩

/-- Without roots the old rows stay. -/
def buildEntryTrees (trees : EntryTrees) (edges : CallEdges) (roots : List String)
    (maxDepth : ℤ) : EntryTrees × TreeSummary :=
  if roots = [] then (trees,⟨0,0,[]⟩)
  else
    let s := growTrees edges maxDepth roots
    (s.table,⟨roots.length,s.totalNodes,s.truncatedRoots⟩)

/-- The tree of a root lists a function. -/
def Lists (trees : EntryTrees) (root node : String) (k : ℕ) : Prop :=
  ∃ path, ⟨root,node,k,path⟩ ∈ trees.rows

/-- The tree of a root is that of the distances up to the limit, agrees with the closure, and
the root is reported iff the tree leaves a function out. -/
structure TreeRight (cc : CallchainDb) (edges : CallEdges) (maxDepth : ℤ)
    (built : EntryTrees × TreeSummary) (root : String) : Prop where
  nodes : ∀ node k, Lists built.1 root node k ↔
    Shortest (Calls edges) root node k ∧ (k : ℤ) ≤ maxDepth
  paths : ∀ node k path, ⟨root,node,k,path⟩ ∈ built.1.rows →
    path.head? = some root ∧ path.getLast? = some node ∧ path.IsChain (Calls edges) ∧
      path.length = k + 1
  closure : ∀ node k, node ≠ root → (Lists built.1 root node k ↔
    ⟨root,node,k⟩ ∈ (cc.buildClosure edges maxDepth.toNat).1.closure.rows)
  truncated : root ∈ built.2.truncatedRoots ↔
    ∃ node, (∃ j, Walk (Calls edges) root node j) ∧ ∀ k, ¬Lists built.1 root node k

section Trees
variable {edges : CallEdges} {maxDepth : ℤ} {roots : List String} {root node : String} {k : ℕ}

theorem edge_edgePairs (edges : CallEdges) : Edge (edgePairs edges) = Calls edges := by
  funext a d
  simp [Edge,edgePairs,Calls]

theorem mem_treeRows {r : TreeRow} : r ∈ treeRows edges maxDepth root ↔
    r.rootHash = root ∧ ∃ i ∈ (search (edgePairs edges) maxDepth root).done,
      r.nodeHash = i.node ∧ r.depth = i.depth ∧ r.path = i.path := by
  unfold treeRows
  rw [List.mem_map]
  constructor
  · rintro ⟨i,hi,rfl⟩
    exact ⟨rfl,i,hi,rfl,rfl,rfl⟩
  · obtain ⟨a,b,c,d⟩ := r
    rintro ⟨rfl,i,hi,rfl,rfl,rfl⟩
    exact ⟨i,hi,rfl⟩

theorem nodup_done : ((search (edgePairs edges) maxDepth root).done.map Item.node).Nodup := by
  rcases le_or_gt 0 maxDepth with h | h
  · exact search_nodup h
  · rw [search_of_nonpos _ _ h.le]
    exact List.nodup_singleton root

/-- Two rows with one key are one row. -/
theorem eq_of_treeRows {r r' : TreeRow} {root' : String} (h : r ∈ treeRows edges maxDepth root)
    (h' : r' ∈ treeRows edges maxDepth root')
    (hkey : (r.rootHash,r.nodeHash) = (r'.rootHash,r'.nodeHash)) : r = r' := by
  obtain ⟨a,b,c,d⟩ := r
  obtain ⟨a',b',c',d'⟩ := r'
  obtain ⟨rfl,i,hi,rfl,rfl,rfl⟩ := mem_treeRows.mp h
  obtain ⟨rfl,i',hi',rfl,rfl,rfl⟩ := mem_treeRows.mp h'
  obtain ⟨rfl,hnode⟩ := Prod.mk.inj hkey
  rw [List.inj_on_of_nodup_map nodup_done hi hi' hnode]

theorem growTrees_table : (growTrees edges maxDepth roots).table =
    (roots.flatMap (treeRows edges maxDepth)).foldl KeyedTable.insertOrReplace .empty := by
  have hfold : ∀ s : TreeBuild, (roots.foldl (growTree edges maxDepth) s).table =
      (roots.flatMap (treeRows edges maxDepth)).foldl KeyedTable.insertOrReplace s.table := by
    induction roots with
    | nil => exact fun s => rfl
    | cons root roots ih =>
      intro s
      rw [List.foldl_cons,ih,List.flatMap_cons,List.foldl_append]
      rfl
  exact hfold _

/-- The table has the rows of all trees. -/
theorem mem_growTrees {r : TreeRow} : r ∈ (growTrees edges maxDepth roots).table.rows ↔
    r.rootHash ∈ roots ∧ r ∈ treeRows edges maxDepth r.rootHash := by
  rw [growTrees_table,KeyedTable.mem_rows_foldl_insertOrReplace]
  · constructor
    · rintro (h | h)
      · cases h
      · obtain ⟨root,hroot,hr⟩ := List.mem_flatMap.mp h
        have hsame := (mem_treeRows.mp hr).1
        rw [hsame]
        exact ⟨hroot,hr⟩
    · rintro ⟨hroot,hr⟩
      exact .inr (List.mem_flatMap.mpr ⟨_,hroot,hr⟩)
  · intro y hy z hz hkey
    obtain ⟨a,-,hy⟩ := List.mem_flatMap.mp hy
    obtain ⟨b,-,hz⟩ := List.mem_flatMap.mp hz
    exact eq_of_treeRows hy hz hkey

theorem mem_truncatedRoots : root ∈ (growTrees edges maxDepth roots).truncatedRoots ↔
    root ∈ roots ∧ (search (edgePairs edges) maxDepth root).cut = true := by
  have hfold : ∀ s : TreeBuild, root ∈ (roots.foldl (growTree edges maxDepth) s).truncatedRoots ↔
      root ∈ s.truncatedRoots ∨
        (root ∈ roots ∧ (search (edgePairs edges) maxDepth root).cut = true) := by
    induction roots with
    | nil => simp
    | cons r roots ih =>
      intro s
      have hone : root ∈ (growTree edges maxDepth s r).truncatedRoots ↔ root ∈ s.truncatedRoots ∨
          (root = r ∧ (search (edgePairs edges) maxDepth root).cut = true) := by
        unfold growTree
        by_cases hcut : (search (edgePairs edges) maxDepth r).cut = true
        · simp only [hcut,if_true,List.mem_append,List.mem_singleton]
          constructor
          · rintro (h | rfl)
            · exact .inl h
            · exact .inr ⟨rfl,hcut⟩
          · rintro (h | ⟨rfl,-⟩)
            · exact .inl h
            · exact .inr rfl
        · simp only [if_neg hcut]
          constructor
          · exact .inl
          · rintro (h | ⟨rfl,h⟩)
            · exact h
            · exact absurd h hcut
      rw [List.foldl_cons,ih,hone,List.mem_cons]
      tauto
  refine (hfold _).trans ?_
  simp

theorem buildEntryTrees_of_mem (trees : EntryTrees) (h : root ∈ roots) :
    buildEntryTrees trees edges roots maxDepth =
      ((growTrees edges maxDepth roots).table,⟨roots.length,
        (growTrees edges maxDepth roots).totalNodes,
        (growTrees edges maxDepth roots).truncatedRoots⟩) :=
  if_neg (List.ne_nil_of_mem h)

theorem lists_iff (trees : EntryTrees) (h : root ∈ roots) :
    Lists (buildEntryTrees trees edges roots maxDepth).1 root node k ↔
      ∃ i ∈ (search (edgePairs edges) maxDepth root).done, i.node = node ∧ i.depth = k := by
  rw [buildEntryTrees_of_mem trees h]
  constructor
  · rintro ⟨path,hrow⟩
    obtain ⟨-,-,i,hi,hnode,hdepth,-⟩ := (mem_growTrees.trans (and_congr_right fun _ =>
      mem_treeRows)).mp hrow
    exact ⟨i,hi,hnode.symm,hdepth.symm⟩
  · rintro ⟨i,hi,rfl,rfl⟩
    exact ⟨i.path,mem_growTrees.mpr ⟨h,mem_treeRows.mpr ⟨rfl,i,hi,rfl,rfl,rfl⟩⟩⟩

/-- Up to a limit that is not negative the tree lists the functions by their distance. -/
theorem lists_iff_shortest (trees : EntryTrees) (h : root ∈ roots) (hmax : 0 ≤ maxDepth) :
    Lists (buildEntryTrees trees edges roots maxDepth).1 root node k ↔
      Shortest (Calls edges) root node k ∧ (k : ℤ) ≤ maxDepth := by
  rw [lists_iff trees h,search_iff hmax,edge_edgePairs]

theorem truncated_iff (trees : EntryTrees) (h : root ∈ roots) (hmax : 0 ≤ maxDepth) :
    root ∈ (buildEntryTrees trees edges roots maxDepth).2.truncatedRoots ↔
      ∃ n, Shortest (Calls edges) root n maxDepth.toNat := by
  rw [buildEntryTrees_of_mem trees h]
  refine mem_truncatedRoots.trans ?_
  rw [search_cut_iff hmax,edge_edgePairs]
  exact and_iff_right h

/-- The tree leaves a function out iff there is one just behind the limit. -/
theorem unlisted_iff (trees : EntryTrees) (h : root ∈ roots) (hmax : 0 ≤ maxDepth) :
    (∃ node, (∃ j, Walk (Calls edges) root node j) ∧
        ∀ k, ¬Lists (buildEntryTrees trees edges roots maxDepth).1 root node k) ↔
      ∃ n, Shortest (Calls edges) root n (maxDepth.toNat + 1) := by
  constructor
  · rintro ⟨node,⟨j,hj⟩,hnot⟩
    obtain ⟨k,-,hk⟩ := exists_shortest hj
    refine hk.level ?_
    by_contra hshort
    exact hnot k ((lists_iff_shortest trees h hmax).mpr ⟨hk,by omega⟩)
  · rintro ⟨n,hn⟩
    refine ⟨n,⟨_,hn.1⟩,fun k hk => ?_⟩
    obtain ⟨hs,hle⟩ := (lists_iff_shortest trees h hmax).mp hk
    have hsame := hs.unique hn
    omega

theorem paths_right (trees : EntryTrees) (h : root ∈ roots) {path : List String}
    (hmax : 0 ≤ maxDepth)
    (hrow : ⟨root,node,k,path⟩ ∈ (buildEntryTrees trees edges roots maxDepth).1.rows) :
    path.head? = some root ∧ path.getLast? = some node ∧ path.IsChain (Calls edges) ∧
      path.length = k + 1 := by
  rw [buildEntryTrees_of_mem trees h] at hrow
  obtain ⟨-,-,i,hi,rfl,rfl,rfl⟩ := (mem_growTrees.trans (and_congr_right fun _ =>
    mem_treeRows)).mp hrow
  have hpath := search_paths hmax i hi
  exact ⟨hpath.first,hpath.last,edge_edgePairs edges ▸ hpath.chain,hpath.length⟩

/-- A limit that leaves only the root in its tree is never right. -/
theorem TreeRight.pos {cc : CallchainDb} {trees : EntryTrees} (hroot : root ∈ roots)
    (h : TreeRight cc edges maxDepth (buildEntryTrees trees edges roots maxDepth) root) :
    1 ≤ maxDepth := by
  by_contra hlow
  have hsearch := search_of_nonpos (edgePairs edges) root
    (by omega : maxDepth ≤ 0)
  have hself : Lists (buildEntryTrees trees edges roots maxDepth).1 root root 0 := by
    rw [lists_iff trees hroot,hsearch]
    exact ⟨_,List.mem_singleton_self _,rfl,rfl⟩
  have hzero : maxDepth = 0 := by
    have := ((h.nodes root 0).mp hself).2
    push_cast at this
    omega
  subst hzero
  have htrunc := (truncated_iff trees hroot le_rfl).mpr ⟨root,shortest_self (E := Calls edges)⟩
  obtain ⟨n,hn⟩ := (unlisted_iff trees hroot le_rfl).mp (h.truncated.mp htrunc)
  have hone : Shortest (Calls edges) root n 1 := hn
  have hne : n ≠ root := fun heq => (shortest_one_iff.mp hone).1 heq.symm
  have hrow : ⟨root,n,1⟩ ∈ (cc.buildClosure edges (0 : ℤ).toNat).1.closure.rows :=
    ((upTo_start edges).rows ⟨root,n,1⟩).mpr ⟨Ne.symm hne,hone,le_rfl⟩
  have hle := ((h.nodes n 1).mp ((h.closure n 1 hne).mpr hrow)).2
  exact absurd hle (by decide)

end Trees

/-- The trees are right exactly if there is a depth at all and every root with a function just at
the limit has one behind it: the flag is set by the former. -/
theorem entry_trees_right_iff (cc : CallchainDb) (trees : EntryTrees) (edges : CallEdges)
    (roots : List String) (maxDepth : ℤ) :
    (∀ root ∈ roots,
      TreeRight cc edges maxDepth (buildEntryTrees trees edges roots maxDepth) root) ↔
      ∀ root ∈ roots, 1 ≤ maxDepth ∧ ((∃ n, Shortest (Calls edges) root n maxDepth.toNat) →
        ∃ n, Shortest (Calls edges) root n (maxDepth.toNat + 1)) := by
  refine forall₂_congr fun root hroot => ?_
  constructor
  · intro h
    have hpos := h.pos hroot
    refine ⟨hpos,fun hlimit => ?_⟩
    have htrunc := (truncated_iff trees hroot (by omega)).mpr hlimit
    exact (unlisted_iff trees hroot (by omega)).mp (h.truncated.mp htrunc)
  · rintro ⟨hpos,hlimit⟩
    have hmax : 0 ≤ maxDepth := by omega
    refine ⟨fun node k => lists_iff_shortest trees hroot hmax,
      fun node k path => paths_right trees hroot hmax,fun node k hne => ?_,?_⟩
    · rw [lists_iff_shortest trees hroot hmax]
      have hdepth : 1 ≤ maxDepth.toNat := by omega
      have hclosure := ((upTo_build edges hdepth).rows ⟨root,node,k⟩).trans
        (and_iff_right (Ne.symm hne))
      refine Iff.trans (and_congr_right fun _ => ?_) hclosure.symm
      show (k : ℤ) ≤ maxDepth ↔ k ≤ maxDepth.toNat
      omega
    · rw [truncated_iff trees hroot hmax,unlisted_iff trees hroot hmax]
      constructor
      · exact hlimit
      · rintro ⟨n,hn⟩
        obtain ⟨m,hm,-⟩ := hn.ends
        exact ⟨m,hm⟩

/-- One function calls another, which calls none. -/
def callOnce : CallEdges := ⟨[⟨"main","parse",12⟩],by simp⟩

/-- The tree of depth one is complete, and is reported as cut. -/
theorem complete_tree_reported :
    ¬TreeRight .empty callOnce 1 (buildEntryTrees .empty callOnce ["main"] 1) "main" := by
  intro h
  have hmem : "main" ∈ ["main"] := List.mem_singleton_self _
  have hcall : ∀ a d, Calls callOnce a d ↔ a = "main" ∧ d = "parse" := by
    intro a d
    simp [Calls,callOnce,eq_comm]
  have hparse : Shortest (Calls callOnce) "main" "parse" 1 :=
    shortest_one_iff.mpr ⟨by decide,(hcall _ _).mpr ⟨rfl,rfl⟩⟩
  have htrunc : "main" ∈ (buildEntryTrees .empty callOnce ["main"] 1).2.truncatedRoots :=
    (truncated_iff .empty hmem (by decide)).mpr ⟨"parse",hparse⟩
  obtain ⟨n,hn⟩ := (unlisted_iff .empty hmem (by decide)).mp (h.truncated.mp htrunc)
  obtain ⟨m,hm,he⟩ := hn.ends
  rw [((hcall m n).mp he).1] at hm
  exact (shortest_one_iff.mp hm).1 rfl

end CallchainDb
end EntryAnalyse
