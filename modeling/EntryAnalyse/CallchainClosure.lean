import EntryAnalyse.CallchainDb
import EntryAnalyse.Runs
import EntryAnalyse.ShortestPath

/-! The closure table as `build_closure` fills it from the call edges, level by level, with the
cycles that it notices on the way. -/
namespace EntryAnalyse

open ShortestPath

/-- A row of `edges`; a pair of functions may have several call sites. -/
structure CallEdge where
  callerHash : String
  calleeHash : String
  callSiteLine : ℤ

def CallEdge.key (e : CallEdge) : String × String × ℤ :=
  (e.callerHash,e.calleeHash,e.callSiteLine)

abbrev CallEdges := KeyedTable CallEdge.key

abbrev ClosureTable := KeyedTable (fun r : ClosureRow => (r.ancestor,r.descendant))

/-- Some call site of `a` calls `d`. -/
def Calls (edges : CallEdges) (a d : String) : Prop :=
  ∃ e ∈ edges.rows, e.callerHash = a ∧ e.calleeHash = d

/-- What `build_closure` returns. -/
structure ClosureSummary where
  pairs : ℕ
  maxDepthReached : ℕ
  hasCycles : Bool
  cycles : List (List String)

/-- The local state of the loop over the depths, with the table that it fills. -/
structure ClosureBuild where
  closure : ClosureTable
  cycles : List (List String)
  maxDepthReached : ℕ

namespace CallchainDb

/-- The direct calls between two functions. -/
def directRows (edges : CallEdges) : List ClosureRow :=
  edges.rows.filterMap fun e =>
    if e.callerHash ≠ e.calleeHash then some ⟨e.callerHash,e.calleeHash,1⟩ else none

/-- The functions that a call closes a path to, `LIMIT 20`. -/
def selfLoops (closure : ClosureTable) (edges : CallEdges) : List String :=
  (closure.rows.flatMap fun c => (edges.rows.filter fun e =>
    c.descendant = e.callerHash ∧ e.calleeHash = c.ancestor).map fun _ => c.ancestor).take 20

def addCycle (cycles : List (List String)) (h : String) : List (List String) :=
  if cycles.any (fun c => c.contains h) then cycles else cycles ++ [[h]]

/-- The rows of the level `depth - 1`, one call further, where the pair has no row yet. -/
def extensions (closure : ClosureTable) (edges : CallEdges) (depth : ℕ) : List ClosureRow :=
  closure.rows.flatMap fun c => edges.rows.filterMap fun e =>
    if c.descendant = e.callerHash ∧ c.depth = depth - 1 ∧ c.ancestor ≠ e.calleeHash ∧
        (c.ancestor,e.calleeHash) ∉ closure.keys
    then some ⟨c.ancestor,e.calleeHash,depth⟩ else none

/-- The body of the loop, and how many rows it inserts. -/
def extendOnce (edges : CallEdges) (depth : ℕ) (s : ClosureBuild) : ClosureBuild × ℕ :=
  let cycles := (selfLoops s.closure edges).foldl addCycle s.cycles
  let closure := (extensions s.closure edges depth).foldl KeyedTable.insertOrIgnore s.closure
  ({ s with closure := closure, cycles := cycles },closure.rows.length - s.closure.rows.length)

/-- The loop with `n` depths to go, the next being `depth`. -/
def extendFrom (edges : CallEdges) : ℕ → ℕ → ClosureBuild → ClosureBuild
  | 0,_,s => s
  | n + 1,depth,s =>
    let r := extendOnce edges depth s
    if r.2 = 0 then r.1
    else extendFrom edges n (depth + 1) { r.1 with maxDepthReached := depth }

/-- The state before the loop: the old rows are deleted and the direct calls inserted. -/
def closureStart (edges : CallEdges) : ClosureBuild :=
  ⟨(directRows edges).foldl KeyedTable.insertOrIgnore .empty,[],1⟩

def buildClosure (cc : CallchainDb) (edges : CallEdges) (maxDepth : ℕ) :
    CallchainDb × ClosureSummary :=
  let s := extendFrom edges (maxDepth - 1) 2 (closureStart edges)
  ({ cc with closure := s.closure },
    ⟨s.closure.rows.length,s.maxDepthReached,!s.cycles.isEmpty,s.cycles⟩)

def isReachable (cc : CallchainDb) (ancestor descendant : String) : Bool :=
  ancestor == descendant ||
    cc.closure.rows.any (fun r => r.ancestor == ancestor && r.descendant == descendant)

section Levels

variable {edges : CallEdges} {s : ClosureBuild} {k : ℕ}

/-- The table has the pairs of the first `k` levels, each with its distance, and a cycle was
noticed iff a call closes a path of a level before. -/
structure UpTo (edges : CallEdges) (k : ℕ) (s : ClosureBuild) : Prop where
  rows : ∀ r, r ∈ s.closure.rows ↔
    r.ancestor ≠ r.descendant ∧ Shortest (Calls edges) r.ancestor r.descendant r.depth ∧
      r.depth ≤ k
  cycles : s.cycles ≠ [] ↔ ∃ a d j, a ≠ d ∧ Shortest (Calls edges) a d j ∧ Calls edges d a ∧
    j + 1 ≤ k

theorem mem_directRows {r : ClosureRow} : r ∈ directRows edges ↔
    r.ancestor ≠ r.descendant ∧ Calls edges r.ancestor r.descendant ∧ r.depth = 1 := by
  unfold directRows Calls
  rw [List.mem_filterMap]
  constructor
  · rintro ⟨e,he,hr⟩
    by_cases hne : e.callerHash ≠ e.calleeHash
    · rw [if_pos hne] at hr
      cases hr
      exact ⟨hne,⟨e,he,rfl,rfl⟩,rfl⟩
    · rw [if_neg hne] at hr
      cases hr
  · obtain ⟨a,d,j⟩ := r
    rintro ⟨hne,⟨e,he,rfl,rfl⟩,rfl⟩
    exact ⟨e,he,if_pos hne⟩

/-- The first level. -/
theorem upTo_start (edges : CallEdges) : UpTo edges 1 (closureStart edges) := by
  have hclash : ∀ x ∈ directRows edges, ∀ y ∈ directRows edges,
      (x.ancestor,x.descendant) = (y.ancestor,y.descendant) → x = y := by
    rintro ⟨a,d,j⟩ hx ⟨a',d',j'⟩ hy heq
    have hj : j = 1 := (mem_directRows.mp hx).2.2
    have hj' : j' = 1 := (mem_directRows.mp hy).2.2
    rw [Prod.mk.injEq] at heq
    rw [ClosureRow.mk.injEq]
    exact ⟨heq.1,heq.2,hj.trans hj'.symm⟩
  constructor
  · intro r
    have hrows : r ∈ (closureStart edges).closure.rows ↔ r ∈ directRows edges := by
      unfold closureStart
      rw [KeyedTable.mem_rows_foldl_insertOrIgnore_iff hclash]
      simp [KeyedTable.empty,KeyedTable.keys]
    rw [hrows,mem_directRows]
    constructor
    · rintro ⟨hne,hcalls,hdepth⟩
      rw [hdepth]
      exact ⟨hne,shortest_one_iff.mpr ⟨hne,hcalls⟩,le_refl 1⟩
    · rintro ⟨hne,hs,hle⟩
      have hone : r.depth = 1 := Nat.le_antisymm hle (hs.pos hne)
      rw [hone] at hs
      exact ⟨hne,(shortest_one_iff.mp hs).2,hone⟩
  · constructor
    · intro hne
      exact absurd rfl hne
    · rintro ⟨a,d,j,hne,hs,-,hj⟩
      have hpos := hs.pos hne
      omega

theorem foldl_addCycle_ne_nil {l : List String} {cycles : List (List String)} :
    l.foldl addCycle cycles ≠ [] ↔ cycles ≠ [] ∨ l ≠ [] := by
  induction l generalizing cycles with
  | nil => simp
  | cons h l ih =>
    have hadd : addCycle cycles h ≠ [] := by
      unfold addCycle
      by_cases hany : cycles.any (fun c => c.contains h) = true
      · rw [if_pos hany]
        rintro rfl
        cases hany
      · rw [if_neg hany]
        simp
    rw [List.foldl_cons,ih]
    simp [hadd]

theorem selfLoops_ne_nil {closure : ClosureTable} : selfLoops closure edges ≠ [] ↔
    ∃ c ∈ closure.rows, Calls edges c.descendant c.ancestor := by
  have hmem : ∀ c : ClosureRow, ((edges.rows.filter fun e =>
      c.descendant = e.callerHash ∧ e.calleeHash = c.ancestor).map fun _ => c.ancestor) ≠ [] ↔
        Calls edges c.descendant c.ancestor := by
    intro c
    rw [ne_eq,List.map_eq_nil_iff,List.filter_eq_nil_iff,Calls]
    push Not
    refine exists_congr fun e => and_congr_right fun _ => ?_
    rw [decide_eq_true_iff]
    exact and_congr_left fun _ => eq_comm
  unfold selfLoops
  rw [ne_eq,List.take_eq_nil_iff,or_iff_right (by decide),List.flatMap_eq_nil_iff]
  push Not
  exact exists_congr fun c => and_congr_right fun _ => hmem c

/-- A pair has a row iff it is of one of the levels. -/
theorem UpTo.mem_keys (h : UpTo edges k s) {a d : String} :
    (a,d) ∈ s.closure.keys ↔ a ≠ d ∧ Within (Calls edges) k a d := by
  rw [within_iff_shortest]
  constructor
  · intro hk
    obtain ⟨r,hr,heq⟩ := List.mem_map.mp hk
    rw [Prod.mk.injEq] at heq
    rw [h.rows,heq.1,heq.2] at hr
    exact ⟨hr.1,r.depth,hr.2.2,hr.2.1⟩
  · rintro ⟨hne,j,hj,hs⟩
    exact List.mem_map.mpr ⟨⟨a,d,j⟩,(h.rows _).mpr ⟨hne,hs,hj⟩,rfl⟩

/-- The rows that a level adds. -/
theorem UpTo.mem_extensions (h : UpTo edges k s) (hk : 1 ≤ k) {r : ClosureRow} :
    r ∈ extensions s.closure edges (k + 1) ↔ r.ancestor ≠ r.descendant ∧
      Shortest (Calls edges) r.ancestor r.descendant (k + 1) ∧ r.depth = k + 1 := by
  unfold extensions
  rw [List.mem_flatMap]
  constructor
  · rintro ⟨c,hc,hr⟩
    obtain ⟨e,he,hr⟩ := List.mem_filterMap.mp hr
    obtain ⟨⟨hdesc,hdepth,hne,hnew⟩,rfl⟩ := Runs.guarded hr
    obtain ⟨-,hs,-⟩ := (h.rows c).mp hc
    rw [hdepth,Nat.add_sub_cancel] at hs
    rw [h.mem_keys] at hnew
    refine ⟨hne,shortest_succ_iff.mpr ⟨⟨c.descendant,hs,e,he,hdesc.symm,rfl⟩,?_⟩,rfl⟩
    exact fun hw => hnew ⟨hne,hw⟩
  · obtain ⟨a,d,j⟩ := r
    rintro ⟨hne,hs,hj⟩
    dsimp only at hne hs hj
    obtain ⟨⟨m,hm,e,he,hcaller,hcallee⟩,hfar⟩ := shortest_succ_iff.mp hs
    have ham : a ≠ m := by
      rintro rfl
      have hzero := hm.unique shortest_self
      omega
    refine ⟨⟨a,m,k⟩,(h.rows _).mpr ⟨ham,hm,le_refl k⟩,List.mem_filterMap.mpr ⟨e,he,?_⟩⟩
    have hnew : (a,e.calleeHash) ∉ s.closure.keys := by
      rw [hcallee,h.mem_keys]
      exact fun hw => hfar hw.2
    have hne' : a ≠ e.calleeHash := by
      rw [hcallee]
      exact hne
    rw [if_pos ⟨hcaller.symm,(Nat.add_sub_cancel k 1).symm,hne',hnew⟩,hcallee,hj]

/-- One iteration adds a level. -/
theorem UpTo.extendOnce (h : UpTo edges k s) (hk : 1 ≤ k) :
    UpTo edges (k + 1) (extendOnce edges (k + 1) s).1 := by
  have hclash : ∀ x ∈ extensions s.closure edges (k + 1),
      ∀ y ∈ extensions s.closure edges (k + 1),
      (x.ancestor,x.descendant) = (y.ancestor,y.descendant) → x = y := by
    rintro ⟨a,d,j⟩ hx ⟨a',d',j'⟩ hy heq
    have hj : j = k + 1 := ((h.mem_extensions hk).mp hx).2.2
    have hj' : j' = k + 1 := ((h.mem_extensions hk).mp hy).2.2
    rw [Prod.mk.injEq] at heq
    rw [ClosureRow.mk.injEq]
    exact ⟨heq.1,heq.2,hj.trans hj'.symm⟩
  constructor
  · intro r
    have hrows : r ∈ (CallchainDb.extendOnce edges (k + 1) s).1.closure.rows ↔
        r ∈ s.closure.rows ∨
          (r ∈ extensions s.closure edges (k + 1) ∧ (r.ancestor,r.descendant) ∉ s.closure.keys) :=
      KeyedTable.mem_rows_foldl_insertOrIgnore_iff hclash
    rw [hrows,h.rows,h.mem_extensions hk,h.mem_keys]
    constructor
    · rintro (⟨hne,hs,hle⟩ | ⟨⟨hne,hs,hdepth⟩,-⟩)
      · exact ⟨hne,hs,by omega⟩
      · rw [hdepth]
        exact ⟨hne,hs,le_refl _⟩
    · rintro ⟨hne,hs,hle⟩
      rcases Nat.lt_or_eq_of_le hle with hlt | heq
      · exact .inl ⟨hne,hs,by omega⟩
      · rw [heq] at hs
        exact .inr ⟨⟨hne,hs,heq⟩,fun hw => (shortest_succ_iff.mp hs).2 hw.2⟩
  · have hcycles : (CallchainDb.extendOnce edges (k + 1) s).1.cycles =
        (selfLoops s.closure edges).foldl addCycle s.cycles := rfl
    rw [hcycles,foldl_addCycle_ne_nil,selfLoops_ne_nil,h.cycles]
    constructor
    · rintro (⟨a,d,j,hne,hs,hback,hj⟩ | ⟨c,hc,hback⟩)
      · exact ⟨a,d,j,hne,hs,hback,by omega⟩
      · obtain ⟨hne,hs,hle⟩ := (h.rows c).mp hc
        exact ⟨c.ancestor,c.descendant,c.depth,hne,hs,hback,by omega⟩
    · rintro ⟨a,d,j,hne,hs,hback,hj⟩
      exact .inr ⟨⟨a,d,j⟩,(h.rows _).mpr ⟨hne,hs,Nat.le_of_succ_le_succ hj⟩,hback⟩

/-- After an empty level nothing more is to come. -/
theorem UpTo.stays (h : UpTo edges (k + 1) s) (hk : 1 ≤ k)
    (hempty : ∀ a d, a ≠ d → ¬Shortest (Calls edges) a d (k + 1)) {n : ℕ} (hn : k + 1 ≤ n) :
    UpTo edges n s := by
  have hshort : ∀ a d j, a ≠ d → Shortest (Calls edges) a d j → j ≤ k := by
    intro a d j hne hs
    by_contra hlong
    obtain ⟨m,hm⟩ := hs.level (j := k + 1) (by omega)
    refine hempty a m ?_ hm
    rintro rfl
    have hzero := hm.unique shortest_self
    omega
  constructor
  · intro r
    rw [h.rows]
    constructor
    · rintro ⟨hne,hs,hle⟩
      exact ⟨hne,hs,hle.trans hn⟩
    · rintro ⟨hne,hs,-⟩
      have hle := hshort _ _ _ hne hs
      exact ⟨hne,hs,by omega⟩
  · rw [h.cycles]
    constructor
    · rintro ⟨a,d,j,hne,hs,hback,hj⟩
      exact ⟨a,d,j,hne,hs,hback,hj.trans hn⟩
    · rintro ⟨a,d,j,hne,hs,hback,-⟩
      have hle := hshort _ _ _ hne hs
      exact ⟨a,d,j,hne,hs,hback,by omega⟩

/-- An iteration that inserts nothing has found an empty level. -/
theorem UpTo.empty_of_none (h : UpTo edges k s) (hk : 1 ≤ k)
    (hnone : (CallchainDb.extendOnce edges (k + 1) s).2 = 0) :
    ∀ a d, a ≠ d → ¬Shortest (Calls edges) a d (k + 1) := by
  intro a d hne hs
  have hprefix := KeyedTable.prefix_foldl_insertOrIgnore s.closure
    (extensions s.closure edges (k + 1))
  have hlen : (((extensions s.closure edges (k + 1)).foldl KeyedTable.insertOrIgnore
      s.closure).rows.length - s.closure.rows.length) = 0 := hnone
  have hsame := hprefix.eq_of_length_le (by omega)
  have hrow : (⟨a,d,k + 1⟩ : ClosureRow) ∈
      (CallchainDb.extendOnce edges (k + 1) s).1.closure.rows :=
    ((h.extendOnce hk).rows _).mpr ⟨hne,hs,le_refl _⟩
  have hold : (⟨a,d,k + 1⟩ : ClosureRow) ∈ s.closure.rows := by
    rw [hsame]
    exact hrow
  have hle : k + 1 ≤ k := ((h.rows _).mp hold).2.2
  omega

/-- The loop adds all the levels that it has to go. -/
theorem upTo_extendFrom (h : UpTo edges k s) (hk : 1 ≤ k) (n : ℕ) :
    UpTo edges (k + n) (extendFrom edges n (k + 1) s) := by
  induction n generalizing k s with
  | zero => exact h
  | succ n ih =>
    have hnext := h.extendOnce hk
    unfold extendFrom
    dsimp only
    by_cases hnone : (CallchainDb.extendOnce edges (k + 1) s).2 = 0
    · rw [if_pos hnone]
      exact hnext.stays hk (h.empty_of_none hk hnone) (by omega)
    · rw [if_neg hnone]
      have hreached : UpTo edges (k + 1)
          { (CallchainDb.extendOnce edges (k + 1) s).1 with maxDepthReached := k + 1 } :=
        ⟨hnext.rows,hnext.cycles⟩
      have hrest := ih hreached (by omega)
      rw [Nat.add_right_comm,Nat.add_assoc] at hrest
      exact hrest

end Levels

/-- What the whole loop has found. -/
theorem upTo_build (edges : CallEdges) {maxDepth : ℕ} (h : 1 ≤ maxDepth) :
    UpTo edges maxDepth (extendFrom edges (maxDepth - 1) 2 (closureStart edges)) := by
  have hall := upTo_extendFrom (upTo_start edges) (le_refl 1) (maxDepth - 1)
  rw [Nat.add_sub_cancel' h] at hall
  exact hall

/-- After `build_closure` the table holds the pairs within `maxDepth` calls, each once and with
its distance, reachability is read from it, and a cycle is reported iff there is one of at most
`maxDepth` functions. -/
theorem buildClosure_correct (cc : CallchainDb) (edges : CallEdges) {maxDepth : ℕ}
    (h : 1 ≤ maxDepth) :
    (∀ a d k, a ≠ d → (⟨a,d,k⟩ ∈ (cc.buildClosure edges maxDepth).1.closure.rows ↔
        Shortest (Calls edges) a d k ∧ k ≤ maxDepth)) ∧
      (cc.buildClosure edges maxDepth).1.closure.keys.Nodup ∧
      (∀ a d, (cc.buildClosure edges maxDepth).1.isReachable a d = true ↔
        a = d ∨ ∃ k ≤ maxDepth, Walk (Calls edges) a d k) ∧
      ((cc.buildClosure edges maxDepth).2.hasCycles = true ↔
        ∃ c : Cycle String, IsCycle (Calls edges) c ∧ 2 ≤ c.length ∧ c.length ≤ maxDepth) := by
  have hup := upTo_build edges h
  refine ⟨?_,(cc.buildClosure edges maxDepth).1.closure.nodup,?_,?_⟩
  · intro a d k hne
    exact (hup.rows ⟨a,d,k⟩).trans (and_iff_right hne)
  · intro a d
    have hreach : (cc.buildClosure edges maxDepth).1.isReachable a d = true ↔
        a = d ∨ (a,d) ∈ (cc.buildClosure edges maxDepth).1.closure.keys := by
      unfold isReachable KeyedTable.keys
      simp
    rw [hreach]
    refine (or_congr_right hup.mem_keys).trans ?_
    by_cases heq : a = d
    · simp [heq]
    · simp [heq,Within]
  · rw [exists_cycle_iff]
    refine Iff.trans ?_ hup.cycles
    unfold buildClosure
    simp

/-- A call chain of three functions that ends in a loop of two, and a recursive call. -/
def loopedEdges : CallEdges :=
  ⟨[⟨"recv","parse",12⟩,⟨"parse","handle",30⟩,⟨"handle","parse",44⟩,⟨"handle","handle",45⟩],
    by decide⟩

theorem loopedEdges_closure :
    (∀ a d k, a ≠ d → (⟨a,d,k⟩ ∈ (empty.buildClosure loopedEdges 10).1.closure.rows ↔
        Shortest (Calls loopedEdges) a d k ∧ k ≤ 10)) ∧
      (empty.buildClosure loopedEdges 10).1.closure.keys.Nodup ∧
      (∀ a d, (empty.buildClosure loopedEdges 10).1.isReachable a d = true ↔
        a = d ∨ ∃ k ≤ 10, Walk (Calls loopedEdges) a d k) ∧
      ((empty.buildClosure loopedEdges 10).2.hasCycles = true ↔
        ∃ c : Cycle String, IsCycle (Calls loopedEdges) c ∧ 2 ≤ c.length ∧ c.length ≤ 10) :=
  buildClosure_correct .empty loopedEdges (by decide)

end CallchainDb
end EntryAnalyse
