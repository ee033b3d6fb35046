import EntryAnalyse.ShortestPath

/-! Breadth-first search with a queue, a set of visited vertices that is marked when a vertex is
queued, the path to each vertex, and a limit for the depth. -/
namespace EntryAnalyse
namespace BreadthFirst

open ShortestPath

variable {V : Type} [DecidableEq V]

/-- A vertex with the path and the depth at which it is queued. -/
structure Item (V : Type) where
  node : V
  path : List V
  depth : ℕ

/-- `cut` says that a vertex at the limit was taken from the queue. -/
structure State (V : Type) where
  visited : List V
  queue : List (Item V)
  done : List (Item V)
  cut : Bool

def Edge (edges : List (V × V)) (a b : V) : Prop := (a,b) ∈ edges

/-- The successors of a vertex, in the order of the edges. -/
def successors (edges : List (V × V)) (v : V) : List V :=
  (edges.filter fun e => e.1 = v).map Prod.snd

def child (item : Item V) (v : V) : Item V := ⟨v,item.path ++ [v],item.depth + 1⟩

def push (item : Item V) (s : State V) (v : V) : State V :=
  if v ∈ s.visited then s
  else { s with visited := s.visited ++ [v], queue := s.queue ++ [child item v] }

/-- The body of the loop: `item` is taken from the queue, which is `rest` then. -/
def visit (edges : List (V × V)) (limit : ℤ) (item : Item V) (rest : List (Item V))
    (s : State V) : State V :=
  let s := { s with queue := rest, done := s.done ++ [item] }
  if limit ≤ item.depth then { s with cut := true }
  else (successors edges item.node).foldl (push item) s

/-- What bounds the number of iterations to come. -/
def pending (edges : List (V × V)) (s : State V) : ℕ :=
  ((edges.map Prod.snd).toFinset.filter fun v => v ∉ s.visited).card + s.queue.length

section Steps
variable {edges : List (V × V)} {limit : ℤ} {item : Item V} {rest : List (Item V)} {s : State V}
  {v w : V} {l : List V}

theorem mem_successors : w ∈ successors edges v ↔ Edge edges v w := by
  simp [successors,Edge]

theorem pending_push (hv : v ∈ edges.map Prod.snd) :
    pending edges (push item s v) ≤ pending edges s := by
  unfold push
  split
  · exact le_rfl
  · rename_i hnew
    have herase : ((edges.map Prod.snd).toFinset.filter fun w => w ∉ s.visited ++ [v]) =
        ((edges.map Prod.snd).toFinset.filter fun w => w ∉ s.visited).erase v := by
      ext w
      simp only [Finset.mem_filter,Finset.mem_erase,List.mem_append,List.mem_singleton,not_or]
      tauto
    have hmem : v ∈ (edges.map Prod.snd).toFinset.filter fun w => w ∉ s.visited :=
      Finset.mem_filter.mpr ⟨List.mem_toFinset.mpr hv,hnew⟩
    have hpos := Finset.card_pos.mpr ⟨v,hmem⟩
    simp only [pending,herase,Finset.card_erase_of_mem hmem,List.length_append,List.length_singleton]
    omega

theorem pending_foldl (hl : ∀ v ∈ l, v ∈ edges.map Prod.snd) :
    pending edges (l.foldl (push item) s) ≤ pending edges s := by
  induction l generalizing s with
  | nil => exact le_rfl
  | cons v l ih =>
    exact (ih fun w hw => hl w (List.mem_cons_of_mem v hw)).trans
      (pending_push (hl v List.mem_cons_self))

theorem pending_visit (h : s.queue = item :: rest) :
    pending edges (visit edges limit item rest s) < pending edges s := by
  have hpop : pending edges { s with queue := rest, done := s.done ++ [item] } + 1 =
      pending edges s := by
    simp only [pending,h,List.length_cons]
    omega
  have hsub : ∀ v ∈ successors edges item.node, v ∈ edges.map Prod.snd := by
    intro v hv
    obtain ⟨e,he,rfl⟩ := List.mem_map.mp hv
    exact List.mem_map_of_mem (List.mem_of_mem_filter he)
  unfold visit
  dsimp only
  split
  · exact Nat.lt_of_succ_le (le_of_eq hpop)
  · have hfold : pending edges ((successors edges item.node).foldl (push item)
        { s with queue := rest, done := s.done ++ [item] }) ≤ _ := pending_foldl hsub
    omega

end Steps

def run (edges : List (V × V)) (limit : ℤ) (s : State V) : State V :=
  match _hq : s.queue with
  | [] => s
  | item :: rest => run edges limit (visit edges limit item rest s)
termination_by pending edges s
decreasing_by exact pending_visit _hq

def start (root : V) : State V := ⟨[root],[⟨root,[root],0⟩],[],false⟩

def search (edges : List (V × V)) (limit : ℤ) (root : V) : State V :=
  run edges limit (start root)

/-- The path of an item leads from the root to it, and has the length that the depth says. -/
structure IsPath (edges : List (V × V)) (root : V) (i : Item V) : Prop where
  first : i.path.head? = some root
  last : i.path.getLast? = some i.node
  chain : i.path.IsChain (Edge edges)
  length : i.path.length = i.depth + 1

/-- What every iteration keeps. -/
structure Inv (edges : List (V × V)) (limit : ℤ) (root : V) (s : State V) : Prop where
  visited : ∀ v, v ∈ s.visited ↔ ∃ i ∈ s.done ++ s.queue, i.node = v
  nodup : ((s.done ++ s.queue).map Item.node).Nodup
  dist : ∀ i ∈ s.done ++ s.queue, Shortest (Edge edges) root i.node i.depth
  path : ∀ i ∈ s.done ++ s.queue, IsPath edges root i
  within : ∀ i ∈ s.done ++ s.queue, (i.depth : ℤ) ≤ limit
  sorted : s.queue.Pairwise fun a b => a.depth ≤ b.depth
  band : ∀ a ∈ s.queue.head?, ∀ b ∈ s.queue, b.depth ≤ a.depth + 1
  closed : ∀ i ∈ s.done, (i.depth : ℤ) < limit → ∀ v, Edge edges i.node v → v ∈ s.visited
  cut : s.cut = true ↔ ∃ i ∈ s.done, limit ≤ i.depth
  root : root ∈ s.visited

section Invariant
variable {edges : List (V × V)} {limit : ℤ} {root : V} {item : Item V} {rest : List (Item V)}
  {s : State V} {l : List V}

omit [DecidableEq V] in
theorem inv_start (edges : List (V × V)) (root : V) (h : 0 ≤ limit) : Inv edges limit root (start root) where
  visited := fun v => by simp [start,eq_comm]
  nodup := List.nodup_singleton root
  dist := by simp [start,shortest_self]
  path := by
    intro i hi
    rw [List.mem_singleton.mp hi]
    exact ⟨rfl,rfl,List.isChain_singleton root,rfl⟩
  within := by simpa [start] using h
  sorted := List.pairwise_singleton _ _
  band := by simp [start]
  closed := by simp [start]
  cut := by simp [start]
  root := List.mem_singleton_self root

/-- The successors that are queued: the new ones, each once. -/
theorem foldl_push (item : Item V) (l : List V) (s : State V) : ∃ fresh : List V,
    fresh.Nodup ∧ (∀ v, v ∈ fresh ↔ v ∈ l ∧ v ∉ s.visited) ∧
      l.foldl (push item) s =
        { s with visited := s.visited ++ fresh, queue := s.queue ++ fresh.map (child item) } := by
  induction l generalizing s with
  | nil => exact ⟨[],List.nodup_nil,by simp,by simp⟩
  | cons v l ih =>
    obtain ⟨fresh,hnodup,hmem,heq⟩ := ih (push item s v)
    by_cases hv : v ∈ s.visited
    · have hpush : push item s v = s := if_pos hv
      rw [hpush] at hmem heq
      refine ⟨fresh,hnodup,fun w => ?_,by rw [List.foldl_cons,hpush,heq]⟩
      rw [hmem,List.mem_cons]
      constructor
      · rintro ⟨hw,hnew⟩
        exact ⟨.inr hw,hnew⟩
      · rintro ⟨rfl | hw,hnew⟩
        · exact absurd hv hnew
        · exact ⟨hw,hnew⟩
    · have hpush : push item s v =
          { s with visited := s.visited ++ [v], queue := s.queue ++ [child item v] } := if_neg hv
      rw [hpush] at hmem heq
      refine ⟨v :: fresh,List.nodup_cons.mpr ⟨?_,hnodup⟩,fun w => ?_,?_⟩
      · intro hmem'
        exact ((hmem v).mp hmem').2 (List.mem_append_right _ (List.mem_singleton_self v))
      · rw [List.mem_cons,hmem,List.mem_cons,List.mem_append,List.mem_singleton]
        constructor
        · rintro (rfl | ⟨hw,hnew⟩)
          · exact ⟨.inl rfl,hv⟩
          · exact ⟨.inr hw,fun h => hnew (.inl h)⟩
        · rintro ⟨rfl | hw,hnew⟩
          · exact .inl rfl
          · by_cases hwv : w = v
            · exact .inl hwv
            · exact .inr ⟨hw,fun h => h.elim hnew hwv⟩
      · rw [List.foldl_cons,hpush,heq]
        simp [List.append_assoc]

/-- By induction on the distance: what is no farther than the head of the queue is visited. -/
theorem Inv.covered (h : Inv edges limit root s) (hq : s.queue = item :: rest) {k : ℕ} {v : V}
    (hs : Shortest (Edge edges) root v k) (hk : k ≤ item.depth) : v ∈ s.visited := by
  induction k generalizing v with
  | zero =>
    rw [← hs.1.eq_of_zero]
    exact h.root
  | succ k ih =>
    obtain ⟨m,hm,he⟩ := hs.ends
    obtain ⟨i,hi,rfl⟩ := (h.visited m).mp (ih hm (by omega))
    have hdepth : i.depth = k := (h.dist i hi).unique hm
    have hlimit := h.within item (List.mem_append_right _ (hq ▸ List.mem_cons_self))
    rcases List.mem_append.mp hi with hdone | hqueue
    · exact h.closed i hdone (by omega) v he
    · have hsorted := h.sorted
      rw [hq] at hqueue hsorted
      rcases List.mem_cons.mp hqueue with rfl | hrest
      · omega
      · have := (List.pairwise_cons.mp hsorted).1 i hrest
        omega

omit [DecidableEq V] in
theorem IsPath.child {v : V} (h : IsPath edges root item) (he : Edge edges item.node v) :
    IsPath edges root (child item v) where
  first := by
    show (item.path ++ [v]).head? = some root
    rw [List.head?_append,h.first,Option.some_or]
  last := List.getLast?_concat
  chain := by
    refine List.isChain_append.mpr ⟨h.chain,List.isChain_singleton v,?_⟩
    intro x hx y hy
    rw [h.last,Option.mem_some] at hx
    rw [List.head?_cons,Option.mem_some] at hy
    rw [← hx,← hy]
    exact he
  length := by
    show (item.path ++ [v]).length = item.depth + 1 + 1
    rw [List.length_append,h.length,List.length_singleton]

/-- One iteration. -/
theorem Inv.visit (h : Inv edges limit root s) (hq : s.queue = item :: rest) :
    Inv edges limit root (visit edges limit item rest s) := by
  have hitem : item ∈ s.done ++ s.queue := List.mem_append_right _ (hq ▸ List.mem_cons_self)
  have hall : s.done ++ [item] ++ rest = s.done ++ s.queue := by
    rw [hq,List.append_assoc]
    rfl
  have hsorted := h.sorted
  have hband := h.band
  rw [hq] at hsorted hband
  obtain ⟨hhead,hrest⟩ := List.pairwise_cons.mp hsorted
  have hband' : ∀ b ∈ rest, b.depth ≤ item.depth + 1 :=
    fun b hb => hband item rfl b (List.mem_cons_of_mem item hb)
  unfold BreadthFirst.visit
  dsimp only
  by_cases hlimit : limit ≤ item.depth
  · rw [if_pos hlimit]
    refine ⟨?_,?_,?_,?_,?_,hrest,?_,?_,?_,h.root⟩
    · rw [hall]
      exact h.visited
    · rw [hall]
      exact h.nodup
    · rw [hall]
      exact h.dist
    · rw [hall]
      exact h.path
    · rw [hall]
      exact h.within
    · intro a ha b hb
      have hle := hhead a (List.mem_of_mem_head? ha)
      have := hband' b hb
      omega
    · intro i hi hlt v he
      rcases List.mem_append.mp hi with hi | hi
      · exact h.closed i hi hlt v he
      · rw [List.mem_singleton.mp hi] at hlt
        omega
    · exact iff_of_true rfl ⟨item,List.mem_append_right _ (List.mem_singleton_self item),hlimit⟩
  · rw [if_neg hlimit]
    obtain ⟨fresh,hnodup,hmem,heq⟩ := foldl_push item (successors edges item.node)
      { s with queue := rest, done := s.done ++ [item] }
    rw [heq]
    have hfresh : ∀ v ∈ fresh, Edge edges item.node v ∧ v ∉ s.visited :=
      fun v hv => ⟨mem_successors.mp ((hmem v).mp hv).1,((hmem v).mp hv).2⟩
    have hassoc : s.done ++ [item] ++ (rest ++ fresh.map (child item)) =
        (s.done ++ s.queue) ++ fresh.map (child item) := by
      rw [← hall,List.append_assoc _ rest]
    have hnode : (fresh.map (child item)).map Item.node = fresh := by
      rw [List.map_map]
      exact List.map_id _
    have hforall : ∀ {P : Item V → Prop}, (∀ i ∈ s.done ++ s.queue, P i) →
        (∀ v ∈ fresh, P (child item v)) →
        ∀ i ∈ s.done ++ [item] ++ (rest ++ fresh.map (child item)), P i := by
      intro P hold hnew i hi
      rw [hassoc] at hi
      rcases List.mem_append.mp hi with hi | hi
      · exact hold i hi
      · obtain ⟨v,hv,rfl⟩ := List.mem_map.mp hi
        exact hnew v hv
    refine ⟨?_,?_,?_,?_,?_,?_,?_,?_,?_,List.mem_append_left _ h.root⟩
    · intro v
      rw [hassoc]
      simp only [List.mem_append,h.visited v,List.mem_map]
      constructor
      · rintro (⟨i,hi,rfl⟩ | hv)
        · exact ⟨i,.inl hi,rfl⟩
        · exact ⟨child item v,.inr ⟨v,hv,rfl⟩,rfl⟩
      · rintro ⟨i,hi | ⟨w,hw,rfl⟩,rfl⟩
        · exact .inl ⟨i,hi,rfl⟩
        · exact .inr hw
    · show ((s.done ++ [item] ++ (rest ++ fresh.map (child item))).map Item.node).Nodup
      rw [hassoc,List.map_append,hnode]
      refine List.Nodup.append h.nodup hnodup ?_
      intro v hv hvf
      obtain ⟨i,hi,rfl⟩ := List.mem_map.mp hv
      exact (hfresh _ hvf).2 ((h.visited _).mpr ⟨i,hi,rfl⟩)
    · refine hforall h.dist fun v hv => ?_
      obtain ⟨he,hnew⟩ := hfresh v hv
      refine ⟨.snoc (h.dist item hitem).1 he,fun j hj => ?_⟩
      by_contra hshort
      have hlt : j < item.depth + 1 := not_le.mp hshort
      obtain ⟨i,hi,hs⟩ := exists_shortest hj
      exact hnew (h.covered hq hs (by omega))
    · exact hforall h.path fun v hv => (h.path item hitem).child (hfresh v hv).1
    · refine hforall h.within fun v _ => ?_
      show ((item.depth + 1 : ℕ) : ℤ) ≤ limit
      push_cast
      omega
    · refine List.pairwise_append.mpr ⟨hrest,?_,?_⟩
      · refine List.pairwise_map.mpr ?_
        exact List.Pairwise.imp (fun _ => le_rfl) hnodup
      · intro a ha b hb
        obtain ⟨v,-,rfl⟩ := List.mem_map.mp hb
        exact hband' a ha
    · intro a ha b hb
      have hlow : item.depth ≤ a.depth := by
        rcases List.mem_append.mp (List.mem_of_mem_head? ha) with ha | ha
        · exact hhead a ha
        · obtain ⟨v,-,rfl⟩ := List.mem_map.mp ha
          exact Nat.le_succ _
      rcases List.mem_append.mp hb with hb | hb
      · have := hband' b hb
        omega
      · obtain ⟨v,-,rfl⟩ := List.mem_map.mp hb
        exact Nat.succ_le_succ hlow
    · intro i hi hlt v he
      rcases List.mem_append.mp hi with hi | hi
      · exact List.mem_append_left _ (h.closed i hi hlt v he)
      · rw [List.mem_singleton.mp hi] at he
        by_cases hv : v ∈ s.visited
        · exact List.mem_append_left _ hv
        · exact List.mem_append_right _ ((hmem v).mpr ⟨mem_successors.mpr he,hv⟩)
    · refine h.cut.trans ⟨fun ⟨i,hi,hle⟩ => ⟨i,List.mem_append_left _ hi,hle⟩,?_⟩
      rintro ⟨i,hi,hle⟩
      rcases List.mem_append.mp hi with hi | hi
      · exact ⟨i,hi,hle⟩
      · rw [List.mem_singleton.mp hi] at hle
        exact absurd hle hlimit

theorem run_nil (h : s.queue = []) : run edges limit s = s := by
  unfold run
  split
  · rfl
  · rename_i item rest heq
    rw [h] at heq
    cases heq

theorem run_cons (h : s.queue = item :: rest) :
    run edges limit s = run edges limit (BreadthFirst.visit edges limit item rest s) := by
  rw [run]
  split
  · rename_i heq
    rw [h] at heq
    cases heq
  · rename_i item' rest' heq
    rw [h] at heq
    cases heq
    rfl

/-- The whole run keeps what each iteration keeps, and ends with an empty queue. -/
theorem Inv.run (h : Inv edges limit root s) :
    Inv edges limit root (run edges limit s) ∧ (BreadthFirst.run edges limit s).queue = [] := by
  fun_induction BreadthFirst.run edges limit s with
  | case1 s hq => exact ⟨h,hq⟩
  | case2 s item rest hq ih => exact ih (h.visit hq)

omit [DecidableEq V] in
/-- By induction on the distance: when the queue is empty, everything within the limit is done. -/
theorem Inv.complete (h : Inv edges limit root s) (hq : s.queue = []) {k : ℕ} {v : V}
    (hs : Shortest (Edge edges) root v k) (hk : (k : ℤ) ≤ limit) :
    ∃ i ∈ s.done, i.node = v ∧ i.depth = k := by
  have hall : s.done ++ s.queue = s.done := by rw [hq,List.append_nil]
  have hdone : v ∈ s.visited → ∃ i ∈ s.done, i.node = v ∧ i.depth = k := by
    intro hv
    obtain ⟨i,hi,rfl⟩ := (h.visited v).mp hv
    exact ⟨i,hall ▸ hi,rfl,(h.dist i hi).unique hs⟩
  induction k generalizing v with
  | zero =>
    refine hdone ?_
    rw [← hs.1.eq_of_zero]
    exact h.root
  | succ k ih =>
    obtain ⟨m,hm,he⟩ := hs.ends
    have hlt : (k : ℤ) < limit := by
      push_cast at hk
      omega
    have hmem : m ∈ s.visited → ∃ i ∈ s.done, i.node = m ∧ i.depth = k := by
      intro hv
      obtain ⟨i,hi,rfl⟩ := (h.visited m).mp hv
      exact ⟨i,hall ▸ hi,rfl,(h.dist i hi).unique hm⟩
    obtain ⟨i,hi,rfl,rfl⟩ := ih hm (by omega) hmem
    exact hdone (h.closed i hi hlt v he)

end Invariant

section Search
variable {edges : List (V × V)} {limit : ℤ} {root v : V} {k : ℕ}

/-- The vertices that are found are those within the limit, each with its distance. -/
theorem search_iff (h : 0 ≤ limit) :
    (∃ i ∈ (search edges limit root).done, i.node = v ∧ i.depth = k) ↔
      Shortest (Edge edges) root v k ∧ (k : ℤ) ≤ limit := by
  obtain ⟨hinv,hq⟩ := (inv_start edges root h).run
  constructor
  · rintro ⟨i,hi,rfl,rfl⟩
    have hmem : i ∈ (search edges limit root).done ++ (search edges limit root).queue :=
      List.mem_append_left _ hi
    exact ⟨hinv.dist i hmem,hinv.within i hmem⟩
  · rintro ⟨hs,hk⟩
    exact hinv.complete hq hs hk

theorem search_paths (h : 0 ≤ limit) :
    ∀ i ∈ (search edges limit root).done, IsPath edges root i :=
  fun i hi => (inv_start edges root h).run.1.path i (List.mem_append_left _ hi)

theorem search_nodup (h : 0 ≤ limit) :
    ((search edges limit root).done.map Item.node).Nodup := by
  have hnodup := (inv_start edges root h).run.1.nodup
  rw [List.map_append] at hnodup
  exact (List.nodup_append.mp hnodup).1

/-- The flag says whether there is a vertex just at the limit. -/
theorem search_cut_iff (h : 0 ≤ limit) :
    (search edges limit root).cut = true ↔ ∃ v, Shortest (Edge edges) root v limit.toNat := by
  obtain ⟨hinv,hq⟩ := (inv_start edges root h).run
  refine hinv.cut.trans ?_
  constructor
  · rintro ⟨i,hi,hle⟩
    have hmem : i ∈ (search edges limit root).done ++ (search edges limit root).queue :=
      List.mem_append_left _ hi
    have hin := hinv.within i hmem
    have hdepth : i.depth = limit.toNat := by omega
    exact ⟨i.node,hdepth ▸ hinv.dist i hmem⟩
  · rintro ⟨v,hs⟩
    obtain ⟨i,hi,-,hdepth⟩ := hinv.complete hq hs (by omega)
    exact ⟨i,hi,by omega⟩

/-- Without a limit above zero only the root is found, and the flag is set. -/
theorem search_of_nonpos (edges : List (V × V)) (root : V) (h : limit ≤ 0) :
    search edges limit root = ⟨[root],[],[⟨root,[root],0⟩],true⟩ := by
  have hvisit : visit edges limit ⟨root,[root],0⟩ [] (start root) =
      ⟨[root],[],[⟨root,[root],0⟩],true⟩ := if_pos (by exact_mod_cast h)
  have hstart : (start root).queue = ⟨root,[root],0⟩ :: [] := rfl
  rw [search,run_cons hstart,hvisit,run_nil rfl]

end Search

end BreadthFirst
end EntryAnalyse
