import EntryAnalyse.FunctionReads
import EntryAnalyse.Paging
import Mathlib.Data.Prod.Lex
import Mathlib.Data.String.Basic

/-! A client that reads the list of functions page by page. The rows come in the order of the name
of their file and of their first line, and rows that agree in both come in any order. -/
namespace EntryAnalyse
namespace FunctionReads

open PyJson Paging

/-- `ORDER BY fm.basename, f.start_line`. -/
def InOrder (db : FuncDb) (r s : FunctionRow) : Prop := listOrder db r s = true

instance (db : FuncDb) : DecidableRel (InOrder db) := fun r s =>
  inferInstanceAs (Decidable (listOrder db r s = true))

/-- The rows that a filter matches. -/
def matching (db : FuncDb) (decision : Option String) : List FunctionRow :=
  db.functions.rows.filter (isListed decision)

/-- A page when the query orders the rows as `o`. -/
def pageOf (db : FuncDb) (decision : Option String) (o : List FunctionRow) (offset limit : ℕ) :
    Page where
  items := ((o.drop offset).take limit).map (listItem db)
  total := (matching db decision).length
  offset := offset
  limit := limit

/-- The items of all pages, at `offset = 0, limit, 2 * limit, …` while the offset is below the
total. -/
def readAll (db : FuncDb) (decision : Option String) (order : ℕ → List FunctionRow) (limit : ℕ) :
    List (List (String × PyJson)) :=
  (List.range (((matching db decision).length + limit - 1) / limit)).flatMap fun i =>
    (pageOf db decision (order i) (i * limit) limit).items

section Order

variable {db : FuncDb} {decision : Option String}

/-- What the rows are ordered by; a missing name comes first. -/
def sortKey (db : FuncDb) (r : FunctionRow) : WithBot String ×ₗ ℤ :=
  toLex ((db.fileMeta.lookup r.fileHash).map FileMeta.basename,r.startLine)

theorem inOrder_iff (r s : FunctionRow) : InOrder db r s ↔ sortKey db r ≤ sortKey db s := by
  rw [InOrder,listOrder,sortKey,sortKey,Prod.Lex.toLex_le_toLex]
  cases hr : (db.fileMeta.lookup r.fileHash).map FileMeta.basename with
  | none =>
    cases hs : (db.fileMeta.lookup s.fileHash).map FileMeta.basename with
    | none =>
      have hbot : ¬(⊥ : WithBot String) < ⊥ := lt_irrefl _
      simp only [hr,hs,decide_eq_true_eq]
      exact ⟨fun h => Or.inr ⟨rfl,h⟩,fun h => (h.resolve_left hbot).2⟩
    | some q =>
      have hlt : (⊥ : WithBot String) < q := WithBot.bot_lt_coe q
      simp only [hr,hs]
      exact iff_of_true trivial (Or.inl hlt)
  | some p =>
    cases hs : (db.fileMeta.lookup s.fileHash).map FileMeta.basename with
    | none =>
      have hlt : ¬(p : WithBot String) < ⊥ := not_lt_bot
      simp only [hr,hs]
      exact iff_of_false (by decide) fun h => h.elim hlt fun h => absurd h.1 (by simp)
    | some q =>
      have hlt : (p : WithBot String) < q ↔ p < q := WithBot.coe_lt_coe
      simp only [hr,hs,Bool.or_eq_true,Bool.and_eq_true,decide_eq_true_eq,beq_iff_eq]
      exact or_congr hlt.symm (and_congr_left' (WithBot.coe_inj (a := p) (b := q)).symm)

instance : Std.Total (InOrder db) where
  total r s := by
    rw [inOrder_iff,inOrder_iff]
    exact le_total (sortKey db r) (sortKey db s)

instance : IsTrans FunctionRow (InOrder db) where
  trans r s t hrs hst := by
    rw [inOrder_iff] at hrs hst ⊢
    exact le_trans hrs hst

/-- The stable sort of the list is one of the orders. -/
theorem listFunctionsPaginated_eq (offset limit : ℕ) :
    Ordered (InOrder db) (matching db decision)
        ((matching db decision).insertionSort fun r s => listOrder db r s) ∧
      listFunctionsPaginated db offset limit decision =
        pageOf db decision ((matching db decision).insertionSort fun r s => listOrder db r s)
          offset limit := by
  refine ⟨⟨List.perm_insertionSort _ _,?_⟩,rfl⟩
  exact List.pairwise_insertionSort (InOrder db) _

def itemHash (item : List (String × PyJson)) : String :=
  match item.lookup "func_hash" with
  | some (.str funcHash) => funcHash
  | _ => ""

theorem readAll_eq {order : ℕ → List FunctionRow} {limit : ℕ} :
    readAll db decision order limit =
      (readPages order limit (matching db decision).length).map (listItem db) := by
  rw [readAll,readPages,List.map_flatMap]
  rfl

/-- The items show the keys of their rows. -/
theorem nodup_items : ((matching db decision).map (listItem db)).Nodup := by
  refine List.Nodup.of_map itemHash ?_
  rw [List.map_map]
  exact (List.filter_sublist.map FunctionRow.funcHash).nodup db.functions.nodup

variable (db decision) in
/-- The pages hold every matching function once, in whatever order rows with the same file name
and first line come, exactly if such rows are on one page. -/
theorem pages_partition_iff {limit : ℕ} (hlimit : 0 < limit) :
    (∀ order : ℕ → List FunctionRow, (∀ i, Ordered (InOrder db) (matching db decision) (order i)) →
        (readAll db decision order limit).Perm ((matching db decision).map (listItem db))) ↔
      TiesOnPages (InOrder db) (matching db decision) limit := by
  rw [← readPages_perm_iff nodup_items hlimit]
  simp only [readAll_eq]

end Order

/-- Two functions of one line of a file without a row in `file_meta`. -/
def twoOnALine : FuncDb where
  fileMeta := .empty
  functions := ⟨[newRow "a1" "f1" "get" "int get(void)" 3 3 "{}",
    newRow "a2" "f1" "put" "int put(int)" 3 3 "{}"],by decide⟩

/-- On one page they may come in any order. -/
theorem two_on_a_page :
    (matching twoOnALine none).length = 2 ∧ ∀ order : ℕ → List FunctionRow,
      (∀ i, Ordered (InOrder twoOnALine) (matching twoOnALine none) (order i)) →
      (readAll twoOnALine none order 2).Perm
        ((matching twoOnALine none).map (listItem twoOnALine)) := by
  refine ⟨rfl,(pages_partition_iff twoOnALine none Nat.two_pos).mpr fun r hr i => ?_⟩
  have hupto : upto (InOrder twoOnALine) (matching twoOnALine none) r ≤ 2 :=
    List.countP_le_length
  omega

/-- With one function a page the second page may show the first function again, and the other one
is on no page. -/
theorem function_lost :
    ¬∀ order : ℕ → List FunctionRow,
      (∀ i, Ordered (InOrder twoOnALine) (matching twoOnALine none) (order i)) →
      (readAll twoOnALine none order 1).Perm
        ((matching twoOnALine none).map (listItem twoOnALine)) := by
  intro h
  have hperm := h (fun i => if i = 0 then matching twoOnALine none
    else (matching twoOnALine none).reverse) fun i => ?_
  · have hlost := (hperm.map itemHash).mem_iff (a := "a2")
    revert hlost
    decide
  · split
    · exact ⟨.refl _,by decide⟩
    · exact ⟨List.reverse_perm _,by decide⟩

end FunctionReads
end EntryAnalyse
