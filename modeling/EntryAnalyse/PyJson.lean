import Mathlib.Tactic
import Mathlib.Data.List.DropRight
import Mathlib.Data.List.TakeWhile

/-! JSON values as Python code sees them after `json.loads`, with the operations on them that
the service uses. What only the interpreter's text formats decide is a parameter. -/
namespace EntryAnalyse

/-- A Python `float`, the finite ones by their exact value. -/
inductive PyFloat
  | finite (q : ℚ) | posInf | negInf | nan
  deriving DecidableEq

/-- A JSON value. A `dict` lists its items in insertion order. -/
inductive PyJson
  | null
  | bool (b : Bool)
  | int (i : ℤ)
  | float (x : PyFloat)
  | str (s : String)
  | list (xs : List PyJson)
  | dict (kvs : List (String × PyJson))

/-- The exceptions that the modelled functions can raise. -/
inductive PyError
  | typeError | valueError | overflowError | attributeError
  deriving DecidableEq

theorem forall₂_mem_left {α β : Type} {R : α → β → Prop} {l : List α} {r : List β}
    (h : List.Forall₂ R l r) {x : α} (hx : x ∈ l) : ∃ y ∈ r, R x y := by
  induction h with
  | nil => cases hx
  | cons hab _ ih =>
    rcases List.mem_cons.mp hx with rfl | hx
    · exact ⟨_,List.mem_cons_self,hab⟩
    · obtain ⟨y,hy,hxy⟩ := ih hx
      exact ⟨y,List.mem_cons_of_mem _ hy,hxy⟩

theorem forall₂_mem_right {α β : Type} {R : α → β → Prop} {l : List α} {r : List β}
    (h : List.Forall₂ R l r) {y : β} (hy : y ∈ r) : ∃ x ∈ l, R x y := by
  obtain ⟨x,hx,hxy⟩ := forall₂_mem_left h.flip hy
  exact ⟨x,hx,hxy⟩

section Except

variable {ε α β : Type} {f : α → Except ε β}

theorem bind_eq_ok {x : Except ε α} {b : β} : x >>= f = .ok b ↔ ∃ a, x = .ok a ∧ f a = .ok b := by
  cases x with
  | error e =>
    constructor
    · intro h
      cases h
    · rintro ⟨a,h,-⟩
      cases h
  | ok a =>
    constructor
    · exact fun h => ⟨a,rfl,h⟩
    · rintro ⟨a',h,hb⟩
      cases h
      exact hb

/-- A loop that raises nothing gives one result for each element. -/
theorem mapM_ok_iff {l : List α} {r : List β} :
    l.mapM f = .ok r ↔ List.Forall₂ (fun x y => f x = .ok y) l r := by
  induction l generalizing r with
  | nil =>
    rw [List.mapM_nil,List.forall₂_nil_left_iff]
    constructor
    · intro h
      cases h
      rfl
    · rintro rfl
      rfl
  | cons x l ih =>
    rw [List.mapM_cons,List.forall₂_cons_left_iff]
    constructor
    · intro h
      cases hx : f x with
      | error e =>
        rw [hx] at h
        cases h
      | ok y =>
        cases hl : l.mapM f with
        | error e =>
          rw [hx,hl] at h
          cases h
        | ok ys =>
          rw [hx,hl] at h
          cases h
          exact ⟨y,ys,rfl,ih.mp hl,rfl⟩
    · rintro ⟨y,ys,hx,hl,rfl⟩
      rw [hx,ih.mpr hl]
      rfl

theorem mapM_error {l : List α} {e : ε} (h : l.mapM f = .error e) : ∃ x ∈ l, f x = .error e := by
  induction l with
  | nil => cases h
  | cons x l ih =>
    rw [List.mapM_cons] at h
    cases hx : f x with
    | error e' =>
      rw [hx] at h
      cases h
      exact ⟨x,List.mem_cons_self,hx⟩
    | ok y =>
      cases hl : l.mapM f with
      | error e' =>
        rw [hx,hl] at h
        cases h
        obtain ⟨z,hz,hfz⟩ := ih hl
        exact ⟨z,List.mem_cons_of_mem x hz,hfz⟩
      | ok ys =>
        rw [hx,hl] at h
        cases h

theorem mapM_isOk {l : List α} (h : ∀ x ∈ l, ∃ y, f x = .ok y) : ∃ r, l.mapM f = .ok r := by
  cases hl : l.mapM f with
  | ok r => exact ⟨r,rfl⟩
  | error e =>
    obtain ⟨x,hx,hfx⟩ := mapM_error hl
    obtain ⟨y,hy⟩ := h x hx
    rw [hfx] at hy
    cases hy

theorem mapM_isOk_iff {l : List α} : (∃ r, l.mapM f = .ok r) ↔ ∀ x ∈ l, ∃ y, f x = .ok y := by
  constructor
  · rintro ⟨r,h⟩ x hx
    obtain ⟨y,-,hy⟩ := forall₂_mem_left (mapM_ok_iff.mp h) hx
    exact ⟨y,hy⟩
  · exact mapM_isOk

end Except

/-- The interpreter's text formats and roundings. `none` stands for the exception. -/
structure PyRuntime where
  repr : PyJson → String
  dumps : PyJson → String
  loads : String → Option PyJson
  /-- `float(i)` raises `OverflowError` outside the range of a double. -/
  floatOfInt : ℤ → Option ℚ
  /-- `float(s)` raises `ValueError` on other text. -/
  floatOfStr : String → Option PyFloat
  /-- `round(x, 2)`. -/
  round2 : ℚ → ℚ

/-! ## Dictionaries -/

namespace PyDict

def get (d : List (String × PyJson)) (k : String) : Option PyJson := d.lookup k

/-- `d[k] = v`: an existing key keeps its place. -/
def set (d : List (String × PyJson)) (k : String) (v : PyJson) : List (String × PyJson) :=
  if (get d k).isSome then d.map (fun p => if p.1 = k then (k,v) else p) else d ++ [(k,v)]

def setdefault (d : List (String × PyJson)) (k : String) (v : PyJson) : List (String × PyJson) :=
  if (get d k).isSome then d else d ++ [(k,v)]

def pop (d : List (String × PyJson)) (k : String) : List (String × PyJson) :=
  d.filter (fun p => p.1 != k)

/-- `d.get(k, default)`. -/
def getD (d : List (String × PyJson)) (k : String) (default : PyJson) : PyJson :=
  (get d k).getD default

theorem get_cons (p : String × PyJson) (d : List (String × PyJson)) (k : String) :
    get (p :: d) k = if k = p.1 then some p.2 else get d k := by
  obtain ⟨k',v⟩ := p
  rw [get,List.lookup_cons]
  by_cases h : k = k'
  · simp [h]
  · simp [beq_false_of_ne h,h,get]

theorem get_append (d e : List (String × PyJson)) (k : String) :
    get (d ++ e) k = (get d k).or (get e k) := List.lookup_append

theorem get_map_of_ne (d : List (String × PyJson)) {k k' : String} (v : PyJson) (h : k' ≠ k) :
    get (d.map (fun p => if p.1 = k then (k,v) else p)) k' = get d k' := by
  induction d with
  | nil => rfl
  | cons p d ih =>
    rw [List.map_cons,get_cons,get_cons,ih]
    by_cases hp : p.1 = k
    · simp [hp,h]
    · rw [if_neg hp]

theorem get_set_of_ne (d : List (String × PyJson)) {k k' : String} (v : PyJson) (h : k' ≠ k) :
    get (set d k v) k' = get d k' := by
  unfold set
  split
  · exact get_map_of_ne d v h
  · rw [get_append,get_cons,if_neg h]
    exact Option.or_none

theorem get_setdefault_of_ne (d : List (String × PyJson)) {k k' : String} (v : PyJson)
    (h : k' ≠ k) : get (setdefault d k v) k' = get d k' := by
  unfold setdefault
  split
  · rfl
  · rw [get_append,get_cons,if_neg h]
    exact Option.or_none

theorem isSome_get (d : List (String × PyJson)) (k : String) :
    (get d k).isSome = true ↔ k ∈ d.map Prod.fst := by
  induction d with
  | nil => simp [get]
  | cons p d ih =>
    rw [get_cons]
    by_cases h : k = p.1
    · simp [h]
    · simp [h,ih]

theorem get_set_self (d : List (String × PyJson)) (k : String) (v : PyJson) :
    get (set d k v) k = some v := by
  unfold set
  split
  · rename_i h
    rw [isSome_get] at h
    induction d with
    | nil => cases h
    | cons p d ih =>
      rw [List.map_cons,get_cons]
      by_cases hp : p.1 = k
      · simp [hp]
      · have hk : k ∈ d.map Prod.fst := by simpa [Ne.symm hp] using h
        rw [if_neg hp,if_neg (Ne.symm hp)]
        exact ih hk
  · rename_i h
    rw [get_append,Option.not_isSome_iff_eq_none.mp h,get_cons,if_pos rfl]
    rfl

theorem get_pop_self (d : List (String × PyJson)) (k : String) : get (pop d k) k = none := by
  rw [← Option.not_isSome_iff_eq_none,isSome_get]
  intro h
  obtain ⟨p,hp,hk⟩ := List.mem_map.mp h
  have hne := (List.mem_filter.mp hp).2
  rw [hk] at hne
  simp at hne

theorem get_pop_of_ne (d : List (String × PyJson)) {k k' : String} (h : k' ≠ k) :
    get (pop d k) k' = get d k' := by
  induction d with
  | nil => rfl
  | cons p d ih =>
    rw [pop,List.filter_cons,get_cons]
    rw [pop] at ih
    by_cases hp : p.1 = k
    · rw [if_neg (by simp [hp]),ih,if_neg (by rw [hp]; exact h)]
    · rw [if_pos (by simp [hp]),get_cons,ih]

/-- The key is there, with this value. -/
def Holds (d : List (String × PyJson)) (k : String) (v : PyJson) : Prop :=
  k ∈ d.map Prod.fst ∧ ∀ p ∈ d, p.1 = k → p.2 = v

theorem Holds.get {d : List (String × PyJson)} {k : String} {v : PyJson} (h : Holds d k v) :
    get d k = some v := by
  obtain ⟨hk,hv⟩ := h
  induction d with
  | nil => cases hk
  | cons p d ih =>
    rw [get_cons]
    by_cases hp : k = p.1
    · rw [if_pos hp,hv p List.mem_cons_self hp.symm]
    · rw [if_neg hp]
      refine ih ?_ fun q hq => hv q (List.mem_cons_of_mem p hq)
      simpa [hp] using hk

theorem Holds.unique {d : List (String × PyJson)} {k : String} {v w : PyJson} (h : Holds d k v)
    (h' : Holds d k w) : v = w := by
  have heq := h.get.symm.trans h'.get
  exact Option.some.inj heq

theorem holds_set_self (d : List (String × PyJson)) (k : String) (v : PyJson) :
    Holds (set d k v) k v := by
  refine ⟨?_,fun p hp hk => ?_⟩
  · rw [← isSome_get,get_set_self]
    rfl
  · unfold set at hp
    split at hp
    · obtain ⟨q,-,rfl⟩ := List.mem_map.mp hp
      by_cases hq : q.1 = k
      · rw [if_pos hq]
      · rw [if_neg hq] at hk
        exact absurd hk hq
    · rename_i hnone
      rcases List.mem_append.mp hp with hp | hp
      · rw [isSome_get] at hnone
        exact absurd (List.mem_map.mpr ⟨p,hp,hk⟩) hnone
      · rw [List.mem_singleton.mp hp]

theorem holds_set_of_ne (d : List (String × PyJson)) {k k' : String} (v w : PyJson)
    (h : k' ≠ k) : Holds (set d k v) k' w ↔ Holds d k' w := by
  unfold Holds
  rw [← isSome_get,← isSome_get,get_set_of_ne d v h]
  refine and_congr_right fun _ => ?_
  unfold set
  split
  · constructor
    · intro hall p hp hk
      have hne : p.1 ≠ k := fun heq => h (hk.symm.trans heq)
      exact hall p (List.mem_map.mpr ⟨p,hp,if_neg hne⟩) hk
    · intro hall p hp hk
      obtain ⟨q,hq,rfl⟩ := List.mem_map.mp hp
      by_cases hqk : q.1 = k
      · rw [if_pos hqk] at hk
        exact absurd hk.symm h
      · rw [if_neg hqk] at hk ⊢
        exact hall q hq hk
  · constructor
    · exact fun hall p hp => hall p (List.mem_append_left _ hp)
    · intro hall p hp hk
      rcases List.mem_append.mp hp with hp | hp
      · exact hall p hp hk
      · rw [List.mem_singleton.mp hp] at hk
        exact absurd hk.symm h

/-- Writing the value that is there changes nothing. -/
theorem set_of_holds {d : List (String × PyJson)} {k : String} {v : PyJson} (h : Holds d k v) :
    set d k v = d := by
  rw [set,if_pos ((isSome_get d k).mpr h.1)]
  have hall := h.2
  rw [List.map_congr_left (g := id),List.map_id]
  intro p hp
  by_cases hk : p.1 = k
  · rw [if_pos hk,← hk,← hall p hp hk]
    rfl
  · rw [if_neg hk]
    rfl

theorem holds_pop_of_ne (d : List (String × PyJson)) {k k' : String} (w : PyJson)
    (h : k' ≠ k) : Holds (pop d k) k' w ↔ Holds d k' w := by
  unfold Holds
  rw [← isSome_get,← isSome_get,get_pop_of_ne d h]
  refine and_congr_right fun _ => ?_
  constructor
  · intro hall p hp hk
    refine hall p (List.mem_filter.mpr ⟨hp,?_⟩) hk
    rw [hk,bne_iff_ne]
    exact h
  · exact fun hall p hp => hall p (List.mem_of_mem_filter hp)

end PyDict

/-! ## Truth, text and numbers -/

namespace PyJson

/-- `bool(v)`. -/
def truthy : PyJson → Bool
  | .null => false
  | .bool b => b
  | .int i => i != 0
  | .float x => x != .finite 0
  | .str s => s != ""
  | .list xs => !xs.isEmpty
  | .dict kvs => !kvs.isEmpty

/-- `a or b`. -/
def or (a b : PyJson) : PyJson := if a.truthy then a else b

/-- `d.get(k)`. -/
def field (d : List (String × PyJson)) (k : String) : PyJson := PyDict.getD d k .null

theorem field_set_self (d : List (String × PyJson)) (k : String) (v : PyJson) :
    field (PyDict.set d k v) k = v := by
  rw [field,PyDict.getD,PyDict.get_set_self,Option.getD_some]

theorem field_set_of_ne (d : List (String × PyJson)) {k k' : String} (v : PyJson) (h : k' ≠ k) :
    field (PyDict.set d k v) k' = field d k' := by
  rw [field,field,PyDict.getD,PyDict.getD,PyDict.get_set_of_ne d v h]

theorem field_pop_self (d : List (String × PyJson)) (k : String) :
    field (PyDict.pop d k) k = .null := by
  rw [field,PyDict.getD,PyDict.get_pop_self,Option.getD_none]

theorem field_pop_of_ne (d : List (String × PyJson)) {k k' : String} (h : k' ≠ k) :
    field (PyDict.pop d k) k' = field d k' := by
  rw [field,field,PyDict.getD,PyDict.getD,PyDict.get_pop_of_ne d h]

theorem field_of_holds {d : List (String × PyJson)} {k : String} {v : PyJson}
    (h : PyDict.Holds d k v) : field d k = v := by
  rw [field,PyDict.getD,h.get,Option.getD_some]

/-- `isinstance(v, int) and not isinstance(v, bool)`. -/
def isInt : PyJson → Bool
  | .int _ => true
  | _ => false

/-- What `for x in v` goes through. -/
def iter : PyJson → Except PyError (List PyJson)
  | .list xs => .ok xs
  | .dict kvs => .ok (kvs.map (fun p => .str p.1))
  | .str s => .ok (s.toList.map (fun c => .str (String.singleton c)))
  | _ => .error .typeError

/-- `len(v)`. -/
def len : PyJson → Except PyError ℕ
  | .list xs => .ok xs.length
  | .dict kvs => .ok kvs.length
  | .str s => .ok s.toList.length
  | _ => .error .typeError

end PyJson

/-- The characters that `str.strip` removes. -/
def pyIsSpace (c : Char) : Bool :=
  let n := c.toNat
  (9 ≤ n && n ≤ 13) || (28 ≤ n && n ≤ 32) || n == 0x85 || n == 0xA0 || n == 0x1680 ||
    (0x2000 ≤ n && n ≤ 0x200A) || n == 0x2028 || n == 0x2029 || n == 0x202F || n == 0x205F ||
    n == 0x3000

def strip (s : String) : String :=
  String.ofList (((s.toList.dropWhile pyIsSpace).reverse.dropWhile pyIsSpace).reverse)

theorem strip_toList (s : String) :
    (strip s).toList = (s.toList.dropWhile pyIsSpace).rdropWhile pyIsSpace :=
  String.toList_ofList

/-- A text without white space at its ends is left as it is. -/
theorem strip_of_ends {s : String} {c e : Char} (hc : pyIsSpace c = false)
    (he : pyIsSpace e = false) (hl : s.toList.head? = some c) (hm : s.toList.getLast? = some e) :
    strip s = s := by
  obtain ⟨l,hl⟩ := List.head?_eq_some_iff.mp hl
  obtain ⟨m,hm⟩ := List.getLast?_eq_some_iff.mp hm
  rw [← String.toList_inj,strip_toList,hl,List.dropWhile_cons_of_neg (by simp [hc]),← hl,hm,
    List.rdropWhile_concat_neg _ _ _ (by simp [he])]

theorem strip_strip (s : String) : strip (strip s) = strip s := by
  rw [← String.toList_inj,strip_toList,strip_toList]
  have hfront : ((s.toList.dropWhile pyIsSpace).rdropWhile pyIsSpace).dropWhile pyIsSpace =
      (s.toList.dropWhile pyIsSpace).rdropWhile pyIsSpace := by
    rw [List.dropWhile_eq_self_iff]
    intro hl
    have hpre := List.rdropWhile_prefix pyIsSpace (s.toList.dropWhile pyIsSpace)
    have hlen := Nat.lt_of_lt_of_le hl hpre.length_le
    rw [hpre.getElem hl]
    exact List.dropWhile_get_zero_not pyIsSpace s.toList hlen
  rw [hfront,List.rdropWhile_idempotent]

theorem strip_ne_empty {s : String} {c : Char} (hc : c ∈ s.toList) (h : pyIsSpace c = false) :
    strip s ≠ "" := by
  intro hs
  have hnil : (s.toList.dropWhile pyIsSpace).rdropWhile pyIsSpace = [] := by
    rw [← strip_toList,hs]
    rfl
  rw [List.rdropWhile_eq_nil_iff] at hnil
  rw [← List.takeWhile_append_dropWhile (p := pyIsSpace) (l := s.toList)] at hc
  rcases List.mem_append.mp hc with hc | hc
  · have hsp := List.mem_takeWhile_imp hc
    simp [h] at hsp
  · have hsp := hnil c hc
    simp [h] at hsp

/-- `str.lower`, exact on the characters whose lower case contains an ASCII letter; the texts
it is compared with have no others. -/
def lower (s : String) : String :=
  String.ofList (s.toList.flatMap (fun c =>
    if c.toNat = 0x212A then ['k']
    else if c.toNat = 0x130 then ['i',Char.ofNat 0x307]
    else [c.toLower]))

namespace PyRuntime

variable (py : PyRuntime)

/-- `str(v)`. -/
def str : PyJson → String
  | .str s => s
  | v => py.repr v

/-- `str(v or "").strip()`. -/
def text (v : PyJson) : String := strip (py.str (v.or (.str "")))

theorem text_str (s : String) : py.text (.str s) = strip s := by
  unfold text PyJson.or PyJson.truthy
  by_cases h : s = ""
  · simp [h,str]
  · simp [h,str]

theorem text_null : py.text .null = "" := py.text_str ""

theorem strip_text (v : PyJson) : strip (py.text v) = py.text v := strip_strip _

/-- `float(v)`. -/
def float : PyJson → Except PyError PyFloat
  | .bool b => .ok (.finite (if b then 1 else 0))
  | .int i =>
    match py.floatOfInt i with
    | some q => .ok (.finite q)
    | none => .error .overflowError
  | .float x => .ok x
  | .str s =>
    match py.floatOfStr s with
    | some x => .ok x
    | none => .error .valueError
  | _ => .error .typeError

/-- `round(x, 2)`. -/
def round : PyFloat → PyFloat
  | .finite q => .finite (py.round2 q)
  | x => x

end PyRuntime

/-- `0.0 <= x <= 1.0`. -/
def PyFloat.inUnit : PyFloat → Bool
  | .finite q => 0 ≤ q && q ≤ 1
  | _ => false

/-- `max(0.0, min(1.0, x))`. A comparison with `nan` is false, so `min` keeps its first
argument. -/
def PyFloat.clamp : PyFloat → PyFloat
  | .finite q => .finite (max 0 (min 1 q))
  | .posInf => .finite 1
  | .negInf => .finite 0
  | .nan => .finite 1

end EntryAnalyse
