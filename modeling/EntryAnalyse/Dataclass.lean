import EntryAnalyse.PyJson

/-! Instances of Python dataclasses. An instance is the list of its attributes in the order of
the fields; what an annotation admits is kept beside the field, since the interpreter does not
check it. -/
namespace EntryAnalyse
namespace Dataclass

variable {V : Type}

/-- A field with its default, `none` when an argument is required. -/
structure DataField (V : Type) where
  name : String
  admits : V → Bool
  default : Option V

/-- `cls(**kw)` with those keywords that name a field. -/
def construct (fields : List (DataField V)) (kw : String → Option V) :
    Except PyError (List (String × V)) :=
  fields.mapM fun f => match (kw f.name).or f.default with
    | some v => .ok (f.name,v)
    | none => .error .typeError

/-- `obj.name = v`. -/
def setattr (obj : List (String × V)) (name : String) (v : V) : List (String × V) :=
  obj.map (fun p => if p.1 = name then (name,v) else p)

/-- Every field has an attribute of its own type. -/
def Typed (fields : List (DataField V)) (obj : List (String × V)) : Prop :=
  List.Forall₂ (fun f p => p.1 = f.name ∧ f.admits p.2 = true) fields obj

variable {fields : List (DataField V)} {obj : List (String × V)}

theorem Typed.names (h : Typed fields obj) : obj.map Prod.fst = fields.map DataField.name := by
  induction h with
  | nil => rfl
  | cons hp _ ih => rw [List.map_cons,List.map_cons,hp.1,ih]

theorem Typed.exists_field (h : Typed fields obj) {p : String × V} (hp : p ∈ obj) :
    ∃ f ∈ fields, p.1 = f.name ∧ f.admits p.2 = true :=
  forall₂_mem_right h hp

/-- Only the names and the types of the fields count, not their defaults. -/
theorem Typed.congr {fields' : List (DataField V)} (h : Typed fields obj)
    (heq : fields.map (fun f => (f.name,f.admits)) = fields'.map (fun f => (f.name,f.admits))) :
    Typed fields' obj := by
  have hmap : ∀ l : List (DataField V), Typed l obj ↔
      List.Forall₂ (fun (f : String × (V → Bool)) p => p.1 = f.1 ∧ f.2 p.2 = true)
        (l.map (fun f => (f.name,f.admits))) obj := by
    intro l
    rw [List.forall₂_map_left_iff]
    exact Iff.rfl
  rw [hmap,← heq,← hmap]
  exact h

theorem typed_construct {kw : String → Option V}
    (hkw : ∀ f ∈ fields, ∀ v, (kw f.name).or f.default = some v → f.admits v = true)
    (h : construct fields kw = .ok obj) : Typed fields obj := by
  have hall := mapM_ok_iff.mp h
  clear h
  unfold Typed
  induction hall with
  | nil => exact .nil
  | @cons f p _ _ hf _ ih =>
    refine .cons ?_ (ih fun g hg => hkw g (List.mem_cons_of_mem _ hg))
    cases hv : (kw f.name).or f.default with
    | none =>
      rw [hv] at hf
      cases hf
    | some v =>
      rw [hv] at hf
      cases hf
      exact ⟨rfl,hkw f List.mem_cons_self v hv⟩

theorem Typed.setattr (h : Typed fields obj) {name : String} {v : V}
    (hv : ∀ f ∈ fields, f.name = name → f.admits v = true) :
    Typed fields (setattr obj name v) := by
  unfold Typed
  rw [Dataclass.setattr,List.forall₂_map_right_iff]
  induction h with
  | nil => exact .nil
  | @cons f p _ _ hp _ ih =>
    refine .cons ?_ (ih fun g hg => hv g (List.mem_cons_of_mem _ hg))
    by_cases hn : p.1 = name
    · rw [if_pos hn]
      exact ⟨hn.symm.trans hp.1,hv _ List.mem_cons_self (hp.1.symm.trans hn)⟩
    · rw [if_neg hn]
      exact hp

/-- Keywords that hold each attribute build the instance again. -/
theorem construct_of_keywords {kw : String → Option V}
    (hnames : obj.map Prod.fst = fields.map DataField.name)
    (hkw : ∀ p ∈ obj, kw p.1 = some p.2) : construct fields kw = .ok obj := by
  rw [construct,mapM_ok_iff]
  induction fields generalizing obj with
  | nil =>
    rw [List.map_nil,List.map_eq_nil_iff] at hnames
    rw [hnames]
    exact .nil
  | cons f fields ih =>
    cases obj with
    | nil => cases hnames
    | cons p obj =>
      rw [List.map_cons,List.map_cons,List.cons.injEq] at hnames
      refine .cons ?_ (ih hnames.2 fun q hq => hkw q (List.mem_cons_of_mem _ hq))
      rw [← hnames.1,hkw p List.mem_cons_self]
      rfl

end Dataclass
end EntryAnalyse
