import EntryAnalyse.PyText

/-! A model by the name that a task gives it. The runner looks it up in `models.json` to give `pi` a
name with the provider in it; the filter looks it up there to call the provider itself. -/
namespace EntryAnalyse
namespace ModelNames

open PyJson PyText

abbrev Dict := List (String × PyJson)

def endsWith (s t : String) : Bool := decide (t.toList <:+ s.toList)

variable (py : PyRuntime)

/-- `str(v or "")`. -/
def plainText (v : PyJson) : String := py.str (v.or (.str ""))

/-! ## The runner -/

/-- The values that the loops over the providers and their models come to, with the name of the
provider. -/
def candidates (providers : Dict) : List (String × String) :=
  providers.flatMap fun (providerName,providerCfg) =>
    match providerCfg with
    | .dict cfg =>
      match field cfg "models" with
      | .list models => models.flatMap fun
        | .dict m =>
          (([field m "id",field m "name"].map py.text).filter (· != "")).map (providerName,·)
        | _ => []
      | _ => []
    | _ => []

/-- `f"{provider_name}/{candidate_text}"`. -/
def joined (c : String × String) : String := c.1 ++ "/" ++ c.2

/-- `requested_lower == candidate_lower`. -/
def isExact (requested : String) (c : String × String) : Bool := lower requested == lower c.2

def isSuffix (requested : String) (c : String × String) : Bool :=
  endsWith (lower requested) ("/" ++ lower c.2) || endsWith (lower c.2) ("/" ++ lower requested)

structure Found where
  exactMatch : Option String := none
  suffixMatch : Option String := none

def onCandidate (requested : String) (found : Found) (c : String × String) : Found where
  exactMatch :=
    if isExact requested c then found.exactMatch.or (some (joined c)) else found.exactMatch
  suffixMatch :=
    if isSuffix requested c then found.suffixMatch.or (some (joined c)) else found.suffixMatch

/-- The model to fall back to: the first of the first provider that has one with an `id` there. -/
def fallbackName (providers : Dict) : Option String :=
  providers.findSome? fun (providerName,providerCfg) =>
    match providerCfg with
    | .dict cfg =>
      match field cfg "models" with
      | .list (.dict first :: _) =>
        if (field first "id").truthy then some (joined (providerName,py.str (field first "id")))
        else none
      | _ => none
    | _ => none

def firstSegment (requested : String) : String :=
  String.ofList (requested.toList.takeWhile (· != '/'))

/-- The request begins with the name of a provider. -/
def isPrefixed (providers : Dict) (requested : String) : Bool :=
  providers.any fun p => p.1 == firstSegment requested

/-- The lookup in the providers. -/
def resolveIn (providers : Dict) (requested : String) : String :=
  if isPrefixed providers requested then requested
  else
    let found := (candidates py providers).foldl (onCandidate requested) {}
    let fallback := (fallbackName py providers).getD requested
    match found.exactMatch.or found.suffixMatch with
    | some resolved => if resolved ≠ requested then resolved else fallback
    | none => fallback

/-- `_resolve_model_for_pi`; the content of `models.json` is `none` when it cannot be read, and the
result where the function raises. -/
def resolveModelForPi (data : Option PyJson) (model : String) : Option String :=
  let requested := strip model
  if requested = "" then some requested
  else
    match data with
    | none => some requested
    | some (.dict d) =>
      match field d "providers" with
      | .dict providers => some (resolveIn py providers requested)
      | _ => some requested
    | some _ => none

/-! ## The filter -/

/-- What `_load_provider_config` returns, with the name of the provider. -/
structure Choice where
  provider : String
  baseUrl : String
  apiKey : String
  modelId : String

/-- A provider, as far as it is read before its models. -/
structure Endpoint where
  name : String
  baseUrl : String
  apiKey : String

def endpoint (name : String) (cfg : Dict) : Endpoint where
  name := name
  baseUrl := String.ofList ((plainText py (field cfg "baseUrl")).toList.rdropWhile (· == '/'))
  apiKey := plainText py (field cfg "apiKey")

def modelId (m : Dict) : String := plainText py (field m "id")

/-- `str(m.get("name") or mid)`. -/
def modelName (m : Dict) : String := py.str ((field m "name").or (.str (modelId py m)))

/-- `mid.split("/")[-1]`. -/
def lastSegment (mid : String) : String :=
  String.ofList (mid.toList.reverse.takeWhile (· != '/')).reverse

def sameName (requested : String) (m : Dict) : Bool :=
  requested == modelId py m || requested == modelName py m

def accepts (requested : String) (m : Dict) : Bool :=
  requested != "" && (sameName py requested m ||
    endsWith (modelId py m) ("/" ++ requested) ||
    endsWith requested ("/" ++ lastSegment (modelId py m)))

def Endpoint.choose (e : Endpoint) (mid : String) : Choice := ⟨e.name,e.baseUrl,e.apiKey,mid⟩

section Filter

variable (requested : String)

/-- The loop over the models of a provider: `none` where it raises, `some none` without a match. -/
def searchModels (e : Endpoint) : List PyJson → Option (Option Choice)
  | [] => some none
  | .dict m :: models =>
    if accepts py requested m then some (some (e.choose (modelId py m)))
    else searchModels e models
  | _ :: _ => none

/-- `pcfg.get("models") or []`, as it is iterated. -/
def modelsOf (cfg : Dict) : Option (List PyJson) :=
  ((field cfg "models").or (.list [])).iter.toOption

def searchProviders : Dict → Option (Option Choice)
  | [] => some none
  | (name,.dict cfg) :: providers =>
    let e := endpoint py name cfg
    if e.baseUrl = "" then searchProviders providers
    else do
      let models ← modelsOf cfg
      match ← searchModels py requested e models with
      | some choice => pure (some choice)
      | none => searchProviders providers
  | _ :: _ => none

/-- The first model of the first provider. -/
def firstAvailable : Dict → Option Choice
  | [] => none
  | (name,.dict cfg) :: providers =>
    let e := endpoint py name cfg
    if e.baseUrl = "" then firstAvailable providers
    else
      match (field cfg "models").or (.list []) with
      | .list [] => some (e.choose "gpt-4")
      | .list (.dict m :: _) => some (e.choose (modelId py m))
      | _ => none
  | _ :: _ => none

end Filter

/-- `_load_provider_config`, `none` where it raises. -/
def loadProviderConfig (data : Option PyJson) (model : String) : Option Choice :=
  match data with
  | some (.dict d) =>
    match PyDict.getD d "providers" (.dict []) with
    | .dict providers =>
      if providers = [] then none
      else
        match searchProviders py (strip model) providers with
        | none => none
        | some (some choice) => some choice
        | some none => firstAvailable py providers
    | _ => none
  | _ => none

/-! ## What they choose -/

section Choices

variable (providers : Dict) (requested : String)

/-- The first candidate that is the request, in any case, or without one the first that ends in it
or in which it ends. -/
def firstMatch : Option (String × String) :=
  ((candidates py providers).find? (isExact requested)).or
    ((candidates py providers).find? (isSuffix requested))

/-- The names that the runner gives: the request itself when it begins with a provider, else the
first match, or the fallback where that is missing or no news. -/
inductive Gives : String → Prop
  | kept (h : isPrefixed providers requested = true) : Gives requested
  | found {c : String × String} (h : isPrefixed providers requested = false)
      (first : firstMatch py providers requested = some c) (hne : joined c ≠ requested) :
      Gives (joined c)
  | fallback (h : isPrefixed providers requested = false)
      (none : ∀ c ∈ firstMatch py providers requested, joined c = requested) :
      Gives ((fallbackName py providers).getD requested)

/-- What the filter's loops come to. -/
inductive Item
  | malformed
  | model (e : Endpoint) (m : Dict)

def asItem (e : Endpoint) : PyJson → Item
  | .dict m => .model e m
  | _ => .malformed

/-- The items of a provider. -/
def itemsOf (name : String) : PyJson → List Item
  | .dict cfg =>
    if (endpoint py name cfg).baseUrl = "" then []
    else
      match modelsOf cfg with
      | none => [.malformed]
      | some models => models.map (asItem (endpoint py name cfg))
  | _ => [.malformed]

def items : List Item := providers.flatMap fun p => itemsOf py p.1 p.2

def Item.stops : Item → Bool
  | .malformed => true
  | .model _ m => accepts py requested m

/-- The choices of the filter: the first model that it accepts, unless something malformed comes
first, or the first one at all. -/
inductive Takes : Choice → Prop
  | accepted {e : Endpoint} {m : Dict}
      (first : (items py providers).find? (Item.stops py requested) = some (.model e m)) :
      Takes (e.choose (modelId py m))
  | fallback {c : Choice}
      (none : (items py providers).find? (Item.stops py requested) = none)
      (first : firstAvailable py providers = some c) : Takes c

/-- What a search for the first of the items gives. -/
def outcome : Option Item → Option (Option Choice)
  | none => some none
  | some .malformed => none
  | some (.model e m) => some (some (e.choose (modelId py m)))

end Choices

section Found

variable {py} {providers : Dict} {requested : String}

theorem foldl_onCandidate (cs : List (String × String)) (found : Found) :
    cs.foldl (onCandidate requested) found =
      ⟨found.exactMatch.or ((cs.find? (isExact requested)).map joined),
        found.suffixMatch.or ((cs.find? (isSuffix requested)).map joined)⟩ := by
  induction cs generalizing found with
  | nil => simp
  | cons c cs ih =>
    rw [List.foldl_cons,ih,List.find?_cons,List.find?_cons,onCandidate]
    cases isExact requested c <;> cases isSuffix requested c <;> simp

theorem resolveIn_eq : resolveIn py providers requested =
    if isPrefixed providers requested then requested
    else
      (((firstMatch py providers requested).map joined).filter (· ≠ requested)).getD
        ((fallbackName py providers).getD requested) := by
  unfold resolveIn firstMatch
  rw [foldl_onCandidate]
  cases (candidates py providers).find? (isExact requested) with
  | some c => by_cases h : joined c = requested <;> simp [h,Option.filter]
  | none => cases (candidates py providers).find? (isSuffix requested) with
    | some c => by_cases h : joined c = requested <;> simp [h,Option.filter]
    | none => simp

theorem gives_resolveIn : Gives py providers requested (resolveIn py providers requested) := by
  rw [resolveIn_eq]
  cases hpre : isPrefixed providers requested with
  | true => exact .kept hpre
  | false =>
    rw [if_neg Bool.false_ne_true]
    cases hfirst : firstMatch py providers requested with
    | none => exact .fallback hpre (by simp [hfirst])
    | some c =>
      by_cases heq : joined c = requested
      · have hnone : ((some c).map joined).filter (· ≠ requested) = none := by
          simp [Option.filter,heq]
        rw [hnone]
        exact .fallback hpre (by simp [hfirst,heq])
      · have hsome : ((some c).map joined).filter (· ≠ requested) = some (joined c) := by
          simp [Option.filter,heq]
        rw [hsome]
        exact .found hpre hfirst heq

theorem Gives.eq {s : String} (h : Gives py providers requested s) :
    resolveIn py providers requested = s := by
  rw [resolveIn_eq]
  cases h with
  | kept h => rw [if_pos h]
  | found h first hne =>
    rw [h,if_neg Bool.false_ne_true,first]
    simp [Option.filter,hne]
  | fallback h none =>
    rw [h,if_neg Bool.false_ne_true]
    cases hfirst : firstMatch py providers requested with
    | none => rfl
    | some c => simp [Option.filter,none c hfirst]

theorem resolveIn_eq_iff {s : String} :
    resolveIn py providers requested = s ↔ Gives py providers requested s :=
  ⟨fun h => h ▸ gives_resolveIn,Gives.eq⟩

theorem searchModels_eq (e : Endpoint) (models : List PyJson) :
    searchModels py requested e models =
      outcome py ((models.map (asItem e)).find? (Item.stops py requested)) := by
  induction models with
  | nil => rfl
  | cons v models ih =>
    cases v with
    | dict m =>
      rw [searchModels,List.map_cons,List.find?_cons,asItem,Item.stops]
      cases accepts py requested m with
      | true => rfl
      | false => exact ih
    | _ => rfl

theorem searchProviders_eq : searchProviders py requested providers =
    outcome py ((items py providers).find? (Item.stops py requested)) := by
  induction providers with
  | nil => rfl
  | cons p providers ih =>
    obtain ⟨name,v⟩ := p
    rw [items,List.flatMap_cons,List.find?_append]
    cases v with
    | dict cfg =>
      rw [searchProviders,itemsOf]
      dsimp only
      split
      · exact ih
      · cases modelsOf cfg with
        | none => rfl
        | some models =>
          rw [Option.bind_eq_bind,Option.bind_some,searchModels_eq]
          dsimp only
          cases (models.map (asItem (endpoint py name cfg))).find? (Item.stops py requested) with
          | none => exact ih
          | some item => cases item <;> rfl
    | _ => rfl

/-- The content has providers that are a dictionary. -/
def Lists (data : Option PyJson) (providers : Dict) : Prop :=
  ∃ d, data = some (.dict d) ∧ PyDict.get d "providers" = some (.dict providers)

/-- The loops of the filter give what it takes. -/
theorem takes_iff {c : Choice} :
    (outcome py ((items py providers).find? (Item.stops py requested))).bind
      (·.or (firstAvailable py providers)) = some c ↔ Takes py providers requested c := by
  cases hfind : (items py providers).find? (Item.stops py requested) with
  | none =>
    constructor
    · exact fun h => .fallback hfind h
    · intro h
      cases h with
      | accepted first => rw [hfind] at first; cases first
      | fallback none first => exact first
  | some item =>
    cases item with
    | malformed =>
      constructor
      · intro h
        cases h
      · intro h
        cases h with
        | accepted first => rw [hfind] at first; cases first
        | fallback none first => rw [hfind] at none; cases none
    | model e m =>
      constructor
      · intro h
        cases h
        exact .accepted hfind
      · intro h
        cases h with
        | accepted first =>
          rw [hfind] at first
          cases first
          rfl
        | fallback none first => rw [hfind] at none; cases none

theorem load_eq {providers : Dict} (hne : providers ≠ []) {d : Dict} {model : String}
    (hd : PyDict.get d "providers" = some (.dict providers)) :
    loadProviderConfig py (some (.dict d)) model =
      (outcome py ((items py providers).find? (Item.stops py (strip model)))).bind
        (·.or (firstAvailable py providers)) := by
  have hget : PyDict.getD d "providers" (.dict []) = .dict providers := by
    rw [PyDict.getD,hd]
    rfl
  rw [loadProviderConfig,hget]
  dsimp only
  rw [if_neg hne,searchProviders_eq]
  cases outcome py ((items py providers).find? (Item.stops py (strip model))) with
  | none => rfl
  | some choice => cases choice <;> rfl

theorem load_eq_some_iff {data : Option PyJson} {model : String} {c : Choice} :
    loadProviderConfig py data model = some c ↔
      ∃ providers, Lists data providers ∧ Takes py providers (strip model) c := by
  constructor
  · intro h
    cases data with
    | none => cases h
    | some v => cases v with
      | dict d =>
        cases hd : PyDict.get d "providers" with
        | none =>
          have hget : PyDict.getD d "providers" (.dict []) = .dict [] := by
            rw [PyDict.getD,hd]
            rfl
          rw [loadProviderConfig,hget] at h
          cases h
        | some w =>
          have hget : PyDict.getD d "providers" (.dict []) = w := by
            rw [PyDict.getD,hd]
            rfl
          cases w with
          | dict providers =>
            by_cases hne : providers = []
            · rw [loadProviderConfig,hget] at h
              dsimp only at h
              rw [if_pos hne] at h
              cases h
            · rw [load_eq hne hd] at h
              exact ⟨providers,⟨d,rfl,hd⟩,takes_iff.mp h⟩
          | _ =>
            rw [loadProviderConfig,hget] at h
            cases h
      | _ => cases h
  · rintro ⟨providers,⟨d,rfl,hd⟩,htakes⟩
    have hne : providers ≠ [] := by
      rintro rfl
      cases htakes with
      | accepted first => cases first
      | fallback none first => cases first
    rw [load_eq hne hd,takes_iff]
    exact htakes

theorem resolve_blank {data : Option PyJson} {model : String} (h : strip model = "") :
    resolveModelForPi py data model = some "" := by
  unfold resolveModelForPi
  dsimp only
  rw [if_pos h,h]

/-- Without providers the request is only stripped, or the function raises. -/
theorem resolve_unlisted {data : Option PyJson} {model s : String} (h : strip model ≠ "")
    (hdata : ∀ providers, ¬Lists data providers)
    (hs : resolveModelForPi py data model = some s) (other : String) (ho : strip other ≠ "") :
    s = strip model ∧ resolveModelForPi py data other = some (strip other) := by
  unfold resolveModelForPi at hs ⊢
  dsimp only at hs ⊢
  rw [if_neg h] at hs
  rw [if_neg ho]
  cases data with
  | none =>
    cases hs
    exact ⟨rfl,rfl⟩
  | some v => cases v with
    | dict d =>
      dsimp only at hs ⊢
      cases hfield : field d "providers" with
      | dict providers =>
        exfalso
        refine hdata providers ⟨d,rfl,?_⟩
        rw [field,PyDict.getD] at hfield
        cases hget : PyDict.get d "providers" with
        | none =>
          rw [hget] at hfield
          cases hfield
        | some w =>
          rw [hget] at hfield
          exact congrArg some hfield
      | _ =>
        rw [hfield] at hs
        cases hs
        exact ⟨rfl,rfl⟩
    | _ => cases hs

theorem resolve_eq_some_iff {data : Option PyJson} {model s : String} (h : strip model ≠ "")
    (hdata : Lists data providers) : resolveModelForPi py data model = some s ↔
      Gives py providers (strip model) s := by
  obtain ⟨d,rfl,hd⟩ := hdata
  have hfield : field d "providers" = .dict providers := by
    rw [field,PyDict.getD,hd]
    rfl
  rw [resolveModelForPi,if_neg h,hfield]
  dsimp only
  rw [Option.some_inj,resolveIn_eq_iff]

end Found

/-! ## Agreement -/

section Agreement

variable (providers : Dict)

/-- The models of the file, each with the name of its provider. -/
def entries : List (String × Dict) :=
  providers.flatMap fun (name,providerCfg) =>
    match providerCfg with
    | .dict cfg =>
      match field cfg "models" with
      | .list models => models.filterMap fun
        | .dict m => some (name,m)
        | _ => none
      | _ => []
    | _ => []

/-- A name with the provider stands for a model: by its `id`, or by its `name`. -/
def Names (s : String) (e : String × Dict) : Prop :=
  ∃ t ∈ [py.text (field e.2 "id"),py.text (field e.2 "name"),py.str (field e.2 "id")],
    s = joined (e.1,t)

/-- The choice of the filter is a model of the file. -/
def Chose (c : Choice) (e : String × Dict) : Prop := e.1 = c.provider ∧ modelId py e.2 = c.modelId

/-- A name and a choice that both stand for models stand for the same. -/
def Same (s : String) (c : Choice) : Prop :=
  (∃ e ∈ entries providers, Names py s e) → (∃ e ∈ entries providers, Chose py c e) →
    ∃ e ∈ entries providers, Names py s e ∧ Chose py c e

end Agreement

section Claim

variable (data : Option PyJson) (model : String)

/-- What is promised of a request. -/
structure Resolved : Prop where
  agree : ∀ providers s c, Lists data providers → resolveModelForPi py data model = some s →
    loadProviderConfig py data model = some c → Same py providers s c
  runnerExact : ∀ providers s, strip model ≠ "" → Lists data providers →
    resolveModelForPi py data model = some s → isPrefixed providers (strip model) = false →
    (∃ c ∈ candidates py providers, isExact (strip model) c = true) →
    ∃ c ∈ candidates py providers, isExact (strip model) c = true ∧ s = joined c
  filterExact : ∀ providers c, strip model ≠ "" → Lists data providers →
    loadProviderConfig py data model = some c →
    (∃ e m, Item.model e m ∈ items py providers ∧ sameName py (strip model) m = true) →
    ∃ e m, Item.model e m ∈ items py providers ∧ sameName py (strip model) m = true ∧
      c = e.choose (modelId py m)
  stable : ∀ s, resolveModelForPi py data model = some s → resolveModelForPi py data s = some s

variable (providers : Dict) (requested : String)

/-- A name that is kept when it is looked up: it begins with a provider and has no blanks around
it, or else it is what its own first match gives, or the fallback when that is no news. -/
def Kept (s : String) : Prop :=
  if isPrefixed providers (strip s) then strip s = s
  else
    (∃ c ∈ firstMatch py providers (strip s), joined c = s ∧ s ≠ strip s) ∨
      (∀ c ∈ firstMatch py providers (strip s), joined c = strip s) ∧
        s = (fallbackName py providers).getD (strip s)

/-- The requests for which it holds: the name that the runner gives stands for the first model that
the filter accepts; of the models with exactly that name one is the first that it accepts; and the
name is kept. -/
structure Clear : Prop where
  agree : ∀ s c, Gives py providers requested s → Takes py providers requested c →
    Same py providers s c
  filterExact : ∀ e m, (items py providers).find? (Item.stops py requested) = some (.model e m) →
    (∃ e' m', Item.model e' m' ∈ items py providers ∧ sameName py requested m' = true) →
    ∃ e' m', Item.model e' m' ∈ items py providers ∧ sameName py requested m' = true ∧
      e.choose (modelId py m) = e'.choose (modelId py m')
  stable : ∀ s, Gives py providers requested s → Kept py providers s

end Claim

section Proof

variable {py} {providers : Dict} {requested : String} {data : Option PyJson} {model : String}

theorem lower_append (s t : String) : lower (s ++ t) = lower s ++ lower t := by
  rw [← String.toList_inj]
  simp [lower]

/-- An exact match never has the request as its name with the provider. -/
theorem joined_ne_of_isExact {c : String × String} (h : isExact requested c = true) :
    joined c ≠ requested := by
  rintro rfl
  have heq : lower (joined c) = lower c.2 := eq_of_beq h
  rw [joined,lower_append,lower_append] at heq
  have hlen := congrArg (fun s => s.toList.length) heq
  have hslash : (lower "/").toList.length = 1 := by decide
  simp only [String.toList_append,List.length_append,hslash] at hlen
  omega

theorem Lists.unique {p q : Dict} (hp : Lists data p) (hq : Lists data q) : p = q := by
  obtain ⟨d,rfl,hd⟩ := hp
  obtain ⟨d',heq,hd'⟩ := hq
  cases heq
  rw [hd] at hd'
  cases hd'
  rfl

theorem exists_firstMatch (h : ∃ c ∈ candidates py providers, isExact requested c = true) :
    ∃ c ∈ candidates py providers, isExact requested c = true ∧
      firstMatch py providers requested = some c := by
  obtain ⟨c,hc,hexact⟩ := h
  have hsome : ((candidates py providers).find? (isExact requested)).isSome = true :=
    List.find?_isSome.mpr ⟨c,hc,hexact⟩
  obtain ⟨first,hfirst⟩ := Option.isSome_iff_exists.mp hsome
  refine ⟨first,List.mem_of_find?_eq_some hfirst,List.find?_some hfirst,?_⟩
  rw [firstMatch,hfirst]
  rfl

/-- The runner prefers an exact match. -/
theorem Gives.exact {s : String} (h : Gives py providers requested s)
    (hpre : isPrefixed providers requested = false)
    (hexact : ∃ c ∈ candidates py providers, isExact requested c = true) :
    ∃ c ∈ candidates py providers, isExact requested c = true ∧ s = joined c := by
  obtain ⟨first,hmem,heq,hfirst⟩ := exists_firstMatch hexact
  cases h with
  | kept h =>
    rw [h] at hpre
    cases hpre
  | found h hc hne =>
    rw [hfirst] at hc
    cases hc
    exact ⟨first,hmem,heq,rfl⟩
  | fallback h none => exact absurd (none first hfirst) (joined_ne_of_isExact heq)

theorem gives_iff {s : String} : Gives py providers requested s ↔
    if isPrefixed providers requested then requested = s
    else
      (∃ c ∈ firstMatch py providers requested, joined c = s ∧ s ≠ requested) ∨
        (∀ c ∈ firstMatch py providers requested, joined c = requested) ∧
          s = (fallbackName py providers).getD requested := by
  cases hpre : isPrefixed providers requested with
  | true =>
    rw [if_pos rfl,← resolveIn_eq_iff,resolveIn_eq,if_pos hpre]
  | false =>
    rw [if_neg Bool.false_ne_true]
    constructor
    · intro h
      cases h with
      | kept h =>
        rw [h] at hpre
        cases hpre
      | found h first hne => exact Or.inl ⟨_,first,rfl,hne⟩
      | fallback h none => exact Or.inr ⟨none,rfl⟩
    · rintro (⟨c,first,rfl,hne⟩ | ⟨none,rfl⟩)
      · exact .found hpre first hne
      · exact .fallback hpre none

/-- Looking a name up gives it again exactly when it is kept. -/
theorem gives_self_iff {s : String} : Gives py providers (strip s) s ↔ Kept py providers s := by
  rw [gives_iff,Kept]

theorem joined_ne_empty (c : String × String) : strip (joined c) ≠ "" := by
  refine strip_ne_empty (c := '/') ?_ (by decide)
  rw [joined,String.toList_append,String.toList_append]
  exact List.mem_append_left _ (List.mem_append_right _ List.mem_cons_self)

theorem fallbackName_joined {f : String} (h : fallbackName py providers = some f) :
    ∃ c, f = joined c := by
  obtain ⟨p,-,hp⟩ := List.exists_of_findSome?_eq_some h
  dsimp only at hp
  split at hp
  · split at hp
    · split at hp
      · exact ⟨_,(Option.some.inj hp).symm⟩
      · cases hp
    · cases hp
  · cases hp

/-- No name that is given is blank. -/
theorem Gives.ne_empty {s : String} (h : Gives py providers (strip model) s)
    (hne : strip model ≠ "") : strip s ≠ "" := by
  have hself : strip (strip model) ≠ "" := by rwa [strip_strip]
  cases h with
  | kept => exact hself
  | found => exact joined_ne_empty _
  | fallback =>
    cases hf : fallbackName py providers with
    | none => exact hself
    | some f =>
      obtain ⟨c,rfl⟩ := fallbackName_joined hf
      exact joined_ne_empty c

end Proof

/-! ## A model of two providers -/

/-- Formats as far as the example needs them. -/
def plain : PyRuntime where
  repr := fun _ => ""
  dumps := fun _ => ""
  loads := fun _ => none
  floatOfInt := fun n => some n
  floatOfStr := fun _ => none
  round2 := id

def twoProviders : Dict :=
  [("azure",.dict [("baseUrl",.str "https://a"),("models",.list [.dict [("id",.str "gpt-4")]])]),
    ("openai",.dict [("baseUrl",.str "https://o"),("models",.list [.dict [("id",.str "gpt-4")]])])]

end ModelNames
end EntryAnalyse
