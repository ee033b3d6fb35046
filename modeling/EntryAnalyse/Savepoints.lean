import Mathlib.Data.List.Basic

/-! A database session that collects changes and sends them inside nested
transactions: what its operations do, whatever the database replies. -/
namespace EntryAnalyse
namespace Savepoints

/-- What an operation raises: the database's own error, or the session's complaint that the
current transaction still has to be rolled back. -/
inductive Failure (ε : Type) where
  | raised (e : ε)
  | pendingRollback
  deriving DecidableEq, Repr

/-- A session. `frames` holds the changes sent within each open transaction, the innermost
savepoint first and the outermost transaction last. -/
structure Session (α : Type) where
  committed : List α
  frames : List (List α)
  /-- The innermost transaction was rolled back by an error and waits for `rollback`. -/
  failed : Bool
  /-- Changes not sent yet. -/
  pending : List α
  deriving DecidableEq, Repr

/-- A step of a program that uses the session: it may raise, and the session stays as the
step left it. -/
abbrev Action (α ε β : Type) := ExceptT (Failure ε) (StateM (Session α)) β

variable {α ε β γ : Type}

/-- The result of an action from a session, and the session it leaves. -/
def Action.on (x : Action α ε β) (s : Session α) : Except (Failure ε) β × Session α :=
  x.run.run s

@[simp] theorem on_pure (b : β) (s : Session α) :
    Action.on (pure b : Action α ε β) s = (.ok b, s) := rfl

@[simp] theorem on_throw (e : Failure ε) (s : Session α) :
    Action.on (throw e : Action α ε β) s = (.error e, s) := rfl

@[simp] theorem on_get (s : Session α) :
    Action.on (get : Action α ε (Session α)) s = (.ok s, s) := rfl

@[simp] theorem on_set (s t : Session α) :
    Action.on (set t : Action α ε PUnit) s = (.ok ⟨⟩, t) := rfl

theorem on_bind (x : Action α ε β) (f : β → Action α ε γ) (s : Session α) :
    Action.on (x >>= f) s = match x.on s with
      | (.ok b, t) => (f b).on t
      | (.error e, t) => (.error e, t) := by
  change ExceptT.bindCont f (x.on s).1 (x.on s).2 = _
  rcases x.on s with ⟨_ | _, _⟩ <;> rfl

theorem on_tryCatch (x : Action α ε β) (f : Failure ε → Action α ε β) (s : Session α) :
    Action.on (tryCatch x f) s = match x.on s with
      | (.ok b, t) => (.ok b, t)
      | (.error e, t) => (f e).on t := by
  rcases h : x.on s with ⟨e | b, t⟩
  · have run : StateT.run x s = (.error e, t) := h
    change StateT.run (ExceptT.run (ExceptT.tryCatch x f)) s = _
    simp only [ExceptT.tryCatch, ExceptT.run_mk, StateT.run_bind, run]
    rfl
  · have run : StateT.run x s = (.ok b, t) := h
    change StateT.run (ExceptT.run (ExceptT.tryCatch x f)) s = _
    simp only [ExceptT.tryCatch, ExceptT.run_mk, StateT.run_bind, run]
    rfl

/-- The changes sent in open transactions, the oldest first. -/
def sent : List (List α) → List α
  | [] => []
  | frame :: frames => sent frames ++ frame

/-- All changes since the last commit, the oldest first. -/
def Session.changes (s : Session α) : List α := sent s.frames ++ s.pending

/-- The open transactions once one is begun. -/
def begun : List (List α) → List (List α)
  | [] => [[]]
  | frames => frames

/-- The changes of the innermost transaction replaced by what `f` makes of them. -/
def onInnermost (f : List α → List α) : List (List α) → List (List α)
  | [] => [f []]
  | frame :: frames => f frame :: frames

/-- A reply of the database as the result of a statement. -/
def Reply.lift : Except ε β → Except (Failure ε) β
  | .ok b => .ok b
  | .error e => .error (.raised e)

/-- What every operation that needs the transaction checks first. -/
def requireActive : Action α ε Unit := fun s =>
  (if s.failed then .error .pendingRollback else .ok (), s)

/-- A pending change is added to the session. -/
def add (change : α) : Action α ε Unit := fun s =>
  (.ok (), { s with pending := s.pending ++ [change] })

/-- A statement that reads. An error of it leaves the transaction as it is. -/
def query (reply : Except ε β) : Action α ε β := fun s =>
  if s.failed then (.error .pendingRollback, s)
  else (Reply.lift reply, { s with frames := begun s.frames })

/-- A statement that makes a change when the database accepts it. -/
def execute (change : α) (reply : Except ε β) : Action α ε β := fun s =>
  if s.failed then (.error .pendingRollback, s)
  else match reply with
    | .ok b => (.ok b, { s with frames := onInnermost (· ++ [change]) s.frames })
    | .error e => (.error (.raised e), { s with frames := begun s.frames })

/-- Sends what is pending. An error rolls the innermost transaction back and leaves it waiting
for `rollback`. -/
def flush (reply : Except ε Unit) : Action α ε Unit := fun s =>
  if s.pending.isEmpty then (.ok (), s)
  else if s.failed then (.error .pendingRollback, s)
  else match reply with
    | .ok _ => (.ok (), { s with frames := onInnermost (· ++ s.pending) s.frames, pending := [] })
    | .error e => (.error (.raised e),
        { s with frames := onInnermost (fun _ => []) s.frames, pending := [], failed := true })

/-- The `SAVEPOINT` of `beginNested`. -/
def savepoint (reply : Except ε Unit) : Action α ε Unit := fun s =>
  match reply with
  | .ok _ => (.ok (), { s with frames := [] :: begun s.frames })
  | .error e => (.error (.raised e), { s with frames := begun s.frames })

/-- Opens a savepoint, after what is pending was sent. -/
def beginNested (flushed opened : Except ε Unit) : Action α ε Unit := do
  requireActive
  flush flushed
  savepoint opened

/-- Whether the innermost transaction takes statements. -/
def isActive : Action α ε Bool := fun s => (.ok !s.failed, s)

/-- The `RELEASE` of `commitNested`: the innermost savepoint becomes part of the transaction
around it. -/
def release (reply : Except ε Unit) : Action α ε Unit := fun s =>
  match reply, s.frames with
  | .error e, _ => (.error (.raised e), { s with failed := true })
  | .ok _, frame :: outer :: frames => (.ok (), { s with frames := (outer ++ frame) :: frames })
  | .ok _, _ => (.ok (), s)

/-- Closes the innermost savepoint and keeps its changes. -/
def commitNested (flushed released : Except ε Unit) : Action α ε Unit := do
  requireActive
  flush flushed
  release released

/-- Closes the innermost savepoint and drops its changes, whatever the database replies. -/
def rollbackNested (reply : Except ε Unit) : Action α ε Unit := fun s =>
  (Reply.lift reply, { s with frames := s.frames.tail, pending := [], failed := false })

/-- Closes every open transaction and drops all changes, whatever the database replies. -/
def rollback (reply : Except ε Unit) : Action α ε Unit := fun s =>
  (Reply.lift reply, { s with frames := [], pending := [], failed := false })

/-- The `COMMIT` of `commit`. -/
def commitSent (reply : Except ε Unit) : Action α ε Unit := fun s =>
  match reply with
  | .ok _ => (.ok (), { s with committed := s.committed ++ sent s.frames, frames := [] })
  | .error e => (.error (.raised e), { s with failed := true })

/-- Sends what is pending and commits every open transaction. -/
def commit (flushed committed : Except ε Unit) : Action α ε Unit := do
  requireActive
  flush flushed
  commitSent committed

section Laws

theorem on_ite (c : Prop) [Decidable c] (x y : Action α ε β) (s : Session α) :
    Action.on (if c then x else y) s = if c then x.on s else y.on s := by
  split <;> rfl

@[simp] theorem sent_begun (frames : List (List α)) : sent (begun frames) = sent frames := by
  cases frames <;> rfl

theorem sent_append (frames : List (List α)) (more : List α) :
    sent (onInnermost (· ++ more) frames) = sent frames ++ more := by
  cases frames <;> simp [onInnermost,sent]

theorem begun_ne_nil (frames : List (List α)) : begun frames ≠ [] := by
  cases frames <;> simp [begun]

theorem onInnermost_ne_nil (f : List α → List α) (frames : List (List α)) :
    onInnermost f frames ≠ [] := by
  cases frames <;> simp [onInnermost]

theorem on_requireActive (x : Action α ε β) (s : Session α) :
    Action.on (do requireActive; x) s =
      if s.failed then (.error .pendingRollback, s) else x.on s := by
  have check : (requireActive : Action α ε Unit).on s =
      (if s.failed then .error .pendingRollback else .ok (), s) := rfl
  rw [on_bind,check]
  cases s.failed <;> rfl

theorem on_flush (flushed : Except ε Unit) (s : Session α) :
    (flush flushed).on s =
      if s.pending.isEmpty then (.ok (), s)
      else if s.failed then (.error .pendingRollback, s)
      else match flushed with
        | .ok _ =>
          (.ok (), { s with frames := onInnermost (· ++ s.pending) s.frames, pending := [] })
        | .error e => (.error (.raised e),
            { s with frames := onInnermost (fun _ => []) s.frames, pending := [], failed := true }) :=
  rfl

theorem flush_ok {flushed : Except ε Unit} {s t : Session α}
    (ok : (flush flushed).on s = (.ok (), t)) :
    t.committed = s.committed ∧ sent t.frames = s.changes ∧ t.pending = [] ∧
      t.failed = s.failed := by
  rw [on_flush] at ok
  split at ok
  · rename_i empty
    cases ok
    have nothing : s.pending = [] := List.isEmpty_iff.mp empty
    simp [Session.changes,nothing]
  · split at ok
    · cases ok
    · cases flushed with
      | error e => cases ok
      | ok =>
        cases ok
        simp [Session.changes,sent_append]

/-- A commit that returns has committed every change made since the last one. -/
theorem commit_ok {flushed done : Except ε Unit} {s t : Session α}
    (ok : (commit flushed done).on s = (.ok (), t)) :
    t.committed = s.committed ++ s.changes := by
  unfold commit at ok
  rw [on_requireActive] at ok
  split at ok
  · cases ok
  · rw [on_bind] at ok
    rcases h : (flush flushed).on s with ⟨_ | _, u⟩
    · rw [h] at ok
      cases ok
    · rw [h] at ok
      obtain ⟨same,all,-,-⟩ := flush_ok h
      cases done with
      | error e => cases ok
      | ok =>
        cases ok
        simp [same,all]

theorem commit_failed {flushed done : Except ε Unit} {s : Session α} (waiting : s.failed = true) :
    (commit flushed done).on s = (.error .pendingRollback, s) := by
  unfold commit
  rw [on_requireActive,waiting]
  rfl

/-- The savepoint opens: the transaction takes statements, what is pending is accepted, and so
is the `SAVEPOINT`. -/
def Session.Opens (flushed opened : Except ε Unit) (s : Session α) : Prop :=
  s.failed = false ∧ (s.pending = [] ∨ flushed = .ok ()) ∧ opened = .ok ()

theorem flush_accepted {flushed : Except ε Unit} {s : Session α} (active : s.failed = false)
    (accepted : s.pending = [] ∨ flushed = .ok ()) :
    ∃ t, (flush flushed).on s = (.ok (), t) := by
  rw [on_flush]
  split
  · exact ⟨_,rfl⟩
  · rename_i full
    have some : s.pending ≠ [] := fun nothing => full (by rw [nothing]; rfl)
    obtain rfl : flushed = .ok () := accepted.resolve_left some
    rw [active,if_neg Bool.false_ne_true]
    exact ⟨_,rfl⟩

theorem flush_refused {flushed : Except ε Unit} {s : Session α}
    (refused : ¬ (s.pending = [] ∨ flushed = .ok ())) :
    ∃ e t, (flush flushed).on s = (.error e, t) := by
  obtain ⟨some,fails⟩ := not_or.mp refused
  rw [on_flush,if_neg (fun empty => some (List.isEmpty_iff.mp empty))]
  cases flushed with
  | ok => exact absurd rfl fails
  | error e =>
    cases s.failed with
    | false => exact ⟨.raised e,_,rfl⟩
    | true => exact ⟨.pendingRollback,_,rfl⟩

/-- Inside a fresh savepoint the caller's changes are all sent, in the transactions around it. -/
theorem beginNested_opens {flushed opened : Except ε Unit} {s : Session α}
    (opens : s.Opens flushed opened) :
    ∃ frames, frames ≠ [] ∧ sent frames = s.changes ∧
      (beginNested flushed opened).on s = (.ok (), ⟨s.committed, [] :: frames, false, []⟩) := by
  obtain ⟨active,accepted,rfl⟩ := opens
  obtain ⟨t,flushes⟩ := flush_accepted active accepted
  obtain ⟨same,all,none,still⟩ := flush_ok flushes
  refine ⟨begun t.frames,begun_ne_nil _,by rw [sent_begun,all],?_⟩
  unfold beginNested
  rw [on_requireActive,active,if_neg Bool.false_ne_true,on_bind,flushes]
  change (Except.ok (), { t with frames := [] :: begun t.frames }) = _
  rw [← same,← none,← active,← still]

theorem beginNested_raises {flushed opened : Except ε Unit} {s : Session α}
    (closed : ¬ s.Opens flushed opened) :
    ∃ e t, (beginNested flushed opened).on s = (.error e, t) := by
  unfold beginNested
  rw [on_requireActive]
  cases active : s.failed with
  | true => exact ⟨_,_,rfl⟩
  | false =>
    rw [if_neg Bool.false_ne_true,on_bind]
    by_cases accepted : s.pending = [] ∨ flushed = .ok ()
    · obtain ⟨t,flushes⟩ := flush_accepted active accepted
      rw [flushes]
      cases opened with
      | ok => exact absurd ⟨active,accepted,rfl⟩ closed
      | error e => exact ⟨_,_,rfl⟩
    · obtain ⟨e,t,fails⟩ := flush_refused accepted
      rw [fails]
      exact ⟨e,t,rfl⟩

/-- From a state that is `Ready` the action ends as the database replies, in a state that is
`Within`, and `Ready` again when it returns. -/
def Runs (Ready Within : Session α → Prop) (x : Action α ε β) (reply : Except ε β) : Prop :=
  ∀ s, Ready s → (x.on s).1 = Reply.lift reply ∧ Within (x.on s).2 ∧
    ∀ b, reply = .ok b → Ready (x.on s).2

variable {Ready Within : Session α → Prop}

theorem Runs.pure (weaken : ∀ s, Ready s → Within s) (b : β) :
    Runs Ready Within (pure b : Action α ε β) (.ok b) :=
  fun s ready => ⟨rfl,weaken s ready,fun _ _ => ready⟩

theorem Runs.bind {x : Action α ε β} {f : β → Action α ε γ} {reply : Except ε β}
    {next : β → Except ε γ} (first : Runs Ready Within x reply)
    (second : ∀ b, Runs Ready Within (f b) (next b)) :
    Runs Ready Within (x >>= f) (reply >>= next) := by
  intro s ready
  obtain ⟨result,within,again⟩ := first s ready
  rw [on_bind]
  rcases h : x.on s with ⟨a,t⟩
  rw [h] at result within again
  cases reply with
  | error e =>
    obtain rfl : a = .error (.raised e) := result
    exact ⟨rfl,within,fun b ok => nomatch ok⟩
  | ok b =>
    obtain rfl : a = .ok b := result
    exact second b t (again b rfl)

theorem Runs.ite {x y : Action α ε β} {reply other : Except ε β} (c : Prop) [Decidable c]
    (yes : Runs Ready Within x reply) (no : Runs Ready Within y other) :
    Runs Ready Within (if c then x else y) (if c then reply else other) := by
  split <;> assumption

end Laws

end Savepoints
end EntryAnalyse
