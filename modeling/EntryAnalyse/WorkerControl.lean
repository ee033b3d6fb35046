import EntryAnalyse.KeyedTable
import EntryAnalyse.Runs

/-! The control process of a worker: the slots of its tasks under LAUNCH, TERMINATE and RESTART
commands, the exits of the children and the rounds of the reaper. Each critical section is one
step; what a thread does between two of them is a state of the thread. -/
namespace EntryAnalyse

/-- A row with a new key only goes to the end. -/
theorem KeyedTable.rows_insertOrReplace_of_not_mem {κ ρ : Type} {key : ρ → κ} [DecidableEq κ]
    {t : KeyedTable key} {r : ρ} (h : ∀ x ∈ t.rows, key x ≠ key r) :
    (t.insertOrReplace r).rows = t.rows ++ [r] := by
  have hrows : (t.deleteWhere fun x => key x = key r).rows = t.rows :=
    List.filter_eq_self.mpr fun x hx => by simpa using h x hx
  unfold insertOrReplace
  rw [rows_insertOrIgnore_of_not_mem,hrows]
  rw [keys,hrows]
  intro hkey
  obtain ⟨x,hx,hxr⟩ := List.mem_map.mp hkey
  exact h x hx hxr

namespace WorkerControl

/-- `_TaskSlot`. The child processes are numbered in the order of their start. -/
structure Slot where
  taskId : String
  proc : ℕ
  terminating : Bool := false
  deriving DecidableEq

inductive Message
  | running (taskId : String)
  /-- STATUS rejected, for want of a free slot. -/
  | rejected (taskId : String)
  | done (taskId result : String) (rc : Option ℤ)
  deriving DecidableEq

/-- The receiving thread, which is the only one that launches. -/
inductive Launch
  | idle
  /-- Past the capacity test, before `Popen`. -/
  | spawning (taskId : String)
  /-- The child runs, its slot is not there yet. -/
  | spawned (taskId : String) (proc : ℕ)
  deriving DecidableEq

inductive Reaper
  | resting
  | reaping (finished : List (Slot × ℤ))
  | stalling (stalled : List String)
  /-- In `terminate_task` for a stalled task. -/
  | waiting (slot : Slot) (stalled : List String)
  deriving DecidableEq

namespace Reaper

/-- The exits that the reaper has found and not handled yet. -/
def finished : Reaper → List (Slot × ℤ)
  | .reaping finished => finished
  | _ => []

def stalled : Reaper → List String
  | .stalling stalled => stalled
  | _ => []

def terminating : Reaper → List Slot
  | .waiting slot _ => [slot]
  | _ => []

end Reaper

structure Config where
  capacity : ℕ
  /-- `TASK_STALL_KILL_SECONDS > 0`. -/
  stallKill : Bool
  pos : 0 < capacity

structure State where
  tasks : KeyedTable Slot.taskId
  /-- The number of children so far. -/
  spawned : ℕ
  /-- `proc.poll()`. -/
  poll : ℕ → Option ℤ
  launch : Launch
  /-- The threads inside `terminate_task` that wait for a child. -/
  terminating : List Slot
  reaper : Reaper
  sent : List Message

def start : State where
  tasks := .empty
  spawned := 0
  poll _ := none
  launch := .idle
  terminating := []
  reaper := .resting
  sent := []

inductive Act
  /-- `launch_task` up to the capacity test, `Popen`, and the insertion of the slot. -/
  | launch (taskId : String)
  | spawn
  | spawnFails
  | insert
  /-- `terminate_task` on a thread of its own, for TERMINATE as for RESTART. -/
  | terminate (taskId : String)
  /-- The wait of ten seconds is over, the child may live on. -/
  | terminated (slot : Slot)
  | exits (proc : ℕ) (rc : ℤ)
  /-- The reaper's round: the scan, one step for each exit, and the stall check. -/
  | scan
  | reap
  | checkStall (overdue : String → Bool)
  | stallTerminate
  | stallTerminated
  | endRound

section
variable (cfg : Config) (s : State)

def send (message : Message) : State := { s with sent := s.sent ++ [message] }

def freeSlots : ℕ := cfg.capacity - s.tasks.rows.length

def checkCapacity (taskId : String) : State :=
  if cfg.capacity ≤ s.tasks.rows.length then send s (.rejected taskId)
  else { s with launch := .spawning taskId }

def dropTask (taskId : String) : State :=
  { s with tasks := s.tasks.deleteWhere fun slot => slot.taskId = taskId }

/-- The first critical section of `launch_task`. -/
def launchTask (taskId : String) : State :=
  match s.tasks.lookup taskId with
  | some slot =>
    if s.poll slot.proc = none then send s (.running taskId)
    else checkCapacity cfg (dropTask s taskId) taskId
  | none => checkCapacity cfg s taskId

def mark (slot : Slot) : Slot := { slot with terminating := true }

/-- `_pop_slot(task_id, mark_terminating=True)`, which pops nothing. -/
def popSlot (taskId : String) : Option Slot × State :=
  match s.tasks.lookup taskId with
  | none => (none,s)
  | some slot => (some (mark slot),{ s with
      tasks := s.tasks.updateWhere (fun slot => slot.taskId = taskId) mark fun _ => rfl })

/-- The exits that a scan of the reaper finds. -/
def finishedSlots : List (Slot × ℤ) :=
  s.tasks.rows.filterMap fun slot =>
    if slot.terminating then none else (s.poll slot.proc).map (slot,·)

def onTaskExited (exit : Slot × ℤ) : State :=
  send (dropTask s exit.1.taskId)
    (.done exit.1.taskId (if exit.2 = 0 then "passed" else "failed") exit.2)

def cancelled (taskId : String) : State := send s (.done taskId "cancelled" none)

end

def step (cfg : Config) (s : State) : Act → Option State
  | .launch taskId => if s.launch = .idle then some (launchTask cfg s taskId) else none
  | .spawn =>
    match s.launch with
    | .spawning taskId =>
      some { s with launch := .spawned taskId s.spawned, spawned := s.spawned + 1 }
    | _ => none
  | .spawnFails =>
    match s.launch with
    | .spawning taskId => some { send s (.done taskId "failed" none) with launch := .idle }
    | _ => none
  | .insert =>
    match s.launch with
    | .spawned taskId proc => some { send s (.running taskId) with
        launch := .idle
        tasks := s.tasks.insertOrReplace { taskId := taskId, proc := proc } }
    | _ => none
  | .terminate taskId =>
    match popSlot s taskId with
    | (none,s) => some (cancelled s taskId)
    | (some slot,s) => some { s with terminating := slot :: s.terminating }
  | .terminated slot =>
    if slot ∈ s.terminating then
      some { cancelled s slot.taskId with terminating := s.terminating.erase slot }
    else none
  | .exits proc rc =>
    if proc < s.spawned ∧ s.poll proc = none then
      some { s with poll := Function.update s.poll proc (some rc) }
    else none
  | .scan =>
    match s.reaper with
    | .resting => some { s with reaper := .reaping (finishedSlots s) }
    | _ => none
  | .reap =>
    match s.reaper with
    | .reaping (exit :: finished) => some { onTaskExited s exit with reaper := .reaping finished }
    | _ => none
  | .checkStall overdue =>
    match s.reaper with
    | .reaping [] =>
      if cfg.stallKill then some { s with reaper := .stalling ((s.tasks.rows.filter fun slot =>
        overdue slot.taskId && !slot.terminating).map Slot.taskId) }
      else none
    | _ => none
  | .stallTerminate =>
    match s.reaper with
    | .stalling (taskId :: stalled) =>
      match popSlot s taskId with
      | (none,s) => some { cancelled s taskId with reaper := .stalling stalled }
      | (some slot,s) => some { s with reaper := .waiting slot stalled }
    | _ => none
  | .stallTerminated =>
    match s.reaper with
    | .waiting slot stalled => some { cancelled s slot.taskId with reaper := .stalling stalled }
    | _ => none
  | .endRound =>
    match s.reaper with
    | .reaping [] => if cfg.stallKill then none else some { s with reaper := .resting }
    | .stalling [] => some { s with reaper := .resting }
    | _ => none

/-! ## Conservation of the slots -/

def Alive (s : State) (proc : ℕ) : Prop := proc < s.spawned ∧ s.poll proc = none

/-- The state at the end of a round of the reaper in which nobody else moves. -/
def afterRound (s : State) : State := (finishedSlots s).foldl onTaskExited s

structure Conserved (cfg : Config) (s : State) : Prop where
  capacity : s.tasks.rows.length ≤ cfg.capacity
  /-- A child that runs has one slot, once its launch is over. -/
  owned : ∀ proc, Alive s proc →
    (∃! slot, slot ∈ s.tasks.rows ∧ slot.proc = proc) ∨ ∃ taskId, s.launch = .spawned taskId proc
  /-- A slot whose child has exited is one that the reaper has not come to yet, or one that the
  reaper or a thread in `terminate_task` has in hand. -/
  handled : ∀ slot ∈ s.tasks.rows, s.poll slot.proc ≠ none → slot.terminating = false ∨
    (∃ exit ∈ s.reaper.finished, exit.1.proc = slot.proc) ∨
      ∃ other ∈ s.terminating ++ s.reaper.terminating, other.proc = slot.proc
  /-- When no child runs and no thread has a slot in hand, the next round of the reaper frees all
  slots, and then no launch is rejected. -/
  freed : (∀ proc, ¬ Alive s proc) → s.launch = .idle → s.terminating = [] →
    s.reaper = .resting → freeSlots cfg (afterRound s) = cfg.capacity ∧
      ∀ taskId, (launchTask cfg (afterRound s) taskId).launch = .spawning taskId

/-- The task has no slot, or the reaper has already found that its child has exited. -/
def Spared (s : State) (taskId : String) : Prop :=
  ∀ slot ∈ s.tasks.rows, slot.taskId = taskId → ∃ exit ∈ s.reaper.finished, exit.1.proc = slot.proc

instance (s : State) (taskId : String) : Decidable (Spared s taskId) :=
  inferInstanceAs (Decidable (∀ slot ∈ s.tasks.rows, _ → ∃ exit ∈ s.reaper.finished, _))

/-- No task is terminated while it has a slot, and the reaper drops no slot of a child that runs,
because the task has been launched again since the scan. -/
def Harmless (e : Runs.Event State Act) : Prop :=
  match e.act with
  | .terminate taskId => Spared e.pre taskId
  | .stallTerminate => ∀ taskId ∈ e.pre.reaper.stalled.head?, Spared e.pre taskId
  | .reap => ∀ exit ∈ e.pre.reaper.finished.head?, ∀ slot ∈ e.pre.tasks.rows,
    slot.taskId = exit.1.taskId → e.pre.poll slot.proc ≠ none
  | _ => True

instance : DecidablePred Harmless := fun e => by
  unfold Harmless
  split <;> infer_instance

/-! ## The invariant -/

/-- There is room for what is being launched, and it is new. -/
def Room (capacity spawned : ℕ) (rows : List Slot) : Launch → Prop
  | .idle => rows.length ≤ capacity
  | .spawning taskId => rows.length < capacity ∧ ∀ slot ∈ rows, slot.taskId ≠ taskId
  | .spawned taskId proc => rows.length < capacity ∧ (∀ slot ∈ rows, slot.taskId ≠ taskId) ∧
    proc < spawned ∧ ∀ slot ∈ rows, slot.proc ≠ proc

/-- What the steps keep, in terms of the parts of the state that matter. -/
structure Inv (capacity : ℕ) (rows : List Slot) (spawned : ℕ) (poll : ℕ → Option ℤ)
    (launch : Launch) (finished : List (Slot × ℤ)) : Prop where
  room : Room capacity spawned rows launch
  known : ∀ slot ∈ rows, slot.proc < spawned
  procs : (rows.map Slot.proc).Nodup
  found : ∀ exit ∈ finished, exit.1.proc < spawned ∧
    (∀ taskId, launch ≠ .spawned taskId exit.1.proc) ∧
      ∀ slot ∈ rows, slot.proc = exit.1.proc → slot.taskId = exit.1.taskId
  owned : ∀ proc, proc < spawned → poll proc = none →
    (∃ slot ∈ rows, slot.proc = proc) ∨ ∃ taskId, launch = .spawned taskId proc
  marked : ∀ slot ∈ rows, slot.terminating = true → ∃ exit ∈ finished, exit.1.proc = slot.proc

def State.Inv (capacity : ℕ) (s : State) : Prop :=
  WorkerControl.Inv capacity s.tasks.rows s.spawned s.poll s.launch s.reaper.finished

namespace Inv

variable {capacity spawned : ℕ} {rows : List Slot} {poll : ℕ → Option ℤ} {launch : Launch}
  {finished : List (Slot × ℤ)} {taskId : String} {slot : Slot} {proc : ℕ} {rc : ℤ}

/-- Slots of children that have exited can go. -/
theorem drop (h : Inv capacity rows spawned poll launch finished)
    (hexited : ∀ slot ∈ rows, slot.taskId = taskId → poll slot.proc ≠ none) :
    Inv capacity (rows.filter fun slot => !decide (slot.taskId = taskId)) spawned poll launch
      finished := by
  have hsub : rows.filter (fun slot => !decide (slot.taskId = taskId)) ⊆ rows :=
    List.filter_sublist.subset
  have hlength : (rows.filter fun slot => !decide (slot.taskId = taskId)).length ≤ rows.length :=
    List.length_filter_le ..
  constructor
  · have hroom := h.room
    cases launch with
    | idle => exact hlength.trans hroom
    | spawning task =>
      exact ⟨hlength.trans_lt hroom.1,fun slot hslot => hroom.2 slot (hsub hslot)⟩
    | spawned task proc =>
      exact ⟨hlength.trans_lt hroom.1,fun slot hslot => hroom.2.1 slot (hsub hslot),hroom.2.2.1,
        fun slot hslot => hroom.2.2.2 slot (hsub hslot)⟩
  · exact fun slot hslot => h.known slot (hsub hslot)
  · exact h.procs.sublist (List.filter_sublist.map Slot.proc)
  · intro exit hexit
    obtain ⟨hknown,hlaunch,htask⟩ := h.found exit hexit
    exact ⟨hknown,hlaunch,fun slot hslot => htask slot (hsub hslot)⟩
  · intro proc hproc hpoll
    rcases h.owned proc hproc hpoll with ⟨slot,hslot,rfl⟩ | hlaunch
    · refine .inl ⟨slot,List.mem_filter.mpr ⟨hslot,?_⟩,rfl⟩
      have hne : slot.taskId ≠ taskId := fun htask => hexited slot hslot htask hpoll
      simpa using hne
    · exact .inr hlaunch
  · exact fun slot hslot => h.marked slot (hsub hslot)

theorem spawning (h : Inv capacity rows spawned poll .idle finished)
    (hlength : rows.length < capacity) (hnew : ∀ slot ∈ rows, slot.taskId ≠ taskId) :
    Inv capacity rows spawned poll (.spawning taskId) finished where
  room := ⟨hlength,hnew⟩
  known := h.known
  procs := h.procs
  found exit hexit := ⟨(h.found exit hexit).1,nofun,(h.found exit hexit).2.2⟩
  owned := by
    intro proc hproc hpoll
    rcases h.owned proc hproc hpoll with hslot | ⟨_,hlaunch⟩
    · exact .inl hslot
    · cases hlaunch
  marked := h.marked

theorem spawn (h : Inv capacity rows spawned poll (.spawning taskId) finished) :
    Inv capacity rows (spawned + 1) poll (.spawned taskId spawned) finished where
  room := ⟨h.room.1,h.room.2,Nat.lt_succ_self spawned,fun slot hslot => (h.known slot hslot).ne⟩
  known slot hslot := (h.known slot hslot).trans (Nat.lt_succ_self spawned)
  procs := h.procs
  found := by
    intro exit hexit
    obtain ⟨hknown,-,htask⟩ := h.found exit hexit
    refine ⟨hknown.trans (Nat.lt_succ_self spawned),fun task hlaunch => ?_,htask⟩
    cases hlaunch
    exact lt_irrefl _ hknown
  owned := by
    intro proc hproc hpoll
    rcases Nat.lt_succ_iff_lt_or_eq.mp hproc with hold | rfl
    · rcases h.owned proc hold hpoll with hslot | ⟨_,hlaunch⟩
      · exact .inl hslot
      · cases hlaunch
    · exact .inr ⟨taskId,rfl⟩
  marked := h.marked

theorem spawnFails (h : Inv capacity rows spawned poll (.spawning taskId) finished) :
    Inv capacity rows spawned poll .idle finished where
  room := h.room.1.le
  known := h.known
  procs := h.procs
  found exit hexit := ⟨(h.found exit hexit).1,nofun,(h.found exit hexit).2.2⟩
  owned := by
    intro proc hproc hpoll
    rcases h.owned proc hproc hpoll with hslot | ⟨_,hlaunch⟩
    · exact .inl hslot
    · cases hlaunch
  marked := h.marked

theorem insert (h : Inv capacity rows spawned poll (.spawned taskId proc) finished) :
    Inv capacity (rows ++ [{ taskId := taskId, proc := proc }]) spawned poll .idle finished := by
  obtain ⟨hlength,htask,hproc,hprocs⟩ := h.room
  constructor
  · simpa [Room] using hlength
  · intro slot hslot
    rcases List.mem_append.mp hslot with hold | hnew
    · exact h.known slot hold
    · rw [List.mem_singleton.mp hnew]
      exact hproc
  · rw [List.map_append,List.map_singleton]
    refine h.procs.append (List.nodup_singleton proc) ?_
    simpa using hprocs
  · intro exit hexit
    obtain ⟨hknown,hlaunch,hsame⟩ := h.found exit hexit
    refine ⟨hknown,nofun,fun slot hslot hslotProc => ?_⟩
    rcases List.mem_append.mp hslot with hold | hnew
    · exact hsame slot hold hslotProc
    · rw [List.mem_singleton.mp hnew] at hslotProc
      exact absurd (congrArg (Launch.spawned taskId) hslotProc) (hlaunch taskId)
  · intro p hp hpoll
    rcases h.owned p hp hpoll with ⟨slot,hslot,hslotProc⟩ | ⟨_,hlaunch⟩
    · exact .inl ⟨slot,List.mem_append_left _ hslot,hslotProc⟩
    · cases hlaunch
      exact .inl ⟨_,List.mem_append_right _ (List.mem_singleton_self _),rfl⟩
  · intro slot hslot hmarked
    rcases List.mem_append.mp hslot with hold | hnew
    · exact h.marked slot hold hmarked
    · rw [List.mem_singleton.mp hnew] at hmarked
      cases hmarked

/-- Slots of children that the reaper has found may be marked. -/
theorem mark (h : Inv capacity rows spawned poll launch finished)
    (hspared : ∀ slot ∈ rows, slot.taskId = taskId →
      ∃ exit ∈ finished, exit.1.proc = slot.proc) :
    Inv capacity (rows.map fun slot => if slot.taskId = taskId then WorkerControl.mark slot
      else slot) spawned poll launch finished := by
  have hmem {slot : Slot} (hslot : slot ∈ rows.map fun slot =>
      if slot.taskId = taskId then WorkerControl.mark slot else slot) :
      ∃ old ∈ rows, slot.proc = old.proc ∧ slot.taskId = old.taskId ∧
        (slot.terminating = true → old.terminating = true ∨ old.taskId = taskId) := by
    obtain ⟨old,hold,rfl⟩ := List.mem_map.mp hslot
    refine ⟨old,hold,?_⟩
    split_ifs with htask
    · exact ⟨rfl,rfl,fun _ => .inr htask⟩
    · exact ⟨rfl,rfl,.inl⟩
  constructor
  · have hroom := h.room
    cases launch with
    | idle => exact (List.length_map _).trans_le hroom
    | spawning task =>
      refine ⟨(List.length_map _).trans_lt hroom.1,fun slot hslot => ?_⟩
      obtain ⟨old,hold,-,htask,-⟩ := hmem hslot
      exact htask ▸ hroom.2 old hold
    | spawned task proc =>
      refine ⟨(List.length_map _).trans_lt hroom.1,fun slot hslot => ?_,hroom.2.2.1,
        fun slot hslot => ?_⟩
      · obtain ⟨old,hold,-,htask,-⟩ := hmem hslot
        exact htask ▸ hroom.2.1 old hold
      · obtain ⟨old,hold,hproc,-,-⟩ := hmem hslot
        exact hproc ▸ hroom.2.2.2 old hold
  · intro slot hslot
    obtain ⟨old,hold,hproc,-,-⟩ := hmem hslot
    exact hproc ▸ h.known old hold
  · have hmap : (rows.map fun slot => if slot.taskId = taskId then WorkerControl.mark slot
        else slot).map Slot.proc = rows.map Slot.proc := by
      rw [List.map_map]
      refine List.map_congr_left fun slot _ => ?_
      simp only [Function.comp_apply]
      split_ifs <;> rfl
    rw [hmap]
    exact h.procs
  · intro exit hexit
    obtain ⟨hknown,hlaunch,hsame⟩ := h.found exit hexit
    refine ⟨hknown,hlaunch,fun slot hslot hslotProc => ?_⟩
    obtain ⟨old,hold,hproc,htask,-⟩ := hmem hslot
    exact htask.trans (hsame old hold (hproc ▸ hslotProc))
  · intro p hp hpoll
    rcases h.owned p hp hpoll with ⟨slot,hslot,hslotProc⟩ | hlaunch
    · refine .inl ⟨_,List.mem_map_of_mem hslot,?_⟩
      split_ifs
      · exact hslotProc
      · exact hslotProc
    · exact .inr hlaunch
  · intro slot hslot hmarked
    obtain ⟨old,hold,hproc,-,hwhy⟩ := hmem hslot
    rw [hproc]
    rcases hwhy hmarked with hmarked | htask
    · exact h.marked old hold hmarked
    · exact hspared old hold htask

theorem exits (h : Inv capacity rows spawned poll launch finished) :
    Inv capacity rows spawned (Function.update poll proc (some rc)) launch finished where
  room := h.room
  known := h.known
  procs := h.procs
  found := h.found
  owned := by
    intro p hp hpoll
    refine h.owned p hp ?_
    by_cases hsame : p = proc
    · rw [hsame,Function.update_self] at hpoll
      cases hpoll
    · rwa [Function.update_of_ne hsame] at hpoll
  marked := h.marked

/-- A scan between two rounds finds no marked slot. -/
theorem scan (h : Inv capacity rows spawned poll launch []) :
    Inv capacity rows spawned poll launch (rows.filterMap fun slot =>
      if slot.terminating then none else (poll slot.proc).map (slot,·)) where
  room := h.room
  known := h.known
  procs := h.procs
  found := by
    intro exit hexit
    obtain ⟨slot,hslot,hexit⟩ := List.mem_filterMap.mp hexit
    have hsame : exit.1 = slot := by
      split_ifs at hexit
      obtain ⟨rc,-,rfl⟩ := Option.map_eq_some_iff.mp hexit
      rfl
    rw [hsame]
    refine ⟨h.known slot hslot,?_,fun other hother hproc => ?_⟩
    · rintro task rfl
      exact h.room.2.2.2 slot hslot rfl
    · rw [List.inj_on_of_nodup_map h.procs hother hslot hproc]
  owned := h.owned
  marked slot hslot hmarked := by
    obtain ⟨_,hnone,-⟩ := h.marked slot hslot hmarked
    cases hnone

/-- The reaper handles the first exit that it has found. -/
theorem reap {exit : Slot × ℤ} (h : Inv capacity rows spawned poll launch (exit :: finished))
    (hexited : ∀ slot ∈ rows, slot.taskId = exit.1.taskId → poll slot.proc ≠ none) :
    Inv capacity (rows.filter fun slot => !decide (slot.taskId = exit.1.taskId)) spawned poll
      launch finished where
  room := (h.drop hexited).room
  known := (h.drop hexited).known
  procs := (h.drop hexited).procs
  found other hother := (h.drop hexited).found other (List.mem_cons_of_mem exit hother)
  owned := (h.drop hexited).owned
  marked slot hslot hmarked := by
    obtain ⟨hold,hne⟩ := List.mem_filter.mp hslot
    obtain ⟨other,hother,hproc⟩ := h.marked slot hold hmarked
    rcases List.mem_cons.mp hother with rfl | hother
    · have hsame := (h.found other List.mem_cons_self).2.2 slot hold hproc.symm
      simp [hsame] at hne
    · exact ⟨other,hother,hproc⟩

end Inv

section
variable {cfg : Config} {s v : State} {taskId : String}

theorem inv_start : start.Inv cfg.capacity where
  room := Nat.zero_le _
  known := nofun
  procs := List.nodup_nil
  found := nofun
  owned := nofun
  marked := nofun

theorem new_of_lookup (h : s.tasks.lookup taskId = none) :
    ∀ slot ∈ s.tasks.rows, slot.taskId ≠ taskId := by
  simpa [KeyedTable.lookup] using h

theorem checkCapacity_inv (h : s.Inv cfg.capacity) (hidle : s.launch = .idle)
    (hnew : ∀ slot ∈ s.tasks.rows, slot.taskId ≠ taskId) :
    (checkCapacity cfg s taskId).Inv cfg.capacity := by
  unfold checkCapacity
  split_ifs with hfull
  · exact h
  · have hinv : Inv cfg.capacity s.tasks.rows s.spawned s.poll .idle s.reaper.finished := hidle ▸ h
    exact hinv.spawning (not_le.mp hfull) hnew

theorem launchTask_inv (h : s.Inv cfg.capacity) (hidle : s.launch = .idle) :
    (launchTask cfg s taskId).Inv cfg.capacity := by
  unfold launchTask
  cases hslot : s.tasks.lookup taskId with
  | none => exact checkCapacity_inv h hidle (new_of_lookup hslot)
  | some slot =>
    dsimp only
    split_ifs with hpoll
    · exact h
    · obtain ⟨hmem,htask⟩ := KeyedTable.lookup_eq_some_iff.mp hslot
      have hdrop : (dropTask s taskId).Inv cfg.capacity := by
        refine h.drop fun other hother hsame => ?_
        have heq : other = slot :=
          List.inj_on_of_nodup_map s.tasks.nodup hother hmem (hsame.trans htask.symm)
        exact heq ▸ hpoll
      exact checkCapacity_inv hdrop hidle fun other hother => by
        simpa using (List.mem_filter.mp hother).2

theorem popSlot_inv (h : s.Inv cfg.capacity) (hspared : Spared s taskId) :
    (popSlot s taskId).2.Inv cfg.capacity := by
  unfold popSlot
  cases s.tasks.lookup taskId with
  | none => exact h
  | some slot =>
    have hmark := h.mark hspared
    simp only [State.Inv,KeyedTable.updateWhere,decide_eq_true_eq]
    exact hmark

theorem popSlot_reaper : (popSlot s taskId).2.reaper = s.reaper := by
  unfold popSlot
  cases s.tasks.lookup taskId <;> rfl

/-- Only the exits that the reaper has found matter. -/
theorem with_reaper {reaper : Reaper} (h : s.Inv cfg.capacity)
    (hfinished : reaper.finished = s.reaper.finished) :
    ({ s with reaper := reaper } : State).Inv cfg.capacity := by
  unfold State.Inv
  rw [hfinished]
  exact h

/-- A harmless step keeps the invariant. -/
theorem inv_step {a : Act} (h : s.Inv cfg.capacity) (hharmless : Harmless ⟨s,a,v⟩)
    (hstep : step cfg s a = some v) : v.Inv cfg.capacity := by
  cases a with
  | launch taskId =>
    simp only [step] at hstep
    obtain ⟨hidle,rfl⟩ := Runs.guarded hstep
    exact launchTask_inv h hidle
  | spawn =>
    simp only [step] at hstep
    split at hstep
    · rename_i taskId hlaunch
      cases hstep
      have hinv : Inv cfg.capacity s.tasks.rows s.spawned s.poll (.spawning taskId)
        s.reaper.finished := hlaunch ▸ h
      exact hinv.spawn
    · cases hstep
  | spawnFails =>
    simp only [step] at hstep
    split at hstep
    · rename_i taskId hlaunch
      cases hstep
      have hinv : Inv cfg.capacity s.tasks.rows s.spawned s.poll (.spawning taskId)
        s.reaper.finished := hlaunch ▸ h
      exact hinv.spawnFails
    · cases hstep
  | insert =>
    simp only [step] at hstep
    split at hstep
    · rename_i taskId proc hlaunch
      cases hstep
      have hinv : Inv cfg.capacity s.tasks.rows s.spawned s.poll (.spawned taskId proc)
        s.reaper.finished := hlaunch ▸ h
      have hinsert := hinv.insert
      rw [← KeyedTable.rows_insertOrReplace_of_not_mem hinv.room.2.1] at hinsert
      exact hinsert
    · cases hstep
  | terminate taskId =>
    have hinv := popSlot_inv h hharmless
    simp only [step] at hstep
    split at hstep
    · rename_i s' hpop
      cases hstep
      rw [hpop] at hinv
      exact hinv
    · rename_i slot s' hpop
      cases hstep
      rw [hpop] at hinv
      exact hinv
  | terminated slot =>
    simp only [step] at hstep
    obtain ⟨-,rfl⟩ := Runs.guarded hstep
    exact h
  | exits proc rc =>
    simp only [step] at hstep
    obtain ⟨-,rfl⟩ := Runs.guarded hstep
    exact h.exits
  | scan =>
    simp only [step] at hstep
    split at hstep
    · rename_i hreaper
      cases hstep
      have hinv : Inv cfg.capacity s.tasks.rows s.spawned s.poll s.launch [] := by
        simpa [State.Inv,hreaper,Reaper.finished] using h
      exact hinv.scan
    · cases hstep
  | reap =>
    simp only [step] at hstep
    split at hstep
    · rename_i exit finished hreaper
      cases hstep
      have hinv : Inv cfg.capacity s.tasks.rows s.spawned s.poll s.launch (exit :: finished) := by
        simpa [State.Inv,hreaper,Reaper.finished] using h
      exact hinv.reap (hharmless exit (by rw [hreaper]; rfl))
    · cases hstep
  | checkStall overdue =>
    simp only [step] at hstep
    split at hstep
    · rename_i hreaper
      obtain ⟨-,rfl⟩ := Runs.guarded hstep
      exact with_reaper h (by rw [hreaper]; rfl)
    · cases hstep
  | stallTerminate =>
    simp only [step] at hstep
    split at hstep
    · rename_i taskId stalled hreaper
      have hinv := popSlot_inv h (hharmless taskId (by rw [hreaper]; rfl))
      have hkept : (popSlot s taskId).2.reaper.finished = [] := by
        rw [popSlot_reaper,hreaper]
        rfl
      split at hstep
      · rename_i s' hpop
        cases hstep
        rw [hpop] at hinv hkept
        exact with_reaper hinv hkept.symm
      · rename_i slot s' hpop
        cases hstep
        rw [hpop] at hinv hkept
        exact with_reaper hinv hkept.symm
    · cases hstep
  | stallTerminated =>
    simp only [step] at hstep
    split at hstep
    · rename_i slot stalled hreaper
      cases hstep
      have hkept : (Reaper.stalling stalled).finished = s.reaper.finished := by
        rw [hreaper]
        rfl
      exact with_reaper (show (cancelled s slot.taskId).Inv cfg.capacity from h) hkept
    · cases hstep
  | endRound =>
    simp only [step] at hstep
    split at hstep
    · rename_i hreaper
      split_ifs at hstep
      cases hstep
      exact with_reaper h (by rw [hreaper]; rfl)
    · rename_i hreaper
      cases hstep
      exact with_reaper h (by rw [hreaper]; rfl)
    · cases hstep

/-- A round drops every slot that the scan finds. -/
theorem fold_onTaskExited (exits : List (Slot × ℤ)) :
    (exits.foldl onTaskExited s).tasks.rows =
      s.tasks.rows.filter (fun slot => slot.taskId ∉ exits.map fun exit => exit.1.taskId) ∧
        (exits.foldl onTaskExited s).launch = s.launch := by
  induction exits generalizing s with
  | nil => simp
  | cons exit exits ih =>
    obtain ⟨hrows,hlaunch⟩ := @ih (onTaskExited s exit)
    refine ⟨?_,hlaunch⟩
    rw [List.foldl_cons,hrows]
    show (s.tasks.rows.filter _).filter _ = _
    rw [List.filter_filter]
    refine List.filter_congr fun slot _ => ?_
    simp only [List.map_cons,List.mem_cons,not_or,Bool.decide_and,decide_not]
    exact Bool.and_comm _ _

theorem Inv.conserved (h : s.Inv cfg.capacity) : Conserved cfg s where
  capacity := by
    have hroom := h.room
    cases hlaunch : s.launch with
    | idle =>
      rw [hlaunch] at hroom
      exact hroom
    | spawning taskId =>
      rw [hlaunch] at hroom
      exact hroom.1.le
    | spawned taskId proc =>
      rw [hlaunch] at hroom
      exact hroom.1.le
  owned := by
    rintro proc ⟨hproc,hpoll⟩
    rcases h.owned proc hproc hpoll with ⟨slot,hslot,hsame⟩ | hlaunch
    · refine .inl ⟨slot,⟨hslot,hsame⟩,fun other hother => ?_⟩
      exact List.inj_on_of_nodup_map h.procs hother.1 hslot (hother.2.trans hsame.symm)
    · exact .inr hlaunch
  handled := by
    intro slot hslot hpoll
    by_cases hmarked : slot.terminating = true
    · exact .inr (.inl (h.marked slot hslot hmarked))
    · exact .inl (Bool.not_eq_true _ ▸ hmarked)
  freed := by
    intro hdead hidle _ hresting
    have hfinished : s.reaper.finished = [] := by
      rw [hresting]
      rfl
    have hall : ∀ slot ∈ s.tasks.rows, slot.taskId ∈ (finishedSlots s).map fun exit =>
        exit.1.taskId := by
      intro slot hslot
      have hunmarked : slot.terminating = false := by
        by_contra hmarked
        obtain ⟨_,hexit,-⟩ := h.marked slot hslot (Bool.not_eq_false _ ▸ hmarked)
        rw [hfinished] at hexit
        cases hexit
      cases hpoll : s.poll slot.proc with
      | none => exact absurd ⟨h.known slot hslot,hpoll⟩ (hdead slot.proc)
      | some rc =>
        refine List.mem_map.mpr ⟨(slot,rc),List.mem_filterMap.mpr ⟨slot,hslot,?_⟩,rfl⟩
        simp [hunmarked,hpoll]
    obtain ⟨hrows,hlaunch⟩ := fold_onTaskExited (s := s) (finishedSlots s)
    have hnone : (afterRound s).tasks.rows = [] := by
      rw [afterRound,hrows]
      exact List.filter_eq_nil_iff.mpr fun slot hslot => by simpa using hall slot hslot
    constructor
    · rw [freeSlots,hnone]
      rfl
    · intro taskId
      have hlookup : (afterRound s).tasks.lookup taskId = none := by
        rw [KeyedTable.lookup,hnone]
        rfl
      simp [launchTask,hlookup,checkCapacity,hnone,cfg.pos.ne']

/-- In a run whose steps are all harmless, the slots are conserved in every state. -/
theorem slots_conserved {tr : List (Runs.Event State Act)} (h : Runs.Run (step cfg) start tr s)
    (hharmless : Runs.Along (fun _ e => Harmless e) tr) : Conserved cfg s :=
  Inv.conserved (Runs.Run.invariant (J := fun _ s => s.Inv cfg.capacity) h hharmless inv_start
    fun _ _ _ _ hinv hsafe hstep => inv_step hinv hsafe hstep)

end

/-- A worker with one slot. -/
def oneSlot : Config := ⟨1,false,Nat.one_pos⟩

/-- A task runs to its end, and the slot is free again. -/
theorem task_ends : ∃ tr s, Runs.Run (step oneSlot) start tr s ∧ Conserved oneSlot s ∧
    s.tasks.rows = [] := by
  obtain ⟨tr,s,hrun,hp⟩ := Runs.exists_run_of_replay (step oneSlot) start
    [.launch "t",.spawn,.insert,.exits 0 0,.scan,.reap,.endRound]
    (p := fun tr s => decide (Runs.Along (fun _ e => Harmless e) tr ∧ s.tasks.rows = [])) (by decide)
  obtain ⟨hharmless,hrows⟩ := of_decide_eq_true hp
  exact ⟨tr,s,hrun,slots_conserved hrun hharmless,hrows⟩

/-- A terminated task keeps its slot for good. -/
theorem slot_lost : ∃ tr s, Runs.Run (step oneSlot) start tr s ∧ ¬ Conserved oneSlot s := by
  obtain ⟨tr,s,hrun,hp⟩ := Runs.exists_run_of_replay (step oneSlot) start
    [.launch "t",.spawn,.insert,.terminate "t",.exits 0 (-9),.terminated ⟨"t",0,true⟩]
    (p := fun _ s => decide (s.tasks.rows = [⟨"t",0,true⟩] ∧ s.poll 0 = some (-9) ∧
      s.terminating = [] ∧ s.reaper = .resting)) (by decide)
  obtain ⟨hrows,hpoll,hthreads,hreaper⟩ := of_decide_eq_true hp
  refine ⟨tr,s,hrun,fun h => ?_⟩
  have hhandled := h.handled ⟨"t",0,true⟩ (by rw [hrows]; exact List.mem_singleton_self _)
    (by rw [hpoll]; nofun)
  rw [hthreads,hreaper] at hhandled
  simp [Reaper.finished,Reaper.terminating] at hhandled

end WorkerControl
end EntryAnalyse
