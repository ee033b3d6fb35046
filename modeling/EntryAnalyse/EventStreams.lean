import EntryAnalyse.IndexLoop
import EntryAnalyse.Runs

/-! The streams of the events of a task in `server.py`. Any number of threads append events to a list
and put them into the queues of the streams, each in a loop of its own; a stream replays the list
before it reads from its queue. -/
namespace EntryAnalyse
namespace EventStreams

open Runs IndexLoop

/-- What stands in a queue: an event, known by its place in `entry.events`, or the message that ends
the streams. -/
inductive Item
  | event (j : ℕ)
  | done
  deriving DecidableEq

/-- `closing` is a stream that has sent the end and still has its queue in `entry.queues`, `closed` one
whose client has gone. -/
inductive Phase
  | replaying | live | closing | ended | closed
  deriving DecidableEq

/-- One call of `stream_task`, with what its client has got after the replay. -/
structure Stream where
  phase : Phase := .replaying
  replayed : ℕ := 0
  queue : List Item := []
  got : List Item := []

/-- `maxsize` of a queue. -/
def maxsize : ℕ := 1000

/-- `put_nowait`; `QueueFull` is ignored. -/
def Stream.putNowait (m : Stream) (x : Item) : Stream :=
  if m.queue.length < maxsize then { m with queue := m.queue ++ [x] } else m

/-- All that the client has got. -/
def Stream.delivered (m : Stream) : List Item := (List.range m.replayed).map .event ++ m.got

/-- All that came through the queue. -/
def Stream.offered (m : Stream) : List Item := m.got ++ m.queue

/-- A `TaskEntry`, whether it is in `_tasks`, and the places of the loops over `entry.queues`: the one
of each call of `on_event`, and the one that ends the streams. `checked` counts the calls that have
found the entry and not yet appended their event. -/
structure Sys where
  known : Bool := true
  result : Bool := false
  checked : ℕ := 0
  emitted : ℕ := 0
  handing : ℕ → Option ℕ := fun _ => none
  ending : Option ℕ := none
  queues : List ℕ := []
  opened : ℕ := 0
  streams : ℕ → Stream := fun _ => {}

def Sys.set (s : Sys) (n : ℕ) (m : Stream) : Sys :=
  { s with streams := Function.update s.streams n m }

/-- `entry.queues.remove`. -/
def Sys.remove (s : Sys) (n : ℕ) : Sys := { s with queues := s.queues.erase n }

/-- `check`, `emit` and `hand` are steps of any thread, the others of the event loop. -/
inductive Act
  | check
  | emit
  | hand (j : ℕ)
  | finish
  | handDone
  | forget
  | subscribe
  | next (n : ℕ)
  | leave (n : ℕ)
  deriving DecidableEq

/-- The generator of a stream goes on. -/
def next (s : Sys) (n : ℕ) : Option Sys :=
  let m := s.streams n
  match m.phase,m.queue with
  | .replaying,_ =>
    if m.replayed < s.emitted then some (s.set n { m with replayed := m.replayed + 1 })
    else if s.result then some (s.set n { m with phase := .ended, got := m.got ++ [.done] })
    else some (s.set n { m with phase := .live })
  | .live,.event j :: queue =>
    some (s.set n { m with queue := queue, got := m.got ++ [.event j] })
  | .live,.done :: queue =>
    some (s.set n { m with phase := .closing, queue := queue, got := m.got ++ [.done] })
  | .closing,_ => some ((s.set n { m with phase := .ended }).remove n)
  | _,_ => none

/-- The client goes. A stream that was replaying leaves its queue behind. -/
def leave (s : Sys) (n : ℕ) : Option Sys :=
  let m := s.streams n
  match m.phase with
  | .replaying => some (s.set n { m with phase := .closed })
  | .live => some ((s.set n { m with phase := .closed }).remove n)
  | .closing => some ((s.set n { m with phase := .ended }).remove n)
  | _ => none

/-- A loop over `entry.queues` goes on from place `i`: it puts the item into the queue there, or ends. -/
def visit (s : Sys) (i : ℕ) (x : Item) : Option ℕ × (ℕ → Stream) :=
  match s.queues[i]? with
  | some n => (some (i + 1),Function.update s.streams n ((s.streams n).putNowait x))
  | none => (none,s.streams)

/-- The event loop runs nothing else while it hands out the end. -/
def step (s : Sys) : Act → Option Sys
  | .check => if s.known = true then some { s with checked := s.checked + 1 } else none
  | .emit =>
    if 0 < s.checked then
      some { s with
        checked := s.checked - 1
        emitted := s.emitted + 1
        handing := Function.update s.handing s.emitted (some 0) }
    else none
  | .hand j => (s.handing j).map fun i =>
    { s with
      handing := Function.update s.handing j (visit s i (.event j)).1
      streams := (visit s i (.event j)).2 }
  | .finish =>
    if s.ending = none ∧ s.result = false then some { s with result := true, ending := some 0 }
    else none
  | .handDone => s.ending.map fun i =>
    { s with ending := (visit s i .done).1, streams := (visit s i .done).2 }
  | .forget =>
    if s.ending = none ∧ s.result = true then some { s with known := false } else none
  | .subscribe =>
    if s.ending = none ∧ s.known = true then
      some { s with
        streams := Function.update s.streams s.opened {}
        opened := s.opened + 1
        queues := s.queues ++ [s.opened] }
    else none
  | .next n => if s.ending = none ∧ n < s.opened then next s n else none
  | .leave n => if s.ending = none ∧ n < s.opened then leave s n else none

/-- The stream whose queue a step takes out of `entry.queues`. -/
def removed (s : Sys) : Act → Option ℕ
  | .next n => if (s.streams n).phase = .closing then some n else none
  | .leave n =>
    if (s.streams n).phase = .live ∨ (s.streams n).phase = .closing then some n else none
  | _ => none

/-- All that a step can do. -/
inductive Does (s : Sys) : Act → Sys → Prop
  | check (h : s.known = true) : Does s .check { s with checked := s.checked + 1 }
  | emit (h : 0 < s.checked) : Does s .emit { s with
      checked := s.checked - 1
      emitted := s.emitted + 1
      handing := Function.update s.handing s.emitted (some 0) }
  | put {j i n : ℕ} (h : s.handing j = some i) (hn : s.queues[i]? = some n) :
    Does s (.hand j) { s with
      handing := Function.update s.handing j (some (i + 1))
      streams := Function.update s.streams n ((s.streams n).putNowait (.event j)) }
  | handed {j i : ℕ} (h : s.handing j = some i) (hn : s.queues[i]? = none) :
    Does s (.hand j) { s with handing := Function.update s.handing j none }
  | finish (he : s.ending = none) (h : s.result = false) :
    Does s .finish { s with result := true, ending := some 0 }
  | putDone {i n : ℕ} (h : s.ending = some i) (hn : s.queues[i]? = some n) :
    Does s .handDone { s with
      ending := some (i + 1)
      streams := Function.update s.streams n ((s.streams n).putNowait .done) }
  | finished {i : ℕ} (h : s.ending = some i) (hn : s.queues[i]? = none) :
    Does s .handDone { s with ending := none }
  | forget (he : s.ending = none) (h : s.result = true) : Does s .forget { s with known := false }
  | subscribe (he : s.ending = none) (h : s.known = true) :
    Does s .subscribe { s with
      streams := Function.update s.streams s.opened {}
      opened := s.opened + 1
      queues := s.queues ++ [s.opened] }
  | replay {n : ℕ} (he : s.ending = none) (hn : n < s.opened)
    (h : (s.streams n).phase = .replaying) (hlt : (s.streams n).replayed < s.emitted) :
    Does s (.next n)
      (s.set n { s.streams n with replayed := (s.streams n).replayed + 1 })
  | stop {n : ℕ} (he : s.ending = none) (hn : n < s.opened)
    (h : (s.streams n).phase = .replaying) (hlt : s.emitted ≤ (s.streams n).replayed)
    (hr : s.result = true) :
    Does s (.next n)
      (s.set n { s.streams n with phase := .ended, got := (s.streams n).got ++ [.done] })
  | goLive {n : ℕ} (he : s.ending = none) (hn : n < s.opened)
    (h : (s.streams n).phase = .replaying) (hlt : s.emitted ≤ (s.streams n).replayed)
    (hr : s.result = false) :
    Does s (.next n) (s.set n { s.streams n with phase := .live })
  | take {n j : ℕ} {queue : List Item} (he : s.ending = none) (hn : n < s.opened)
    (h : (s.streams n).phase = .live) (hq : (s.streams n).queue = .event j :: queue) :
    Does s (.next n) (s.set n
      { s.streams n with queue := queue, got := (s.streams n).got ++ [.event j] })
  | takeDone {n : ℕ} {queue : List Item} (he : s.ending = none) (hn : n < s.opened)
    (h : (s.streams n).phase = .live) (hq : (s.streams n).queue = .done :: queue) :
    Does s (.next n) (s.set n
      { s.streams n with
        phase := .closing, queue := queue, got := (s.streams n).got ++ [.done] })
  | close {n : ℕ} (he : s.ending = none) (hn : n < s.opened)
    (h : (s.streams n).phase = .closing) :
    Does s (.next n) ((s.set n { s.streams n with phase := .ended }).remove n)
  | leaveReplay {n : ℕ} (he : s.ending = none) (hn : n < s.opened)
    (h : (s.streams n).phase = .replaying) :
    Does s (.leave n) (s.set n { s.streams n with phase := .closed })
  | leaveLive {n : ℕ} (he : s.ending = none) (hn : n < s.opened)
    (h : (s.streams n).phase = .live) :
    Does s (.leave n) ((s.set n { s.streams n with phase := .closed }).remove n)
  | leaveClosing {n : ℕ} (he : s.ending = none) (hn : n < s.opened)
    (h : (s.streams n).phase = .closing) :
    Does s (.leave n) ((s.set n { s.streams n with phase := .ended }).remove n)

theorem does_next {s v : Sys} {n : ℕ} (he : s.ending = none) (hn : n < s.opened)
    (h : next s n = some v) : Does s (.next n) v := by
  simp only [next] at h
  split at h
  · rename_i hphase
    split_ifs at h with hlt hr
    · cases h
      exact .replay he hn hphase hlt
    · cases h
      exact .stop he hn hphase (by omega) hr
    · cases h
      exact .goLive he hn hphase (by omega) (by simpa using hr)
  · rename_i j queue hphase hq
    cases h
    exact .take he hn hphase hq
  · rename_i queue hphase hq
    cases h
    exact .takeDone he hn hphase hq
  · rename_i hphase
    cases h
    exact .close he hn hphase
  · cases h

theorem does_leave {s v : Sys} {n : ℕ} (he : s.ending = none) (hn : n < s.opened)
    (h : leave s n = some v) : Does s (.leave n) v := by
  simp only [leave] at h
  split at h
  · rename_i hphase
    cases h
    exact .leaveReplay he hn hphase
  · rename_i hphase
    cases h
    exact .leaveLive he hn hphase
  · rename_i hphase
    cases h
    exact .leaveClosing he hn hphase
  · cases h

theorem does_of_step {s v : Sys} {a : Act} (h : step s a = some v) : Does s a v := by
  cases a with
  | check =>
    obtain ⟨hk,rfl⟩ := guarded h
    exact .check hk
  | emit =>
    obtain ⟨hc,rfl⟩ := guarded h
    exact .emit hc
  | hand j =>
    obtain ⟨i,hi,rfl⟩ := Option.map_eq_some_iff.mp h
    cases hn : s.queues[i]? with
    | some n => simpa [visit,hn] using Does.put hi hn
    | none => simpa [visit,hn] using Does.handed hi hn
  | finish =>
    obtain ⟨⟨he,hr⟩,rfl⟩ := guarded h
    exact .finish he hr
  | handDone =>
    obtain ⟨i,hi,rfl⟩ := Option.map_eq_some_iff.mp h
    cases hn : s.queues[i]? with
    | some n => simpa [visit,hn] using Does.putDone hi hn
    | none => simpa [visit,hn] using Does.finished hi hn
  | forget =>
    obtain ⟨⟨he,hr⟩,rfl⟩ := guarded h
    exact .forget he hr
  | subscribe =>
    obtain ⟨⟨he,hk⟩,rfl⟩ := guarded h
    exact .subscribe he hk
  | next n =>
    simp only [step] at h
    split_ifs at h with hn
    exact does_next hn.1 hn.2 h
  | leave n =>
    simp only [step] at h
    split_ifs at h with hn
    exact does_leave hn.1 hn.2 h

end EventStreams
end EntryAnalyse
