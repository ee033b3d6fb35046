import EntryAnalyse.Runs

/-! The batches of the fast mode. Concurrent calls of `enqueue` fill a buffer that three parties
empty: the calls themselves when it is full, a thread that finds it idle, and `flush`. The
batches run in a thread pool, take a number from a counter that no lock protects, and wake the
calls that wait for them. -/
namespace EntryAnalyse
namespace FastMode

open Runs

/-- A function in the buffer, with the call that waits for it. -/
structure Entry where
  call : ℕ
  funcHash : String

/-- How far `_process_batch` has come. `batch_idx = self._batch_seq` and the two halves of
`self._batch_seq += 1` are separate steps. An answer is the list of the functions to keep, and
`none` if the classification raised or gave no list. -/
inductive Phase
  | queued
  | named (idx : ℕ)
  | counting (idx seen : ℕ)
  | running (idx : ℕ)
  | classified (idx : ℕ) (answer : Option (List String))
  | notifying (idx : ℕ) (answer : Option (List String)) (rest : List Entry)

structure Batch where
  items : List Entry
  phase : Phase

/-- The thread `_idle_flush_loop`: waiting for five seconds, looking at the buffer, or ended. -/
inductive Flusher
  | waiting | looking | ended
  deriving DecidableEq

inductive Flush
  | notCalled
  | waiting (remaining : List Entry)
  | returned

/-- The processor. `calls` are the functions of the calls of `enqueue`, in the order in which they
took the lock, `events` the calls whose event is set, and `answers` what the calls returned. -/
structure Sys where
  calls : List String
  pending : List Entry
  batches : List Batch
  batchSeq : ℕ
  results : List (String × String)
  events : List ℕ
  answers : List (ℕ × String)
  flusher : Flusher
  stopFlusher : Bool
  flush : Flush

/-- What a thread of the pool does next with its batch. -/
inductive BatchAct
  | readSeq | loadSeq | storeSeq
  | classify (answer : Option (List String))
  | publish | setEvent

inductive Act
  | enqueue (funcHash : String)
  | enqueueReturns (call : ℕ)
  | batch (b : ℕ) (act : BatchAct)
  | flusherWakes | flusherTakes | flusherSkips | flusherEnds
  | flushTakes | flushReturns

/-- `_batch_size`. -/
def batchSize (superFast : Bool) (fastModeBatchSize : ℤ) : ℕ :=
  if superFast then 1000 else (max 10 (min fastModeBatchSize 50)).toNat

/-- The processor after `__init__`. -/
def init : Sys where
  calls := []
  pending := []
  batches := []
  batchSeq := 0
  results := []
  events := []
  answers := []
  flusher := .waiting
  stopFlusher := false
  flush := .notCalled

/-- The functions that the batch keeps: a failing batch keeps all of them. -/
def entrySet (items : List Entry) (answer : Option (List String)) : List String :=
  answer.getD (items.map Entry.funcHash)

def decision (items : List Entry) (answer : Option (List String)) (h : String) : String :=
  if (entrySet items answer).contains h then "keep" else "filter"

/-- `fast-mode-entry-batch-{batch_idx:03d}.jsonl`. -/
def sessionFile (idx : ℕ) : String :=
  let digits := Nat.toDigits 10 idx
  String.ofList ("fast-mode-entry-batch-".toList ++
    (List.replicate (3 - digits.length) '0' ++ digits ++ ".jsonl".toList))

/-- A batch is handed to the thread pool. -/
def submit (s : Sys) (items : List Entry) : Sys :=
  { s with batches := s.batches ++ [⟨items,.queued⟩] }

/-- The part of `enqueue` under the lock. -/
def enqueue (size : ℕ) (s : Sys) (h : String) : Sys :=
  let pending := s.pending ++ [⟨s.calls.length,h⟩]
  let s := { s with calls := s.calls ++ [h] }
  if size ≤ pending.length then
    submit { s with pending := pending.drop size } (pending.take size)
  else { s with pending := pending }

/-- `_process_batch`: the processor and the phase of the batch after one step of its thread. -/
def processBatch (s : Sys) (items : List Entry) : Phase → BatchAct → Option (Sys × Phase)
  | .queued,.readSeq => some (s,.named s.batchSeq)
  | .named idx,.loadSeq => some (s,.counting idx s.batchSeq)
  | .counting idx seen,.storeSeq => some ({ s with batchSeq := seen + 1 },.running idx)
  | .running idx,.classify answer => some (s,.classified idx answer)
  | .classified idx answer,.publish =>
    some ({ s with
      results := items.map (fun e => (e.funcHash,decision items answer e.funcHash)) ++ s.results },
      .notifying idx answer items)
  | .notifying idx answer (e :: rest),.setEvent =>
    some ({ s with events := e.call :: s.events },.notifying idx answer rest)
  | _,_ => none

def step (size : ℕ) (s : Sys) : Act → Option Sys
  | .enqueue h => some (enqueue size s h)
  | .enqueueReturns i =>
    if i ∈ s.events ∧ ∀ p ∈ s.answers, p.1 ≠ i then
      (s.calls[i]?).map (fun h =>
        { s with answers := (i,(s.results.lookup h).getD "keep") :: s.answers })
    else none
  | .batch b act =>
    (s.batches[b]?).bind (fun batch => (processBatch s batch.items batch.phase act).map (fun r =>
      { r.1 with batches := s.batches.set b ⟨batch.items,r.2⟩ }))
  | .flusherWakes =>
    if s.flusher = .waiting ∧ s.stopFlusher = false then some { s with flusher := .looking } else none
  | .flusherTakes =>
    if s.flusher = .looking ∧ s.pending ≠ [] then
      some (submit { s with pending := [], flusher := .waiting } s.pending)
    else none
  | .flusherSkips =>
    if s.flusher = .looking then some { s with flusher := .waiting } else none
  | .flusherEnds =>
    if s.flusher = .waiting ∧ s.stopFlusher = true then some { s with flusher := .ended } else none
  | .flushTakes =>
    match s.flush with
    | .notCalled =>
      let s' := { s with stopFlusher := true, pending := [] }
      if s.pending = [] then some { s' with flush := .returned }
      else some (submit { s' with flush := .waiting s.pending } s.pending)
    | _ => none
  | .flushReturns =>
    match s.flush with
    | .waiting remaining =>
      if ∀ e ∈ remaining, e.call ∈ s.events then some { s with flush := .returned } else none
    | _ => none

/-! ## The law -/

namespace Phase

/-- `batch_idx`, once it has been read. -/
def idx : Phase → Option ℕ
  | queued => none
  | named i => some i
  | counting i _ => some i
  | running i => some i
  | classified i _ => some i
  | notifying i _ _ => some i

/-- Between the reading of the counter and the storing of its successor. -/
def counts : Phase → Bool
  | named _ => true
  | counting _ _ => true
  | _ => false

/-- The answer of a batch whose results have been published. -/
def published : Phase → Option (Option (List String))
  | notifying _ answer _ => some answer
  | _ => none

/-- All events of the batch are set. -/
def done : Phase → Bool
  | notifying _ _ [] => true
  | _ => false

end Phase

/-- The entries that wait for a batch or are in one. -/
def placed (s : Sys) : List Entry := s.pending ++ s.batches.flatMap Batch.items

/-- The batch has published the decision `d` for the function `h`. -/
def Decides (b : Batch) (h d : String) : Prop :=
  ∃ answer, b.phase.published = some answer ∧ (∃ e ∈ b.items, e.funcHash = h) ∧
    d = decision b.items answer h

/-- Every call is in the buffer or in a batch, and only once; what it returns was decided by a
batch for its function, and is `keep` if all such batches failed; two batches have different
numbers and session files; and after `flush` no call waits. -/
structure BatchingLaw (s : Sys) : Prop where
  once : ((placed s).map Entry.call).Perm (List.range s.calls.length)
  own : ∀ e ∈ placed s, s.calls[e.call]? = some e.funcHash
  decided : ∀ p ∈ s.answers, ∃ h, s.calls[p.1]? = some h ∧ ∃ b ∈ s.batches, Decides b h p.2
  failing : ∀ p ∈ s.answers, ∀ h, s.calls[p.1]? = some h →
    (∀ b ∈ s.batches, ∀ d, Decides b h d → b.phase.published = some none) → p.2 = "keep"
  numbers : ∀ (i j : ℕ) (b c : Batch) n, s.batches[i]? = some b → s.batches[j]? = some c → b.phase.idx = some n →
    c.phase.idx = some n → i = j
  files : ∀ (i j : ℕ) (b c : Batch) n m, s.batches[i]? = some b → s.batches[j]? = some c → b.phase.idx = some n →
    c.phase.idx = some m → sessionFile n = sessionFile m → i = j
  woken : ∀ i < s.calls.length, s.flush = .returned → i ∈ s.events

/-- No batch reads the counter while another one is advancing it; `flush` is called when the
batches handed in before are done, and `enqueue` is not called after it. -/
def calm (e : Event Sys Act) : Bool :=
  match e.act with
  | .batch _ .readSeq => e.pre.batches.all (fun b => !b.phase.counts)
  | .flushTakes => e.pre.batches.all (fun b => b.phase.done)
  | .enqueue _ =>
    match e.pre.flush with
    | .notCalled => true
    | _ => false
  | _ => true

/-! ## Session files -/

theorem sessionFile_injective : Function.Injective sessionFile := by
  intro i j hij
  unfold sessionFile at hij
  have hlist := String.ofList_injective hij
  generalize "fast-mode-entry-batch-".toList = start at hlist
  generalize ".jsonl".toList = ending at hlist
  have hdigits := List.append_cancel_right (List.append_cancel_left hlist)
  have hval := congrArg (fun l => Nat.ofDigitChars 10 l 0) hdigits
  simpa [Nat.ofDigitChars_append,Nat.ofDigitChars_replicate_zero] using hval

/-! ## Every call is in one place -/

theorem processBatch_frame {s t : Sys} {items : List Entry} {p q : Phase} {act : BatchAct}
    (h : processBatch s items p act = some (t,q)) :
    t.calls = s.calls ∧ t.pending = s.pending ∧ t.answers = s.answers ∧ t.flush = s.flush := by
  unfold processBatch at h
  split at h
  all_goals cases h
  all_goals exact ⟨rfl,rfl,rfl,rfl⟩

theorem flatMap_items_set {l : List Batch} {b : ℕ} {batch : Batch} (h : l[b]? = some batch)
    (q : Phase) : (l.set b ⟨batch.items,q⟩).flatMap Batch.items = l.flatMap Batch.items := by
  obtain ⟨hb,rfl⟩ := List.getElem?_eq_some_iff.mp h
  have hmap : (l.set b ⟨l[b].items,q⟩).map Batch.items = l.map Batch.items := by
    rw [List.map_set]
    have hlen : b < (l.map Batch.items).length := by simpa using hb
    have hget : (l.map Batch.items)[b] = l[b].items := by simp
    rw [← hget]
    exact List.set_getElem_self _
  rw [List.flatMap_def,List.flatMap_def,hmap]

section Steps

variable {size : ℕ} {s u : Sys} {a : Act}

/-- What a step can do. -/
theorem step_cases (h : step size s a = some u) :
    (∃ f, a = .enqueue f ∧ u = enqueue size s f) ∨
    (∃ i f, a = .enqueueReturns i ∧ i ∈ s.events ∧ s.calls[i]? = some f ∧
      u = { s with answers := (i,(s.results.lookup f).getD "keep") :: s.answers }) ∨
    (∃ b act batch t q, a = .batch b act ∧ s.batches[b]? = some batch ∧
      processBatch s batch.items batch.phase act = some (t,q) ∧
      u = { t with batches := s.batches.set b ⟨batch.items,q⟩ }) ∨
    (a = .flusherTakes ∧ u = submit { s with pending := [], flusher := .waiting } s.pending) ∨
    (a = .flushTakes ∧ s.flush = .notCalled ∧ s.pending = [] ∧
      u = { s with stopFlusher := true, pending := [], flush := .returned }) ∨
    (a = .flushTakes ∧ s.flush = .notCalled ∧
      u = submit { s with stopFlusher := true, pending := [], flush := .waiting s.pending }
        s.pending) ∨
    (∃ rest, s.flush = .waiting rest ∧ (∀ e ∈ rest, e.call ∈ s.events) ∧
      u = { s with flush := .returned }) ∨
    (∃ fl, u = { s with flusher := fl }) := by
  cases a with
  | enqueue f =>
    cases h
    exact .inl ⟨f,rfl,rfl⟩
  | enqueueReturns i =>
    simp only [step] at h
    split at h
    · rename_i hg
      obtain ⟨f,hf,rfl⟩ := Option.map_eq_some_iff.mp h
      exact .inr (.inl ⟨i,f,rfl,hg.1,hf,rfl⟩)
    · cases h
  | batch b act =>
    obtain ⟨batch,hb,hm⟩ := Option.bind_eq_some_iff.mp h
    obtain ⟨⟨t,q⟩,hp,rfl⟩ := Option.map_eq_some_iff.mp hm
    exact .inr (.inr (.inl ⟨b,act,batch,t,q,rfl,hb,hp,rfl⟩))
  | flusherWakes =>
    simp only [step] at h
    split at h
    · cases h
      exact .inr (.inr (.inr (.inr (.inr (.inr (.inr ⟨_,rfl⟩))))))
    · cases h
  | flusherTakes =>
    simp only [step] at h
    split at h
    · cases h
      exact .inr (.inr (.inr (.inl ⟨rfl,rfl⟩)))
    · cases h
  | flusherSkips =>
    simp only [step] at h
    split at h
    · cases h
      exact .inr (.inr (.inr (.inr (.inr (.inr (.inr ⟨_,rfl⟩))))))
    · cases h
  | flusherEnds =>
    simp only [step] at h
    split at h
    · cases h
      exact .inr (.inr (.inr (.inr (.inr (.inr (.inr ⟨_,rfl⟩))))))
    · cases h
  | flushTakes =>
    simp only [step] at h
    split at h
    · rename_i hf
      split at h
      · rename_i hp
        cases h
        exact .inr (.inr (.inr (.inr (.inl ⟨rfl,hf,hp,rfl⟩))))
      · cases h
        exact .inr (.inr (.inr (.inr (.inr (.inl ⟨rfl,hf,rfl⟩)))))
    · cases h
  | flushReturns =>
    simp only [step] at h
    split at h
    · rename_i rest hf
      split at h
      · rename_i hall
        cases h
        exact .inr (.inr (.inr (.inr (.inr (.inr (.inl ⟨rest,hf,hall,rfl⟩))))))
      · cases h
    · cases h

theorem placed_submit (s : Sys) (items : List Entry) :
    placed (submit s items) = s.pending ++ (s.batches.flatMap Batch.items ++ items) := by
  simp [placed,submit]

theorem placed_enqueue (size : ℕ) (s : Sys) (f : String) :
    (placed (enqueue size s f)).Perm (placed s ++ [⟨s.calls.length,f⟩]) := by
  unfold enqueue
  dsimp only
  split
  · rw [placed_submit,placed]
    generalize s.batches.flatMap Batch.items = done
    have hsplit := List.take_append_drop size (s.pending ++ [⟨s.calls.length,f⟩])
    calc
      _ = (List.drop size (s.pending ++ [⟨s.calls.length,f⟩]) ++ done) ++
          List.take size (s.pending ++ [⟨s.calls.length,f⟩]) := by rw [List.append_assoc]
      List.Perm _ (List.take size (s.pending ++ [⟨s.calls.length,f⟩]) ++
          (List.drop size (s.pending ++ [⟨s.calls.length,f⟩]) ++ done)) := List.perm_append_comm
      _ = (s.pending ++ [⟨s.calls.length,f⟩]) ++ done := by rw [← List.append_assoc,hsplit]
      List.Perm _ (s.pending ++ (done ++ [⟨s.calls.length,f⟩])) := by
        rw [List.append_assoc]
        exact List.perm_append_comm.append_left _
      _ = _ := by rw [List.append_assoc]
  · simp only [placed]
    rw [List.append_assoc,List.append_assoc]
    exact List.perm_append_comm.append_left _

/-- Only `enqueue` adds an entry, and no step loses or repeats one. -/
theorem placed_step (h : step size s a = some u) :
    (∃ f, a = .enqueue f ∧ (placed u).Perm (placed s ++ [⟨s.calls.length,f⟩]) ∧
      u.calls = s.calls ++ [f]) ∨ ((placed u).Perm (placed s) ∧ u.calls = s.calls) := by
  have htake : ∀ t : Sys, t.batches = s.batches →
      (placed (submit { t with pending := [] } s.pending)).Perm (placed s) := by
    intro t ht
    have hcomm : (s.batches.flatMap Batch.items ++ s.pending).Perm (placed s) :=
      List.perm_append_comm
    rw [placed_submit,ht]
    exact hcomm
  rcases step_cases h with ⟨f,rfl,rfl⟩ | ⟨i,f,rfl,-,-,rfl⟩ | ⟨b,act,batch,t,q,rfl,hb,hp,rfl⟩ |
    ⟨rfl,rfl⟩ | ⟨rfl,-,hp,rfl⟩ | ⟨rfl,-,rfl⟩ | ⟨rest,-,-,rfl⟩ | ⟨fl,rfl⟩
  · refine .inl ⟨f,rfl,placed_enqueue size s f,?_⟩
    unfold enqueue
    dsimp only
    split <;> rfl
  · exact .inr ⟨.refl _,rfl⟩
  · obtain ⟨hcalls,hpend,-,-⟩ := processBatch_frame hp
    refine .inr ⟨?_,hcalls⟩
    simp only [placed]
    rw [flatMap_items_set hb,hpend]
  · exact .inr ⟨htake { s with flusher := .waiting } rfl,rfl⟩
  · refine .inr ⟨?_,rfl⟩
    simp only [placed,hp]
    exact .refl _
  · exact .inr ⟨htake { s with stopFlusher := true, flush := .waiting s.pending } rfl,rfl⟩
  · exact .inr ⟨.refl _,rfl⟩
  · exact .inr ⟨.refl _,rfl⟩

/-! ## What a batch does next -/

theorem processBatch_cases {t : Sys} {items : List Entry} {p q : Phase} {act : BatchAct}
    (h : processBatch s items p act = some (t,q)) :
    (act = .readSeq ∧ p = .queued ∧ q = .named s.batchSeq ∧ t = s) ∨
    (∃ n, act = .loadSeq ∧ p = .named n ∧ q = .counting n s.batchSeq ∧ t = s) ∨
    (∃ n m, act = .storeSeq ∧ p = .counting n m ∧ q = .running n ∧
      t = { s with batchSeq := m + 1 }) ∨
    (∃ n ans, act = .classify ans ∧ p = .running n ∧ q = .classified n ans ∧ t = s) ∨
    (∃ n ans, act = .publish ∧ p = .classified n ans ∧ q = .notifying n ans items ∧
      t = { s with
        results := items.map (fun e => (e.funcHash,decision items ans e.funcHash)) ++ s.results }) ∨
    (∃ n ans e rest, act = .setEvent ∧ p = .notifying n ans (e :: rest) ∧
      q = .notifying n ans rest ∧ t = { s with events := e.call :: s.events }) := by
  unfold processBatch at h
  split at h
  · cases h
    exact .inl ⟨rfl,rfl,rfl,rfl⟩
  · cases h
    exact .inr (.inl ⟨_,rfl,rfl,rfl,rfl⟩)
  · cases h
    exact .inr (.inr (.inl ⟨_,_,rfl,rfl,rfl,rfl⟩))
  · cases h
    exact .inr (.inr (.inr (.inl ⟨_,_,rfl,rfl,rfl,rfl⟩)))
  · cases h
    exact .inr (.inr (.inr (.inr (.inl ⟨_,_,rfl,rfl,rfl,rfl⟩))))
  · cases h
    exact .inr (.inr (.inr (.inr (.inr ⟨_,_,_,_,rfl,rfl,rfl,rfl⟩))))
  · cases h

/-- What has been published stays published. -/
theorem processBatch_published {t : Sys} {items : List Entry} {p q : Phase} {act : BatchAct}
    (h : processBatch s items p act = some (t,q)) {ans : Option (List String)}
    (hp : p.published = some ans) : q.published = some ans := by
  rcases processBatch_cases h with ⟨-,rfl,-,-⟩ | ⟨n,-,rfl,-,-⟩ | ⟨n,m,-,rfl,-,-⟩ |
    ⟨n,an,-,rfl,-,-⟩ | ⟨n,an,-,rfl,-,-⟩ | ⟨n,an,e,rest,-,rfl,rfl,-⟩
  · cases hp
  · cases hp
  · cases hp
  · cases hp
  · cases hp
  · exact hp

theorem mem_set_self {l : List Batch} {i : ℕ} (h : i < l.length) (x : Batch) : x ∈ l.set i x :=
  List.mem_of_getElem? (List.getElem?_set_self h)

theorem mem_set_or {l : List Batch} {i : ℕ} {b x : Batch} (hb : b ∈ l) :
    b ∈ l.set i x ∨ l[i]? = some b := by
  obtain ⟨j,hj⟩ := List.mem_iff_getElem?.mp hb
  by_cases hij : i = j
  · exact .inr (hij ▸ hj)
  · refine .inl (List.mem_iff_getElem?.mpr ⟨j,?_⟩)
    rw [List.getElem?_set_ne hij]
    exact hj

/-- A batch stays, with its entries, through every step. -/
theorem batch_stays (h : step size s a = some u) {b : Batch} (hb : b ∈ s.batches) :
    ∃ c ∈ u.batches, c.items = b.items ∧
      ∀ ans, b.phase.published = some ans → c.phase.published = some ans := by
  have happend : ∀ items, ∃ c ∈ s.batches ++ [⟨items,.queued⟩], c.items = b.items ∧
      ∀ ans, b.phase.published = some ans → c.phase.published = some ans :=
    fun items => ⟨b,List.mem_append_left _ hb,rfl,fun _ => id⟩
  rcases step_cases h with ⟨f,-,rfl⟩ | ⟨i,f,-,-,-,rfl⟩ | ⟨i,act,batch,t,q,-,hi,hp,rfl⟩ |
    ⟨-,rfl⟩ | ⟨-,-,-,rfl⟩ | ⟨-,-,rfl⟩ | ⟨rest,-,-,rfl⟩ | ⟨fl,rfl⟩
  · unfold enqueue
    dsimp only
    split
    · exact happend _
    · exact ⟨b,hb,rfl,fun _ => id⟩
  · exact ⟨b,hb,rfl,fun _ => id⟩
  · rcases mem_set_or (i := i) (x := ⟨batch.items,q⟩) hb with hmem | hsame
    · exact ⟨b,hmem,rfl,fun _ => id⟩
    · rw [hi,Option.some_inj] at hsame
      subst hsame
      obtain ⟨hlt,-⟩ := List.getElem?_eq_some_iff.mp hi
      exact ⟨⟨batch.items,q⟩,mem_set_self hlt _,rfl,fun ans => processBatch_published hp⟩
  · exact happend _
  · exact ⟨b,hb,rfl,fun _ => id⟩
  · exact happend _
  · exact ⟨b,hb,rfl,fun _ => id⟩
  · exact ⟨b,hb,rfl,fun _ => id⟩

theorem decides_stays (h : step size s a = some u) {b : Batch} (hb : b ∈ s.batches) {f d : String}
    (hd : Decides b f d) : ∃ c ∈ u.batches, Decides c f d := by
  obtain ⟨ans,hans,hmem,hdec⟩ := hd
  obtain ⟨c,hc,hitems,hpub⟩ := batch_stays h hb
  exact ⟨c,hc,ans,hpub ans hans,by rwa [hitems],by rwa [hitems]⟩

/-- What holds of the entries, the results, the events and the answers in every run. -/
structure Tracked (s : Sys) : Prop where
  once : ((placed s).map Entry.call).Perm (List.range s.calls.length)
  own : ∀ e ∈ placed s, s.calls[e.call]? = some e.funcHash
  rest : ∀ b ∈ s.batches, ∀ n ans rest, b.phase = .notifying n ans rest →
    (∀ e ∈ rest, e ∈ b.items) ∧ ∀ e ∈ b.items, e ∈ rest ∨ e.call ∈ s.events
  woken : ∀ i ∈ s.events, ∃ b ∈ s.batches, ∃ ans, b.phase.published = some ans ∧
    ∃ e ∈ b.items, e.call = i
  results : ∀ p ∈ s.results, ∃ b ∈ s.batches, Decides b p.1 p.2
  stored : ∀ b ∈ s.batches, ∀ ans, b.phase.published = some ans → ∀ e ∈ b.items,
    ∃ p ∈ s.results, p.1 = e.funcHash
  decided : ∀ p ∈ s.answers, ∃ h, s.calls[p.1]? = some h ∧ ∃ b ∈ s.batches, Decides b h p.2

theorem tracked_init : Tracked init where
  once := .refl _
  own e he := by simp [placed,init] at he
  rest b hb := by simp [init] at hb
  woken i hi := by simp [init] at hi
  results p hp := by simp [init] at hp
  stored b hb := by simp [init] at hb
  decided p hp := by simp [init] at hp

theorem Tracked.once_step (ht : Tracked s) (h : step size s a = some u) :
    ((placed u).map Entry.call).Perm (List.range u.calls.length) ∧
      ∀ e ∈ placed u, u.calls[e.call]? = some e.funcHash := by
  rcases placed_step h with ⟨f,-,hperm,hcalls⟩ | ⟨hperm,hcalls⟩
  · rw [hcalls]
    refine ⟨?_,fun e he => ?_⟩
    · refine (hperm.map Entry.call).trans ?_
      rw [List.map_append,List.length_append,List.length_singleton,List.range_succ]
      exact ht.once.append_right _
    · rcases List.mem_append.mp (hperm.mem_iff.mp he) with he | he
      · have hown := ht.own e he
        obtain ⟨hlt,-⟩ := List.getElem?_eq_some_iff.mp hown
        rw [List.getElem?_append_left hlt]
        exact hown
      · rw [List.mem_singleton.mp he]
        simp
  · rw [hcalls]
    exact ⟨(hperm.map Entry.call).trans ht.once,fun e he => ht.own e (hperm.mem_iff.mp he)⟩

/-- Where a batch comes from: it was there, it is new, or a thread has advanced it. -/
theorem batch_origin (h : step size s a = some u) {c : Batch} (hc : c ∈ u.batches) :
    c ∈ s.batches ∨ c.phase = .queued ∨ ∃ i act batch t, a = .batch i act ∧
      s.batches[i]? = some batch ∧ c.items = batch.items ∧
      processBatch s batch.items batch.phase act = some (t,c.phase) ∧
      u = { t with batches := s.batches.set i c } := by
  have happend : ∀ items, c ∈ s.batches ++ [⟨items,.queued⟩] → c ∈ s.batches ∨ c.phase = .queued := by
    intro items hc
    rcases List.mem_append.mp hc with hc | hc
    · exact .inl hc
    · exact .inr (by rw [List.mem_singleton.mp hc])
  rcases step_cases h with ⟨f,-,rfl⟩ | ⟨i,f,-,-,-,rfl⟩ | ⟨i,act,batch,t,q,ha,hi,hp,rfl⟩ |
    ⟨-,rfl⟩ | ⟨-,-,-,rfl⟩ | ⟨-,-,rfl⟩ | ⟨rest,-,-,rfl⟩ | ⟨fl,rfl⟩
  · have hc : c ∈ s.batches ∨ c.phase = .queued := by
      revert hc
      unfold enqueue
      dsimp only
      split
      · exact happend _
      · exact .inl
    exact hc.imp_right .inl
  · exact .inl hc
  · rcases List.mem_or_eq_of_mem_set hc with hc | rfl
    · exact .inl hc
    · exact .inr (.inr ⟨i,act,batch,t,ha,hi,rfl,hp,rfl⟩)
  · exact (happend _ hc).imp_right .inl
  · exact .inl hc
  · exact (happend _ hc).imp_right .inl
  · exact .inl hc
  · exact .inl hc

theorem processBatch_mono {t : Sys} {items : List Entry} {p q : Phase} {act : BatchAct}
    (h : processBatch s items p act = some (t,q)) :
    (∀ i ∈ s.events, i ∈ t.events) ∧ ∀ r ∈ s.results, r ∈ t.results := by
  rcases processBatch_cases h with ⟨-,-,-,rfl⟩ | ⟨n,-,-,-,rfl⟩ | ⟨n,m,-,-,-,rfl⟩ |
    ⟨n,an,-,-,-,rfl⟩ | ⟨n,an,-,-,-,rfl⟩ | ⟨n,an,e,rest,-,-,-,rfl⟩
  · exact ⟨fun _ => id,fun _ => id⟩
  · exact ⟨fun _ => id,fun _ => id⟩
  · exact ⟨fun _ => id,fun _ => id⟩
  · exact ⟨fun _ => id,fun _ => id⟩
  · exact ⟨fun _ => id,fun _ hr => List.mem_append_right _ hr⟩
  · exact ⟨fun _ hi => List.mem_cons_of_mem _ hi,fun _ => id⟩

/-- No event is cleared and no result withdrawn; both change in the steps of a batch only. -/
theorem step_mono (h : step size s a = some u) :
    ((∀ i ∈ s.events, i ∈ u.events) ∧ ∀ r ∈ s.results, r ∈ u.results) ∧
      ((∃ i act, a = .batch i act) ∨ (u.events = s.events ∧ u.results = s.results)) := by
  have hsame : ∀ t : Sys, t.events = s.events → t.results = s.results →
      ((∀ i ∈ s.events, i ∈ t.events) ∧ ∀ r ∈ s.results, r ∈ t.results) ∧
      ((∃ i act, a = .batch i act) ∨ (t.events = s.events ∧ t.results = s.results)) := by
    intro t he hr
    exact ⟨⟨fun i hi => he ▸ hi,fun r hm => hr ▸ hm⟩,.inr ⟨he,hr⟩⟩
  rcases step_cases h with ⟨f,-,rfl⟩ | ⟨i,f,-,-,-,rfl⟩ | ⟨i,act,batch,t,q,ha,hi,hp,rfl⟩ |
    ⟨-,rfl⟩ | ⟨-,-,-,rfl⟩ | ⟨-,-,rfl⟩ | ⟨rest,-,-,rfl⟩ | ⟨fl,rfl⟩
  · unfold enqueue
    dsimp only
    split
    · exact hsame _ rfl rfl
    · exact hsame _ rfl rfl
  · exact hsame _ rfl rfl
  · obtain ⟨hev,hres⟩ := processBatch_mono hp
    exact ⟨⟨hev,hres⟩,.inl ⟨i,act,ha⟩⟩
  · exact hsame _ rfl rfl
  · exact hsame _ rfl rfl
  · exact hsame _ rfl rfl
  · exact hsame _ rfl rfl
  · exact hsame _ rfl rfl

theorem Tracked.rest_step (ht : Tracked s) (h : step size s a = some u) {c : Batch}
    (hc : c ∈ u.batches) {n : ℕ} {ans : Option (List String)} {rest : List Entry}
    (hp : c.phase = .notifying n ans rest) :
    (∀ e ∈ rest, e ∈ c.items) ∧ ∀ e ∈ c.items, e ∈ rest ∨ e.call ∈ u.events := by
  have hmono := (step_mono h).1.1
  rcases batch_origin h hc with hs | hq | ⟨i,act,batch,t,-,hi,hitems,hpro,hu⟩
  · obtain ⟨hsub,hall⟩ := ht.rest c hs n ans rest hp
    exact ⟨hsub,fun e he => (hall e he).imp_right (hmono _)⟩
  · rw [hp] at hq
    cases hq
  · have hmem : batch ∈ s.batches := List.mem_of_getElem? hi
    rw [hp] at hpro
    rcases processBatch_cases hpro with ⟨-,-,hq,-⟩ | ⟨n,-,-,hq,-⟩ | ⟨n,m,-,-,hq,-⟩ |
      ⟨n,an,-,-,hq,-⟩ | ⟨n,an,-,-,hq,-⟩ | ⟨n,an,e,rest,-,hbefore,hq,rfl⟩
    · cases hq
    · cases hq
    · cases hq
    · cases hq
    · cases hq
      exact ⟨fun e he => hitems ▸ he,fun e he => .inl (hitems ▸ he)⟩
    · cases hq
      obtain ⟨hsub,hall⟩ := ht.rest batch hmem _ _ _ hbefore
      rw [hitems]
      refine ⟨fun x hx => hsub x (List.mem_cons_of_mem _ hx),fun x hx => ?_⟩
      rcases hall x hx with hin | hev
      · rcases List.mem_cons.mp hin with rfl | hin
        · exact .inr (hu ▸ List.mem_cons_self)
        · exact .inl hin
      · exact .inr (hmono _ hev)

theorem Tracked.woken_step (ht : Tracked s) (h : step size s a = some u) {i : ℕ}
    (hi : i ∈ u.events) : ∃ c ∈ u.batches, ∃ ans, c.phase.published = some ans ∧
      ∃ e ∈ c.items, e.call = i := by
  have hold : i ∈ s.events → ∃ c ∈ u.batches, ∃ ans, c.phase.published = some ans ∧
      ∃ e ∈ c.items, e.call = i := by
    intro hs
    obtain ⟨b,hb,ans,hans,e,he,hcall⟩ := ht.woken i hs
    obtain ⟨c,hc,hitems,hpub⟩ := batch_stays h hb
    exact ⟨c,hc,ans,hpub ans hans,e,hitems ▸ he,hcall⟩
  rcases (step_mono h).2 with ⟨j,act,rfl⟩ | ⟨hev,-⟩
  · obtain ⟨batch,hj,hm⟩ := Option.bind_eq_some_iff.mp h
    obtain ⟨⟨t,q⟩,hp,rfl⟩ := Option.map_eq_some_iff.mp hm
    have hmem : batch ∈ s.batches := List.mem_of_getElem? hj
    obtain ⟨hlt,-⟩ := List.getElem?_eq_some_iff.mp hj
    rcases processBatch_cases hp with ⟨-,-,-,rfl⟩ | ⟨n,-,-,-,rfl⟩ | ⟨n,m,-,-,-,rfl⟩ |
      ⟨n,an,-,-,-,rfl⟩ | ⟨n,an,-,-,-,rfl⟩ | ⟨n,an,e,rest,-,hbefore,rfl,rfl⟩
    · exact hold hi
    · exact hold hi
    · exact hold hi
    · exact hold hi
    · exact hold hi
    · rcases List.mem_cons.mp hi with rfl | hi
      · refine ⟨⟨batch.items,.notifying n an rest⟩,mem_set_self hlt _,an,rfl,e,?_,rfl⟩
        exact (ht.rest batch hmem _ _ _ hbefore).1 e List.mem_cons_self
      · exact hold hi
  · exact hold (hev ▸ hi)

theorem Tracked.results_step (ht : Tracked s) (h : step size s a = some u) {p : String × String}
    (hp : p ∈ u.results) : ∃ c ∈ u.batches, Decides c p.1 p.2 := by
  have hold : p ∈ s.results → ∃ c ∈ u.batches, Decides c p.1 p.2 := by
    intro hs
    obtain ⟨b,hb,hd⟩ := ht.results p hs
    exact decides_stays h hb hd
  rcases (step_mono h).2 with ⟨j,act,rfl⟩ | ⟨-,hres⟩
  · obtain ⟨batch,hj,hm⟩ := Option.bind_eq_some_iff.mp h
    obtain ⟨⟨t,q⟩,hpro,rfl⟩ := Option.map_eq_some_iff.mp hm
    obtain ⟨hlt,-⟩ := List.getElem?_eq_some_iff.mp hj
    rcases processBatch_cases hpro with ⟨-,-,-,rfl⟩ | ⟨n,-,-,-,rfl⟩ | ⟨n,m,-,-,-,rfl⟩ |
      ⟨n,an,-,-,-,rfl⟩ | ⟨n,an,-,-,rfl,rfl⟩ | ⟨n,an,e,rest,-,-,-,rfl⟩
    · exact hold hp
    · exact hold hp
    · exact hold hp
    · exact hold hp
    · rcases List.mem_append.mp hp with hp | hp
      · obtain ⟨e,he,rfl⟩ := List.mem_map.mp hp
        exact ⟨⟨batch.items,.notifying n an batch.items⟩,mem_set_self hlt _,an,rfl,⟨e,he,rfl⟩,rfl⟩
      · exact hold hp
    · exact hold hp
  · exact hold (hres ▸ hp)

theorem Tracked.stored_step (ht : Tracked s) (h : step size s a = some u) {c : Batch}
    (hc : c ∈ u.batches) {ans : Option (List String)} (hans : c.phase.published = some ans)
    {e : Entry} (he : e ∈ c.items) : ∃ p ∈ u.results, p.1 = e.funcHash := by
  have hmono := (step_mono h).1.2
  have hold : ∀ b ∈ s.batches, ∀ an, b.phase.published = some an → e ∈ b.items →
      ∃ p ∈ u.results, p.1 = e.funcHash := by
    intro b hb an hpub hmem
    obtain ⟨p,hp,hk⟩ := ht.stored b hb an hpub e hmem
    exact ⟨p,hmono p hp,hk⟩
  rcases batch_origin h hc with hs | hq | ⟨i,act,batch,t,-,hi,hitems,hpro,hu⟩
  · exact hold c hs ans hans he
  · rw [hq] at hans
    cases hans
  · have hmem : batch ∈ s.batches := List.mem_of_getElem? hi
    rw [hitems] at he
    rcases processBatch_cases hpro with ⟨-,-,hq,-⟩ | ⟨n,-,-,hq,-⟩ | ⟨n,m,-,-,hq,-⟩ |
      ⟨n,an,-,-,hq,-⟩ | ⟨n,an,-,-,-,rfl⟩ | ⟨n,an,x,rest,-,hbefore,-,-⟩
    · rw [hq] at hans
      cases hans
    · rw [hq] at hans
      cases hans
    · rw [hq] at hans
      cases hans
    · rw [hq] at hans
      cases hans
    · refine ⟨(e.funcHash,decision batch.items an e.funcHash),?_,rfl⟩
      rw [hu]
      exact List.mem_append_left _ (List.mem_map.mpr ⟨e,he,rfl⟩)
    · exact hold batch hmem an (by rw [hbefore]; rfl) he

theorem Tracked.decided_step (ht : Tracked s) (h : step size s a = some u) {p : ℕ × String}
    (hp : p ∈ u.answers) : ∃ f, u.calls[p.1]? = some f ∧ ∃ c ∈ u.batches, Decides c f p.2 := by
  have hcalls : ∀ (i : ℕ) (f : String), s.calls[i]? = some f → u.calls[i]? = some f := by
    intro i f hf
    rcases placed_step h with ⟨g,-,-,hc⟩ | ⟨-,hc⟩
    · obtain ⟨hlt,-⟩ := List.getElem?_eq_some_iff.mp hf
      rw [hc,List.getElem?_append_left hlt,hf]
    · rw [hc,hf]
  have hold : p ∈ s.answers → ∃ f, u.calls[p.1]? = some f ∧ ∃ c ∈ u.batches, Decides c f p.2 := by
    intro hs
    obtain ⟨f,hf,b,hb,hd⟩ := ht.decided p hs
    exact ⟨f,hcalls _ f hf,decides_stays h hb hd⟩
  rcases step_cases h with ⟨f,-,rfl⟩ | ⟨i,f,-,hi,hf,rfl⟩ | ⟨i,act,batch,t,q,-,-,hpro,rfl⟩ |
    ⟨-,rfl⟩ | ⟨-,-,-,rfl⟩ | ⟨-,-,rfl⟩ | ⟨rest,-,-,rfl⟩ | ⟨fl,rfl⟩
  · refine hold ?_
    revert hp
    unfold enqueue
    dsimp only
    split
    · exact id
    · exact id
  · rcases List.mem_cons.mp hp with rfl | hp
    · refine ⟨f,hf,?_⟩
      obtain ⟨b,hb,ans,hans,e,he,rfl⟩ := ht.woken i hi
      have hown := ht.own e (List.mem_append_right _ (List.mem_flatMap.mpr ⟨b,hb,he⟩))
      obtain rfl : e.funcHash = f := Option.some_inj.mp (hown.symm.trans hf)
      obtain ⟨r,hr,hrk⟩ := ht.stored b hb ans hans e he
      cases hl : s.results.lookup e.funcHash with
      | none =>
        have hne := List.lookup_eq_none_iff.mp hl r hr
        simp [hrk] at hne
      | some d =>
        obtain ⟨l₁,l₂,heq,-⟩ := List.lookup_eq_some_iff.mp hl
        have hmem : (e.funcHash,d) ∈ s.results := heq ▸ List.mem_append_right _ List.mem_cons_self
        exact ht.results _ hmem
    · exact hold hp
  · obtain ⟨-,-,hans,-⟩ := processBatch_frame hpro
    exact hold (hans ▸ hp)
  · exact hold hp
  · exact hold hp
  · exact hold hp
  · exact hold hp
  · exact hold hp

theorem Tracked.step (ht : Tracked s) (h : step size s a = some u) : Tracked u where
  once := (ht.once_step h).1
  own := (ht.once_step h).2
  rest _ hc _ _ _ hp := ht.rest_step h hc hp
  woken _ hi := ht.woken_step h hi
  results _ hp := ht.results_step h hp
  stored _ hc _ hans _ he := ht.stored_step h hc hans he
  decided _ hp := ht.decided_step h hp

/-! ## Numbers -/

/-- Numbers are below the counter, except that of a batch that is advancing it. -/
structure Numbered (s : Sys) : Prop where
  distinct : ∀ (i j : ℕ) (b c : Batch) n, s.batches[i]? = some b → s.batches[j]? = some c →
    b.phase.idx = some n → c.phase.idx = some n → i = j
  below : ∀ b ∈ s.batches, ∀ n, b.phase.idx = some n → b.phase.counts = false → n < s.batchSeq
  current : ∀ b ∈ s.batches, b.phase.counts = true → b.phase.idx = some s.batchSeq ∧
    ∀ n m, b.phase = .counting n m → m = s.batchSeq

theorem numbered_init : Numbered init where
  distinct i j b c n hb := by simp [init] at hb
  below b hb := by simp [init] at hb
  current b hb := by simp [init] at hb

/-- A new batch has no number. -/
theorem Numbered.append {t : Sys} (hn : Numbered s) {items : List Entry}
    (hb : t.batches = s.batches ++ [⟨items,.queued⟩]) (hseq : t.batchSeq = s.batchSeq) :
    Numbered t where
  distinct i j b c n hi hj hbi hcj := by
    have hold : ∀ (k : ℕ) (x : Batch), t.batches[k]? = some x → x.phase.idx = some n →
        s.batches[k]? = some x := by
      intro k x hk hx
      rw [hb,List.getElem?_append] at hk
      split at hk
      · exact hk
      · have hq := List.mem_singleton.mp (List.mem_of_getElem? hk)
        rw [hq] at hx
        cases hx
    exact hn.distinct i j b c n (hold i b hi hbi) (hold j c hj hcj) hbi hcj
  below b hmem n hi hc := by
    rw [hb] at hmem
    rw [hseq]
    rcases List.mem_append.mp hmem with hmem | hmem
    · exact hn.below b hmem n hi hc
    · rw [List.mem_singleton.mp hmem] at hi
      cases hi
  current b hmem hc := by
    rw [hb] at hmem
    rw [hseq]
    rcases List.mem_append.mp hmem with hmem | hmem
    · exact hn.current b hmem hc
    · rw [List.mem_singleton.mp hmem] at hc
      cases hc

/-- A step that leaves a batch its number adds none. -/
theorem idx_back {t : Sys} {i : ℕ} {b : Batch} {q : Phase} (hi : s.batches[i]? = some b)
    (hb : t.batches = s.batches.set i ⟨b.items,q⟩) (hidx : q.idx = b.phase.idx) {l n : ℕ} {x : Batch}
    (hl : t.batches[l]? = some x) (hx : x.phase.idx = some n) :
    ∃ y, s.batches[l]? = some y ∧ y.phase.idx = some n := by
  rw [hb,List.getElem?_set] at hl
  split at hl
  · rename_i hil
    split at hl
    · cases hl
      exact ⟨b,hil ▸ hi,hidx ▸ hx⟩
    · cases hl
  · exact ⟨x,hl,hx⟩

/-- A batch that keeps its number and is not counting before or after. -/
theorem Numbered.set_same {t : Sys} (hn : Numbered s) {i : ℕ} {b : Batch} {q : Phase}
    (hi : s.batches[i]? = some b) (hb : t.batches = s.batches.set i ⟨b.items,q⟩)
    (hseq : t.batchSeq = s.batchSeq) (hidx : q.idx = b.phase.idx)
    (hold : b.phase.counts = false) (hnew : q.counts = false) : Numbered t where
  distinct j k c d n hj hk hcj hdk := by
    obtain ⟨y,hy,hyn⟩ := idx_back hi hb hidx hj hcj
    obtain ⟨z,hz,hzn⟩ := idx_back hi hb hidx hk hdk
    exact hn.distinct j k y z n hy hz hyn hzn
  below c hmem n hc hcount := by
    rw [hb] at hmem
    rw [hseq]
    rcases List.mem_or_eq_of_mem_set hmem with hmem | rfl
    · exact hn.below c hmem n hc hcount
    · exact hn.below b (List.mem_of_getElem? hi) n (hidx ▸ hc) hold
  current c hmem hcount := by
    rw [hb] at hmem
    rw [hseq]
    rcases List.mem_or_eq_of_mem_set hmem with hmem | rfl
    · exact hn.current c hmem hcount
    · rw [hnew] at hcount
      cases hcount

/-- A batch reads the counter while no other advances it. -/
theorem Numbered.named {t : Sys} (hn : Numbered s) {i : ℕ} {items : List Entry}
    (hi : s.batches[i]? = some ⟨items,.queued⟩)
    (hcalm : ∀ b ∈ s.batches, b.phase.counts = false)
    (hb : t.batches = s.batches.set i ⟨items,.named s.batchSeq⟩)
    (hseq : t.batchSeq = s.batchSeq) : Numbered t where
  distinct j k c d n hj hk hcj hdk := by
    have hback : ∀ (l : ℕ) (x : Batch), t.batches[l]? = some x → x.phase.idx = some n →
        (l = i ∧ n = s.batchSeq) ∨ s.batches[l]? = some x ∧ n < s.batchSeq := by
      intro l x hl hx
      rw [hb,List.getElem?_set] at hl
      split at hl
      · rename_i hil
        split at hl
        · cases hl
          exact .inl ⟨hil.symm,(Option.some_inj.mp hx).symm⟩
        · cases hl
      · have hmem := List.mem_of_getElem? hl
        exact .inr ⟨hl,hn.below x hmem n hx (hcalm x hmem)⟩
    rcases hback j c hj hcj with ⟨rfl,hnj⟩ | ⟨hj',hlt⟩
    · rcases hback k d hk hdk with ⟨rfl,-⟩ | ⟨-,hlt⟩
      · rfl
      · omega
    · rcases hback k d hk hdk with ⟨-,hnk⟩ | ⟨hk',-⟩
      · omega
      · exact hn.distinct j k c d n hj' hk' hcj hdk
  below c hmem n hc hcount := by
    rw [hb] at hmem
    rw [hseq]
    rcases List.mem_or_eq_of_mem_set hmem with hmem | rfl
    · exact hn.below c hmem n hc hcount
    · cases hcount
  current c hmem hcount := by
    rw [hb] at hmem
    rw [hseq]
    rcases List.mem_or_eq_of_mem_set hmem with hmem | rfl
    · rw [hcalm c hmem] at hcount
      cases hcount
    · exact ⟨rfl,fun n m hp => by cases hp⟩

theorem Numbered.counting {t : Sys} (hn : Numbered s) {i n : ℕ} {items : List Entry}
    (hi : s.batches[i]? = some ⟨items,.named n⟩)
    (hb : t.batches = s.batches.set i ⟨items,.counting n s.batchSeq⟩)
    (hseq : t.batchSeq = s.batchSeq) : Numbered t where
  distinct j k c d m hj hk hcj hdk := by
    obtain ⟨y,hy,hym⟩ := idx_back hi hb rfl hj hcj
    obtain ⟨z,hz,hzm⟩ := idx_back hi hb rfl hk hdk
    exact hn.distinct j k y z m hy hz hym hzm
  below c hmem m hc hcount := by
    rw [hb] at hmem
    rw [hseq]
    rcases List.mem_or_eq_of_mem_set hmem with hmem | rfl
    · exact hn.below c hmem m hc hcount
    · cases hcount
  current c hmem hcount := by
    rw [hb] at hmem
    rw [hseq]
    rcases List.mem_or_eq_of_mem_set hmem with hmem | rfl
    · exact hn.current c hmem hcount
    · have hcur := (hn.current _ (List.mem_of_getElem? hi) rfl).1
      refine ⟨hcur,fun a b hp => ?_⟩
      cases hp
      rfl

theorem Numbered.running {t : Sys} (hn : Numbered s) {i n m : ℕ} {items : List Entry}
    (hi : s.batches[i]? = some ⟨items,.counting n m⟩)
    (hb : t.batches = s.batches.set i ⟨items,.running n⟩)
    (hseq : t.batchSeq = m + 1) : Numbered t := by
  obtain ⟨hcur,hseen⟩ := hn.current _ (List.mem_of_getElem? hi) rfl
  have hn' : n = s.batchSeq := Option.some_inj.mp hcur
  have hm : m = s.batchSeq := hseen n m rfl
  have hback : ∀ (l : ℕ) (x : Batch), t.batches[l]? = some x →
      (l = i ∧ x = ⟨items,.running n⟩) ∨ l ≠ i ∧ s.batches[l]? = some x := by
    intro l x hl
    rw [hb,List.getElem?_set] at hl
    split at hl
    · rename_i hil
      split at hl
      · cases hl
        exact .inl ⟨hil.symm,rfl⟩
      · cases hl
    · rename_i hil
      exact .inr ⟨Ne.symm hil,hl⟩
  have hother : ∀ (l : ℕ) (x : Batch), t.batches[l]? = some x → l ≠ i → x.phase.counts = false := by
    intro l x hl hne
    rcases hback l x hl with ⟨heq,-⟩ | ⟨-,hs⟩
    · exact absurd heq hne
    · by_contra hcount
      have hcount : x.phase.counts = true := by simpa using hcount
      have hx := (hn.current x (List.mem_of_getElem? hs) hcount).1
      exact hne (hn.distinct l i x _ s.batchSeq hs hi hx hcur)
  refine ⟨fun j k c d p hj hk hcj hdk => ?_,fun c hmem p hc hcount => ?_,fun c hmem hcount => ?_⟩
  · obtain ⟨y,hy,hyp⟩ := idx_back hi hb rfl hj hcj
    obtain ⟨z,hz,hzp⟩ := idx_back hi hb rfl hk hdk
    exact hn.distinct j k y z p hy hz hyp hzp
  · obtain ⟨l,hl⟩ := List.mem_iff_getElem?.mp hmem
    rw [hseq]
    rcases hback l c hl with ⟨-,rfl⟩ | ⟨hne,hs⟩
    · have hp : p = n := (Option.some_inj.mp hc).symm
      omega
    · have hlt := hn.below c (List.mem_of_getElem? hs) p hc hcount
      omega
  · obtain ⟨l,hl⟩ := List.mem_iff_getElem?.mp hmem
    rcases hback l c hl with ⟨-,rfl⟩ | ⟨hne,-⟩
    · cases hcount
    · rw [hother l c hl hne] at hcount
      cases hcount

theorem Numbered.step (hn : Numbered s) (h : step size s a = some u)
    (hc : calm ⟨s,a,u⟩ = true) : Numbered u := by
  have hsame : ∀ t : Sys, t.batches = s.batches → t.batchSeq = s.batchSeq → Numbered t := by
    intro t hb hseq
    exact ⟨hb ▸ hn.distinct,hb ▸ hseq ▸ hn.below,hb ▸ hseq ▸ hn.current⟩
  rcases step_cases h with ⟨f,-,rfl⟩ | ⟨i,f,-,-,-,rfl⟩ | ⟨i,act,⟨items,p⟩,t,q,rfl,hi,hp,rfl⟩ |
    ⟨-,rfl⟩ | ⟨-,-,-,rfl⟩ | ⟨-,-,rfl⟩ | ⟨rest,-,-,rfl⟩ | ⟨fl,rfl⟩
  · unfold enqueue
    dsimp only
    split
    · exact hn.append rfl rfl
    · exact hsame _ rfl rfl
  · exact hsame _ rfl rfl
  · rcases processBatch_cases hp with ⟨rfl,rfl,rfl,rfl⟩ | ⟨n,-,rfl,rfl,rfl⟩ |
      ⟨n,m,-,rfl,rfl,rfl⟩ | ⟨n,an,-,rfl,rfl,rfl⟩ | ⟨n,an,-,rfl,rfl,rfl⟩ |
      ⟨n,an,e,rest,-,rfl,rfl,rfl⟩
    · have hcalm : ∀ b ∈ t.batches, b.phase.counts = false := by simpa [calm] using hc
      exact hn.named hi hcalm rfl rfl
    · exact hn.counting hi rfl rfl
    · exact hn.running hi rfl rfl
    · exact hn.set_same hi rfl rfl rfl rfl rfl
    · exact hn.set_same hi rfl rfl rfl rfl rfl
    · exact hn.set_same hi rfl rfl rfl rfl rfl
  · exact hn.append rfl rfl
  · exact hsame _ rfl rfl
  · exact hn.append rfl rfl
  · exact hsame _ rfl rfl
  · exact hsame _ rfl rfl

/-! ## `flush` -/

/-- A call whose event is set, or that `flush` waits for. -/
def Flushed (s : Sys) : Prop :=
  match s.flush with
  | .notCalled => True
  | .waiting rest => ∀ i < s.calls.length, i ∈ s.events ∨ ∃ e ∈ rest, e.call = i
  | .returned => ∀ i < s.calls.length, i ∈ s.events

theorem Flushed.mono {t : Sys} (hf : Flushed s) (hflush : t.flush = s.flush)
    (hcalls : t.calls = s.calls) (hev : ∀ i ∈ s.events, i ∈ t.events) : Flushed t := by
  revert hf
  unfold Flushed
  rw [hflush,hcalls]
  split
  · exact id
  · intro hf i hi
    exact (hf i hi).imp_left (hev i)
  · intro hf i hi
    exact hev i (hf i hi)

/-- When all batches are done, every call is in the buffer or has its event set. -/
theorem Tracked.pending_or_set (ht : Tracked s) (hdone : ∀ b ∈ s.batches, b.phase.done = true)
    {i : ℕ} (hi : i < s.calls.length) : i ∈ s.events ∨ ∃ e ∈ s.pending, e.call = i := by
  have hmem : i ∈ (placed s).map Entry.call := ht.once.mem_iff.mpr (List.mem_range.mpr hi)
  obtain ⟨e,he,rfl⟩ := List.mem_map.mp hmem
  rcases List.mem_append.mp he with he | he
  · exact .inr ⟨e,he,rfl⟩
  · obtain ⟨b,hb,heb⟩ := List.mem_flatMap.mp he
    have hd := hdone b hb
    unfold Phase.done at hd
    split at hd
    · rename_i n ans hp
      rcases (ht.rest b hb n ans [] hp).2 e heb with hnil | hev
      · simp at hnil
      · exact .inl hev
    · cases hd

theorem Flushed.step (hf : Flushed s) (ht : Tracked s) (h : step size s a = some u)
    (hc : calm ⟨s,a,u⟩ = true) : Flushed u := by
  have hmono := (step_mono h).1.1
  rcases step_cases h with ⟨f,rfl,hu⟩ | ⟨i,f,-,-,-,rfl⟩ | ⟨i,act,batch,t,q,-,-,hp,rfl⟩ |
    ⟨-,rfl⟩ | ⟨rfl,-,hp,rfl⟩ | ⟨rfl,-,rfl⟩ | ⟨rest,hw,hall,rfl⟩ | ⟨fl,rfl⟩
  · have hnot : s.flush = .notCalled := by
      revert hc
      simp only [calm]
      split
      · rename_i hflush
        exact fun _ => hflush
      · simp
    have huf : u.flush = s.flush := by
      rw [hu]
      unfold enqueue
      dsimp only
      split <;> rfl
    unfold Flushed
    rw [huf,hnot]
    trivial
  · exact hf.mono rfl rfl hmono
  · obtain ⟨hcalls,-,-,hflush⟩ := processBatch_frame hp
    exact hf.mono hflush hcalls hmono
  · exact hf.mono rfl rfl hmono
  · have hdone : ∀ b ∈ s.batches, b.phase.done = true := by simpa [calm] using hc
    intro i hi
    rcases ht.pending_or_set hdone hi with hev | ⟨e,he,-⟩
    · exact hev
    · rw [hp] at he
      simp at he
  · have hdone : ∀ b ∈ s.batches, b.phase.done = true := by simpa [calm] using hc
    exact fun i hi => ht.pending_or_set hdone hi
  · intro i hi
    have hf' : ∀ i < s.calls.length, i ∈ s.events ∨ ∃ e ∈ rest, e.call = i := by
      simpa only [Flushed,hw] using hf
    rcases hf' i hi with hev | ⟨e,he,rfl⟩
    · exact hev
    · exact hall e he
  · exact hf.mono rfl rfl hmono

/-! ## The law in every calm run -/

theorem decision_of_failed {items : List Entry} {f : String} (h : ∃ e ∈ items, e.funcHash = f) :
    decision items none f = "keep" := by
  obtain ⟨e,he,rfl⟩ := h
  have hin : (entrySet items none).contains e.funcHash = true := by
    simp only [entrySet,Option.getD_none,List.contains_iff_mem]
    exact List.mem_map.mpr ⟨e,he,rfl⟩
  rw [decision,if_pos hin]

theorem BatchingLaw.of_invariants (ht : Tracked s) (hn : Numbered s) (hf : Flushed s) :
    BatchingLaw s where
  once := ht.once
  own := ht.own
  decided := ht.decided
  failing p hp f hcall hall := by
    obtain ⟨f',hcall',b,hb,hd⟩ := ht.decided p hp
    rw [hcall,Option.some_inj] at hcall'
    subst hcall'
    have hnone := hall b hb p.2 hd
    obtain ⟨ans,hans,hmem,hdec⟩ := hd
    rw [hnone,Option.some_inj] at hans
    subst hans
    rw [hdec,decision_of_failed hmem]
  numbers := hn.distinct
  files i j b c n m hi hj hbi hcj hfile := by
    have hnm := sessionFile_injective hfile
    subst hnm
    exact hn.distinct i j b c n hi hj hbi hcj
  woken i hi hret := by
    unfold Flushed at hf
    rw [hret] at hf
    exact hf i hi

/-- In every run in which no batch reads the counter while another advances it, and in which
`flush` is called when the earlier batches are done and no call comes after it, the law holds. -/
theorem calm_run_keeps_law {tr : List (Event Sys Act)} (hr : Run (step size) init tr u)
    (hc : Along (fun _ e => calm e = true) tr) : BatchingLaw u := by
  have hinv : Tracked u ∧ Numbered u ∧ Flushed u := by
    refine hr.invariant (J := fun _ s => Tracked s ∧ Numbered s ∧ Flushed s) hc
      ⟨tracked_init,numbered_init,trivial⟩ ?_
    rintro - s a u ⟨ht,hn,hf⟩ hcalm hs
    exact ⟨ht.step hs,hn.step hs hcalm,hf.step ht hs hcalm⟩
  exact .of_invariants hinv.1 hinv.2.1 hinv.2.2

end Steps

/-! ## Two batches at once -/

/-- The idle thread finds the function, and its batch runs to the end. -/
def idleFlush : List Act :=
  [.enqueue "f",.flusherWakes,.flusherTakes,.batch 0 .readSeq,.batch 0 .loadSeq,
   .batch 0 .storeSeq,.batch 0 (.classify none),.batch 0 .publish,.batch 0 .setEvent,
   .enqueueReturns 0,.flushTakes]

/-- The idle thread hands in two batches; both read the counter before either advances it. -/
def twoBatches : List Act :=
  [.enqueue "f",.flusherWakes,.flusherTakes,.enqueue "g",.flusherWakes,.flusherTakes,
   .batch 0 .readSeq,.batch 1 .readSeq]

theorem idle_flush_keeps_law : ∃ tr u, Run (step (batchSize false 20)) init tr u ∧
    u.answers = [(0,"keep")] ∧ BatchingLaw u := by
  obtain ⟨tr,u,hr,hp⟩ := exists_run_of_replay (step (batchSize false 20)) init idleFlush
    (p := fun tr u => decide (Along (fun _ e => calm e = true) tr) &&
      u.answers == [(0,"keep")]) (by decide +kernel)
  simp only [Bool.and_eq_true,decide_eq_true_eq,beq_iff_eq] at hp
  exact ⟨tr,u,hr,hp.2,calm_run_keeps_law hr hp.1⟩

/-- Two batches have the number 0, and the same session file. -/
theorem two_batches_share_number : ∃ tr u, Run (step (batchSize false 20)) init tr u ∧
    (∃ b c, u.batches = [b,c] ∧ b.phase.idx = some 0 ∧ c.phase.idx = some 0) ∧ ¬BatchingLaw u := by
  obtain ⟨tr,u,hr,hp⟩ := exists_run_of_replay (step (batchSize false 20)) init twoBatches
    (p := fun _ u => u.batches.map (fun b => b.phase.idx) == [some 0,some 0]) (by decide +kernel)
  have hmap : u.batches.map (fun b => b.phase.idx) = [some 0,some 0] := by simpa using hp
  obtain ⟨b,rest,hu,hb,hrest⟩ := List.map_eq_cons_iff.mp hmap
  obtain ⟨c,rest',hu',hc,hnil⟩ := List.map_eq_cons_iff.mp hrest
  have hbatches : u.batches = [b,c] := by
    rw [hu,hu',List.map_eq_nil_iff.mp hnil]
  refine ⟨tr,u,hr,⟨b,c,hbatches,hb,hc⟩,fun hlaw => ?_⟩
  have h01 := hlaw.numbers 0 1 b c 0 (by simp [hbatches]) (by simp [hbatches]) hb hc
  cases h01

end FastMode
end EntryAnalyse
