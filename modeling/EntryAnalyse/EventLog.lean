import EntryAnalyse.AppendLog
import EntryAnalyse.PyJson
import EntryAnalyse.Runs

/-! The log of a run in `events.jsonl`: the task's process appends a line for each event, and clients ask
for the events behind those that they have, also while a line is being written. -/
namespace EntryAnalyse
namespace EventLog

open AppendLog Runs

/-- A line of the log: an event of the pipeline, or the entry that the run writes at its end. -/
inductive Entry (ε : Type)
  | event (e : ε)
  | done

/-- `json.dumps` of an entry and `json.loads` of a text. The text of an object has no line break, starts
and ends with a brace, and no proper beginning of it is JSON. -/
structure Json (ε : Type) where
  dumps : Entry ε → List Char
  loads : List Char → Option (Entry ε)
  newline_notMem : ∀ e, '\n' ∉ dumps e
  first : ∀ e, (dumps e).head? = some '\x7b'
  last : ∀ e, (dumps e).getLast? = some '\x7d'
  loads_dumps : ∀ e, loads (dumps e) = some e
  loads_torn : ∀ e text, text <+: dumps e → text ≠ dumps e → loads text = none

variable {ε : Type} (json : Json ε)

/-- `line.strip()`. -/
def stripLine (line : List Char) : List Char := (line.dropWhile pyIsSpace).rdropWhile pyIsSpace

/-- What `get_task_logs` makes of a line; blank lines and those that are not JSON are skipped. -/
def loadLine (line : List Char) : Option (Entry ε) :=
  if stripLine line = [] then none else json.loads (stripLine line)

structure Sys (ε : Type) where
  file : List Char := []
  /-- What is not written yet of the line that is being written. -/
  pending : List Char := []
  emitted : List ε := []
  alive : Bool := true
  finished : Bool := false
  /-- The status of the task's row is a terminal one. -/
  terminal : Bool := false
  /-- Of the client's request, what it has read of the row. -/
  asked : Option Bool := none
  got : List ε := []
  since : ℕ := 0
  stopped : Bool := false

inductive Act (ε : Type)
  /-- `_on_event` begins to append a line. -/
  | emit (e : ε)
  /-- Another character reaches the file. -/
  | write
  /-- The run begins to append its last line. -/
  | finish
  /-- The task's process is gone. -/
  | exit
  /-- The row gets a terminal status, at the end of the run or by a cancellation. -/
  | setTerminal
  /-- A request reads the row. -/
  | query
  /-- The request reads the file and answers. -/
  | answer

def entryEvent : Entry ε → Option ε
  | .event e => some e
  | .done => none

/-- `all_events` and `is_final` of a request that reads the file. -/
def readEvents (file : List Char) : List ε × Bool :=
  let entries := (file.splitOn '\n').filterMap (loadLine json)
  (entries.filterMap entryEvent,entries.any fun e => (entryEvent e).isNone)

/-- The answer of `get_task_logs`. -/
structure Answer (ε : Type) where
  totalEventCount : ℕ
  final : Bool
  events : List ε

/-- `get_task_logs` with the status that it has read. -/
def getTaskLogs (terminal : Bool) (file : List Char) (since : ℤ) : Answer ε :=
  let (allEvents,isFinal) := readEvents json file
  let sinceClamped := max 0 (min since allEvents.length)
  { totalEventCount := allEvents.length
    final := isFinal || terminal
    events := allEvents.drop sinceClamped.toNat }

/-- The client adds what it gets, asks for what is behind next time, and stops at a final answer. -/
def Sys.receive (s : Sys ε) (a : Answer ε) : Sys ε :=
  { s with
    asked := none
    got := s.got ++ a.events
    since := a.totalEventCount
    stopped := a.final }

def step (s : Sys ε) : Act ε → Option (Sys ε)
  | .emit e =>
    if s.alive ∧ s.pending = [] ∧ s.finished = false then
      some { s with emitted := s.emitted ++ [e], pending := json.dumps (.event e) ++ ['\n'] }
    else none
  | .write =>
    match s.pending with
    | [] => none
    | c :: rest => some { s with file := s.file ++ [c], pending := rest }
  | .finish =>
    if s.alive ∧ s.pending = [] ∧ s.finished = false then
      some { s with finished := true, pending := json.dumps .done ++ ['\n'] }
    else none
  | .exit => if s.alive then some { s with alive := false, pending := [] } else none
  | .setTerminal => some { s with terminal := true }
  | .query => if s.stopped = false then some { s with asked := some s.terminal } else none
  | .answer =>
    match s.asked with
    | none => none
    | some terminal => some (s.receive (getTaskLogs json terminal s.file s.since))

/-! ## What is in the log -/

section Log

variable {json} {s t : Sys ε} {log log' : List Char}

theorem stripLine_of_first {line : List Char} (h : line.head? = some '\x7b') :
    stripLine line = line.rdropWhile pyIsSpace := by
  obtain ⟨rest,rfl⟩ := List.head?_eq_some_iff.mp h
  rw [stripLine,List.dropWhile_cons_of_neg (by decide)]

theorem stripLine_dumps (e : Entry ε) : stripLine (json.dumps e) = json.dumps e := by
  rw [stripLine_of_first (json.first e)]
  obtain ⟨rest,hrest⟩ := List.getLast?_eq_some_iff.mp (json.last e)
  rw [hrest,List.rdropWhile_concat_neg _ _ _ (by decide)]

variable (json) in
/-- The lines of the log as records. -/
def format : Format Char (Entry ε) where
  sep := '\n'
  dumps := json.dumps
  loads := loadLine json
  sep_notMem := json.newline_notMem
  loads_nil := rfl
  loads_dumps e := by
    have hne : json.dumps e ≠ [] := fun h => by simpa [h] using json.first e
    simp [loadLine,stripLine_dumps,hne,json.loads_dumps]
  loads_torn e text hpre hne := by
    unfold loadLine
    split_ifs with hblank
    · rfl
    · have htext : text ≠ [] := fun h => hblank (by simp [h,stripLine])
      have hhead : text.head? = some '\x7b' := by
        obtain ⟨rest,hrest⟩ := hpre
        have hfirst := json.first e
        rw [← hrest,List.head?_append_of_ne_nil _ htext] at hfirst
        exact hfirst
      have hstrip : stripLine text <+: text := by
        rw [stripLine_of_first hhead]
        exact List.rdropWhile_prefix _ _
      refine json.loads_torn e _ (hstrip.trans hpre) fun heq => hne ?_
      exact hpre.eq_of_length_le (heq ▸ hstrip.length_le)

theorem readEvents_eq (file : List Char) : readEvents json file =
    (((format json).read file).filterMap entryEvent,
      ((format json).read file).any fun e => (entryEvent e).isNone) := rfl

/-- The records of the run. -/
def entries (s : Sys ε) : List (Entry ε) :=
  s.emitted.map .event ++ if s.finished then [.done] else []

theorem filterMap_entries (s : Sys ε) : (entries s).filterMap entryEvent = s.emitted := by
  have hevents : (s.emitted.map Entry.event).filterMap entryEvent = s.emitted := by
    rw [List.filterMap_map]
    exact List.filterMap_some
  unfold entries
  split_ifs
  · simp [hevents,entryEvent]
  · simp [hevents]

/-- The part of the log that is read is a beginning of the events, and all of them once the last line
is read. -/
theorem readEvents_prefix (h : log <+: (format json).text (entries s)) :
    (readEvents json log).1 <+: s.emitted := by
  rw [readEvents_eq,← filterMap_entries s]
  exact (Format.read_prefix h).filterMap _

theorem read_of_final (h : log <+: (format json).text (entries s))
    (hfinal : (readEvents json log).2 = true) : (format json).read log = entries s := by
  have hpre := Format.read_prefix h
  rw [readEvents_eq,List.any_eq_true] at hfinal
  obtain ⟨e,he,hnone⟩ := hfinal
  obtain ⟨rest,hrest⟩ := hpre
  have hevent : ∀ e ∈ s.emitted.map Entry.event, (entryEvent e).isNone = false := by simp [entryEvent]
  cases hfin : s.finished with
  | false =>
    have hmem : e ∈ entries s := hrest ▸ List.mem_append_left _ he
    simp only [entries,hfin,Bool.false_eq_true,if_false,List.append_nil] at hmem
    simp [hevent e hmem] at hnone
  | true =>
    have hentries : entries s = s.emitted.map .event ++ [.done] := by simp [entries,hfin]
    rw [hentries] at hrest ⊢
    rcases List.eq_nil_or_concat rest with rfl | ⟨rest',x,rfl⟩
    · simpa using hrest
    · rw [List.concat_eq_append,← List.append_assoc] at hrest
      have hsplit := (List.append_inj' hrest rfl).1
      have hmem : e ∈ s.emitted.map Entry.event := hsplit ▸ List.mem_append_left _ he
      simp [hevent e hmem] at hnone

theorem readEvents_of_final (h : log <+: (format json).text (entries s))
    (hfinal : (readEvents json log).2 = true) : (readEvents json log).1 = s.emitted := by
  rw [readEvents_eq,read_of_final h hfinal,filterMap_entries]

theorem readEvents_mono (h : log <+: log') (h' : log' <+: (format json).text (entries s)) :
    (readEvents json log).1 <+: (readEvents json log').1 := by
  rw [readEvents_eq,readEvents_eq]
  exact (Format.read_mono h h').filterMap _

/-! ## Runs -/

/-- Nothing is written any more. -/
def Quiet (s : Sys ε) : Prop := s.alive = false ∨ (s.finished = true ∧ s.pending = [])

/-- A request has read a terminal status while the run could still write. -/
def AskedEarly (tr : List (Event (Sys ε) (Act ε))) : Prop :=
  ∃ e ∈ tr, e.act = .query ∧ e.pre.terminal = true ∧ ¬Quiet e.pre

variable (json) in
/-- The log, the client's part of it, and why the client has stopped. -/
structure Sound (tr : List (Event (Sys ε) (Act ε))) (s : Sys ε) : Prop where
  log : s.file <+: (format json).text (entries s)
  whole : s.alive = true → s.file ++ s.pending = (format json).text (entries s)
  dead : s.alive = false → s.pending = []
  got : ∃ log, log <+: s.file ∧ s.got = (readEvents json log).1
  since : s.since = s.got.length
  asked : s.asked = some true → AskedEarly tr ∨ Quiet s
  stopped : s.stopped = true → AskedEarly tr ∨
    s.got = (readEvents json s.file).1 ∧ (Quiet s ∨ (readEvents json s.file).2 = true)

theorem sound_start : Sound json [] ({} : Sys ε) where
  log := by simp [entries]
  whole _ := by simp [entries]
  dead h := by cases h
  got := ⟨[],List.prefix_rfl,by simp [readEvents_eq,Format.read_nil]⟩
  since := rfl
  asked h := by cases h
  stopped h := by cases h

theorem AskedEarly.cons {tr : List (Event (Sys ε) (Act ε))} (h : AskedEarly tr)
    (e : Event (Sys ε) (Act ε)) : AskedEarly (e :: tr) := by
  obtain ⟨x,hx,hrest⟩ := h
  exact ⟨x,List.mem_cons_of_mem _ hx,hrest⟩

variable {tr : List (Event (Sys ε) (Act ε))} {e : Event (Sys ε) (Act ε)}

/-- A run that goes on has not written its last line. -/
theorem Sound.not_final (h : Sound json tr s) (hfin : s.finished = false) :
    (readEvents json s.file).2 = false := by
  by_contra hno
  have hread := read_of_final h.log (Bool.eq_true_of_not_eq_false hno)
  rw [readEvents_eq,hread] at hno
  refine hno ?_
  simp [entries,hfin,entryEvent]

/-- The step that begins another line. -/
theorem Sound.begin_line (h : Sound json tr s) (x : Entry ε)
    (hguard : s.alive = true ∧ s.pending = [] ∧ s.finished = false)
    (hentries : entries t = entries s ++ [x]) (halive : t.alive = true) (hfile : t.file = s.file)
    (hpending : t.pending = json.dumps x ++ ['\n']) (hgot : t.got = s.got)
    (hsince : t.since = s.since) (hasked : t.asked = s.asked) (hstopped : t.stopped = s.stopped) :
    Sound json (e :: tr) t := by
  obtain ⟨hlive,hidle,hfin⟩ := hguard
  have hwhole := h.whole hlive
  rw [hidle,List.append_nil] at hwhole
  have hquiet : ¬Quiet s := by simp [Quiet,hlive,hfin]
  have htext : t.file ++ t.pending = (format json).text (entries t) := by
    rw [hfile,hpending,hentries,Format.text_concat,hwhole]
    rfl
  exact {
    log := htext ▸ List.prefix_append _ _
    whole := fun _ => htext
    dead := fun hdead => by simp [halive] at hdead
    got := by rw [hfile,hgot]; exact h.got
    since := by rw [hsince,hgot,h.since]
    asked := fun ha => .inl (((h.asked (hasked ▸ ha)).resolve_right hquiet).cons e)
    stopped := fun hs => by
      refine .inl (((h.stopped (hstopped ▸ hs)).resolve_right ?_).cons e)
      rintro ⟨-,hq | hf⟩
      · exact hquiet hq
      · simp [h.not_final hfin] at hf }

theorem Sound.write (h : Sound json tr s) {c : Char} {rest : List Char} (hp : s.pending = c :: rest) :
    Sound json (e :: tr) { s with file := s.file ++ [c], pending := rest } := by
  have hlive : s.alive = true := by
    by_contra hno
    simp [h.dead (Bool.eq_false_iff.mpr hno)] at hp
  have hquiet : ¬Quiet s := by simp [Quiet,hlive,hp]
  have hwhole : (s.file ++ [c]) ++ rest = (format json).text (entries s) := by
    rw [← h.whole hlive,hp]
    simp
  have hlog : s.file ++ [c] <+: (format json).text (entries s) := hwhole ▸ List.prefix_append _ _
  exact {
    log := hlog
    whole := fun _ => hwhole
    dead := fun hdead => by simp [hlive] at hdead
    got := by
      obtain ⟨log,hpre,hgot⟩ := h.got
      exact ⟨log,hpre.trans (List.prefix_append _ _),hgot⟩
    since := h.since
    asked := fun ha => .inl (((h.asked ha).resolve_right hquiet).cons e)
    stopped := fun hs => by
      refine (h.stopped hs).imp (fun hearly => hearly.cons e) ?_
      rintro ⟨hgot,hq | hf⟩
      · exact absurd hq hquiet
      · have hread := read_of_final h.log hf
        have hpre := Format.read_mono (List.prefix_append s.file [c]) hlog
        rw [hread] at hpre
        have heq : (format json).read (s.file ++ [c]) = entries s :=
          ((Format.read_prefix hlog).eq_of_length_le hpre.length_le)
        rw [readEvents_eq,hread] at hf hgot
        exact ⟨by rw [hgot,readEvents_eq,heq],.inr (by rw [readEvents_eq,heq]; exact hf)⟩ }

theorem Sound.exit (h : Sound json tr s) :
    Sound json (e :: tr) { s with alive := false, pending := [] } where
  log := h.log
  whole hlive := by cases hlive
  dead _ := rfl
  got := h.got
  since := h.since
  asked _ := .inr (.inl rfl)
  stopped hs := (h.stopped hs).imp (fun hearly => hearly.cons e) fun hgot => ⟨hgot.1,.inl (.inl rfl)⟩

theorem Sound.setTerminal (h : Sound json tr s) :
    Sound json (e :: tr) { s with terminal := true } where
  log := h.log
  whole := h.whole
  dead := h.dead
  got := h.got
  since := h.since
  asked ha := (h.asked ha).imp_left fun hearly => hearly.cons e
  stopped hs := (h.stopped hs).imp_left fun hearly => hearly.cons e

theorem Sound.query (h : Sound json tr s) (hgoes : s.stopped = false) :
    Sound json (⟨s,.query,{ s with asked := some s.terminal }⟩ :: tr)
      { s with asked := some s.terminal } where
  log := h.log
  whole := h.whole
  dead := h.dead
  got := h.got
  since := h.since
  asked ha := by
    by_cases hquiet : Quiet s
    · exact .inr hquiet
    · exact .inl ⟨_,List.mem_cons_self,rfl,Option.some_inj.mp ha,hquiet⟩
  stopped hs := by
    rw [hgoes] at hs
    cases hs

/-- An answer completes what the client has to what the log holds. -/
theorem Sound.received (h : Sound json tr s) (terminal : Bool) :
    (s.receive (getTaskLogs json terminal s.file s.since)).got = (readEvents json s.file).1 := by
  obtain ⟨log,hpre,hgot⟩ := h.got
  have hle := readEvents_mono hpre h.log
  rw [← hgot] at hle
  have hclamped : (max 0 (min (s.since : ℤ) (readEvents json s.file).1.length)).toNat =
      s.got.length := by
    have := hle.length_le
    rw [h.since]
    omega
  obtain ⟨rest,hrest⟩ := hle
  simp only [Sys.receive,getTaskLogs,hclamped]
  rw [← hrest,List.drop_left]

theorem Sound.answer (h : Sound json tr s) {terminal : Bool} (hasked : s.asked = some terminal) :
    Sound json (e :: tr) (s.receive (getTaskLogs json terminal s.file s.since)) where
  log := h.log
  whole := h.whole
  dead := h.dead
  got := ⟨s.file,List.prefix_rfl,h.received terminal⟩
  since := by
    rw [h.received terminal]
    rfl
  asked ha := by cases ha
  stopped hs := by
    rw [h.received terminal]
    cases hfinal : (readEvents json s.file).2 with
    | true => exact .inr ⟨rfl,.inr hfinal⟩
    | false =>
      have hterminal : terminal = true := by
        simpa [Sys.receive,getTaskLogs,hfinal] using hs
      exact (h.asked (hterminal ▸ hasked)).imp (fun hearly => hearly.cons e) fun hquiet =>
        ⟨rfl,.inl hquiet⟩

theorem sound_step {a : Act ε} (h : Sound json tr s) (hs : step json s a = some t) :
    Sound json (⟨s,a,t⟩ :: tr) t := by
  cases a with
  | emit x =>
    obtain ⟨hguard,rfl⟩ := guarded hs
    refine h.begin_line (.event x) hguard ?_ hguard.1 rfl rfl rfl rfl rfl rfl
    simp [entries,hguard.2.2]
  | write =>
    simp only [step] at hs
    cases hp : s.pending with
    | nil => simp [hp] at hs
    | cons c rest =>
      simp only [hp,Option.some_inj] at hs
      exact hs ▸ h.write hp
  | finish =>
    obtain ⟨hguard,rfl⟩ := guarded hs
    refine h.begin_line .done hguard ?_ hguard.1 rfl rfl rfl rfl rfl rfl
    simp [entries,hguard.2.2]
  | exit =>
    obtain ⟨-,rfl⟩ := guarded hs
    exact h.exit
  | setTerminal =>
    obtain rfl := Option.some_inj.mp hs
    exact h.setTerminal
  | query =>
    obtain ⟨hgoes,rfl⟩ := guarded hs
    exact h.query hgoes
  | answer =>
    simp only [step] at hs
    cases hasked : s.asked with
    | none => simp [hasked] at hs
    | some terminal =>
      simp only [hasked,Option.some_inj] at hs
      exact hs ▸ h.answer hasked

theorem sound (h : Run (step json) {} tr s) : Sound json tr s :=
  h.invariant (along_forall.mpr fun _ _ => trivial : Along (fun _ _ => True) tr) sound_start
    fun _ _ _ _ hj _ hs => sound_step hj hs

end Log

/-- One kind of event, in texts of three characters. -/
def briefJson : Json Unit where
  dumps
    | .event () => ['\x7b','e','\x7d']
    | .done => ['\x7b','d','\x7d']
  loads text :=
    if text = ['\x7b','e','\x7d'] then some (.event ())
    else if text = ['\x7b','d','\x7d'] then some .done
    else none
  newline_notMem e := by cases e <;> simp
  first e := by cases e <;> rfl
  last e := by cases e <;> rfl
  loads_dumps e := by cases e <;> rfl
  loads_torn e text hpre hne := by
    have hlen := hpre.length_le
    have hfull : text.length ≠ 3 := by
      intro h
      exact hne (hpre.eq_of_length_le (by cases e <;> exact h.ge))
    rw [if_neg fun h => hfull (by rw [h]; rfl),if_neg fun h => hfull (by rw [h]; rfl)]

end EventLog
end EntryAnalyse
