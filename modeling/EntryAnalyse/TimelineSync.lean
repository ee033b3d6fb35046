import EntryAnalyse.EventIdentity
import EntryAnalyse.TimelineStore

/-! The events of a task's run are put on its timeline each time they are flushed, all of them again:
`_normalize_timeline_event` and `_sync_stage_events_to_timeline`. -/
namespace EntryAnalyse
namespace TimelineSync

open PyJson SafeEvents TimelineStore

section Sync

variable (py : PyRuntime) (intOfStr : String → Option ℤ)

/-- `str(a or b or ... or "").strip()`. -/
def textOf (vs : List PyJson) : String := py.text (vs.foldr PyJson.or (.str ""))

/-- `... or None`. -/
def orNone (s : String) : Option String := if s.isEmpty then none else some s

/-- `... or default`. -/
def orElse (s default : String) : String := if s.isEmpty then default else s

/-- `_normalize_timeline_event`, with the `ts` of its payload. -/
def normalizeTimelineEvent (task : Task) (evt : List (String × PyJson)) : EventArgs × PyJson :=
  let data := match field evt "data" with
    | .dict d => d
    | _ => []
  ({ taskId := task.taskId
     projectId := task.projectId
     eventType := orElse (strip (py.str
       ([field evt "event",field evt "type"].foldr PyJson.or (.str "stage_event")))) "stage_event"
     message := strip (py.str ([field evt "message",field data "message",field data "summary",
       field data "text",field data "output",field evt "event",field evt "type"].foldr PyJson.or
         (.str "stage event")))
     source := "entry_analyse"
     level := orElse (strip (py.str ((field evt "level").or
       (.str (if (field evt "error").truthy then "error" else "info"))))) "info"
     stageKey := orNone (textOf py [field evt "stage",field evt "stage_key",field data "stage",
       field data "stage_key"])
     fileHash := orNone (textOf py [field data "file_hash"])
     funcHash := orNone (textOf py [field data "func_hash"])
     filePath := orNone (textOf py [field data "file",field data "original_path",
       field data "source_path",field data "file_path"])
     functionName := orNone (textOf py [field data "function",field data "name",
       field data "function_name"])
     attempt := (Config.intOf intOfStr (field data "attempt")).toOption
     status := orNone (textOf py [field data "status",field evt "status"]) },
   field evt "ts")

/-- The event as `_sync_stage_events_to_timeline` passes it on. -/
def stageEvent (w : Replies) (task : Task) (evt : List (String × PyJson)) : EventArgs :=
  let normalized := normalizeTimelineEvent py intOfStr task evt
  let e := normalized.1
  { e with dedupeKey := some (eventDedupeKey w [e.taskId,e.eventType,e.stageKey.getD "",
      e.fileHash.getD "",e.funcHash.getD "",numberPart e.attempt,e.status.getD "",e.message,
      py.str (normalized.2.or (.str ""))]) }

/-- One event of the list, with what the world answers. -/
def syncOne (task : Task) (rows : List TaskEvent) : PyJson × Replies → List TaskEvent
  | (.dict evt,w) =>
    let e := stageEvent py intOfStr w task evt
    if !shouldPersistUserTimelineEvent e.eventType e.source then rows
    else createTaskEvent w e rows
  | _ => rows

/-- `_sync_stage_events_to_timeline`. -/
def syncStageEventsToTimeline (task : Task) (rows : List TaskEvent)
    (events : List (PyJson × Replies)) : List TaskEvent :=
  events.foldl (syncOne py intOfStr task) rows

end Sync

/-! ## The key of an event -/

section Keys

variable {w w' : Replies} {e : EventArgs}

theorem intercalate_ne_empty {l : List String} (hl : l ≠ []) (h : ∀ s ∈ l, s.isEmpty = false) :
    ("::".intercalate l).isEmpty = false := by
  cases l with
  | nil => exact absurd rfl hl
  | cons x l =>
    have hx : x ≠ "" := by simpa using h x List.mem_cons_self
    have hlen := EventIdentity.length_intercalate x l
    have hpos : 0 < x.length := Nat.pos_of_ne_zero fun h0 => hx (String.length_eq_zero_iff.mp h0)
    simp only [String.isEmpty_eq_false_iff]
    intro hnil
    rw [hnil] at hlen
    simp at hlen
    omega

/-- With something to say, the key is no random one. -/
theorem eventDedupeKey_congr (hsha : w.sha1 = w'.sha1) {parts : List String}
    (h : ∃ p ∈ parts, (strip p).isEmpty = false) :
    eventDedupeKey w parts = eventDedupeKey w' parts := by
  obtain ⟨p,hp,hfilled⟩ := h
  have hraw : ("::".intercalate ((parts.map strip).filter fun part => !part.isEmpty)).isEmpty =
      false := by
    apply intercalate_ne_empty
    · intro hnil
      rw [List.filter_eq_nil_iff] at hnil
      exact hnil (strip p) (List.mem_map_of_mem hp) (by simp [hfilled])
    · intro s hs
      simpa using (List.mem_filter.mp hs).2
  simp only [eventDedupeKey,hraw,hsha,Bool.false_eq_true,if_false]

theorem filled_of_persists {source : String}
    (h : shouldPersistUserTimelineEvent e.eventType source = true) :
    (strip e.eventType).isEmpty = false := by
  have hne : strip e.eventType ≠ "" := by
    simp only [shouldPersistUserTimelineEvent] at h
    split_ifs at h
    simpa using ‹¬(strip e.eventType).isEmpty = true›
  simpa using hne

theorem keyOf_congr (hsha : w.sha1 = w'.sha1) (h : (strip e.eventType).isEmpty = false) :
    keyOf w e = keyOf w' e := by
  simp only [keyOf]
  rw [eventDedupeKey_congr hsha ⟨e.eventType,by simp,h⟩]

end Keys

/-! ## Flushing again -/

section Again

variable {py : PyRuntime} {intOfStr : String → Option ℤ} {task : Task} {rows : List TaskEvent}
  {w : Replies}

/-- The event is on the timeline, if it is one that the timeline holds. -/
def Recorded (py : PyRuntime) (intOfStr : String → Option ℤ) (task : Task)
    (rows : List TaskEvent) : PyJson × Replies → Prop
  | (.dict evt,w) =>
    shouldPersistUserTimelineEvent (stageEvent py intOfStr w task evt).eventType
        (stageEvent py intOfStr w task evt).source = true →
      some (keyOf w (stageEvent py intOfStr w task evt)) ∈ rows.map (·.dedupeKey)
  | _ => True

theorem stageEvent_eventType (evt : List (String × PyJson)) :
    (stageEvent py intOfStr w task evt).eventType =
      (normalizeTimelineEvent py intOfStr task evt).1.eventType := by
  simp only [stageEvent]

theorem stageEvent_congr {w w' : Replies} {evt : List (String × PyJson)} (hsha : w.sha1 = w'.sha1)
    (h : (strip (normalizeTimelineEvent py intOfStr task evt).1.eventType).isEmpty = false) :
    stageEvent py intOfStr w task evt = stageEvent py intOfStr w' task evt := by
  simp only [stageEvent]
  rw [eventDedupeKey_congr hsha ⟨_,List.mem_cons_of_mem _ List.mem_cons_self,h⟩]

/-- An event is the same one whatever else the world answers. -/
theorem recorded_congr {p q : PyJson × Replies} (hfst : p.1 = q.1) (hsha : p.2.sha1 = q.2.sha1)
    (h : Recorded py intOfStr task rows p) : Recorded py intOfStr task rows q := by
  obtain ⟨evt,w⟩ := p
  obtain ⟨evt',w'⟩ := q
  obtain rfl : evt = evt' := hfst
  cases evt with
  | dict evt =>
    intro hpersists
    have hfilled : (strip (stageEvent py intOfStr w' task evt).eventType).isEmpty = false :=
      filled_of_persists hpersists
    have hsha : w.sha1 = w'.sha1 := hsha
    have hsame : stageEvent py intOfStr w task evt = stageEvent py intOfStr w' task evt :=
      stageEvent_congr hsha (stageEvent_eventType (w := w') evt ▸ hfilled)
    have hrecorded : Recorded py intOfStr task rows (.dict evt,w) := h
    simp only [Recorded,hsame] at hrecorded
    rw [← keyOf_congr hsha hfilled]
    exact hrecorded hpersists
  | _ => trivial

theorem syncOne_of_recorded {p : PyJson × Replies} (h : Recorded py intOfStr task rows p) :
    syncOne py intOfStr task rows p = rows := by
  obtain ⟨evt,w⟩ := p
  cases evt with
  | dict evt =>
    simp only [syncOne]
    by_cases hpersists : shouldPersistUserTimelineEvent (stageEvent py intOfStr w task evt).eventType
        (stageEvent py intOfStr w task evt).source = true
    · rw [if_neg (by simp [hpersists])]
      apply create_none
      have hany : (rows.any fun r => r.dedupeKey =
          some (keyOf w (stageEvent py intOfStr w task evt))) = true := by
        obtain ⟨r,hr,hk⟩ := List.mem_map.mp (h hpersists)
        exact List.any_eq_true.mpr ⟨r,hr,by simpa using hk⟩
      simp only [inserted,hany]
      split_ifs <;> rfl
    · rw [if_pos (by simpa using hpersists)]
  | _ => rfl

theorem sync_of_recorded {events : List (PyJson × Replies)}
    (h : ∀ p ∈ events, Recorded py intOfStr task rows p) :
    syncStageEventsToTimeline py intOfStr task rows events = rows := by
  induction events with
  | nil => rfl
  | cons p events ih =>
    simp only [syncStageEventsToTimeline,List.foldl_cons]
    rw [syncOne_of_recorded (h p List.mem_cons_self)]
    exact ih fun q hq => h q (List.mem_cons_of_mem p hq)

/-- While there is room and the world answers, an event is put on the timeline and no other is lost. -/
theorem syncOne_room {p : PyJson × Replies} (hpay : ∃ t, p.2.payload = .ok t)
    (hid : newId p.2 ∉ rows.map (·.id))
    (hroom : (ofTask task.taskId rows).length < dbTimelineEventLimit) :
    Recorded py intOfStr task (syncOne py intOfStr task rows p) p ∧
      (syncOne py intOfStr task rows p = rows ∨
        ∃ row, row.id = newId p.2 ∧ row.taskId = task.taskId ∧
          syncOne py intOfStr task rows p = rows ++ [row]) := by
  obtain ⟨evt,w⟩ := p
  cases evt with
  | dict evt =>
    obtain ⟨payload,hpay⟩ := hpay
    have hpay : w.payload = .ok payload := hpay
    let e := stageEvent py intOfStr w task evt
    by_cases hpersists : shouldPersistUserTimelineEvent e.eventType e.source = true
    · have hone : syncOne py intOfStr task rows (.dict evt,w) = createTaskEvent w e rows := by
        simp only [syncOne]
        rw [if_neg (by simpa using hpersists)]
      rw [hone]
      by_cases hany : (rows.any fun r => r.dedupeKey = some (keyOf w e)) = true
      · have hsame : createTaskEvent w e rows = rows := by
          apply create_none
          simp only [inserted,hany]
          split_ifs <;> rfl
        rw [hsame]
        refine ⟨fun _ => ?_,.inl rfl⟩
        obtain ⟨r,hr,hk⟩ := List.any_eq_true.mp hany
        exact List.mem_map.mpr ⟨r,hr,by simpa using hk⟩
      · let row : TaskEvent := { e with
          dedupeKey := some (keyOf w e), id := newId w, payloadJson := payload, createdAt := w.now }
        have hrow : inserted w e rows = some row := by
          simp only [inserted,hpay]
          rw [if_neg (by simp [hpersists]),if_neg hany,if_neg (by simpa using hid)]
        have hlast : createTaskEvent w e rows = rows ++ [row] := by
          have hcount : (ofTask e.taskId (rows ++ [row])).length - dbTimelineEventLimit = 0 := by
            have : (ofTask e.taskId (rows ++ [row])).length ≤
                (ofTask task.taskId rows).length + 1 := by
              simp only [ofTask,List.filter_append,List.length_append]
              exact Nat.add_le_add_left (List.length_filter_le _ _) _
            omega
          rw [create_some hrow]
          simp only [TimelineStore.trimTaskTimelineEvents]
          rw [if_pos (.inr hcount)]
        rw [hlast]
        exact ⟨fun _ => by simp [row,e],.inr ⟨row,rfl,rfl,rfl⟩⟩
    · have hone : syncOne py intOfStr task rows (.dict evt,w) = rows := by
        simp only [syncOne]
        rw [if_pos (by simpa using hpersists)]
      rw [hone]
      exact ⟨fun h => absurd h hpersists,.inl rfl⟩
  | _ => exact ⟨trivial,.inl rfl⟩

/-- What the timeline holds already, it keeps while there is room. -/
theorem recorded_mono {rows' : List TaskEvent} (h : rows ⊆ rows') {p : PyJson × Replies}
    (hp : Recorded py intOfStr task rows p) : Recorded py intOfStr task rows' p := by
  obtain ⟨evt,w⟩ := p
  cases evt with
  | dict evt => exact fun hpersists => List.map_subset _ h (hp hpersists)
  | _ => trivial

theorem sync_room {events : List (PyJson × Replies)}
    (hpay : ∀ p ∈ events, ∃ t, p.2.payload = .ok t)
    (hids : (rows.map (·.id) ++ events.map fun p => newId p.2).Nodup)
    (hroom : (ofTask task.taskId rows).length + events.length ≤ dbTimelineEventLimit) :
    rows ⊆ syncStageEventsToTimeline py intOfStr task rows events ∧
      ∀ p ∈ events,
        Recorded py intOfStr task (syncStageEventsToTimeline py intOfStr task rows events) p := by
  induction events generalizing rows with
  | nil => exact ⟨List.Subset.refl _,by simp⟩
  | cons p events ih =>
    have hid : newId p.2 ∉ rows.map (·.id) := fun hmem =>
      (List.nodup_append.mp hids).2.2 _ hmem _ List.mem_cons_self rfl
    have hlt : (ofTask task.taskId rows).length < dbTimelineEventLimit := by
      simp only [List.length_cons] at hroom
      omega
    obtain ⟨hrecorded,hsame⟩ :=
      @syncOne_room py intOfStr task rows p (hpay p List.mem_cons_self) hid hlt
    have hstep : rows ⊆ syncOne py intOfStr task rows p ∧
        ((syncOne py intOfStr task rows p).map (·.id) ++ events.map fun p => newId p.2).Nodup ∧
        (ofTask task.taskId (syncOne py intOfStr task rows p)).length + events.length ≤
          dbTimelineEventLimit := by
      simp only [List.length_cons,List.map_cons] at hroom hids
      rcases hsame with hsame | ⟨row,hrow,-,hsame⟩
      · rw [hsame]
        refine ⟨List.Subset.refl _,?_,by omega⟩
        exact hids.sublist (List.Sublist.append_left (List.sublist_cons_self _ _) _)
      · rw [hsame]
        refine ⟨List.subset_append_left _ _,?_,?_⟩
        · rw [List.map_append,List.append_assoc,List.map_singleton,hrow]
          exact hids
        · have : (ofTask task.taskId (rows ++ [row])).length ≤
              (ofTask task.taskId rows).length + 1 := by
            simp only [ofTask,List.filter_append,List.length_append]
            exact Nat.add_le_add_left (List.length_filter_le _ _) _
          omega
    obtain ⟨hkept,hall⟩ := ih (fun q hq => hpay q (List.mem_cons_of_mem p hq)) hstep.2.1 hstep.2.2
    refine ⟨List.Subset.trans hstep.1 hkept,fun q hq => ?_⟩
    rcases List.mem_cons.mp hq with rfl | hq
    · exact recorded_mono hkept hrecorded
    · exact hall q hq

/-- Flushing the events again, with more behind them, adds what the further ones add, as long as the
task's timeline has room and the database takes them. -/
theorem sync_again {events again more : List (PyJson × Replies)} {sha1 : String → String}
    (hsame : again.map (·.1) = events.map (·.1))
    (hsha : ∀ p ∈ events ++ again, p.2.sha1 = sha1)
    (hpay : ∀ p ∈ events, ∃ t, p.2.payload = .ok t)
    (hids : (rows.map (·.id) ++ events.map fun p => newId p.2).Nodup)
    (hroom : (ofTask task.taskId rows).length + events.length ≤ dbTimelineEventLimit) :
    syncStageEventsToTimeline py intOfStr task
        (syncStageEventsToTimeline py intOfStr task rows events) (again ++ more) =
      syncStageEventsToTimeline py intOfStr task
        (syncStageEventsToTimeline py intOfStr task rows events) more := by
  obtain ⟨-,hrecorded⟩ := @sync_room py intOfStr task rows events hpay hids hroom
  have hagain : syncStageEventsToTimeline py intOfStr task
      (syncStageEventsToTimeline py intOfStr task rows events) again =
        syncStageEventsToTimeline py intOfStr task rows events := by
    apply sync_of_recorded
    intro q hq
    obtain ⟨p,hp,hfst⟩ : ∃ p ∈ events, p.1 = q.1 := by
      have : q.1 ∈ events.map (·.1) := hsame ▸ List.mem_map_of_mem hq
      simpa using this
    have hp' := hsha p (List.mem_append_left _ hp)
    have hq' := hsha q (List.mem_append_right _ hq)
    exact recorded_congr hfst (hp'.trans hq'.symm) (hrecorded p hp)
  simp only [syncStageEventsToTimeline,List.foldl_append] at hagain ⊢
  rw [hagain]

end Again

/-- Formats as far as the example needs them: it has texts only. -/
def textsOnly : PyRuntime where
  repr := fun _ => ""
  dumps := fun _ => ""
  loads := fun _ => none
  floatOfInt := fun n => some n
  floatOfStr := fun _ => none
  round2 := id

/-- One event, flushed a second time together with another. -/
theorem sync_again_started :
    let task : Task := { taskId := "t", projectId := "p" }
    let started : PyJson := .dict [("event",.str "task_started")]
    let passed : PyJson := .dict [("event",.str "task_passed")]
    let w : Replies := { lost with idUuid := "1" }
    let w' : Replies := { lost with idUuid := "2" }
    let first := syncStageEventsToTimeline textsOnly (fun _ => none) task [] [(started,lost)]
    syncStageEventsToTimeline textsOnly (fun _ => none) task first
        ([(started,w)] ++ [(passed,w')]) =
      syncStageEventsToTimeline textsOnly (fun _ => none) task first [(passed,w')] := by
  intro task started passed w w' first
  have hroom : (ofTask task.taskId []).length + [(started,lost)].length ≤ dbTimelineEventLimit := by
    decide
  have hsha : ∀ p ∈ [(started,lost)] ++ [(started,w)], p.2.sha1 = id := by simp [lost,w]
  exact sync_again rfl hsha (by simp [lost]) (by simp) hroom

end TimelineSync
end EntryAnalyse
