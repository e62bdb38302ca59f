import CellReview.Observe.Observer
import CellReview.Proofs.Json.Typed
import CellReview.Proofs.Observe.SessionId
import CellReview.Proofs.Storage.Walk
import CellReview.Proofs.Time.Instant
import CellReview.Review.Deciding

/-!
# The log of an observer

Every call adds one line to the log: times have no blanks, events are written on one line, and so
is the warning of the controller.  So the log can be cut into lines again, and the events that
were recorded can be read from it.

* `Envelope.rereads` — an envelope reads back from its text;
* `Call`, `Observer.call`, `Observer.calls` — what an observer is called for, and a run of calls;
* `Observer.logged`, `Observer.logged_calls` — what the log holds, and what a run adds to it;
* `Log.lines`, `Log.replay`, `Log.lines_joined`, `Log.replay_written` — reading a log;
* `eq_driftText_of_mem_accept`, `Observer.deliver_record` — what a review warns of and what becomes
  of a post are calls as well;
* `log_replays` — **the log of a run tells the events of the run**;
* `undelivered_adds_line` — a post that fails adds a line of its own.
-/

namespace CellReview.Observe

open Completion (Offline Transport)
open Time (Instant)

/-! ## Envelopes -/

/-- Whether an envelope can be written: its number has 64 bits, its time is counted, and so are the
numbers of its event. -/
structure Envelope.Sound (e : Envelope) : Prop where
  number : e.number < Event.limit
  time : e.time.Valid
  event : e.event.Countable

/-- An envelope reads back from its text. -/
theorem Envelope.rereads {e : Envelope} (h : e.Sound) : Rereads 3 Envelope.read e.toJson e := by
  have htime : Rereads 2 (Reader.refine Instant.parse? Reader.string)
      (.string (e.time.text "Z")) e.time :=
    (rereads_string 2 _).refine (Instant.parse?_text h.time)
  have hsession : Rereads 2 (Reader.refine SessionId.parse? Reader.string)
      (.string e.session.text) e.session :=
    (rereads_string 2 _).refine e.session.parse?_text
  refine Stores.rereads_record ?_ ["seq_no", "at", "session_id", "kind"] rfl (by decide)
    (by decide)
  exact .cons rfl ((Event.rereads_count h.number).mono (by decide)).store <|
    .cons rfl htime.store <|
    .cons rfl hsession.store <|
    .cons rfl (Event.rereads h.event).store (.nil _)

/-- All numbers of an event are integers. -/
theorem Event.whole_toJson (e : Event) : e.toJson.Whole := by
  have hstring : ∀ s, (Json.string s).Whole := .string
  have hbool : ∀ b, (Json.bool b).Whole := .bool
  have hcontent : ∀ m ∈ e.content, m.2.Whole := by
    cases e <;>
      simp [content, Json.Whole.ofNat, Chat.Role.toJson, Chat.DisplayType.toJson, hstring, hbool]
  rw [toJson]
  cases hmembers : e.content with
  | nil => exact .object (List.forall_mem_singleton.2 (hstring _))
  | cons m members =>
    rw [hmembers] at hcontent
    exact .object (List.forall_mem_cons.2
      ⟨hstring _, List.forall_mem_singleton.2 (.object hcontent)⟩)

theorem Envelope.whole_toJson (e : Envelope) : e.toJson.Whole := by
  refine .object ?_
  simp only [List.forall_mem_cons]
  exact ⟨Json.Whole.ofNat _, .string _, .string _, e.event.whole_toJson,
    fun _ hm => absurd hm List.not_mem_nil⟩

/-! ## Calls -/

/-- The warning of a controller whose cell was edited during a review. -/
def driftText : String :=
  "active cell changed during review; accepting the proposal over it"

/-- Who accepts a proposal is given no other warning. -/
theorem eq_driftText_of_mem_accept {s : Review.State} {cell : Option String} {text : String}
    (h : Review.Effect.warn text ∈ (s.accept cell).effects) : text = driftText := by
  unfold Review.State.accept at h
  split at h
  · exact absurd h List.not_mem_nil
  · rename_i p hproposal
    by_cases hdrifted : (cell.map Digest.fingerprint != some p.previewPrint) = true
    · simpa [hdrifted, driftText] using h
    · simp [hdrifted] at h

/-- What an observer is called for: to record an event, to keep the warning of the controller, or
to keep that a post failed. -/
inductive Call where
  | record (now : Instant) (event : Event)
  | drift (now : Instant)
  | undelivered (now : Instant) (error : String)

namespace Call

/-- The event that a call records, and its time. -/
def event? : Call → Option (Instant × Event)
  | record now event => some (now, event)
  | drift _ => none
  | undelivered _ _ => none

/-- The line that a call adds to the log if events are numbered from `number` on. -/
def line (session : SessionId) (number : Nat) : Call → String
  | record now event => logLine now (eventText ⟨number, now, session, event⟩)
  | drift now => logLine now (warningText driftText)
  | undelivered now error => logLine now ("TELEMETRY_ERROR error=" ++ error)

/-- The number of the next event after a call. -/
def next (number : Nat) : Call → Nat
  | record _ _ => number + 1
  | drift _ => number
  | undelivered _ _ => number

/-- Whether a call can come about: what it records is counted, and a failure is told on one
line. -/
def Sound : Call → Prop
  | record now event => now.Valid ∧ event.Countable
  | drift _ => True
  | undelivered _ error => '\n' ∉ error.toList

end Call

namespace Observer

/-- The observer and the disk after a call. -/
def call (o : Observer) (d : Disk) : Call → Observer × Disk
  | .record now event => ((o.record d now event).1, (o.record d now event).2.disk)
  | .drift now => (o, (o.warn d now driftText).disk)
  | .undelivered now error => (o, o.undelivered d now error)

/-- The observer and the disk after a run of calls. -/
def calls (o : Observer) (d : Disk) : List Call → Observer × Disk
  | [] => (o, d)
  | c :: cs => (o.call d c).1.calls (o.call d c).2 cs

/-- What the log holds, which is nothing as long as it is missing. -/
def logged (o : Observer) (d : Disk) : Except DiskFault ByteArray :=
  (d.writable o.logPath).map fun found => found.2.getD .empty

variable {o : Observer} {d : Disk} {before : ByteArray}

/-- A line is added at the end of a log that can be written. -/
theorem logged_append (h : o.logged d = .ok before) (now : Instant) (text : String) :
    ∃ later, o.append d now text = .ok later ∧
      o.logged later = .ok (before ++ (logLine now text ++ "\n").toUTF8) := by
  cases hwritable : d.writable o.logPath with
  | error fault => simp [logged, hwritable, Except.map] at h
  | ok found =>
    obtain ⟨place, old⟩ := found
    obtain ⟨hleads, hslot⟩ := Disk.writable_eq_ok hwritable
    have hbefore : old.getD .empty = before := by simpa [logged, hwritable, Except.map] using h
    subst hbefore
    let later := d.putFile place (old.getD .empty ++ (logLine now text ++ "\n").toUTF8)
    have hdirs : ∀ place, d.root.IsDir place → later.root.IsDir place :=
      fun place hdir => hdir.put hslot _
    have hlater : later.Leads o.logPath place := hleads.of_isDir rfl hdirs
    refine ⟨later, by simp [append, Disk.append, hwritable, later, bind, Except.bind], ?_⟩
    rw [logged, hlater.writable (Node.at?_put_self _)]
    rfl

/-- A call adds its line to the log. -/
theorem logged_call (h : o.logged d = .ok before) (c : Call) :
    (o.call d c).1 = { o with next := c.next o.next } ∧
      o.logged (o.call d c).2 = .ok (before ++ (c.line o.session o.next ++ "\n").toUTF8) := by
  cases c with
  | record now event =>
    obtain ⟨later, hlater, hlogged⟩ :=
      logged_append h now (eventText ⟨o.next, now, o.session, event⟩)
    refine ⟨rfl, ?_⟩
    simp only [call, record, recordEnvelope, hlater]
    exact hlogged
  | drift now =>
    obtain ⟨later, hlater, hlogged⟩ := logged_append h now (warningText driftText)
    refine ⟨rfl, ?_⟩
    simp only [call, warn, hlater]
    exact hlogged
  | undelivered now error =>
    obtain ⟨later, hlater, hlogged⟩ := logged_append h now ("TELEMETRY_ERROR error=" ++ error)
    refine ⟨rfl, ?_⟩
    simp only [call, undelivered, hlater]
    exact hlogged

end Observer

/-! ## Reading a log -/

namespace Log

/-- The lines that calls add to a log if events are numbered from `number` on. -/
def written (session : SessionId) : Nat → List Call → List String
  | _, [] => []
  | number, c :: cs => c.line session number :: written session (c.next number) cs

/-- Lines that are all ended by a line feed. -/
def joined (lines : List String) : String :=
  String.join (lines.map fun line => line ++ "\n")

/-- The lines of a log that a line feed ends. -/
def lines (text : String) : List (List Char) :=
  (text.toList.splitOn '\n').dropLast

/-- What stands behind the time of a line. -/
def said (line : List Char) : List Char :=
  (line.dropWhile fun c => c != ' ').drop 1

/-- The word in front of an event. -/
def eventMark : List Char := "EVENT ".toList

/-- The envelopes of the lines that tell events. -/
def replay (text : String) : List (Except Fault Envelope) :=
  ((lines text).filter fun line => eventMark.isPrefixOf (said line)).map fun line =>
    Reader.ofText Envelope.read (String.ofList ((said line).drop eventMark.length))

theorem splitOn_joined {ls : List String} (h : ∀ l ∈ ls, '\n' ∉ l.toList) :
    (joined ls).toList.splitOn '\n' = ls.map String.toList ++ [[]] := by
  induction ls with
  | nil => rfl
  | cons l ls ih =>
    obtain ⟨hl, hls⟩ := List.forall_mem_cons.1 h
    have htext : (joined (l :: ls)).toList = l.toList ++ '\n' :: (joined ls).toList := by
      simp [joined, String.join_cons]
    have hfeed : (fun c : Char => c == '\n') '\n' = true := rfl
    have hone : l.toList.splitOnP (fun c => c == '\n') = [l.toList] :=
      List.splitOn_eq_singleton hl
    rw [htext]
    refine (List.splitOnP_append_cons (p := fun c => c == '\n') _ _ hfeed).trans ?_
    rw [hone]
    exact congrArg (l.toList :: ·) (ih hls)

theorem lines_joined {ls : List String} (h : ∀ l ∈ ls, '\n' ∉ l.toList) :
    lines (joined ls) = ls.map String.toList := by
  rw [lines, splitOn_joined h, List.dropLast_concat]

variable {session : SessionId} {number : Nat}

/-- No blank stands in the time of a line. -/
theorem not_isBlank_time (now : Instant) :
    ∀ c ∈ (now.text "+00:00").toList, isBlank c = false :=
  now.not_isBlank_text (by simp [isBlank])

/-- Behind the time stands the text of a line. -/
theorem said_logLine (now : Instant) (text : String) :
    said (logLine now text).toList = text.toList := by
  have htime : ∀ c ∈ (now.text "+00:00").toList, (c != ' ') = true := by
    intro c hc
    have hblank := not_isBlank_time now c hc
    exact bne_iff_ne.2 fun heq => absurd (heq ▸ hblank) (by decide)
  have hline : (logLine now text).toList = (now.text "+00:00").toList ++ ' ' :: text.toList := by
    simp [logLine]
  rw [said, hline, List.dropWhile_append_of_pos htime]
  rfl

/-- A line has no line feed if its text has none. -/
theorem newline_not_mem_logLine (now : Instant) {text : String} (h : '\n' ∉ text.toList) :
    '\n' ∉ (logLine now text).toList := by
  have htime : '\n' ∉ (now.text "+00:00").toList :=
    fun hmem => absurd (not_isBlank_time now _ hmem) (by decide)
  simp [logLine, htime, h]

/-- A call adds one line. -/
theorem newline_not_mem_line {c : Call} (h : c.Sound) :
    '\n' ∉ (c.line session number).toList := by
  cases c with
  | record now event =>
    refine newline_not_mem_logLine now ?_
    have hwhole : (Envelope.toJson ⟨number, now, session, event⟩).Whole := Envelope.whole_toJson _
    simp [eventText, hwhole.newline_not_mem_compact]
  | drift now => exact newline_not_mem_logLine now (by decide)
  | undelivered now error =>
    refine newline_not_mem_logLine now ?_
    rw [String.toList_append, List.mem_append, not_or]
    exact ⟨by decide, h⟩

/-- The text of an event is read back. -/
theorem said_record (now : Instant) (event : Event) :
    said ((Call.record now event).line session number).toList =
      eventMark ++ (Envelope.toJson ⟨number, now, session, event⟩).compact.toList := by
  rw [Call.line, said_logLine, eventText, String.toList_append]
  rfl

/-- Only events are told as events. -/
theorem isPrefixOf_said (c : Call) :
    eventMark.isPrefixOf (said (c.line session number).toList) = c.event?.isSome := by
  cases c with
  | record now event =>
    rw [said_record]
    simp [Call.event?]
  | drift now =>
    rw [Call.line, said_logLine]
    rfl
  | undelivered now error =>
    rw [Call.line, said_logLine, String.toList_append]
    rfl

/-- The events of a run with their times. -/
def recorded (cs : List Call) : List (Instant × Event) :=
  cs.filterMap Call.event?

theorem recorded_append (first second : List Call) :
    recorded (first ++ second) = recorded first ++ recorded second :=
  List.filterMap_append

variable (session number)

theorem newline_not_mem_written {cs : List Call} (h : ∀ c ∈ cs, c.Sound) :
    ∀ l ∈ written session number cs, '\n' ∉ l.toList := by
  induction cs generalizing number with
  | nil => exact fun _ hl => absurd hl List.not_mem_nil
  | cons c cs ih =>
    obtain ⟨hc, hcs⟩ := List.forall_mem_cons.1 h
    exact List.forall_mem_cons.2 ⟨newline_not_mem_line hc, ih _ hcs⟩

theorem length_written (cs : List Call) : (written session number cs).length = cs.length := by
  induction cs generalizing number with
  | nil => rfl
  | cons c cs ih => exact congrArg Nat.succ (ih _)

/-- The lines of the events of a run are those of its records, and they are numbered on. -/
theorem replay_written {cs : List Call} (h : ∀ c ∈ cs, c.Sound) :
    replay (joined (written session number cs)) =
      (recorded cs).mapIdx fun k r =>
        Reader.ofText Envelope.read (Envelope.toJson ⟨number + k, r.1, session, r.2⟩).compact := by
  rw [replay, lines_joined (newline_not_mem_written session number h)]
  induction cs generalizing number with
  | nil => rfl
  | cons c cs ih =>
    obtain ⟨-, hcs⟩ := List.forall_mem_cons.1 h
    have hrest := ih (c.next number) hcs
    rw [written, List.map_cons, List.filter_cons, isPrefixOf_said]
    cases c with
    | record now event =>
      have hfirst : String.ofList ((said ((Call.record now event).line session number).toList).drop
          eventMark.length) = (Envelope.toJson ⟨number, now, session, event⟩).compact := by
        rw [said_record, List.drop_left, String.ofList_toList]
      have hnumbers : ∀ k, number + (k + 1) = (Call.record now event).next number + k := by
        intro k
        show number + (k + 1) = number + 1 + k
        omega
      have hevent : (Call.record now event).event?.isSome = true := rfl
      rw [if_pos hevent, List.map_cons, hrest, hfirst]
      show _ = ((now, event) :: recorded cs).mapIdx _
      rw [List.mapIdx_cons]
      simp only [hnumbers]
      rfl
    | drift now => exact hrest
    | undelivered now error => exact hrest

end Log

/-! ## The log of a run -/

/-- A run of calls adds its lines to the log. -/
theorem Observer.logged_calls {o : Observer} {d : Disk} {before : ByteArray}
    (h : o.logged d = .ok before) (cs : List Call) :
    o.logged (o.calls d cs).2 =
      .ok (before ++ (Log.joined (Log.written o.session o.next cs)).toUTF8) := by
  induction cs generalizing o d before with
  | nil =>
    have hempty : before ++ "".toUTF8 = before := ByteArray.append_empty
    exact h.trans (congrArg Except.ok hempty.symm)
  | cons c cs ih =>
    obtain ⟨ho, hlogged⟩ := logged_call h c
    have hsame : (o.call d c).1.logged = o.logged := by
      rw [ho]
      rfl
    have hrest := ih ((congrFun hsame _).trans hlogged)
    rw [hsame, ho, ByteArray.append_assoc] at hrest
    have htext : Log.joined (Log.written o.session o.next (c :: cs)) =
        (c.line o.session o.next ++ "\n") ++
          Log.joined (Log.written o.session (c.next o.next) cs) := by
      rw [Log.written, Log.joined, List.map_cons, String.join_cons]
      rfl
    have hbytes : ∀ a b : String, (a ++ b).toUTF8 = a.toUTF8 ++ b.toUTF8 :=
      fun _ _ => String.toByteArray_append
    rw [htext, hbytes, calls, ho]
    exact hrest

/-- What becomes of the post of a recorded event is a run of calls as well. -/
theorem Observer.deliver_record {τ : Type} [Transport τ] (o : Observer) (d : Disk) (now : Instant)
    (transport : τ) (event : Event) :
    (o.deliver now transport (o.record d now event).2).2 = (o.calls d [.record now event]).2 ∨
      o.endpoint ≠ none ∧ ∃ error, (o.deliver now transport (o.record d now event).2).2 =
        (o.calls d [.record now event, .undelivered now error]).2 := by
  cases hpost : (o.record d now event).2.post with
  | none =>
    left
    rw [deliver, hpost]
    rfl
  | some post =>
    have hendpoint : o.endpoint ≠ none := by
      intro hnone
      simp only [record, recordEnvelope, hnone, Option.map_none] at hpost
      split at hpost <;> cases hpost
    rw [deliver, hpost]
    dsimp only
    split
    · exact .inl rfl
    · exact .inr ⟨hendpoint, _, rfl⟩

/-- **The log of a run tells the events of the run**: every call adds one line, and the lines of
events are read back as the recorded events in their order, with their times, under the session
of the observer, and numbered from one. -/
theorem log_replays {o : Observer} {d : Disk} {before : ByteArray} {cs : List Call}
    (hnew : o.next = 1) (hlog : o.logged d = .ok before) (hcalls : ∀ c ∈ cs, c.Sound) :
    ∃ text : String, o.logged (o.calls d cs).2 = .ok (before ++ text.toUTF8) ∧
      text.toList.splitOn '\n' = Log.lines text ++ [[]] ∧ (Log.lines text).length = cs.length ∧
      (Log.replay text).length = (Log.recorded cs).length ∧
      ∀ k now event, (Log.recorded cs)[k]? = some (now, event) → k + 1 < Event.limit →
        (Log.replay text)[k]? = some (.ok ⟨k + 1, now, o.session, event⟩) := by
  have hlines := Log.newline_not_mem_written o.session 1 hcalls
  have hreplay := Log.replay_written o.session 1 hcalls
  refine ⟨Log.joined (Log.written o.session 1 cs), hnew ▸ o.logged_calls hlog cs, ?_, ?_, ?_, ?_⟩
  · rw [Log.splitOn_joined hlines, Log.lines_joined hlines]
  · rw [Log.lines_joined hlines, List.length_map, Log.length_written]
  · rw [hreplay, List.length_mapIdx]
  · intro k now event hk hlimit
    have hsound : (Envelope.mk (1 + k) now o.session event).Sound := by
      obtain ⟨c, hc, hevent⟩ := List.mem_filterMap.1 (List.mem_of_getElem? hk)
      have hcall := hcalls c hc
      cases c with
      | record now' event' =>
        cases hevent
        exact ⟨by show 1 + k < _; omega, hcall.1, hcall.2⟩
      | drift now' => cases hevent
      | undelivered now' error => cases hevent
    have hread := (Envelope.rereads hsound).ofText_compact (by decide)
    rw [hreplay, List.getElem?_mapIdx, hk, Option.map_some, hread, Nat.add_comm 1 k]

/-- A failure whose message spans lines, a warning, and a rejection, on a new workspace. -/
theorem log_replays_failure :
    ∃ (o : Observer) (d : Disk) (text : String),
      Observer.start (.empty ["ws"]) "/ws" default ⟨false, none⟩ = .ok (o, d) ∧
      o.logged (o.calls d [.record ⟨0, 0⟩ (.completionFailed 7 "first\nsecond"), .drift ⟨1, 5⟩,
        .record ⟨2, 0⟩ .diffRejected]).2 = .ok (.empty ++ text.toUTF8) ∧
      (Log.lines text).length = 3 ∧
      (Log.replay text)[0]? =
        some (.ok ⟨1, ⟨0, 0⟩, default, .completionFailed 7 "first\nsecond"⟩) ∧
      (Log.replay text)[1]? = some (.ok ⟨2, ⟨2, 0⟩, default, .diffRejected⟩) := by
  have hcalls : ∀ c ∈ [Call.record ⟨0, 0⟩ (.completionFailed 7 "first\nsecond"), .drift ⟨1, 5⟩,
      .record ⟨2, 0⟩ .diffRejected], c.Sound := by
    simp only [List.forall_mem_cons]
    exact ⟨⟨⟨by decide, by decide, .inl (by decide)⟩, show 7 < Event.limit by decide⟩, trivial,
      ⟨⟨by decide, by decide, .inl (by decide)⟩, trivial⟩, fun _ hc => absurd hc List.not_mem_nil⟩
  let o : Observer := ⟨"/ws/.cellpilot/observe.log", default, 1, none, false⟩
  obtain ⟨d, hstart, hlog⟩ : ∃ d, Observer.start (.empty ["ws"]) "/ws" default ⟨false, none⟩ =
      .ok (o, d) ∧ o.logged d = .ok .empty := ⟨_, rfl, by decide +kernel⟩
  obtain ⟨text, htext, -, hlines, -, hevents⟩ := log_replays (o := o) rfl hlog hcalls
  exact ⟨o, d, text, hstart, htext, hlines, hevents 0 _ _ rfl (by decide),
    hevents 1 _ _ rfl (by decide)⟩

/-- A post that fails adds a line of its own: one event was recorded, and the log has two lines. -/
theorem undelivered_adds_line :
    ∃ (o : Observer) (d : Disk) (text : String),
      Observer.start (.empty ["ws"]) "/ws" default ⟨true, some "http://127.0.0.1:1/events"⟩ =
        .ok (o, d) ∧
      o.logged d = .ok .empty ∧ (o.record d ⟨0, 0⟩ .diffRejected).2.fault = none ∧
      o.logged (o.deliver ⟨0, 0⟩ Offline.mk (o.record d ⟨0, 0⟩ .diffRejected).2).2 =
        .ok (.empty ++ text.toUTF8) ∧
      (Log.lines text).length = 2 := by
  let o : Observer :=
    ⟨"/ws/.cellpilot/observe.log", default, 1, some "http://127.0.0.1:1/events", false⟩
  let cs : List Call := [.record ⟨0, 0⟩ .diffRejected,
    .undelivered ⟨0, 0⟩ (Completion.sendingFailed "http://127.0.0.1:1/events")]
  have hcalls : ∀ c ∈ cs, c.Sound := by
    simp only [cs, List.forall_mem_cons]
    exact ⟨⟨⟨by decide, by decide, .inl (by decide)⟩, trivial⟩,
      show '\n' ∉ (Completion.sendingFailed _).toList by decide,
      fun _ hc => absurd hc List.not_mem_nil⟩
  obtain ⟨d, hstart, hlog⟩ : ∃ d, Observer.start (.empty ["ws"]) "/ws" default
      ⟨true, some "http://127.0.0.1:1/events"⟩ = .ok (o, d) ∧ o.logged d = .ok .empty :=
    ⟨_, rfl, by decide +kernel⟩
  have hlines := Log.newline_not_mem_written default 1 hcalls
  obtain ⟨later, hlater, -⟩ :=
    o.logged_append hlog ⟨0, 0⟩ (eventText ⟨1, ⟨0, 0⟩, default, .diffRejected⟩)
  have hrecord : o.recordEnvelope d ⟨0, 0⟩ ⟨1, ⟨0, 0⟩, default, .diffRejected⟩ =
      ⟨later, [], some (telemetryPost "http://127.0.0.1:1/events" ⟨0, 0⟩
        ⟨1, ⟨0, 0⟩, default, .diffRejected⟩), none⟩ := by
    rw [Observer.recordEnvelope, hlater]
    rfl
  have hdisk : (o.deliver ⟨0, 0⟩ Offline.mk (o.record d ⟨0, 0⟩ .diffRejected).2).2 =
      (o.calls d cs).2 := by
    show (o.deliver ⟨0, 0⟩ Offline.mk (o.recordEnvelope d ⟨0, 0⟩ _)).2 = o.undelivered
      (o.recordEnvelope d ⟨0, 0⟩ ⟨1, ⟨0, 0⟩, default, .diffRejected⟩).disk ⟨0, 0⟩ _
    rw [hrecord]
    rfl
  refine ⟨o, d, Log.joined (Log.written default 1 cs), hstart, hlog, ?_, ?_, ?_⟩
  · show (o.recordEnvelope d ⟨0, 0⟩ _).fault = none
    rw [hrecord]
  · rw [hdisk]
    exact o.logged_calls hlog cs
  · rw [Log.lines_joined hlines, List.length_map, Log.length_written]
    rfl

end CellReview.Observe
