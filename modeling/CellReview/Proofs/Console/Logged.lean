import CellReview.Proofs.Console.Left
import CellReview.Proofs.Observe.Log
import CellReview.Proofs.Review.Replay

/-!
# The log of a chat

A desk calls its observer for the events of a review, for the warning of an acceptance and for
posts that failed, and for nothing else; and what it writes into the cell goes into another file
than the log.  So the log of a chat is that of a run of calls, and whoever reads the events in it
knows how the conversation stands.

* `Observer.calls_fst`, `Observer.calls_append` — a run of calls and its parts;
* `Telling`, `Move.telling` — every operation warns of a drift only, and its events tell the state
  behind it;
* `Desk.Logs`, `Desk.Logs.performed` — the calls behind the log of a desk;
* `LogTells`, `LogTells.execute`, `LogTells.press`, `LogTells.edit` — commands, keystrokes and
  edits;
* `log_tells_chat` — **the log of a chat tells how its conversation stands**.
-/

/-! ## Runs of calls -/

namespace CellReview.Observe

/-- Whether a call keeps that a post failed. -/
def Call.isUndelivered : Call → Bool
  | undelivered _ _ => true
  | _ => false

namespace Observer

variable (o : Observer) (d : Disk)

theorem call_fst (c : Call) : (o.call d c).1 = { o with next := c.next o.next } := by
  cases c <;> rfl

/-- Calls change nothing of an observer but the number of its next event. -/
theorem calls_fst (cs : List Call) :
    (o.calls d cs).1 = { o with next := cs.foldl Call.next o.next } := by
  induction cs generalizing o d with
  | nil => rfl
  | cons c cs ih =>
    rw [calls, ih, call_fst]
    rfl

theorem calls_append (first second : List Call) :
    o.calls d (first ++ second) = (o.calls d first).1.calls (o.calls d first).2 second := by
  induction first generalizing o d with
  | nil => rfl
  | cons c cs ih => exact ih _ _

end Observer

end CellReview.Observe

/-! ## What operations tell -/

namespace CellReview.Review

open Observe (driftText eq_driftText_of_mem_accept)

variable {α : Type}

/-- Whether a transition warns of a drift only, and its events lead from what is to be known of the
state before it to what is to be known of the one behind it. -/
structure Telling (s : State) (t : Transition α) : Prop where
  warns : ∀ text, Effect.warn text ∈ t.effects → text = driftText
  events : s.toReplay.run (t.effects.filterMap Effect.event?) = some t.state.toReplay

theorem Move.telling {s : Session} {op : Operation} {t : Transition Result} (h : Move s op t) :
    Telling s.seat.state t where
  warns text htext := by
    cases h with
    | accept hopen =>
      have hmem : Effect.warn text ∈ (s.seat.state.accept s.seat.cell).effects := by
        rw [State.accept_of_open hopen]
        exact htext
      exact eq_driftText_of_mem_accept hmem
    | _ => simp [State.asking, State.issue, State.clear, Transition.map] at htext
  events := h.replay

/-- A session whose review is in a given state, around a given cell. -/
def State.session (s : State) (cell : Option String) (issued : List Request) : Session :=
  ⟨⟨s, .start cell .proposed "" []⟩, issued⟩

/-- Whatever is an operation of a session tells of the state, at every host. -/
theorem telling_of_transition {s : State} {t : Transition α} (f : α → Result)
    (cell : Option String) (issued : List Request) (op : Operation)
    (ht : (s.session cell issued).transition op = t.map f) : Telling s t := by
  have h := ((s.session cell issued).move_transition op).telling
  rw [ht] at h
  exact ⟨h.warns, h.events⟩

end CellReview.Review

/-! ## The log of a desk -/

namespace CellReview.Console

open Completion (Transport)
open Observe (Call Observer driftText)
open Observe.Log (recorded recorded_append)
open Review (Command Effect Host Keymap Replay Request Resolution Seat Session State Telling
  Transition telling_of_transition)

variable {τ : Type} {o : Observer} {start : Disk} {cs : List Call}

namespace Desk

variable {d : Desk τ}

/-- The log of a desk is that of some calls since a disk on which it could be written.  No post
failed if nothing is posted, and the cell is a file apart. -/
structure Logs (d : Desk τ) (o : Observer) (start : Disk) (cs : List Call) : Prop where
  writable : ∃ before, o.logged start = .ok before
  observer : d.observer = (o.calls start cs).1
  logged : o.logged d.console.disk = o.logged (o.calls start cs).2
  posted : ∀ c ∈ cs, c.isUndelivered = true → o.endpoint ≠ none
  apart : ∃ bytes, d.Holds bytes

/-- What is written into the cell stays out of the log. -/
theorem Holds.logged_write {bytes before : ByteArray} (h : d.Holds bytes)
    (hlog : d.observer.logged d.console.disk = .ok before) (code : String) :
    (d.write code).observer = d.observer ∧
      d.observer.logged (d.write code).console.disk = d.observer.logged d.console.disk := by
  obtain ⟨place, h⟩ := h
  obtain ⟨later, hlater, -⟩ := h.write code
  rw [Desk.write, hlater]
  refine ⟨rfl, ?_⟩
  show d.observer.logged later = _
  cases hwritable : d.console.disk.writable d.observer.logPath with
  | error fault => simp [Observer.logged, hwritable, Except.map] at hlog
  | ok found => rw [Observer.logged, Observer.logged, h.writable_write hlater hwritable, hwritable]

namespace Logs

/-- The desk goes on observing the same log. -/
theorem logged_eq (h : d.Logs o start cs) : d.observer.logged = o.logged := by
  rw [h.observer, Observer.calls_fst]
  rfl

theorem exists_logged (h : d.Logs o start cs) :
    ∃ now, d.observer.logged d.console.disk = .ok now ∧
      d.observer.logged (o.calls start cs).2 = .ok now := by
  obtain ⟨before, hbefore⟩ := h.writable
  have hthen := Observer.logged_calls hbefore cs
  rw [h.logged_eq]
  exact ⟨_, h.logged.trans hthen, hthen⟩

/-- More calls. -/
theorem called (h : d.Logs o start cs) {more : List Call} {later : Desk τ}
    (hobserver : later.observer = (d.observer.calls d.console.disk more).1)
    (hlogged : d.observer.logged later.console.disk =
      d.observer.logged (d.observer.calls d.console.disk more).2)
    (hposted : ∀ c ∈ more, c.isUndelivered = true → d.observer.endpoint ≠ none)
    (hapart : ∃ bytes, later.Holds bytes) : later.Logs o start (cs ++ more) where
  writable := h.writable
  observer := by
    rw [hobserver, Observer.calls_append, ← h.observer, Observer.calls_fst, Observer.calls_fst]
  logged := by
    obtain ⟨now, hnow, hthen⟩ := h.exists_logged
    rw [Observer.calls_append, ← h.observer, ← h.logged_eq, hlogged,
      Observer.logged_calls hnow, Observer.logged_calls hthen]
  posted := by
    have hendpoint : d.observer.endpoint = o.endpoint := by
      rw [h.observer, Observer.calls_fst]
    rw [hendpoint] at hposted
    exact List.forall_mem_append.2 ⟨h.posted, hposted⟩
  apart := hapart

variable [Transport τ]

/-- What an effect asks for is done by calls that record its event. -/
theorem perform (h : d.Logs o start cs) {e : Effect}
    (hwarn : ∀ text, e = .warn text → text = driftText) :
    ∃ more, (recorded more).map Prod.snd = e.event?.toList ∧
      (Host.perform d e).Logs o start (cs ++ more) := by
  obtain ⟨bytes, hbytes⟩ := h.apart
  have hapart : ∃ later, (Host.perform d e).Holds later := ⟨_, hbytes.perform e⟩
  cases e with
  | write code isFinal =>
    obtain ⟨now, hnow, -⟩ := h.exists_logged
    obtain ⟨hobserver, hlogged⟩ := hbytes.logged_write hnow code
    exact ⟨[], rfl, h.called hobserver hlogged (fun _ hc => absurd hc List.not_mem_nil) hapart⟩
  | render lines => exact ⟨[], rfl, by rwa [List.append_nil]⟩
  | record event =>
    have hlater := disk_observe d fun o => o.record d.console.disk d.console.now event
    rcases d.observer.deliver_record d.console.disk d.console.now d.console.transport event with
      hdisk | ⟨hendpoint, error, hdisk⟩
    · refine ⟨[.record d.console.now event], rfl, h.called rfl ?_ ?_ hapart⟩
      · exact congrArg _ (hlater.trans hdisk)
      · exact List.forall_mem_singleton.2 fun hfalse => absurd hfalse Bool.false_ne_true
    · refine ⟨[.record d.console.now event, .undelivered d.console.now error], rfl,
        h.called rfl ?_ (fun _ _ _ => hendpoint) hapart⟩
      exact congrArg _ (hlater.trans hdisk)
  | warn text =>
    obtain rfl := hwarn text rfl
    refine ⟨[.drift d.console.now], rfl, h.called rfl ?_ ?_ hapart⟩
    · exact congrArg _ (disk_observe d fun o => (o, o.warn d.console.disk d.console.now driftText))
    · exact List.forall_mem_singleton.2 fun hfalse => absurd hfalse Bool.false_ne_true

/-- The calls by which some effects are done record their events in order. -/
theorem performed (h : d.Logs o start cs) {effects : List Effect}
    (hwarns : ∀ text, Effect.warn text ∈ effects → text = driftText) :
    ∃ more, (recorded more).map Prod.snd = effects.filterMap Effect.event? ∧
      (effects.foldl Host.perform d).Logs o start (cs ++ more) := by
  induction effects generalizing d cs with
  | nil => exact ⟨[], rfl, by rwa [List.append_nil]⟩
  | cons e effects ih =>
    obtain ⟨first, hfirst, h⟩ := h.perform fun text he => hwarns text (he ▸ List.mem_cons_self)
    obtain ⟨rest, hrest, h⟩ := ih h fun text ht => hwarns text (List.mem_cons_of_mem _ ht)
    refine ⟨first ++ rest, ?_, by rwa [← List.append_assoc]⟩
    rw [recorded_append, List.map_append, hfirst, hrest]
    cases e <;> rfl

end Logs

end Desk

/-! ## The log of a review -/

/-- The log of the desk at a seat tells, to whoever knew `known` when it stood on a disk, how the
conversation stands. -/
def LogTells (o : Observer) (start : Disk) (known : Replay) (seat : Seat (Desk τ)) : Prop :=
  ∃ cs, seat.host.Logs o start cs ∧
    known.run ((recorded cs).map Prod.snd) = some seat.state.toReplay

namespace LogTells

variable [Transport τ] {known : Replay} {seat : Seat (Desk τ)}

theorem follow {α : Type} (h : LogTells o start known seat) {t : Transition α}
    (ht : Telling seat.state t) : LogTells o start known (seat.follow t).1 := by
  obtain ⟨cs, hlogs, hknown⟩ := h
  obtain ⟨more, hmore, hlater⟩ := hlogs.performed ht.warns
  refine ⟨cs ++ more, hlater, ?_⟩
  rw [recorded_append, List.map_append, Replay.run_append, hknown, hmore]
  exact ht.events

/-- A request is sent, which leaves the log alone, and its answer is taken. -/
theorem complete (h : LogTells o start known seat) (r : Request) :
    LogTells o start known (seat.complete r).1 := by
  obtain ⟨cs, hlogs, hknown⟩ := h
  let sent := Host.send seat.host r.messages
  have hsent : LogTells o start known ⟨seat.state, sent.1⟩ :=
    ⟨cs, ⟨hlogs.writable, hlogs.observer, hlogs.logged, hlogs.posted, hlogs.apart⟩, hknown⟩
  exact hsent.follow
    (telling_of_transition .resolved (Host.cell sent.1) [r] (.resolve 0 sent.2) rfl)

theorem converse (h : LogTells o start known seat)
    (op : State → Option String → Transition Request)
    (hop : Telling seat.state (op seat.state seat.cell)) :
    LogTells o start known (seat.converse op).1 :=
  (h.follow hop).complete _

theorem execute (h : LogTells o start known seat) (c : Command) (arg : Option String) :
    LogTells o start known (seat.execute c arg).1 := by
  cases c with
  | acceptLatest => exact h.follow (telling_of_transition .decided seat.cell [] .accept rfl)
  | rejectLatest => exact h.follow (telling_of_transition .decided seat.cell [] .reject rfl)
  | clearHistory => exact h.follow (telling_of_transition (fun _ => .done) seat.cell [] .clear rfl)
  | sendExplainCode =>
    exact h.converse State.explain (telling_of_transition .issued seat.cell [] .explain rfl)
  | sendMessage =>
    rw [Seat.execute]
    split
    · exact h
    · rename_i input _
      exact h.converse (fun s cell => s.send cell input)
        (telling_of_transition .issued seat.cell [] (.send input) rfl)
  | sendDebugError =>
    rw [Seat.execute]
    split
    · exact h
    · rename_i error _
      exact h.converse (fun s cell => s.debug cell error)
        (telling_of_transition .issued seat.cell [] (.debug error) rfl)

theorem press (h : LogTells o start known seat) (keys : Keymap) (keystroke : String) :
    LogTells o start known (seat.press keys keystroke).1 := by
  rw [Seat.press]
  split
  · exact h.execute _ _
  · exact h

theorem edit (h : LogTells o start known seat) {index : Nat} {input : String}
    {done : Seat (Desk τ) × Resolution} (hdone : seat.edit index input = .ok done) :
    LogTells o start known done.1 := by
  rw [Seat.edit] at hdone
  split at hdone
  · exact absurd hdone (by simp)
  · rename_i t ht
    cases hdone
    have htelling : Telling seat.state t :=
      telling_of_transition .issued seat.cell [] (.edit index input) (Session.transition_edit ht)
    exact (h.follow htelling).complete _

end LogTells

/-! ## Lines -/

namespace Dialogue

variable {known : Replay} {d : Dialogue τ}

/-- What was printed is not in the log. -/
theorem Told.logTells {later : Dialogue τ} {seat : Seat (Desk τ)} (h : (d.moved seat).Told later)
    (hseat : LogTells o start known seat) : LogTells o start known later.seat := by
  obtain ⟨cs, hlogs, hknown⟩ := hseat
  obtain ⟨bytes, hbytes⟩ := hlogs.apart
  have hheld := h.seat.2 hbytes
  obtain ⟨change, hchange, rfl⟩ := h
  refine ⟨cs, ⟨hlogs.writable, hlogs.observer, ?_, hlogs.posted, bytes, hheld⟩, hknown⟩
  show o.logged (change seat.host.console).disk = _
  rw [hchange]
  exact hlogs.logged

variable [Transport τ]

/-- Every line goes on telling. -/
theorem logTells_perform (h : LogTells o start known d.seat) (input : Input) :
    LogTells o start known (d.perform input).seat := by
  cases input with
  | nothing => exact h
  | quit => exact h
  | help => exact (d.told_warnLine helpText).logTells h
  | invalid message => exact (d.told_warnLine message).logTells h
  | history => exact told_answerHistory.logTells h
  | command c argument => exact (told_answer _).logTells (h.execute c argument)
  | key keystroke => exact (told_answer _).logTells (h.press d.keys keystroke)
  | edit index text =>
    rw [perform]
    split
    · rename_i seat r hedit
      exact (told_answerResolution r).logTells (h.edit hedit)
    · exact (told_answerRefusal _).logTells h
  | apply index =>
    exact (told_answerApplied index _).logTells
      (h.follow (telling_of_transition .applied d.seat.cell [] (.applyReply index) rfl))

theorem logTells_run (h : LogTells o start known d.seat) (lines : List String) :
    LogTells o start known (d.run lines).seat := by
  induction lines generalizing d with
  | nil => exact h
  | cons line lines ih =>
    rw [run]
    by_cases hquit : Input.ofLine line = .quit
    · rw [handle_of_quit hquit]
      exact h
    · rw [handle_of_ne hquit]
      exact ih (logTells_perform h _)

end Dialogue

/-! ## The whole chat -/

variable [Transport τ]

omit [Transport τ] in
/-- A dialogue that was opened has a new conversation, and no event of it is numbered yet. -/
theorem fresh_openDialogue {c : Console τ} {options : Options} {workspace cell : String}
    {d : Dialogue τ} (h : openDialogue c options workspace cell = .ok d) :
    d.seat.state.toReplay = .start ∧ d.seat.host.observer.next = 1 := by
  obtain ⟨s, o, disk, -, -, hstart, hint, rfl⟩ := openDialogue_eq_ok h
  obtain ⟨made, -, hstarted⟩ := bind_eq_ok_iff.1 hstart
  obtain ⟨rfl, rfl⟩ := Prod.mk.inj (Except.ok.inj hstarted)
  exact ⟨rfl, rfl⟩

/-- **The log of a chat tells how its conversation stands.**  Let the program begin to listen with
a log that can be written, let the path of the cell lead to a file and that of the log elsewhere,
and let the user quit or the input end after some lines.  Then the log holds at the end what a run
of calls adds to it, with events that are numbered from one; none of the calls is for a failed
post if nothing is posted.  Each of the recorded events fits to those before it, and a reader of
them knows the length of the conversation, the number of the latest request and whether an answer
is awaited. -/
theorem log_tells_chat (c : Console τ) (arguments : List String) (options : Options)
    (d : Dialogue τ) (hstart : Stage.start c arguments = .listening options d)
    {before bytes : ByteArray}
    (hlogged : d.seat.host.observer.logged d.console.disk = .ok before)
    (hfile : c.disk.readBytes d.seat.host.path = .ok bytes)
    (hlog : ∀ place, d.console.disk.Leads d.seat.host.path place →
      ¬ d.console.disk.Leads d.seat.host.observer.logPath place)
    (input : ByteArray) (lines : List String) (hends : EndsAfter (inputLines input) lines) :
    let o := d.seat.host.observer
    let last := (d.run lines).seat.state
    o.next = 1 ∧ ∃ cs : List Call,
      o.logged (run c arguments input).1.disk = o.logged (o.calls d.console.disk cs).2 ∧
      (∀ call ∈ cs, call.isUndelivered = true → o.endpoint ≠ none) ∧
      Replay.start.run ((recorded cs).map Prod.snd) =
        some ⟨last.log.length, last.latest, last.inFlight.isSome⟩ := by
  intro o last
  obtain ⟨cell, -, hopened⟩ := Stage.start_eq_listening hstart
  obtain ⟨-, -, hgrown⟩ := file_openDialogue hopened
  obtain ⟨hknown, hnext⟩ := fresh_openDialogue hopened
  have hheld : d.seat.host.Holds bytes := d.holds_of_file (hgrown.readBytes hfile) hlog
  have hbegin : LogTells o d.console.disk .start d.seat :=
    ⟨[], ⟨⟨before, hlogged⟩, rfl, rfl, fun _ hc => absurd hc List.not_mem_nil, bytes, hheld⟩,
      congrArg some hknown.symm⟩
  obtain ⟨cs, hlogs, hthen⟩ := Dialogue.logTells_run hbegin lines
  rw [hends.run_eq hstart]
  exact ⟨hnext, cs, hlogs.logged, hlogs.posted, hthen⟩

/-- A proposal is rejected before the user quits: a reader of the log knows that three messages
stand, that one request was made and that its answer came. -/
theorem log_tells_chat_rejected :
    let c : Console Completion.Script :=
      { disk := (Disk.empty ["ws"]).putFile ["ws", "cell.py"] "x = 1".toUTF8
        env := [("OPENAI_API_KEY", "k")]
        transport := ⟨[.reply "```\nx = 2\n```"], []⟩
        now := default
        session := default
        prints := [] }
    let arguments := ["chat", "--cell", "cell.py"]
    let lines := ["double it", "/reject"]
    let input := (Text.joinLines (lines ++ ["/quit", ""])).toUTF8
    ∃ options d, Stage.start c arguments = .listening options d ∧
      let o := d.seat.host.observer
      ∃ cs : List Call,
        o.logged (run c arguments input).1.disk = o.logged (o.calls d.console.disk cs).2 ∧
        (∀ call ∈ cs, call.isUndelivered = false) ∧
        Replay.start.run ((recorded cs).map Prod.snd) = some ⟨3, 1, false⟩ := by
  intro c arguments lines input
  have hends : EndsAfter (inputLines input) lines :=
    ⟨by decide +kernel, .inr ⟨"/quit", [], by decide +kernel, by decide +kernel⟩⟩
  obtain ⟨options, d, hstart, hfacts⟩ := Stage.exists_listening c arguments (fun d =>
    decide (d.seat.host.path = "cell.py" ∧
      (d.console.disk.walk "cell.py").toOption.map Spot.place ≠
        (d.console.disk.walk d.seat.host.observer.logPath).toOption.map Spot.place ∧
      d.seat.host.observer.logged d.console.disk = .ok .empty ∧
      d.seat.host.observer.endpoint = none ∧
      (d.run lines).seat.state.toReplay = ⟨3, 1, false⟩))
    (by decide +kernel)
  obtain ⟨hpath, hplaces, hempty, hendpoint, hlast⟩ := of_decide_eq_true hfacts
  rw [← hpath] at hplaces
  have hfile : c.disk.readBytes d.seat.host.path = .ok "x = 1".toUTF8 := by
    rw [hpath]
    decide +kernel
  obtain ⟨-, cs, hlogged, hposted, hknown⟩ := log_tells_chat c arguments options d hstart hempty
    hfile (Disk.not_leads_of_walk_ne hplaces) input lines hends
  refine ⟨options, d, hstart, cs, hlogged, fun call hcall => ?_, hknown.trans (congrArg some hlast)⟩
  exact Bool.eq_false_iff.2 fun h => hposted call hcall h hendpoint

end CellReview.Console
