import CellReview.Console.Dialogue
import CellReview.Proofs.Review.Survives
import CellReview.Proofs.Storage.Walk

/-!
# The file of a cell

A desk writes into the file of its cell what a review asks for, and into its log, which is another
file; nothing else changes either.  So what the file holds after a line is told by what became of
the open proposal.

* `Desk.Holds` — the file of the cell, apart from the log;
* `bytesAfter`, `Desk.Holds.performed` — the file behind some effects;
* `Finishes`, `Dialogue.Finishes` — the codes that a command or a line makes final;
* `Turn` — what one line makes of the file and of the open proposal;
* `Desk.Holds.execute`, `Desk.Holds.press`, `Desk.Holds.edit` — commands, keystrokes and edits;
* `Dialogue.perform_turn` — **every line**.
-/

namespace CellReview.Console

open Completion (Transport)
open Observe (Noted Observer)
open Review (Command CommandOutcome Effect Host Keymap Proposal Request Resolution Seat State
  Transition Verdict)

variable {τ : Type}

/-! ## The disk behind a text -/

theorem disk_warnLines (c : Console τ) (texts : List String) :
    (texts.foldl Console.warnLine c).disk = c.disk := by
  induction texts generalizing c with
  | nil => rfl
  | cons text texts ih => exact ih (c.warnLine text)

theorem disk_sayLines (c : Console τ) (texts : List String) :
    (texts.foldl Console.sayLine c).disk = c.disk := by
  induction texts generalizing c with
  | nil => rfl
  | cons text texts ih => exact ih (c.sayLine text)

/-! ## The desk -/

/-- What the file of a cell holds after an effect. -/
def bytesAfter (bytes : ByteArray) : Effect → ByteArray
  | .write code _ => code.toUTF8
  | .render _ | .record _ | .warn _ => bytes

namespace Desk

variable {d : Desk τ} {bytes : ByteArray}

/-- The file of the cell holds the given bytes, and the log is another file. -/
def Holds (d : Desk τ) (bytes : ByteArray) : Prop :=
  ∃ place, d.console.disk.Apart d.path d.observer.logPath place bytes

theorem Holds.readBytes (h : d.Holds bytes) : d.console.disk.readBytes d.path = .ok bytes := by
  obtain ⟨place, h⟩ := h
  exact h.readBytes

/-- The cell holds the text of its file; a file that is no text counts as no cell. -/
theorem Holds.cell_eq (h : d.Holds bytes) : d.cell = String.fromUTF8? bytes := by
  have hread := h.readBytes
  cases htext : String.fromUTF8? bytes <;>
    simp [cell, Disk.readText, hread, htext, bind, Except.bind, Except.toOption]

theorem Holds.write (h : d.Holds bytes) (code : String) : (d.write code).Holds code.toUTF8 := by
  obtain ⟨place, h⟩ := h
  obtain ⟨later, hlater, hapart⟩ := h.write code
  rw [Desk.write, hlater]
  exact ⟨place, hapart⟩

/-- A line that is added to the log, if possible, leaves the file of the cell as it is. -/
theorem apart_append {disk : Disk} {o : Observer} {path : String} {place : Place}
    (h : disk.Apart path o.logPath place bytes) (now : Time.Instant) (text : String) :
    ((o.append disk now text).toOption.getD disk).Apart path o.logPath place bytes := by
  cases happend : o.append disk now text with
  | error fault => exact h
  | ok later => exact h.append happend

theorem apart_recordEnvelope {disk : Disk} {o : Observer} {path : String} {place : Place}
    (h : disk.Apart path o.logPath place bytes) (now : Time.Instant) (e : Observe.Envelope) :
    (o.recordEnvelope disk now e).disk.Apart path o.logPath place bytes := by
  rw [Observer.recordEnvelope]
  split
  · exact h
  · exact h.append ‹_›

variable [Transport τ]

/-- The disk behind an observation is the one behind its delivery. -/
theorem disk_observe (d : Desk τ) (watch : Observer → Observer × Noted) :
    (d.observe watch).console.disk = ((watch d.observer).1.deliver d.console.now
      d.console.transport (watch d.observer).2).2 :=
  disk_warnLines _ _

/-- An observation that leaves the file of the cell as it is does so with its delivery. -/
theorem Holds.observe (h : d.Holds bytes) (watch : Observer → Observer × Noted)
    (hlog : (watch d.observer).1.logPath = d.observer.logPath)
    (hdisk : ∀ place, d.console.disk.Apart d.path d.observer.logPath place bytes →
      (watch d.observer).2.disk.Apart d.path d.observer.logPath place bytes) :
    (d.observe watch).Holds bytes := by
  obtain ⟨place, h⟩ := h
  refine ⟨place, ?_⟩
  have hnoted := hdisk place h
  rw [← hlog] at hnoted
  rw [disk_observe, Observer.deliver]
  split
  · exact hnoted
  · split
    · exact hnoted
    · exact apart_append hnoted _ _

theorem Holds.perform (h : d.Holds bytes) (e : Effect) :
    (Host.perform d e).Holds (bytesAfter bytes e) := by
  cases e with
  | write code isFinal => exact h.write code
  | render lines => exact h
  | record event =>
    exact h.observe (fun o => o.record d.console.disk d.console.now event) rfl
      fun place h => apart_recordEnvelope h _ _
  | warn text =>
    exact h.observe (fun o => (o, o.warn d.console.disk d.console.now text)) rfl
      fun place h => apart_append h _ _

/-- The file behind some effects. -/
theorem Holds.performed (h : d.Holds bytes) (effects : List Effect) :
    (effects.foldl Host.perform d).Holds (effects.foldl bytesAfter bytes) := by
  induction effects generalizing d bytes with
  | nil => exact h
  | cons e effects ih => exact ih (h.perform e)

theorem Holds.send (h : d.Holds bytes) (messages : List Chat.ChatMessage) :
    (Host.send d messages).1.Holds bytes := h

end Desk

/-! ## Turns -/

/-- The text of a file, which is empty if its bytes are no text. -/
def textOf (bytes : ByteArray) : String :=
  (String.fromUTF8? bytes).getD ""

/-- The code that a command makes final: an acceptance the proposed one, and a rejection the one
from before the review. -/
inductive Finishes (s : State) : Command → String → Prop where
  | accept {p : Proposal} (hopen : s.proposal = some p) : Finishes s .acceptLatest p.proposed
  | reject {p : Proposal} (hopen : s.proposal = some p) : Finishes s .rejectLatest p.base

/-- What one line makes of the open proposal and of the file of the cell: nothing, the preview of
a proposal that goes back to the text found before the first one, or a code that is final. -/
inductive Turn (final : String → Prop) (before after : State) (bytes : ByteArray) :
    ByteArray → Prop where
  | quiet (hkept : after.proposal = before.proposal)
      (hsettings : after.settings = before.settings) : Turn final before after bytes bytes
  | preview {p : Proposal} (hopen : after.proposal = some p)
      (hbase : p.base = (before.proposal.map Proposal.base).getD (textOf bytes)) :
      Turn final before after bytes
        (State.previewText after.settings.preview p.proposed p.diff).toUTF8
  | final {code : String} (hclosed : after.proposal = none) (hcode : final code) :
      Turn final before after bytes code.toUTF8

namespace Turn

variable {final : String → Prop} {s before after : State} {bytes later : ByteArray}

theorem mono (h : Turn final before after bytes later) {more : String → Prop}
    (hmore : ∀ code, final code → more code) : Turn more before after bytes later := by
  cases h with
  | quiet hkept hsettings => exact .quiet hkept hsettings
  | preview hopen hbase => exact .preview hopen hbase
  | final hclosed hcode => exact .final hclosed (hmore _ hcode)

/-- Whatever came before without touching the proposal does not count. -/
theorem of_quiet (h : Turn final s after bytes later) (hproposal : s.proposal = before.proposal)
    (hsettings : s.settings = before.settings) : Turn final before after bytes later := by
  cases h with
  | quiet hkept hsame => exact .quiet (hkept.trans hproposal) (hsame.trans hsettings)
  | preview hopen hbase => exact .preview hopen (hproposal ▸ hbase)
  | final hclosed hcode => exact .final hclosed hcode

theorem resolve (s : State) {cell : Option String} (hcell : cell.getD "" = textOf bytes)
    (r : Request) (answer : Completion.Answer) :
    let t := s.resolve cell r answer
    Turn final s t.state bytes (t.effects.foldl bytesAfter bytes) := by
  intro t
  by_cases hwait : s.inFlight = some r.number
  · cases answer with
    | error e =>
      have ht : t = _ := State.resolve_error hwait
      rw [ht]
      exact .quiet rfl rfl
    | ok reply =>
      cases hintent : r.intent with
      | explainOnly =>
        have ht : t = _ := State.resolve_explained hwait hintent
        rw [ht]
        exact .quiet rfl rfl
      | applyCode =>
        cases hcode : Chat.codeBlock reply.text with
        | none =>
          have ht : t = _ := State.resolve_noCode hwait hintent hcode
          rw [ht]
          exact .quiet rfl rfl
        | some code =>
          have ht : t = _ := State.resolve_code hwait hintent hcode
          rw [ht, State.propose_eq]
          refine .preview (p := (s.addReply reply.text false).nextProposal cell code) rfl ?_
          rw [← hcell]
          rfl
  · have ht : t = _ := State.resolve_late hwait
    rw [ht]
    exact .quiet rfl rfl

theorem accept (s : State) (cell : Option String) :
    let t := s.accept cell
    Turn (Finishes s .acceptLatest) s t.state bytes (t.effects.foldl bytesAfter bytes) := by
  intro t
  cases hopen : s.proposal with
  | none =>
    have ht : t = ⟨s, [], .noPendingDiff⟩ := by
      simp only [t, State.accept, hopen]
    rw [ht]
    exact .quiet rfl rfl
  | some p =>
    have ht : t = _ := State.accept_of_open hopen
    rw [ht, List.foldl_append]
    exact .final rfl (.accept hopen)

theorem reject (s : State) :
    Turn (Finishes s .rejectLatest) s s.reject.state bytes
      (s.reject.effects.foldl bytesAfter bytes) := by
  cases hopen : s.proposal with
  | none =>
    have ht : s.reject = ⟨s, [], .noPendingDiff⟩ := by
      simp only [State.reject, hopen]
    rw [ht]
    exact .quiet rfl rfl
  | some p =>
    rw [State.reject_of_open hopen]
    exact .final rfl (.reject hopen)

theorem applyReply (s : State) (index : Nat) :
    Turn (s.replyCode? index = some ·) s (s.applyReply index).state bytes
      ((s.applyReply index).effects.foldl bytesAfter bytes) := by
  rw [State.applyReply]
  split
  · exact .quiet rfl rfl
  · exact .final rfl ‹_›

end Turn

namespace Desk.Holds

variable [Transport τ] {final : String → Prop} {seat : Seat (Desk τ)} {bytes : ByteArray}

/-- The file behind a transition. -/
theorem follow {α : Type} (h : seat.host.Holds bytes) {t : Transition α}
    (ht : Turn final seat.state t.state bytes (t.effects.foldl bytesAfter bytes)) :
    ∃ later, (seat.follow t).1.host.Holds later ∧
      Turn final seat.state (seat.follow t).1.state bytes later :=
  ⟨_, h.performed t.effects, ht⟩

/-- A turn of the conversation and its answer. -/
theorem settle (h : seat.host.Holds bytes) (kept : Chat.Conversation) (content shown : String)
    (type : Chat.DisplayType) (intent : Review.Intent) (note : Observe.Event) :
    let t := seat.state.asking kept content shown type intent note
    ∃ later, (seat.settle t).1.host.Holds later ∧
      Turn final seat.state (seat.settle t).1.state bytes later := by
  intro t
  have hafter : (seat.hostAfter t).Holds bytes := h.performed t.effects
  have hsent := hafter.send t.answer.messages
  have hcell : (Host.cell (Host.send (seat.hostAfter t) t.answer.messages).1).getD "" =
      textOf bytes := congrArg (·.getD "") hsent.cell_eq
  let asked : Seat (Desk τ) := ⟨t.state, (Host.send (seat.hostAfter t) t.answer.messages).1⟩
  have hasked : asked.host.Holds bytes := hsent
  let answer := (Host.send (seat.hostAfter t) t.answer.messages).2
  have hresolved : Turn final t.state (t.state.resolve _ t.answer answer).state bytes
      ((t.state.resolve _ t.answer answer).effects.foldl bytesAfter bytes) :=
    .resolve t.state hcell t.answer answer
  obtain ⟨later, hlater, hturn⟩ := follow hasked hresolved
  exact ⟨later, hlater, hturn.of_quiet rfl rfl⟩

theorem execute (h : seat.host.Holds bytes) (c : Command) (arg : Option String) :
    ∃ later, (seat.execute c arg).1.host.Holds later ∧
      Turn (Finishes seat.state c) seat.state (seat.execute c arg).1.state bytes later := by
  by_cases hignored : (seat.execute c arg).2 = .ignored
  · rw [Review.Seat.execute_of_ignored hignored]
    exact ⟨bytes, h, .quiet rfl rfl⟩
  cases c with
  | acceptLatest => exact h.follow (.accept seat.state seat.cell)
  | rejectLatest => exact h.follow (.reject seat.state)
  | clearHistory => exact ⟨bytes, h.performed _, .quiet rfl rfl⟩
  | sendMessage | sendDebugError | sendExplainCode =>
    obtain ⟨kept, content, shown, type, intent, -, hdone⟩ := seat.execute_asks rfl
      fun hunwarranted => hignored ((seat.execute_ignored_iff _ arg).2 hunwarranted)
    rw [hdone]
    exact h.settle kept content shown type intent _

theorem press (h : seat.host.Holds bytes) (keys : Keymap) (keystroke : String) :
    ∃ later, (seat.press keys keystroke).1.host.Holds later ∧
      Turn (fun code => ∃ c, keys.lookup keystroke = some c ∧ Finishes seat.state c code)
        seat.state (seat.press keys keystroke).1.state bytes later := by
  rw [Review.Seat.press]
  split
  · rename_i c hbound
    obtain ⟨later, hlater, hturn⟩ := h.execute c none
    exact ⟨later, hlater, hturn.mono fun code hcode => ⟨c, hbound, hcode⟩⟩
  · exact ⟨bytes, h, .quiet rfl rfl⟩

theorem edit (h : seat.host.Holds bytes) {index : Nat} {input : String}
    {done : Seat (Desk τ) × Resolution} (hdone : seat.edit index input = .ok done) :
    ∃ later, done.1.host.Holds later ∧ Turn final seat.state done.1.state bytes later := by
  rw [Review.Seat.edit] at hdone
  split at hdone
  · exact absurd hdone (by simp)
  · rename_i t ht
    cases hdone
    obtain ⟨-, rfl⟩ := State.edit_eq_ok ht
    exact h.settle _ _ _ _ _ _

/-- A rejection writes the code from before the review. -/
theorem reject (h : seat.host.Holds bytes) {p : Proposal}
    (hopen : seat.state.proposal = some p) (arg : Option String) :
    (seat.execute .rejectLatest arg).1.host.Holds p.base.toUTF8 ∧
      (seat.execute .rejectLatest arg).1.state.proposal = none := by
  have hlater := h.performed seat.state.reject.effects
  show (seat.state.reject.effects.foldl Host.perform seat.host).Holds _ ∧
    seat.state.reject.state.proposal = none
  rw [State.reject_of_open hopen] at hlater ⊢
  exact ⟨hlater, rfl⟩

end Desk.Holds

/-! ## Lines -/

namespace Dialogue

/-- A dialogue that only printed something. -/
def Told (d later : Dialogue τ) : Prop :=
  ∃ change : Console τ → Console τ, (∀ c, (change c).disk = c.disk) ∧ later = d.onConsole change

variable {d : Dialogue τ}

theorem told_onConsole {change : Console τ → Console τ} (h : ∀ c, (change c).disk = c.disk) :
    d.Told (d.onConsole change) :=
  ⟨change, h, rfl⟩

theorem told_warnLine (d : Dialogue τ) (text : String) : d.Told (d.onConsole (·.warnLine text)) :=
  told_onConsole fun _ => rfl

theorem told_print (event : Json) {text : Console τ → Console τ}
    (h : ∀ c, (text c).disk = c.disk) : d.Told (d.print event text) := by
  refine told_onConsole fun c => ?_
  split
  · rfl
  · exact h c

theorem told_answerResolution (r : Resolution) : d.Told (d.answerResolution r) := by
  cases r with
  | stale request latest => exact ⟨id, fun _ => rfl, rfl⟩
  | transportFailed message => exact told_print _ fun _ => rfl
  | noCodeBlock => exact told_print _ fun _ => rfl
  | explained => exact told_print _ fun _ => rfl
  | proposed superseded inserted deleted => exact told_print _ fun _ => rfl

theorem told_answerVerdict (verdict : Verdict) : d.Told (d.answerVerdict verdict) := by
  cases verdict with
  | accepted drifted => exact told_print _ fun _ => rfl
  | rejected => exact told_print _ fun _ => rfl
  | noPendingDiff => exact told_print _ fun _ => rfl

theorem told_answer (outcome : CommandOutcome) : d.Told (d.answer outcome) := by
  cases outcome with
  | ignored => exact told_print _ fun _ => rfl
  | cleared => exact told_print _ fun _ => rfl
  | reviewed verdict => exact told_answerVerdict verdict
  | resolved r => exact told_answerResolution r

theorem told_answerRefusal (e : Chat.OutOfRange) : d.Told (d.answerRefusal e) :=
  told_print _ fun _ => rfl

theorem told_answerApplied (index : Nat) (written : Bool) :
    d.Told (d.answerApplied index written) :=
  told_print _ fun _ => rfl

theorem told_answerHistory : d.Told d.answerHistory :=
  told_print _ fun c => disk_sayLines c _

/-- What was printed changes neither the review nor the file. -/
theorem Told.seat {later : Dialogue τ} {seat : Seat (Desk τ)} (h : (d.moved seat).Told later) :
    later.seat.state = seat.state ∧
      ∀ {bytes}, seat.host.Holds bytes → later.seat.host.Holds bytes := by
  obtain ⟨change, hchange, rfl⟩ := h
  refine ⟨rfl, ?_⟩
  rintro bytes ⟨place, hplace⟩
  refine ⟨place, ?_⟩
  show (change seat.host.console).disk.Apart _ _ _ _
  rw [hchange]
  exact hplace

theorem Told.turn {final more : String → Prop} {bytes : ByteArray} {later : Dialogue τ}
    {seat : Seat (Desk τ)} (h : (d.moved seat).Told later)
    (hturn : ∃ after, seat.host.Holds after ∧ Turn final d.seat.state seat.state bytes after)
    (hmore : ∀ code, final code → more code) :
    ∃ after, later.seat.host.Holds after ∧
      Turn more d.seat.state later.seat.state bytes after := by
  obtain ⟨hstate, hholds⟩ := h.seat
  obtain ⟨after, hafter, hturn⟩ := hturn
  exact ⟨after, hholds hafter, hstate ▸ hturn.mono hmore⟩

/-- The code that a line makes final: that of its command, that of the command which its keystroke
is bound to, or that of the reply to be applied. -/
inductive Finishes (d : Dialogue τ) : Input → String → Prop where
  | command {c : Command} {code : String} (h : Console.Finishes d.seat.state c code)
      (argument : Option String) : d.Finishes (.command c argument) code
  | key {keystroke : String} {c : Command} {code : String}
      (hbound : d.keys.lookup keystroke = some c) (h : Console.Finishes d.seat.state c code) :
      d.Finishes (.key keystroke) code
  | apply {index : Nat} {code : String} (h : d.seat.state.replyCode? index = some code) :
      d.Finishes (.apply index) code

variable [Transport τ] {bytes : ByteArray}

/-- **Every line leaves the file as it was, writes a preview, or writes a final code.** -/
theorem perform_turn (h : d.seat.host.Holds bytes) (input : Input) :
    ∃ later, (d.perform input).seat.host.Holds later ∧
      Turn (d.Finishes input) d.seat.state (d.perform input).seat.state bytes later := by
  have hquiet : ∃ later, d.seat.host.Holds later ∧
      Turn (d.Finishes input) d.seat.state d.seat.state bytes later :=
    ⟨bytes, h, .quiet rfl rfl⟩
  have hsame : ∀ code, d.Finishes input code → d.Finishes input code := fun _ hcode => hcode
  cases input with
  | nothing => exact hquiet
  | quit => exact hquiet
  | help => exact (d.told_warnLine helpText).turn hquiet hsame
  | invalid message => exact (d.told_warnLine message).turn hquiet hsame
  | history => exact told_answerHistory.turn hquiet hsame
  | command c argument =>
    exact (told_answer _).turn (h.execute c argument) fun _ hcode => .command hcode argument
  | key keystroke =>
    refine (told_answer _).turn (h.press d.keys keystroke) ?_
    rintro code ⟨c, hbound, hcode⟩
    exact .key hbound hcode
  | edit index text =>
    rw [perform]
    split
    · rename_i seat r hedit
      exact (told_answerResolution r).turn (h.edit hedit) hsame
    · exact (told_answerRefusal _).turn hquiet hsame
  | apply index =>
    exact (told_answerApplied index _).turn (h.follow (.applyReply d.seat.state index))
      fun _ hcode => .apply hcode

end Dialogue

end CellReview.Console
