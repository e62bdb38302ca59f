import CellReview.Proofs.Review.LastRequest

/-!
# Commands are safe in every state

A command that nothing warrants is ignored and leaves everything as it was.  A command that
asks for something adds a turn, sends the conversation once and takes the answer, so that no
request is outstanding behind it, whatever was outstanding before.

* `Tapped` — a host with the conversations that it sent;
* `Command.Unwarranted`, `Command.Asks` — when a command is ignored, and what it asks else;
* `State.resolve_of_waiting`, `State.resolve_of_idle` — an answer while a request is outstanding,
  and while none is;
* `Seat.execute_ignored_iff`, `Seat.execute_asks` — a command at any host;
* `commands_safe` — **every command and keystroke in every state**.
-/

namespace CellReview.Review

open Chat (ChatMessage Conversation DisplayType)
open Completion (Answer)
open Observe (Event)

/-! ## What is sent -/

/-- A host that keeps the conversations it sends. -/
structure Tapped (σ : Type) where
  host : σ
  sent : List (List ChatMessage)

/-- A seat without the tap at its host. -/
def Seat.untap {σ : Type} (seat : Seat (Tapped σ)) : Seat σ :=
  ⟨seat.state, seat.host.host⟩

instance {σ : Type} [Host σ] : Host (Tapped σ) where
  cell h := Host.cell h.host
  perform h e := { h with host := Host.perform h.host e }
  send h messages :=
    let (host, answer) := Host.send h.host messages
    (⟨host, h.sent ++ [messages]⟩, answer)

namespace Tapped

variable {σ : Type} [Host σ]

/-- Nothing but a request is sent. -/
theorem sent_performed (h : Tapped σ) (effects : List Effect) :
    (effects.foldl Host.perform h).sent = h.sent := by
  induction effects generalizing h with
  | nil => rfl
  | cons e effects ih => exact ih (Host.perform h e)

theorem host_performed (h : Tapped σ) (effects : List Effect) :
    (effects.foldl Host.perform h).host = effects.foldl Host.perform h.host :=
  (List.foldl_hom Tapped.host fun _ _ => rfl).symm

end Tapped

/-! ## Arguments -/

/-- A text has nothing but blanks exactly if nothing is left of it without its outer blanks. -/
theorem Seat.argument_eq_none_iff {arg : Option String} :
    Seat.argument arg = none ↔
      ∀ text, arg = some text → ∀ c ∈ text.toList, isBlank c = true := by
  cases arg with
  | none => simp [Seat.argument]
  | some text =>
    rw [Seat.argument, Option.bind_some]
    by_cases hblank : Text.isBlankText text = true
    · rw [if_pos hblank]
      simpa [Text.isBlankText] using hblank
    · rw [if_neg hblank]
      simpa [Text.isBlankText] using hblank

theorem Seat.argument_eq_some {arg : Option String} {input : String}
    (h : Seat.argument arg = some input) : ∃ text, arg = some text ∧ Text.trim text = input := by
  obtain ⟨text, harg, htext⟩ := Option.bind_eq_some_iff.1 h
  refine ⟨text, harg, ?_⟩
  split at htext
  · exact absurd htext (by simp)
  · exact Option.some.inj htext

namespace Command

/-- Whether nothing warrants a command: a decision without an open proposal, and a task or an
error without a text. -/
def Unwarranted (s : State) (arg : Option String) : Command → Prop
  | .acceptLatest | .rejectLatest => s.proposal = none
  | .sendMessage | .sendDebugError =>
    ∀ text, arg = some text → ∀ c ∈ text.toList, isBlank c = true
  | .sendExplainCode | .clearHistory => False

/-- Whether a command asks the model for something. -/
def asks : Command → Bool
  | .sendMessage | .sendDebugError | .sendExplainCode => true
  | .acceptLatest | .rejectLatest | .clearHistory => false

/-- The conversation with the turn that a command adds.  A task goes on with the conversation;
an error and an explanation begin a new one. -/
inductive Asks (s : State) (cell : Option String) :
    Command → Option String → Conversation → Prop where
  | task (text : String) :
      Asks s cell .sendMessage (some text)
        (s.log.addTurn (s.taskPrompt cell (Text.trim text)) (some (Text.trim text)) .normal)
  | error (text : String) :
      Asks s cell .sendDebugError (some text)
        (s.freshLog.addTurn
          (Chat.debugPrompt s.vars (s.promptCode cell) (Text.trim text) s.settings.codeLanguage)
          (some (Text.trim text)) .debugError)
  | explanation (arg : Option String) :
      Asks s cell .sendExplainCode arg
        (s.freshLog.addTurn (Chat.explainPrompt (s.promptCode cell) s.settings.codeLanguage)
          (some State.explainLabel) .explainCode)

end Command

/-! ## The answer to a request -/

namespace State

/-- An answer to the outstanding request is added to the conversation, and no request is
outstanding any more. -/
theorem resolve_of_waiting {s : State} {cell : Option String} {r : Request} {answer : Answer}
    (hwait : s.inFlight = some r.number) :
    (s.resolve cell r answer).state.log =
        s.log.addAssistant (answerText answer) (answerFailed answer) ∧
      (s.resolve cell r answer).state.inFlight = none := by
  cases answer with
  | error e =>
    rw [resolve_error hwait]
    exact ⟨rfl, rfl⟩
  | ok reply =>
    cases hintent : r.intent with
    | explainOnly =>
      rw [resolve_explained hwait hintent]
      exact ⟨rfl, rfl⟩
    | applyCode =>
      cases hcode : Chat.codeBlock reply.text with
      | none =>
        rw [resolve_noCode hwait hintent hcode]
        exact ⟨rfl, rfl⟩
      | some code =>
        rw [resolve_code hwait hintent hcode, propose_eq]
        exact ⟨rfl, rfl⟩

/-- An answer to the outstanding request is not stale. -/
theorem resolve_ne_stale {s : State} {cell : Option String} {r : Request} {answer : Answer}
    (hwait : s.inFlight = some r.number) (request latest : Nat) :
    (s.resolve cell r answer).answer ≠ .stale request latest := by
  intro hstale
  have happlied : (Result.resolved (s.resolve cell r answer).answer).isApplied = true :=
    isApplied_resolve_iff.2 hwait
  rw [hstale] at happlied
  exact absurd happlied Bool.false_ne_true

/-- Once no request is outstanding, every answer is stale and changes nothing. -/
theorem resolve_of_idle {s : State} (hidle : s.inFlight = none) (cell : Option String)
    (r : Request) (answer : Answer) :
    (s.resolve cell r answer).answer = .stale r.number s.latest ∧
      (s.resolve cell r answer).state = s := by
  rw [resolve_late (by rw [hidle]; exact Option.some_ne_none _ ∘ Eq.symm)]
  exact ⟨rfl, rfl⟩

end State

/-! ## Commands at a host -/

namespace Seat

variable {σ : Type} [Host σ]

/-- The host after the effects of a transition. -/
def hostAfter {α : Type} (seat : Seat σ) (t : Transition α) : σ :=
  t.effects.foldl Host.perform seat.host

/-- A turn is added, the request about it is sent, and its answer is taken. -/
def settle (seat : Seat σ) (t : Transition Request) : Seat σ × Resolution :=
  (seat.follow t).1.complete t.answer

/-- What is sent is the conversation with the turn, behind the effects of the turn. -/
theorem settle_eq (seat : Seat σ) (t : Transition Request) :
    let sent := Host.send (seat.hostAfter t) t.answer.messages
    seat.settle t =
      follow ⟨t.state, sent.1⟩ (t.state.resolve (Host.cell sent.1) t.answer sent.2) := rfl

/-- A command is ignored exactly if nothing warrants it. -/
theorem execute_ignored_iff (seat : Seat σ) (c : Command) (arg : Option String) :
    (seat.execute c arg).2 = .ignored ↔ c.Unwarranted seat.state arg := by
  cases c with
  | acceptLatest =>
    show outcomeOf (seat.state.accept seat.cell).answer = .ignored ↔ seat.state.proposal = none
    cases hopen : seat.state.proposal with
    | none => simp [State.accept, hopen, outcomeOf]
    | some p => simp [State.accept_of_open hopen, outcomeOf]
  | rejectLatest =>
    show outcomeOf seat.state.reject.answer = .ignored ↔ seat.state.proposal = none
    cases hopen : seat.state.proposal with
    | none => simp [State.reject, hopen, outcomeOf]
    | some p => simp [State.reject_of_open hopen, outcomeOf]
  | sendMessage =>
    rw [Command.Unwarranted, ← argument_eq_none_iff]
    cases harg : argument arg <;> simp [execute, harg]
  | sendDebugError =>
    rw [Command.Unwarranted, ← argument_eq_none_iff]
    cases harg : argument arg <;> simp [execute, harg]
  | sendExplainCode => simp [execute, Command.Unwarranted]
  | clearHistory => simp [execute, Command.Unwarranted]

/-- A command that is ignored changes nothing. -/
theorem execute_of_ignored {seat : Seat σ} {c : Command} {arg : Option String}
    (h : (seat.execute c arg).2 = .ignored) : (seat.execute c arg).1 = seat := by
  have hunwarranted := (seat.execute_ignored_iff c arg).1 h
  cases c with
  | acceptLatest =>
    have hclosed : seat.state.proposal = none := hunwarranted
    simp only [execute, act, State.accept, hclosed]
    rfl
  | rejectLatest =>
    have hclosed : seat.state.proposal = none := hunwarranted
    simp only [execute, act, State.reject, hclosed]
    rfl
  | sendMessage =>
    rw [Command.Unwarranted, ← argument_eq_none_iff] at hunwarranted
    simp only [execute, hunwarranted]
  | sendDebugError =>
    rw [Command.Unwarranted, ← argument_eq_none_iff] at hunwarranted
    simp only [execute, hunwarranted]
  | sendExplainCode => exact hunwarranted.elim
  | clearHistory => exact hunwarranted.elim

/-- A command that asks for something adds its turn and has the request about it answered. -/
theorem execute_asks (seat : Seat σ) {c : Command} {arg : Option String} (hasks : c.asks = true)
    (hwarranted : ¬ c.Unwarranted seat.state arg) :
    ∃ kept content shown type intent,
      let t := seat.state.asking kept content shown type intent
        (.messageAppended kept.length .user type)
      Command.Asks seat.state seat.cell c arg t.state.log ∧
        seat.execute c arg = ((seat.settle t).1, .resolved (seat.settle t).2) := by
  cases c with
  | acceptLatest => exact absurd hasks Bool.false_ne_true
  | rejectLatest => exact absurd hasks Bool.false_ne_true
  | clearHistory => exact absurd hasks Bool.false_ne_true
  | sendMessage =>
    rw [Command.Unwarranted, ← argument_eq_none_iff] at hwarranted
    obtain ⟨input, hinput⟩ := Option.ne_none_iff_exists'.1 hwarranted
    obtain ⟨text, rfl, rfl⟩ := argument_eq_some hinput
    refine ⟨_, _, _, .normal, .applyCode, .task text, ?_⟩
    simp only [execute, hinput, ← State.ask_eq_asking]
    rfl
  | sendDebugError =>
    rw [Command.Unwarranted, ← argument_eq_none_iff] at hwarranted
    obtain ⟨error, herror⟩ := Option.ne_none_iff_exists'.1 hwarranted
    obtain ⟨text, rfl, rfl⟩ := argument_eq_some herror
    refine ⟨_, _, _, .debugError, .applyCode, .error text, ?_⟩
    simp only [execute, herror, ← State.ask_eq_asking]
    rfl
  | sendExplainCode =>
    refine ⟨_, _, _, .explainCode, .explainOnly, .explanation arg, ?_⟩
    simp only [execute, ← State.ask_eq_asking]
    rfl

/-- The request about a turn is answered at once: what comes back stands behind the turn, it is
not stale, and no request is outstanding. -/
theorem settle_asking (seat : Seat σ) (kept : Conversation) (content shown : String)
    (type : DisplayType) (intent : Intent) (note : Event) :
    let t := seat.state.asking kept content shown type intent note
    let answer := (Host.send (seat.hostAfter t) t.state.log.modelView).2
    (seat.settle t).1.state.log =
        t.state.log.addAssistant (answerText answer) (answerFailed answer) ∧
      (seat.settle t).1.state.inFlight = none ∧
      ∀ request latest, (seat.settle t).2 ≠ .stale request latest := by
  intro t answer
  have hwait : t.state.inFlight = some t.answer.number := rfl
  obtain ⟨hlog, hidle⟩ := State.resolve_of_waiting hwait
  exact ⟨hlog, hidle, State.resolve_ne_stale hwait⟩

/-- Any other command sends nothing. -/
theorem execute_quiet (seat : Seat (Tapped σ)) {c : Command} (arg : Option String)
    (hquiet : c.asks = false) : (seat.execute c arg).1.host.sent = seat.host.sent := by
  cases c with
  | acceptLatest => exact seat.host.sent_performed _
  | rejectLatest => exact seat.host.sent_performed _
  | clearHistory => exact seat.host.sent_performed _
  | sendMessage => exact absurd hquiet.symm Bool.false_ne_true
  | sendDebugError => exact absurd hquiet.symm Bool.false_ne_true
  | sendExplainCode => exact absurd hquiet.symm Bool.false_ne_true

/-! ### A tap changes nothing -/

theorem follow_untap {α : Type} (seat : Seat (Tapped σ)) (t : Transition α) :
    seat.untap.follow t = ((seat.follow t).1.untap, (seat.follow t).2) := by
  simp only [follow, untap, seat.host.host_performed]

theorem converse_untap (seat : Seat (Tapped σ))
    (op : State → Option String → Transition Request) :
    seat.untap.converse op = ((seat.converse op).1.untap, (seat.converse op).2) := by
  show seat.untap.settle (op seat.state seat.cell) =
    ((seat.settle (op seat.state seat.cell)).1.untap, (seat.settle (op seat.state seat.cell)).2)
  rw [settle_eq, settle_eq, ← follow_untap]
  simp only [hostAfter, untap, Host.send, Host.cell, seat.host.host_performed]

theorem execute_untap (seat : Seat (Tapped σ)) (c : Command) (arg : Option String) :
    seat.untap.execute c arg = ((seat.execute c arg).1.untap, (seat.execute c arg).2) := by
  cases c with
  | acceptLatest => simp only [execute, act, follow_untap]; rfl
  | rejectLatest => simp only [execute, act, follow_untap]; rfl
  | clearHistory => simp only [execute, act, follow_untap]; rfl
  | sendMessage => cases harg : argument arg <;> simp only [execute, harg, converse_untap]
  | sendDebugError => cases harg : argument arg <;> simp only [execute, harg, converse_untap]
  | sendExplainCode => simp only [execute, converse_untap]

end Seat

/-! ## Commands are safe -/

/-- **Commands are safe in every state.**  Whatever state a review is in and whatever host it is
at, a command is ignored exactly if nothing warrants it, and then the review and its host stay
as they were.  Else a task, an error and an explanation add their turn, and exactly one
conversation is sent: the one with this turn, as the model sees it.  Its answer is added behind
the turn and is not stale; no request is outstanding any more, so that every other answer is
stale from then on and changes nothing.  No other command sends anything.  A keystroke runs the
command that it is bound to, without an argument, and is ignored if there is none.  All this
is so for a host whose requests are counted, and counting them changes nothing else. -/
theorem commands_safe {σ : Type} [Host σ] (seat : Seat (Tapped σ)) (c : Command)
    (arg : Option String) :
    let later := seat.execute c arg
    (later.2 = .ignored ↔ c.Unwarranted seat.state arg) ∧
    (later.2 = .ignored → later.1 = seat) ∧
    (later.2 ≠ .ignored → c.asks = true → ∃ log resolution, ∃ effects : List Effect,
      let answer := (Host.send (effects.foldl Host.perform seat.host.host) log.modelView).2
      Command.Asks seat.state seat.cell c arg log ∧
      later.1.host.sent = seat.host.sent ++ [log.modelView] ∧
      later.1.state.log = log.addAssistant (answerText answer) (answerFailed answer) ∧
      later.2 = .resolved resolution ∧
      (∀ request latest, resolution ≠ .stale request latest) ∧
      later.1.state.inFlight = none ∧
      ∀ cell r answer,
        (later.1.state.resolve cell r answer).answer = .stale r.number later.1.state.latest ∧
        (later.1.state.resolve cell r answer).state = later.1.state) ∧
    (c.asks = false → later.1.host.sent = seat.host.sent) ∧
    (∀ (keys : Keymap) (keystroke : String),
      (∀ bound, keys.lookup keystroke = some bound →
        seat.press keys keystroke = seat.execute bound none) ∧
      (keys.lookup keystroke = none → seat.press keys keystroke = (seat, .ignored))) ∧
    seat.untap.execute c arg = (later.1.untap, later.2) := by
  intro later
  refine ⟨seat.execute_ignored_iff c arg, Seat.execute_of_ignored, ?_, seat.execute_quiet arg,
    fun keys keystroke => ⟨?_, ?_⟩, seat.execute_untap c arg⟩
  · intro hnot hasks
    have hwarranted : ¬ c.Unwarranted seat.state arg :=
      fun h => hnot ((seat.execute_ignored_iff c arg).2 h)
    obtain ⟨kept, content, shown, type, intent, hlog, hlater⟩ :=
      seat.execute_asks hasks hwarranted
    obtain ⟨hanswered, hidle, hfresh⟩ :=
      seat.settle_asking kept content shown type intent (.messageAppended kept.length .user type)
    let t := seat.state.asking kept content shown type intent
      (.messageAppended kept.length .user type)
    have hlater : later = ((seat.settle t).1, .resolved (seat.settle t).2) := hlater
    refine ⟨t.state.log, (seat.settle t).2, t.effects, hlog, ?_, ?_, congrArg Prod.snd hlater,
      hfresh, ?_, ?_⟩
    · rw [hlater, Seat.settle_eq, Seat.follow, Tapped.sent_performed]
      show (seat.hostAfter t).sent ++ _ = _
      rw [Seat.hostAfter, Tapped.sent_performed]
      rfl
    · rw [hlater, ← Tapped.host_performed]
      exact hanswered
    · rw [hlater]
      exact hidle
    · intro cell r answer
      rw [hlater]
      exact State.resolve_of_idle hidle cell r answer
  · intro bound hbound
    rw [Seat.press, hbound]
  · intro hnone
    rw [Seat.press, hnone]

/-- While a proposal is open and a second request is outstanding, an explanation is asked for:
one conversation is sent, and the answer to the second request comes too late. -/
theorem commands_safe_explained :
    let ops : List Operation :=
      [.send "double it", .resolve 0 (.ok (.ofText "```\nx = 2\n```")), .send "halve it"]
    let session := (Session.start (.start (some "x = 1") .proposed "a" ["a"]) .standard).run ops
    let seat : Seat (Tapped Bench) := ⟨session.seat.state, ⟨session.seat.host, []⟩⟩
    let later := seat.execute .sendExplainCode none
    seat.state.inFlight = some 2 ∧ seat.state.proposal.isSome = true ∧
    later.1.host.sent.length = 1 ∧ later.1.state.proposal.isSome = true ∧
    ∀ r ∈ session.issued, ∀ cell answer,
      (later.1.state.resolve cell r answer).answer = .stale r.number 3 := by
  intro ops session seat later
  refine ⟨rfl, rfl, ?_⟩
  obtain ⟨-, -, hasked, -⟩ := commands_safe seat .sendExplainCode none
  obtain ⟨log, resolution, effects, -, hsent, -, -, -, -, hstale⟩ :=
    hasked (by simp [Seat.execute]) rfl
  refine ⟨?_, rfl, fun r _ cell answer => (hstale cell r answer).1⟩
  exact (congrArg List.length hsent).trans rfl

end CellReview.Review
