import CellReview.Completion.Script
import CellReview.Proofs.Completion.Answers
import CellReview.Proofs.Review.Commands
import CellReview.Review.Online

/-!
# Failures stay local

A task is sent over the network at most once.  Whatever comes of it, it ends up in the
conversation as one message behind the task: the text of the reply, or the failure in words.  A
failure touches nothing else.

* `Online.host_performed`, `Online.rest_performed` — what effects leave at a host over a network;
* `State.answer_resolve_eq_failed_iff` — an answer is reported as failed exactly if it is one;
* `Untouched`, `Seat.untouched_settle` — what a failure leaves alone;
* `failures_stay_local` — **a task under every key and every exchange**.
-/

namespace CellReview.Review

open Chat (Conversation DisplayType Message)
open Completion (Answer Brought Keyed Metered Script Transport TransportError)

/-! ## The host -/

namespace Online

variable {σ τ : Type} [Host σ] [Transport τ] (h : Online σ τ) (effects : List Effect)

theorem host_performed :
    (effects.foldl Host.perform h).host = effects.foldl Host.perform h.host :=
  (List.foldl_hom Online.host fun _ _ => rfl).symm

/-- Effects do not reach the network. -/
theorem rest_performed :
    (effects.foldl Host.perform h).transport = h.transport ∧
      (effects.foldl Host.perform h).llm = h.llm ∧ (effects.foldl Host.perform h).env = h.env := by
  induction effects generalizing h with
  | nil => exact ⟨rfl, rfl, rfl⟩
  | cons e effects ih => exact ih (Host.perform h e)

end Online

/-! ## The answer -/

/-- An answer to the outstanding request is reported as failed exactly if it is a failure. -/
theorem State.answer_resolve_eq_failed_iff {s : State} {cell : Option String} {r : Request}
    {answer : Answer} (hwait : s.inFlight = some r.number) {message : String} :
    (s.resolve cell r answer).answer = .transportFailed message ↔ answer = .error ⟨message⟩ := by
  cases answer with
  | error e =>
    rw [resolve_error hwait]
    cases e
    simp
  | ok reply =>
    cases hintent : r.intent with
    | explainOnly => simp [resolve_explained hwait hintent]
    | applyCode =>
      cases hcode : Chat.codeBlock reply.text with
      | none => simp [resolve_noCode hwait hintent hcode]
      | some code => simp [resolve_code hwait hintent hcode, propose_eq]

/-- A failed request leaves the proposal alone, and only events come of it. -/
theorem State.resolve_failed {s : State} {r : Request} (hwait : s.inFlight = some r.number)
    (cell : Option String) (e : TransportError) :
    (s.resolve cell r (.error e)).state.proposal = s.proposal ∧
      ∃ first second, (s.resolve cell r (.error e)).effects = [.record first, .record second] := by
  rw [resolve_error hwait]
  exact ⟨rfl, _, _, rfl⟩

/-- Events leave the cell, the frames and the notebook as they are. -/
theorem Bench.performAll_records (b : Bench) (first second : Observe.Event) :
    (b.performAll [.record first, .record second]).cell = b.cell ∧
      (b.performAll [.record first, .record second]).frames = b.frames ∧
      (b.performAll [.record first, .record second]).notebook = b.notebook := by
  rw [cell_performAll, frames_performAll, notebook_performAll]
  exact ⟨rfl, List.append_nil _, rfl⟩

/-! ## A task over the network -/

/-- The request about a turn is completed over the network, and its answer is taken. -/
theorem Seat.settle_online {σ τ : Type} [Host σ] [Transport τ] (seat : Seat (Online σ τ))
    (t : Transition Request) :
    let done := Completion.complete seat.host.transport seat.host.llm seat.host.env
      t.answer.messages
    let host := t.effects.foldl Host.perform seat.host.host
    let u := t.state.resolve (Host.cell host) t.answer done.2
    (seat.settle t).1.state = u.state ∧ (seat.settle t).2 = u.answer ∧
      (seat.settle t).1.host.transport = done.1 ∧
      (seat.settle t).1.host.host = u.effects.foldl Host.perform host := by
  intro done host u
  obtain ⟨htransport, hllm, henv⟩ := seat.host.rest_performed t.effects
  have hhost : (seat.hostAfter t).host = host := seat.host.host_performed t.effects
  have hsent : Host.send (seat.hostAfter t) t.answer.messages =
      ({ seat.hostAfter t with transport := done.1 }, done.2) := by
    show (_, _) = _
    simp only [hostAfter, htransport, hllm, henv]
    rfl
  have hcell : Host.cell (Host.send (seat.hostAfter t) t.answer.messages).1 = Host.cell host := by
    rw [hsent, ← hhost]
    rfl
  rw [settle_eq, hcell, hsent]
  let answered : Online σ τ := { seat.hostAfter t with transport := done.1 }
  exact ⟨rfl, rfl, (answered.rest_performed u.effects).1,
    (answered.host_performed u.effects).trans (congrArg (u.effects.foldl Host.perform) hhost)⟩

/-- Nothing that a review has beside its conversation is touched. -/
structure Untouched {τ : Type} (later seat : Seat (Online Bench τ)) : Prop where
  cell : later.host.host.cell = seat.host.host.cell
  frames : later.host.host.frames = seat.host.host.frames
  notebook : later.host.host.notebook = seat.host.host.notebook
  proposal : later.state.proposal = seat.state.proposal

/-- A failure of the request about a turn touches nothing else. -/
theorem Seat.untouched_settle {τ : Type} [Transport τ] (seat : Seat (Online Bench τ))
    (kept : Conversation) (content shown : String) (type : DisplayType) (intent : Intent)
    {e : TransportError} :
    let t := seat.state.asking kept content shown type intent
      (.messageAppended kept.length .user type)
    (Completion.complete seat.host.transport seat.host.llm seat.host.env
      t.answer.messages).2 = .error e → Untouched (seat.settle t).1 seat := by
  intro t he
  obtain ⟨hstate, -, -, hhost⟩ := seat.settle_online t
  have hwait : t.state.inFlight = some t.answer.number := rfl
  obtain ⟨hproposal, first, second, heffects⟩ := State.resolve_failed hwait
    (Host.cell (t.effects.foldl Host.perform seat.host.host)) e
  rw [he] at hstate hhost
  rw [heffects] at hhost
  obtain ⟨hcell, hframes, hnotebook⟩ :=
    Bench.performAll_records (seat.host.host.performAll t.effects) first second
  obtain ⟨hcell', hframes', hnotebook'⟩ := Bench.performAll_records seat.host.host
    (.messageAppended kept.length .user type)
    (.completionRequested t.answer.number t.state.log.length)
  refine ⟨?_, ?_, ?_, ?_⟩
  · rw [hhost]
    exact hcell.trans hcell'
  · rw [hhost]
    exact hframes.trans hframes'
  · rw [hhost]
    exact hnotebook.trans hnotebook'
  · rw [hstate]
    exact hproposal

/-- **Failures stay local.**  Whatever state a review is in, a task that is not blank is carried
over the network at most once, and not at all exactly if there is no key for it.  The
conversation grows by two messages, the task and what came of it, and no request is outstanding
then.  If the exchange brought a reply, its text is the second message as it is, and the task
did not fail.  Else the task failed with a message, which is the second message and marked as a
failure; the cell with its writes, the frames, the notebook and an open proposal stay as they
were. -/
theorem failures_stay_local {τ : Type} [Transport τ] (seat : Seat (Online Bench (Metered τ)))
    (input : String) (hinput : ∃ c ∈ input.toList, isBlank c = false) :
    let later := seat.execute .sendMessage (some input)
    let log := seat.state.log
    let task : Message := ⟨.user, seat.state.taskPrompt seat.cell (Text.trim input),
      some (Text.trim input), .normal, log.length⟩
    ∃ carried resolution text type,
      later.1.host.transport.carried = seat.host.transport.carried ++ carried ∧
      carried.length ≤ 1 ∧ (carried = [] ↔ ¬ Keyed seat.host.llm seat.host.env) ∧
      later.2 = .resolved resolution ∧ later.1.state.inFlight = none ∧
      later.1.state.log.messages =
        log.messages ++ [task, ⟨.assistant, text, none, type, log.length + 1⟩] ∧
      (∀ content, Brought content carried →
        text = content ∧ type = .normal ∧ ∀ message, resolution ≠ .transportFailed message) ∧
      ((∀ content, ¬ Brought content carried) →
        resolution = .transportFailed text ∧ text ≠ "" ∧ type = .connectionError ∧
        Untouched later.1 seat) := by
  intro later log task
  have hwarranted : ¬ Command.Unwarranted seat.state (some input) .sendMessage := by
    intro hblank
    obtain ⟨c, hc, hvisible⟩ := hinput
    exact absurd ((hblank input rfl c hc).symm.trans hvisible) (by simp)
  obtain ⟨kept, content, shown, type, intent, hasks, hlater⟩ :=
    seat.execute_asks rfl hwarranted
  let t := seat.state.asking kept content shown type intent
    (.messageAppended kept.length .user type)
  have hlater : later = ((seat.settle t).1, .resolved (seat.settle t).2) := hlater
  have hwait : t.state.inFlight = some t.answer.number := rfl
  obtain ⟨hstate, hanswer, htransport, -⟩ := seat.settle_online t
  have huntouched : ∀ e, (Completion.complete seat.host.transport seat.host.llm seat.host.env
      t.answer.messages).2 = .error e → Untouched (seat.settle t).1 seat :=
    fun e => seat.untouched_settle kept content shown type intent
  obtain ⟨carried, hcarried, hone, hnone, hbrought, hfailed⟩ := Completion.complete_carries
    seat.host.transport seat.host.llm seat.host.env t.answer.messages
  generalize Completion.complete seat.host.transport seat.host.llm seat.host.env
    t.answer.messages = done at *
  refine ⟨carried, (seat.settle t).2, answerText done.2,
    if answerFailed done.2 then .connectionError else .normal, ?_, hone, hnone,
    congrArg Prod.snd hlater, ?_, ?_, ?_, ?_⟩
  · rw [hlater, htransport, hcarried]
  · rw [hlater, hstate]
    exact (State.resolve_of_waiting hwait).2
  · have htask : t.state.log = log.addTurn task.content task.display .normal := by
      generalize t.state.log = asked at hasks
      cases hasks
      rfl
    rw [hlater, hstate, (State.resolve_of_waiting hwait).1, htask]
    simp [Chat.Conversation.addAssistant, Chat.Conversation.addTurn, Chat.Conversation.push,
      Chat.Conversation.length, task]
  · intro content hcontent
    obtain ⟨reason, hok⟩ := hbrought content hcontent
    rw [hok] at hanswer ⊢
    refine ⟨rfl, rfl, fun message hmessage => ?_⟩
    rw [hanswer, State.answer_resolve_eq_failed_iff hwait] at hmessage
    exact absurd hmessage (by simp)
  · intro hnothing
    obtain ⟨e, he, hmessage⟩ := hfailed hnothing
    rw [he] at hanswer ⊢
    refine ⟨?_, hmessage, rfl, hlater ▸ huntouched e he⟩
    rw [hanswer, State.answer_resolve_eq_failed_iff hwait]
    rfl

/-- A task is sent while a proposal is open, and the connection is closed: the request was carried
once, and the proposal is still open. -/
theorem failures_stay_local_closed :
    let ops : List Operation := [.send "double it", .resolve 0 (.ok (.ofText "```\nx = 2\n```"))]
    let session := (Session.start (.start (some "x = 1") .proposed "a" ["a"]) .standard).run ops
    let llm : LlmSettings := { LlmSettings.standard with apiKey := some "key" }
    let seat : Seat (Online Bench (Metered Script)) :=
      ⟨session.seat.state, ⟨session.seat.host, ⟨⟨[.close], []⟩, []⟩, llm, []⟩⟩
    let later := seat.execute .sendMessage (some "halve it")
    later.1.host.transport.carried.length = 1 ∧
    (∃ message, later.2 = .resolved (.transportFailed message) ∧ message ≠ "") ∧
    later.1.host.host.cell = seat.host.host.cell ∧ seat.state.proposal.isSome = true ∧
    later.1.state.proposal = seat.state.proposal := by
  intro ops session llm seat later
  obtain ⟨carried, resolution, text, type, hcarried, -, -, hlater, -, -, -, hfailed⟩ :=
    failures_stay_local seat "halve it" ⟨'h', by decide, by decide⟩
  have hclosed : (later.1.host.transport.carried.map fun c => c.2.isOk) = [false] := by
    decide +kernel
  have hnone : ∀ content, ¬ Brought content carried := by
    rintro content ⟨_, _, rfl, hreplies⟩
    rw [hcarried] at hclosed
    cases hreplies
    simp [seat, Except.isOk, Except.toBool] at hclosed
  obtain ⟨rfl, htext, -, huntouched⟩ := hfailed hnone
  refine ⟨?_, ⟨_, hlater, htext⟩, huntouched.cell, rfl, huntouched.proposal⟩
  simpa using congrArg List.length hclosed

end CellReview.Review
