import CellReview.Proofs.Review.Effects

/-!
# What an operation does

An operation changes the state of a review, asks for effects and answers.  `Move` lists
the ways in which that can happen, each with its guard; every statement about a run of a
session rests on that list.

* `Move` — the list;
* `Session.transition`, `Session.after` — the transition of an operation, and the session that a
  transition leaves behind;
* `Session.step_eq_after` — a step is its transition;
* `Session.move_transition`, `Session.exists_move` — every step is one of the moves.
-/

namespace CellReview.Review

open Chat (Conversation Role DisplayType)
open Completion (Reply TransportError)
open Observe (Event)

/-! ## Transitions and their answers -/

/-- A transition with another answer. -/
def Transition.map {α β : Type} (f : α → β) (t : Transition α) : Transition β :=
  ⟨t.state, t.effects, f t.answer⟩

/-- The requests that a result hands out. -/
def Result.requests : Result → List Request
  | .issued r => [r]
  | _ => []

/-- Whether a result is that of an answer which was taken. -/
def Result.isApplied : Result → Bool
  | .resolved (.stale _ _) => false
  | .resolved _ => true
  | _ => false

/-- Whether a result is that of a proposal. -/
def Result.isProposed : Result → Bool
  | .resolved (.proposed _ _ _) => true
  | _ => false

/-- Whether a result is that of a proposal which found none open. -/
def Result.isOpened : Result → Bool
  | .resolved (.proposed false _ _) => true
  | _ => false

/-- Whether a result is that of an operation which found nothing to do for the review. -/
def Result.isIdle : Result → Bool
  | .refused _ | .decided .noPendingDiff | .applied false | .done | .unknown => true
  | _ => false

theorem Result.requests_of_isIdle {result : Result} (h : result.isIdle = true) :
    result.requests = [] := by
  cases result with
  | issued r => exact absurd h (by simp [isIdle])
  | _ => rfl

theorem Result.isApplied_of_isIdle {result : Result} (h : result.isIdle = true) :
    result.isApplied = false := by
  cases result with
  | resolved resolution => exact absurd h (by simp [isIdle])
  | _ => rfl

theorem Result.isProposed_of_isIdle {result : Result} (h : result.isIdle = true) :
    result.isProposed = false := by
  cases result with
  | resolved resolution => exact absurd h (by simp [isIdle])
  | _ => rfl

theorem Result.isOpened_eq_false {result : Result} (h : result.isProposed = false) :
    result.isOpened = false := by
  unfold isOpened
  split
  · exact absurd h (by simp [isProposed])
  · rfl

/-- The events of a message that was pushed. -/
theorem appended_push (c : Conversation) (role : Role) (content : String)
    (display : Option String) (type : DisplayType) :
    appended (c.push role content display type) =
      [.record (.messageAppended c.length role type)] := by
  simp [appended, Conversation.push]

namespace State

/-- The transition of a new turn at the end of `kept`, with the events of the turn first. -/
def asking (s : State) (kept : Conversation) (content shown : String) (type : DisplayType)
    (intent : Intent) (note : Event) : Transition Request :=
  issue { s with log := kept.addTurn content (some shown) type } intent [.record note]

theorem ask_eq_asking (s : State) (kept : Conversation) (content shown : String)
    (type : DisplayType) (intent : Intent) :
    s.ask kept content shown type intent =
      s.asking kept content shown type intent (.messageAppended kept.length .user type) := by
  rw [ask, asking, Conversation.addTurn, appended_push]

/-- An edit that is not refused asks again behind the messages before the edited one. -/
theorem edit_eq_ok {s : State} {cell : Option String} {index : Nat} {input : String}
    {t : Transition Request} (h : s.edit cell index input = .ok t) :
    (∃ m, s.log.get? index = some m ∧ m.role = .user) ∧
      t = s.asking (s.log.truncate index) (s.taskPrompt cell input) input .normal .applyCode
        (.messageEdited index (s.log.length - index)) := by
  unfold edit Conversation.replaceTurn at h
  cases hm : s.log.get? index with
  | none => simp [hm] at h
  | some m =>
    by_cases hu : m.role = .user
    · simp only [hm, if_pos hu, Except.ok.injEq] at h
      exact ⟨⟨m, rfl, hu⟩, h.symm⟩
    · simp [hm, hu] at h

/-- An edit of a turn of the user asks again behind the messages before it. -/
theorem edit_of_user {s : State} {cell : Option String} {index : Nat} {input : String}
    {m : Chat.Message} (hget : s.log.get? index = some m) (hrole : m.role = .user) :
    s.edit cell index input = .ok (s.asking (s.log.truncate index) (s.taskPrompt cell input) input
      .normal .applyCode (.messageEdited index (s.log.length - index))) := by
  unfold edit Conversation.replaceTurn
  simp only [hget, if_pos hrole]
  rfl

/-! ## Deciding -/

/-- The proposal of a code.  It takes over the code from before an open proposal. -/
def nextProposal (s : State) (cell : Option String) (code : String) : Proposal :=
  let base := (s.proposal.map Proposal.base).getD (cell.getD "")
  let diff := Diff.UnifiedDiff.compute base code
  ⟨base, code, diff, Digest.fingerprint (previewText s.settings.preview code diff)⟩

theorem propose_eq (s : State) (cell : Option String) (request : Nat) (code : String)
    (before : List Effect) :
    s.propose cell request code before =
      let p := s.nextProposal cell code
      { state := { s with proposal := some p }
        effects := before ++
          [.write (previewText s.settings.preview code p.diff) false, .render (some p.diff.lines),
            .record (.diffProposed request p.diff.insertedCount p.diff.deletedCount
              s.proposal.isSome)]
        answer := .proposed s.proposal.isSome p.diff.insertedCount p.diff.deletedCount } := by
  unfold propose nextProposal
  cases s.proposal <;> rfl

/-- Whether the cell no longer holds the preview of a proposal. -/
def drifted (cell : Option String) (p : Proposal) : Bool :=
  cell.map Digest.fingerprint != some p.previewPrint

/-- The warning about a cell that was changed during the review. -/
def driftWarning (drifted : Bool) : List Effect :=
  if drifted then
    [.warn "active cell changed during review; accepting the proposal over it"]
  else []

theorem accept_of_open {s : State} {cell : Option String} {p : Proposal}
    (hopen : s.proposal = some p) :
    s.accept cell =
      ⟨{ s with proposal := none },
        driftWarning (drifted cell p) ++
          [.write p.proposed true, .render none, .record (.diffAccepted (drifted cell p))],
        .accepted (drifted cell p)⟩ := by
  unfold accept
  rw [hopen]
  rfl

theorem reject_of_open {s : State} {p : Proposal} (hopen : s.proposal = some p) :
    s.reject =
      ⟨{ s with proposal := none }, [.write p.base true, .render none, .record .diffRejected],
        .rejected⟩ := by
  unfold reject
  rw [hopen]

section Resolve

variable {s : State} {cell : Option String} {r : Request}

theorem appended_addReply (s : State) (text : String) (failed : Bool) :
    appended (s.addReply text failed).log =
      [.record (.messageAppended s.log.length .assistant
        (if failed then .connectionError else .normal))] :=
  appended_push _ _ _ _ _

theorem resolve_late {answer : Completion.Answer} (hlate : s.inFlight ≠ some r.number) :
    s.resolve cell r answer =
      ⟨s, [.record (.completionDiscarded r.number s.latest)], .stale r.number s.latest⟩ := by
  unfold resolve
  rw [if_pos hlate]

theorem resolve_error {e : TransportError} (hwait : s.inFlight = some r.number) :
    s.resolve cell r (.error e) =
      ⟨s.addReply e.message true,
        [.record (.messageAppended s.log.length .assistant .connectionError),
          .record (.completionFailed r.number e.message)], .transportFailed e.message⟩ := by
  unfold resolve
  rw [if_neg (not_not_intro hwait)]
  simp [appended_addReply]

theorem resolve_explained {reply : Reply} (hwait : s.inFlight = some r.number)
    (hintent : r.intent = .explainOnly) :
    s.resolve cell r (.ok reply) =
      ⟨s.addReply reply.text false,
        [.record (.messageAppended s.log.length .assistant .normal)], .explained⟩ := by
  unfold resolve
  rw [if_neg (not_not_intro hwait)]
  simp [appended_addReply, hintent]

theorem resolve_noCode {reply : Reply} (hwait : s.inFlight = some r.number)
    (hintent : r.intent = .applyCode) (hcode : Chat.codeBlock reply.text = none) :
    s.resolve cell r (.ok reply) =
      ⟨s.addReply reply.text false,
        [.record (.messageAppended s.log.length .assistant .normal),
          .record (.noCodeBlock r.number)], .noCodeBlock⟩ := by
  unfold resolve
  rw [if_neg (not_not_intro hwait)]
  simp [appended_addReply, hintent, hcode]

theorem resolve_code {reply : Reply} {code : String} (hwait : s.inFlight = some r.number)
    (hintent : r.intent = .applyCode) (hcode : Chat.codeBlock reply.text = some code) :
    s.resolve cell r (.ok reply) =
      (s.addReply reply.text false).propose cell r.number code
        [.record (.messageAppended s.log.length .assistant .normal)] := by
  unfold resolve
  rw [if_neg (not_not_intro hwait)]
  simp [appended_addReply, hintent, hcode]

/-- An answer is taken for the outstanding request and no other. -/
theorem isApplied_resolve_iff {answer : Completion.Answer} :
    (Result.resolved (s.resolve cell r answer).answer).isApplied = true ↔
      s.inFlight = some r.number := by
  by_cases hwait : s.inFlight = some r.number
  · simp only [hwait, iff_true]
    cases answer with
    | error e => rw [resolve_error hwait, Result.isApplied]; simp
    | ok reply =>
      cases hintent : r.intent with
      | explainOnly => rw [resolve_explained hwait hintent, Result.isApplied]; simp
      | applyCode =>
        cases hcode : Chat.codeBlock reply.text with
        | none => rw [resolve_noCode hwait hintent hcode, Result.isApplied]; simp
        | some code => rw [resolve_code hwait hintent hcode]; rfl
  · simp only [hwait, iff_false]
    rw [resolve_late hwait, Result.isApplied]
    simp

end Resolve

end State

/-! ## The moves -/

/-- The ways in which an operation can change a session. -/
inductive Move (s : Session) : Operation → Transition Result → Prop where
  /-- A turn is added to the conversation, or to a fresh one, and a request is issued. -/
  | ask {op : Operation} {kept : Conversation} (content shown : String) (type : DisplayType)
      (intent : Intent)
      (hop : (∃ input, op = .send input) ∨ (∃ error, op = .debug error) ∨ op = .explain)
      (hkept : kept = s.seat.state.log ∨ kept = s.seat.state.freshLog) :
      Move s op ((s.seat.state.asking kept content shown type intent
        (.messageAppended kept.length .user type)).map .issued)
  /-- A turn is replaced and a request is issued. -/
  | edit {index : Nat} {m : Chat.Message} (input : String)
      (hget : s.seat.state.log.get? index = some m) (hrole : m.role = .user) :
      Move s (.edit index input)
        ((s.seat.state.asking (s.seat.state.log.truncate index)
          (s.seat.state.taskPrompt s.seat.cell input) input .normal .applyCode
          (.messageEdited index (s.seat.state.log.length - index))).map .issued)
  | clear : Move s .clear (s.seat.state.clear.map fun _ => .done)
  /-- An answer comes too late. -/
  | discard {id : Nat} {r : Request} (answer : Completion.Answer) (hr : s.issued[id]? = some r)
      (hlate : s.seat.state.inFlight ≠ some r.number) :
      Move s (.resolve id answer)
        ⟨s.seat.state, [.record (.completionDiscarded r.number s.seat.state.latest)],
          .resolved (.stale r.number s.seat.state.latest)⟩
  /-- The outstanding request failed. -/
  | fail {id : Nat} {r : Request} (e : TransportError) (hr : s.issued[id]? = some r)
      (hwait : s.seat.state.inFlight = some r.number) :
      Move s (.resolve id (.error e))
        ⟨s.seat.state.addReply e.message true,
          [.record (.messageAppended s.seat.state.log.length .assistant .connectionError),
            .record (.completionFailed r.number e.message)],
          .resolved (.transportFailed e.message)⟩
  | explained {id : Nat} {r : Request} (reply : Reply) (hr : s.issued[id]? = some r)
      (hwait : s.seat.state.inFlight = some r.number) (hintent : r.intent = .explainOnly) :
      Move s (.resolve id (.ok reply))
        ⟨s.seat.state.addReply reply.text false,
          [.record (.messageAppended s.seat.state.log.length .assistant .normal)],
          .resolved .explained⟩
  | noCode {id : Nat} {r : Request} (reply : Reply) (hr : s.issued[id]? = some r)
      (hwait : s.seat.state.inFlight = some r.number) (hintent : r.intent = .applyCode)
      (hcode : Chat.codeBlock reply.text = none) :
      Move s (.resolve id (.ok reply))
        ⟨s.seat.state.addReply reply.text false,
          [.record (.messageAppended s.seat.state.log.length .assistant .normal),
            .record (.noCodeBlock r.number)],
          .resolved .noCodeBlock⟩
  | propose {id : Nat} {r : Request} {code : String} (reply : Reply)
      (hr : s.issued[id]? = some r) (hwait : s.seat.state.inFlight = some r.number)
      (hintent : r.intent = .applyCode) (hcode : Chat.codeBlock reply.text = some code) :
      Move s (.resolve id (.ok reply))
        (let now := s.seat.state.addReply reply.text false
         let p := now.nextProposal s.seat.cell code
         { state := { now with proposal := some p }
           effects :=
             [.record (.messageAppended s.seat.state.log.length .assistant .normal),
               .write (State.previewText now.settings.preview code p.diff) false,
               .render (some p.diff.lines),
               .record (.diffProposed r.number p.diff.insertedCount p.diff.deletedCount
                 now.proposal.isSome)]
           answer := .resolved (.proposed now.proposal.isSome p.diff.insertedCount
             p.diff.deletedCount) })
  | accept {p : Proposal} (hopen : s.seat.state.proposal = some p) :
      Move s .accept
        (let drifted := State.drifted s.seat.cell p
         { state := { s.seat.state with proposal := none }
           effects := State.driftWarning drifted ++
             [.write p.proposed true, .render none, .record (.diffAccepted drifted)]
           answer := .decided (.accepted drifted) })
  | reject {p : Proposal} (hopen : s.seat.state.proposal = some p) :
      Move s .reject
        ⟨{ s.seat.state with proposal := none },
          [.write p.base true, .render none, .record .diffRejected], .decided .rejected⟩
  | apply {index : Nat} {code : String} (hcode : s.seat.state.replyCode? index = some code) :
      Move s (.applyReply index)
        ⟨{ s.seat.state with proposal := none }, [.write code true, .render none], .applied true⟩
  /-- Nothing but the variables or, by the user, the cell changes. -/
  | rest {op : Operation} (result : Result) (vars : List Chat.Variable) (hop : op ≠ .clear)
      (hresolve : ∀ id answer, op = .resolve id answer → s.issued[id]? = none)
      (hidle : result.isIdle = true) :
      Move s op ⟨s.seat.state.setVariables vars, [], result⟩

/-! ## Every step is a move -/

/-- What the user does to the cell in an operation. -/
def Operation.touch (b : Bench) : Operation → Bench
  | .userEdit code => { b with cell := b.cell.userEdit code }
  | _ => b

namespace Session

/-- The session that a transition leaves behind. -/
def after (s : Session) (op : Operation) (t : Transition Result) : Session where
  seat := ⟨t.state, (op.touch s.seat.host).performAll t.effects⟩
  issued := s.issued ++ t.answer.requests

theorem after_issued_of_quiet (s : Session) (op : Operation) {t : Transition Result}
    (hquiet : t.answer.requests = []) : (s.after op t).issued = s.issued := by
  rw [after, hquiet, List.append_nil]

/-- What an operation does. -/
def transition (s : Session) : Operation → Transition Result
  | .send input => (s.seat.state.send s.seat.cell input).map .issued
  | .edit index input =>
    match s.seat.state.edit s.seat.cell index input with
    | .error fault => ⟨s.seat.state, [], .refused fault⟩
    | .ok t => t.map .issued
  | .debug error => (s.seat.state.debug s.seat.cell error).map .issued
  | .explain => (s.seat.state.explain s.seat.cell).map .issued
  | .clear => s.seat.state.clear.map fun _ => .done
  | .resolve id answer =>
    match s.issued[id]? with
    | none => ⟨s.seat.state, [], .unknown⟩
    | some r => (s.seat.state.resolve s.seat.cell r answer).map .resolved
  | .accept => (s.seat.state.accept s.seat.cell).map .decided
  | .reject => s.seat.state.reject.map .decided
  | .applyReply index => (s.seat.state.applyReply index).map .applied
  | .setVariables vars => ⟨s.seat.state.setVariables vars, [], .done⟩
  | .userEdit _ => ⟨s.seat.state, [], .done⟩

theorem transition_edit {s : Session} {index : Nat} {input : String} {t : Transition Request}
    (h : s.seat.state.edit s.seat.cell index input = .ok t) :
    s.transition (.edit index input) = t.map .issued := by
  simp only [transition, h]

theorem transition_resolve {s : Session} {id : Nat} {r : Request} (answer : Completion.Answer)
    (hr : s.issued[id]? = some r) :
    s.transition (.resolve id answer) =
      (s.seat.state.resolve s.seat.cell r answer).map .resolved := by
  simp only [transition, hr]

/-- A step is its transition. -/
theorem step_eq_after (s : Session) (op : Operation) :
    s.step op = (s.after op (s.transition op), (s.transition op).answer) := by
  cases op with
  | send input => rfl
  | edit index input =>
    cases h : s.seat.state.edit s.seat.cell index input with
    | error fault => simp [step, transition, h, after, Result.requests, Operation.touch]
    | ok t =>
      simp only [step, transition, h]
      rfl
  | debug error => rfl
  | explain => rfl
  | resolve id answer =>
    cases h : s.issued[id]? with
    | none => simp [step, transition, h, after, Result.requests, Operation.touch]
    | some r =>
      simp only [step, transition, h, after, Transition.map, Result.requests, List.append_nil]
      rfl
  | clear | accept | reject | applyReply index | setVariables vars | userEdit code =>
    simp only [step, transition, after, Transition.map, Result.requests, List.append_nil]
    rfl

theorem step_resolve (s : Session) {id : Nat} {r : Request} (answer : Completion.Answer)
    (hr : s.issued[id]? = some r) :
    s.step (.resolve id answer) =
      (s.after (.resolve id answer) ((s.seat.state.resolve s.seat.cell r answer).map .resolved),
        .resolved (s.seat.state.resolve s.seat.cell r answer).answer) := by
  rw [step_eq_after, transition_resolve answer hr]
  rfl

theorem step_accept (s : Session) {p : Proposal} (hopen : s.seat.state.proposal = some p) :
    s.step .accept =
      (s.after .accept ⟨{ s.seat.state with proposal := none },
        State.driftWarning (State.drifted s.seat.cell p) ++
          [.write p.proposed true, .render none,
            .record (.diffAccepted (State.drifted s.seat.cell p))],
        .decided (.accepted (State.drifted s.seat.cell p))⟩,
        .decided (.accepted (State.drifted s.seat.cell p))) := by
  rw [step_eq_after, transition, State.accept_of_open hopen]
  rfl

theorem step_reject (s : Session) {p : Proposal} (hopen : s.seat.state.proposal = some p) :
    s.step .reject =
      (s.after .reject ⟨{ s.seat.state with proposal := none },
        [.write p.base true, .render none, .record .diffRejected], .decided .rejected⟩,
        .decided .rejected) := by
  rw [step_eq_after, transition, State.reject_of_open hopen]
  rfl

theorem step_accept_of_closed {s : Session} (h : s.seat.state.proposal = none) :
    s.step .accept = (s, .decided .noPendingDiff) := by
  simp only [step, Seat.act, State.accept, h]
  rfl

theorem step_reject_of_closed {s : Session} (h : s.seat.state.proposal = none) :
    s.step .reject = (s, .decided .noPendingDiff) := by
  simp only [step, Seat.act, State.reject, h]
  rfl

/-- The answer to an issued request is discarded, or it settles the request. -/
theorem move_resolve (s : Session) {id : Nat} {r : Request} (answer : Completion.Answer)
    (hr : s.issued[id]? = some r) :
    Move s (.resolve id answer) ((s.seat.state.resolve s.seat.cell r answer).map .resolved) := by
  by_cases hwait : s.seat.state.inFlight = some r.number
  · cases answer with
    | error e =>
      rw [State.resolve_error hwait]
      exact .fail e hr hwait
    | ok reply =>
      cases hintent : r.intent with
      | explainOnly =>
        rw [State.resolve_explained hwait hintent]
        exact .explained reply hr hwait hintent
      | applyCode =>
        cases hcode : Chat.codeBlock reply.text with
        | none =>
          rw [State.resolve_noCode hwait hintent hcode]
          exact .noCode reply hr hwait hintent hcode
        | some code =>
          rw [State.resolve_code hwait hintent hcode, State.propose_eq]
          exact .propose reply hr hwait hintent hcode
  · rw [State.resolve_late hwait]
    exact .discard answer hr hwait

/-- What an operation does is one of the moves. -/
theorem move_transition (s : Session) (op : Operation) : Move s op (s.transition op) := by
  cases op with
  | send input =>
    rw [transition, State.send, State.ask_eq_asking]
    exact .ask _ _ _ _ (.inl ⟨input, rfl⟩) (.inl rfl)
  | edit index input =>
    cases h : s.seat.state.edit s.seat.cell index input with
    | error fault =>
      simp only [transition, h]
      exact .rest (.refused fault) s.seat.state.vars (by simp) (by simp) rfl
    | ok t =>
      obtain ⟨⟨m, hget, hrole⟩, rfl⟩ := State.edit_eq_ok h
      rw [transition_edit h]
      exact .edit input hget hrole
  | debug error =>
    rw [transition, State.debug, State.ask_eq_asking]
    exact .ask _ _ _ _ (.inr (.inl ⟨error, rfl⟩)) (.inr rfl)
  | explain =>
    rw [transition, State.explain, State.ask_eq_asking]
    exact .ask _ _ _ _ (.inr (.inr rfl)) (.inr rfl)
  | clear => exact .clear
  | resolve id answer =>
    cases hr : s.issued[id]? with
    | none =>
      simp only [transition, hr]
      refine .rest .unknown s.seat.state.vars (by simp) (fun _ _ h => ?_) rfl
      cases h
      exact hr
    | some r =>
      rw [transition_resolve answer hr]
      exact s.move_resolve answer hr
  | accept =>
    cases hopen : s.seat.state.proposal with
    | none =>
      simp only [transition, State.accept, hopen]
      exact .rest (.decided .noPendingDiff) s.seat.state.vars (by simp) (by simp) rfl
    | some p =>
      rw [transition, State.accept_of_open hopen]
      exact .accept hopen
  | reject =>
    cases hopen : s.seat.state.proposal with
    | none =>
      simp only [transition, State.reject, hopen]
      exact .rest (.decided .noPendingDiff) s.seat.state.vars (by simp) (by simp) rfl
    | some p =>
      rw [transition, State.reject_of_open hopen]
      exact .reject hopen
  | applyReply index =>
    cases hcode : s.seat.state.replyCode? index with
    | none =>
      simp only [transition, State.applyReply, hcode]
      exact .rest (.applied false) s.seat.state.vars (by simp) (by simp) rfl
    | some code =>
      simp only [transition, State.applyReply, hcode]
      exact .apply hcode
  | setVariables vars => exact .rest .done vars (by simp) (by simp) rfl
  | userEdit code => exact .rest .done s.seat.state.vars (by simp) (by simp) rfl

/-- **Every step is one of the moves.** -/
theorem exists_move (s : Session) (op : Operation) :
    ∃ t, Move s op t ∧ s.step op = (s.after op t, t.answer) :=
  ⟨_, s.move_transition op, s.step_eq_after op⟩

end Session

end CellReview.Review
