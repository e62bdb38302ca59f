import CellReview.Chat.Fence
import CellReview.Completion.Reply
import CellReview.Review.State

/-!
# Deciding

A reply is added to the conversation, and the code in it is proposed for the cell.  The
user accepts the proposal or rejects it.

* `Resolution`, `State.resolve` — what becomes of an answer;
* `State.propose` — open a proposal, or put it in place of an open one;
* `Verdict`, `State.accept`, `State.reject` — end a review;
* `State.applyReply` — write the code of an earlier reply.
-/

namespace CellReview.Review

open Completion (Answer)

/-- What becomes of an answer. -/
inductive Resolution where
  /-- The request is not outstanding any more; nothing changed. -/
  | stale (request latest : Nat)
  | proposed (superseded : Bool) (inserted deleted : Nat)
  | noCodeBlock
  | transportFailed (message : String)
  | explained
  deriving DecidableEq, Repr

/-- How a review ends. -/
inductive Verdict where
  /-- The cell was edited during the review when `drifted` holds. -/
  | accepted (drifted : Bool)
  | rejected
  | noPendingDiff
  deriving DecidableEq, Repr

namespace State

/-- The text that a proposal puts into the cell until it is decided. -/
def previewText (mode : PreviewMode) (proposed : String) (diff : Diff.UnifiedDiff) : String :=
  match mode with
  | .proposed => proposed
  | .unified => diff.text

/-- Open a proposal.  In place of an open one it keeps the code from before that one. -/
def propose (s : State) (cell : Option String) (request : Nat) (code : String)
    (before : List Effect) : Transition Resolution :=
  let base :=
    match s.proposal with
    | some p => p.base
    | none => cell.getD ""
  let superseded := s.proposal.isSome
  let diff := Diff.UnifiedDiff.compute base code
  let preview := previewText s.settings.preview code diff
  { state := { s with proposal := some ⟨base, code, diff, Digest.fingerprint preview⟩ }
    effects := before ++
      [.write preview false, .render (some diff.lines),
       .record (.diffProposed request diff.insertedCount diff.deletedCount superseded)]
    answer := .proposed superseded diff.insertedCount diff.deletedCount }

/-- Add a reply to the conversation. -/
def addReply (s : State) (text : String) (failed : Bool) : State :=
  { s with log := s.log.addAssistant text failed, inFlight := none }

/-- Take the answer to a request.  Only the outstanding request is answered. -/
def resolve (s : State) (cell : Option String) (r : Request) (answer : Answer) :
    Transition Resolution :=
  if s.inFlight ≠ some r.number then
    ⟨s, [.record (.completionDiscarded r.number s.latest)], .stale r.number s.latest⟩
  else
    match answer with
    | .error e =>
      let s := s.addReply e.message true
      ⟨s, appended s.log ++ [.record (.completionFailed r.number e.message)],
        .transportFailed e.message⟩
    | .ok reply =>
      let s := s.addReply reply.text false
      match r.intent, Chat.codeBlock reply.text with
      | .explainOnly, _ => ⟨s, appended s.log, .explained⟩
      | .applyCode, none =>
        ⟨s, appended s.log ++ [.record (.noCodeBlock r.number)], .noCodeBlock⟩
      | .applyCode, some code => s.propose cell r.number code (appended s.log)

/-- Keep the proposed code and end the review. -/
def accept (s : State) (cell : Option String) : Transition Verdict :=
  match s.proposal with
  | none => ⟨s, [], .noPendingDiff⟩
  | some p =>
    let drifted := cell.map Digest.fingerprint != some p.previewPrint
    let warning :=
      if drifted then
        [.warn "active cell changed during review; accepting the proposal over it"]
      else []
    ⟨{ s with proposal := none },
      warning ++ [.write p.proposed true, .render none, .record (.diffAccepted drifted)],
      .accepted drifted⟩

/-- Restore the code from before the review and end it. -/
def reject (s : State) : Transition Verdict :=
  match s.proposal with
  | none => ⟨s, [], .noPendingDiff⟩
  | some p =>
    ⟨{ s with proposal := none },
      [.write p.base true, .render none, .record .diffRejected], .rejected⟩

/-- The code block of a reply in the conversation. -/
def replyCode? (s : State) (index : Nat) : Option String :=
  (s.log.get? index).bind fun m =>
    if m.role = .assistant then Chat.codeBlock m.content else none

/-- Write the code block of a reply into the cell and end the review.  Nothing changes
if there is none. -/
def applyReply (s : State) (index : Nat) : Transition Bool :=
  match s.replyCode? index with
  | none => ⟨s, [], false⟩
  | some code => ⟨{ s with proposal := none }, [.write code true, .render none], true⟩

end State

end CellReview.Review
