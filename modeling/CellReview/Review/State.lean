import CellReview.Chat.Conversation
import CellReview.Chat.Prompt
import CellReview.Diff.Unified
import CellReview.Digest.Sha256
import CellReview.Observe.Event
import CellReview.Settings.Config

/-!
# The state of a review

A review holds a conversation about one cell.  At most one request is outstanding, and
at most one proposal is open.  An operation reads the cell, changes the state and
returns what has to be done outside of it.

* `Proposal` — a proposed code with the code it would replace;
* `Request` — an issued request with the conversation it asks about;
* `State` — the review;
* `Effect`, `Transition` — what an operation returns.
-/

namespace CellReview.Review

open Chat (Conversation Message Variable)
open Observe (Event)

/-! ## Proposals and requests -/

/-- A proposal under review.  `base` is the code from before the first proposal of a
chain; a newer proposal takes it over. -/
structure Proposal where
  base : String
  proposed : String
  diff : Diff.UnifiedDiff
  /-- The fingerprint of the preview that was written into the cell. -/
  previewPrint : String
  deriving DecidableEq, Repr

/-- What becomes of the code in a reply. -/
inductive Intent where
  /-- It is proposed for the cell. -/
  | applyCode
  /-- It is only shown. -/
  | explainOnly
  deriving DecidableEq, Repr

/-- The name of an intent. -/
def Intent.name : Intent → String
  | applyCode => "apply_code"
  | explainOnly => "explain_only"

/-- An issued request.  Requests are numbered from one. -/
structure Request where
  number : Nat
  intent : Intent
  snapshot : Conversation
  deriving DecidableEq, Repr

/-- The messages that a request sends. -/
def Request.messages (r : Request) : List Chat.ChatMessage :=
  r.snapshot.modelView

/-! ## The state -/

/-- A review of one cell. -/
structure State where
  settings : ChatSettings
  log : Conversation
  vars : List Variable
  proposal : Option Proposal
  /-- The number of the latest request.  It grows without a bound; a counter of 64 bits agrees with
  it below `2 ^ 64`. -/
  latest : Nat
  /-- The number of the outstanding request. -/
  inFlight : Option Nat
  deriving DecidableEq, Repr

/-- What a review is doing. -/
inductive Phase where
  | idle
  | awaitingResponse
  | reviewing
  deriving DecidableEq, Repr

/-- The name of a phase. -/
def Phase.name : Phase → String
  | idle => "idle"
  | awaitingResponse => "awaiting_response"
  | reviewing => "reviewing"

namespace State

/-- A review that has just begun. -/
def start (settings : ChatSettings) : State where
  settings := settings
  log := .start settings.systemPrompt
  vars := []
  proposal := none
  latest := 0
  inFlight := none

/-- What a review is doing; an outstanding request counts more than an open proposal. -/
def phase (s : State) : Phase :=
  if s.inFlight.isSome then .awaitingResponse
  else if s.proposal.isSome then .reviewing
  else .idle

/-- A review with other variables. -/
def setVariables (s : State) (vars : List Variable) : State :=
  { s with vars := vars }

end State

/-! ## Effects -/

/-- Something that has to be done outside of the review. -/
inductive Effect where
  /-- Write a code into the cell; a preview is not final. -/
  | write (code : String) (isFinal : Bool)
  /-- Show a difference, or show none. -/
  | render (lines : Option (List Diff.Entry))
  /-- Record an event. -/
  | record (event : Event)
  /-- Warn the user. -/
  | warn (text : String)
  deriving DecidableEq, Repr

/-- What an operation returns: the next state, what has to be done, and its answer. -/
structure Transition (α : Type) where
  state : State
  effects : List Effect
  answer : α

/-- The event of a message that was added last. -/
def appended (log : Conversation) : List Effect :=
  match log.messages.getLast? with
  | some m => [.record (.messageAppended m.index m.role m.displayType)]
  | none => []

end CellReview.Review
