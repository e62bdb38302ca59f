import CellReview.Review.State

/-!
# Asking

The operations that issue a request, and the one that gives up on the outstanding one.
A request carries the conversation as it is when the request is issued.

* `State.promptCode` — the code that a model is shown;
* `State.send`, `State.edit` — a task, new or instead of an earlier one;
* `State.debug`, `State.explain` — a new conversation about the cell;
* `State.clear` — a new conversation without a request.
-/

namespace CellReview.Review.State

open Chat (Conversation OutOfRange)

/-- The code that a model is shown: an untouched preview stands for its proposal. -/
def promptCode (s : State) (cell : Option String) : String :=
  let code := cell.getD ""
  match s.proposal with
  | some p => if Digest.fingerprint code = p.previewPrint then p.proposed else code
  | none => code

/-- Issue a request about the conversation. -/
def issue (s : State) (intent : Intent) (before : List Effect) : Transition Request :=
  let number := s.latest + 1
  { state := { s with latest := number, inFlight := some number }
    effects := before ++ [.record (.completionRequested number s.log.length)]
    answer := ⟨number, intent, s.log⟩ }

/-- Add a turn to a conversation and issue a request about it. -/
def ask (s : State) (log : Conversation) (prompt shown : String) (type : Chat.DisplayType)
    (intent : Intent) : Transition Request :=
  let log := log.addTurn prompt (some shown) type
  issue { s with log := log } intent (appended log)

/-- The prompt for a task. -/
def taskPrompt (s : State) (cell : Option String) (input : String) : String :=
  Chat.basicPrompt s.vars (s.promptCode cell) input s.settings.codeLanguage

/-- Ask for a task. -/
def send (s : State) (cell : Option String) (input : String) : Transition Request :=
  s.ask s.log (s.taskPrompt cell input) input .normal .applyCode

/-- Ask for a task in place of an earlier one, dropping what followed it. -/
def edit (s : State) (cell : Option String) (index : Nat) (input : String) :
    Except OutOfRange (Transition Request) :=
  match s.log.replaceTurn index (s.taskPrompt cell input) (some input) .normal with
  | .error e => .error e
  | .ok log =>
    .ok (issue { s with log := log } .applyCode
      [.record (.messageEdited index (s.log.length - index))])

/-- A conversation that has just begun. -/
def freshLog (s : State) : Conversation :=
  .start s.settings.systemPrompt

/-- Ask for a correction in a new conversation. -/
def debug (s : State) (cell : Option String) (error : String) : Transition Request :=
  let prompt := Chat.debugPrompt s.vars (s.promptCode cell) error s.settings.codeLanguage
  s.ask s.freshLog prompt error .debugError .applyCode

/-- What is shown instead of the prompt for an explanation. -/
def explainLabel : String := "Explain this code"

/-- Ask for an explanation in a new conversation. -/
def explain (s : State) (cell : Option String) : Transition Request :=
  let prompt := Chat.explainPrompt (s.promptCode cell) s.settings.codeLanguage
  s.ask s.freshLog prompt explainLabel .explainCode .explainOnly

/-- Begin a new conversation.  An open proposal stays open; an outstanding request is
given up. -/
def clear (s : State) : Transition Unit where
  state := { s with log := s.freshLog, inFlight := none }
  effects := [.record .historyCleared]
  answer := ()

end CellReview.Review.State
