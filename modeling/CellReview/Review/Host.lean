import CellReview.Review.Asking
import CellReview.Review.Deciding
import CellReview.Review.Keymap

/-!
# Running commands

A host holds the cell, does what operations ask for and sends requests.

* `Host` — what a host can do;
* `Seat` — a review at its host, with `act` for one operation and `complete` for a
  request that is sent and answered;
* `Seat.execute`, `Seat.press` — commands and keystrokes.
-/

namespace CellReview.Review

open Completion (Answer)
open Chat (ChatMessage OutOfRange)

/-- What holds the cell, does what operations ask for and sends requests. -/
class Host (σ : Type) where
  cell : σ → Option String
  perform : σ → Effect → σ
  send : σ → List ChatMessage → σ × Answer

/-- A review at its host. -/
structure Seat (σ : Type) where
  state : State
  host : σ

/-- What a command comes to. -/
inductive CommandOutcome where
  /-- Nothing warranted the command. -/
  | ignored
  | reviewed (verdict : Verdict)
  | resolved (resolution : Resolution)
  | cleared
  deriving DecidableEq, Repr

namespace Seat

variable {σ α : Type} [Host σ]

/-- What the cell holds. -/
def cell (seat : Seat σ) : Option String :=
  Host.cell seat.host

/-- Take the state of a transition and do what it asks for. -/
def follow (seat : Seat σ) (t : Transition α) : Seat σ × α :=
  (⟨t.state, t.effects.foldl Host.perform seat.host⟩, t.answer)

/-- Run an operation that reads the cell. -/
def act (seat : Seat σ) (op : State → Option String → Transition α) : Seat σ × α :=
  seat.follow (op seat.state seat.cell)

/-- Send a request and take its answer. -/
def complete (seat : Seat σ) (r : Request) : Seat σ × Resolution :=
  let (host, answer) := Host.send seat.host r.messages
  act { seat with host := host } fun s cell => s.resolve cell r answer

/-- Issue a request, send it and take its answer. -/
def converse (seat : Seat σ) (op : State → Option String → Transition Request) :
    Seat σ × Resolution :=
  let (seat, r) := seat.act op
  seat.complete r

/-- Edit a message, send the request and take its answer. -/
def edit (seat : Seat σ) (index : Nat) (input : String) :
    Except OutOfRange (Seat σ × Resolution) :=
  match seat.state.edit seat.cell index input with
  | .error e => .error e
  | .ok t =>
    let (seat, r) := seat.follow t
    .ok (seat.complete r)

/-- The outcome of a verdict. -/
def outcomeOf : Verdict → CommandOutcome
  | .noPendingDiff => .ignored
  | verdict => .reviewed verdict

/-- An argument without its outer blanks, if anything is left. -/
def argument (arg : Option String) : Option String :=
  arg.bind fun text => if Text.isBlankText text then none else some (Text.trim text)

/-- Run a command. -/
def execute (seat : Seat σ) (c : Command) (arg : Option String) : Seat σ × CommandOutcome :=
  let resolved : Seat σ × Resolution → Seat σ × CommandOutcome := fun (seat, r) =>
    (seat, .resolved r)
  match c with
  | .acceptLatest =>
    let (seat, verdict) := seat.act State.accept
    (seat, outcomeOf verdict)
  | .rejectLatest =>
    let (seat, verdict) := seat.act fun s _ => s.reject
    (seat, outcomeOf verdict)
  | .sendMessage =>
    match argument arg with
    | none => (seat, .ignored)
    | some input => resolved (seat.converse fun s cell => s.send cell input)
  | .sendDebugError =>
    match argument arg with
    | none => (seat, .ignored)
    | some error => resolved (seat.converse fun s cell => s.debug cell error)
  | .sendExplainCode => resolved (seat.converse State.explain)
  | .clearHistory =>
    let (seat, _) := seat.act fun s _ => s.clear
    (seat, .cleared)

/-- Run the command that a keystroke is bound to, if there is one. -/
def press (seat : Seat σ) (keys : Keymap) (keystroke : String) : Seat σ × CommandOutcome :=
  match keys.lookup keystroke with
  | some c => seat.execute c none
  | none => (seat, .ignored)

end Seat

end CellReview.Review
