import CellReview.Observe.Observer
import CellReview.Review.Host
import CellReview.Review.Notebook

/-!
# A review in memory

A bench holds a cell with the history of its writes, every shown difference, a notebook
with its stripes, queued answers and, if wanted, an observer.

* `MemoryCell`, `AnswerQueue` — the cell and the queued answers;
* `Bench` — the host;
* `Session` — a review at a bench with the requests it issued;
* `Operation`, `Session.step`, `Session.run` — what can happen to it, in any order.
-/

namespace CellReview.Review

open Completion (Answer Reply TransportError)
open Chat (ChatMessage OutOfRange Variable)
open Diff (Entry)
open Observe (Observer)

/-! ## The cell -/

/-- A code that was written, and whether it was final. -/
structure CellWrite where
  code : String
  isFinal : Bool
  deriving DecidableEq, Repr

/-- A cell with the history of its writes; without a code there is no active cell. -/
structure MemoryCell where
  code : Option String
  writes : List CellWrite
  deriving DecidableEq, Repr

namespace MemoryCell

/-- A cell that was not written yet. -/
def start (code : Option String) : MemoryCell := ⟨code, []⟩

/-- Write a code. -/
def write (c : MemoryCell) (code : String) (isFinal : Bool) : MemoryCell :=
  ⟨some code, c.writes ++ [⟨code, isFinal⟩]⟩

/-- Let the user change the code; that is not a write. -/
def userEdit (c : MemoryCell) (code : String) : MemoryCell :=
  { c with code := some code }

/-- The number of final writes. -/
def finalCount (c : MemoryCell) : Nat :=
  (c.writes.filter CellWrite.isFinal).length

end MemoryCell

/-! ## Queued answers -/

/-- Answers that are given in order, with the conversations they answer. -/
structure AnswerQueue where
  answers : List Answer
  requests : List (List ChatMessage)

namespace AnswerQueue

/-- No answers. -/
def empty : AnswerQueue := ⟨[], []⟩

/-- Queue an answer. -/
def push (q : AnswerQueue) (a : Answer) : AnswerQueue :=
  { q with answers := q.answers ++ [a] }

/-- Queue a reply. -/
def pushReply (q : AnswerQueue) (text : String) : AnswerQueue :=
  q.push (.ok (.ofText text))

/-- Queue a failure. -/
def pushError (q : AnswerQueue) (message : String) : AnswerQueue :=
  q.push (.error ⟨message⟩)

/-- Answer a conversation. -/
def send (q : AnswerQueue) (messages : List ChatMessage) : AnswerQueue × Answer :=
  match q.answers with
  | [] => (⟨[], q.requests ++ [messages]⟩, .error ⟨"scripted client has no reply queued"⟩)
  | a :: rest => (⟨rest, q.requests ++ [messages]⟩, a)

end AnswerQueue

/-! ## The bench -/

/-- A host in memory. -/
structure Bench where
  cell : MemoryCell
  /-- What was shown, a missing difference for a clear one. -/
  frames : List (Option (List Entry))
  notebook : Notebook
  queue : AnswerQueue
  observer : Option Observer
  disk : Disk
  now : Time.Instant

namespace Bench

/-- A bench around a cell, for a review with the given previews. -/
def start (code : Option String) (preview : PreviewMode) (active : String)
    (cells : List String) : Bench where
  cell := .start code
  frames := []
  notebook := (Notebook.start active cells).setPreview preview
  queue := .empty
  observer := none
  disk := .empty []
  now := default

/-- Let an observer record something. -/
def observe (b : Bench) (watch : Observer → Observer × Observe.Noted) : Bench :=
  match b.observer with
  | none => b
  | some o =>
    let (o, noted) := watch o
    { b with observer := some o, disk := noted.disk }

/-- Do what an operation asks for. -/
def perform (b : Bench) : Effect → Bench
  | .write code isFinal => { b with cell := b.cell.write code isFinal }
  | .render lines =>
    { b with frames := b.frames ++ [lines], notebook := b.notebook.render lines }
  | .record event => b.observe fun o => o.record b.disk b.now event
  | .warn text => b.observe fun o => (o, o.warn b.disk b.now text)

/-- Whether nothing is shown. -/
def isCleared (b : Bench) : Bool :=
  match b.frames.getLast? with
  | some (some _) => false
  | _ => true

instance : Host Bench where
  cell b := b.cell.code
  perform := perform
  send b messages :=
    let (queue, answer) := b.queue.send messages
    ({ b with queue := queue }, answer)

end Bench

/-! ## Sessions -/

/-- A review at a bench with the requests it issued, the first one first. -/
structure Session where
  seat : Seat Bench
  issued : List Request

/-- Something that can happen to a review. -/
inductive Operation where
  | send (input : String)
  | edit (index : Nat) (input : String)
  | debug (error : String)
  | explain
  | clear
  /-- An answer arrives for one of the issued requests. -/
  | resolve (id : Nat) (answer : Answer)
  | accept
  | reject
  | applyReply (index : Nat)
  | setVariables (vars : List Variable)
  /-- The user changes the cell. -/
  | userEdit (code : String)

/-- What an operation answers. -/
inductive Result where
  | issued (request : Request)
  | refused (fault : OutOfRange)
  | resolved (resolution : Resolution)
  | decided (verdict : Verdict)
  | applied (written : Bool)
  | done
  /-- There is no such request. -/
  | unknown
  deriving DecidableEq, Repr

namespace Session

/-- A review that begins at a bench. -/
def start (bench : Bench) (settings : ChatSettings) : Session :=
  ⟨⟨.start settings, bench⟩, []⟩

/-- Keep an issued request. -/
def keep (s : Session) : Seat Bench × Request → Session × Result
  | (seat, r) => (⟨seat, s.issued ++ [r]⟩, .issued r)

/-- A session whose bench was changed. -/
def onBench (s : Session) (change : Bench → Bench) : Session :=
  { s with seat := { s.seat with host := change s.seat.host } }

/-- Let something happen. -/
def step (s : Session) : Operation → Session × Result
  | .send input => s.keep (s.seat.act fun st cell => st.send cell input)
  | .edit index input =>
    match s.seat.state.edit s.seat.cell index input with
    | .error fault => (s, .refused fault)
    | .ok t => s.keep (s.seat.follow t)
  | .debug error => s.keep (s.seat.act fun st cell => st.debug cell error)
  | .explain => s.keep (s.seat.act State.explain)
  | .clear =>
    let (seat, _) := s.seat.act fun st _ => st.clear
    ({ s with seat := seat }, .done)
  | .resolve id answer =>
    match s.issued[id]? with
    | none => (s, .unknown)
    | some r =>
      let (seat, resolution) := s.seat.act fun st cell => st.resolve cell r answer
      ({ s with seat := seat }, .resolved resolution)
  | .accept =>
    let (seat, verdict) := s.seat.act State.accept
    ({ s with seat := seat }, .decided verdict)
  | .reject =>
    let (seat, verdict) := s.seat.act fun st _ => st.reject
    ({ s with seat := seat }, .decided verdict)
  | .applyReply index =>
    let (seat, written) := s.seat.act fun st _ => st.applyReply index
    ({ s with seat := seat }, .applied written)
  | .setVariables vars =>
    ({ s with seat := { s.seat with state := s.seat.state.setVariables vars } }, .done)
  | .userEdit code =>
    (s.onBench fun b => { b with cell := b.cell.userEdit code }, .done)

/-- Let several things happen in order. -/
def run (s : Session) (ops : List Operation) : Session :=
  ops.foldl (fun s op => (s.step op).1) s

end Session

end CellReview.Review
