import CellReview.Completion.Client
import CellReview.Console.Basic
import CellReview.Observe.Observer
import CellReview.Review.Host

/-!
# Reviewing a cell in a file

A desk holds the cell of a review in a file.  What is written into the cell goes to the
file at once, previews included; every event goes to the observer.

An observation is over, with its line in the log and its post sent, before the desk does anything
else: there is no thread in the background whose lines could come later, or between two others.
The clock of the console stands still meanwhile.

* `Desk` — the host;
* `Desk.write`, `Desk.observe`, `Desk.perform` — what it does for a review.
-/

namespace CellReview.Console

open Completion (Transport)
open Observe (Observer Noted)
open Review (Effect Host)

/-- A host whose cell is a file. -/
structure Desk (τ : Type) where
  console : Console τ
  /-- The path of the cell. -/
  path : String
  observer : Observer
  llm : LlmSettings

namespace Desk

variable {τ : Type}

/-- What the cell holds; a file that is no text holds nothing. -/
def cell (d : Desk τ) : Option String :=
  (d.console.disk.readText d.path).toOption

/-- Write a code into the cell. -/
def write (d : Desk τ) (code : String) : Desk τ :=
  match d.console.disk.write d.path code with
  | .ok disk => { d with console := { d.console with disk := disk } }
  | .error fault =>
    let warning := "[cellpilot WARN] failed to write " ++ d.path ++ ": " ++ fault.message
    { d with console := d.console.warnLine warning }

/-- What the user is told about an observation. -/
def noticesOf (o : Observer) (n : Noted) : List String :=
  n.notices ++
    match n.fault with
    | some fault => o.notice ("failed to record event: " ++ fault.message)
    | none => []

variable [Transport τ]

/-- Let the observer observe something. -/
def observe (d : Desk τ) (watch : Observer → Observer × Noted) : Desk τ :=
  let (observer, noted) := watch d.observer
  let (transport, disk) := observer.deliver d.console.now d.console.transport noted
  let console := { d.console with transport := transport, disk := disk }
  { d with
    observer := observer
    console := (noticesOf observer noted).foldl Console.warnLine console }

/-- Do what an operation asks for.  A difference is not shown beside a file. -/
def perform (d : Desk τ) : Effect → Desk τ
  | .write code _ => d.write code
  | .render _ => d
  | .record event => d.observe fun o => o.record d.console.disk d.console.now event
  | .warn text => d.observe fun o => (o, o.warn d.console.disk d.console.now text)

instance : Host (Desk τ) where
  cell := cell
  perform := perform
  send d messages :=
    let (transport, answer) :=
      Completion.complete d.console.transport d.llm d.console.env messages
    ({ d with console := { d.console with transport := transport } }, answer)

end Desk

end CellReview.Console
