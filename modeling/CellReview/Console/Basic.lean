import CellReview.Completion.Transport
import CellReview.Json.Text
import CellReview.Observe.SessionId
import CellReview.Settings.Environment
import CellReview.Storage.Disk
import CellReview.Time.Instant

/-!
# Consoles

A console is what a task works with: a disk, an environment, a network, a clock, and the
texts that it printed.

* `Print` — a text on one of the two outputs;
* `Console` — the console, with `sayLine`, `warnLine` and `sayJson`;
* `Console.printed` — all that was printed;
* `Console.output`, `Console.errors` — all that went to one output.
-/

namespace CellReview.Console

/-- A text on the standard output or on the error output. -/
inductive Print where
  | say (text : String)
  | warn (text : String)
  deriving DecidableEq, Repr

/-- The text on the standard output. -/
def Print.said? : Print → Option String
  | say text => some text
  | warn _ => none

/-- The text on the error output. -/
def Print.warned? : Print → Option String
  | say _ => none
  | warn text => some text

end CellReview.Console

namespace CellReview

open Console (Print)

/-- What a task works with. -/
structure Console (τ : Type) where
  disk : Disk
  env : Environment
  transport : τ
  now : Time.Instant
  /-- The session of an observer that starts here. -/
  session : Observe.SessionId
  /-- What was printed, the latest text first. -/
  prints : List Print

namespace Console

variable {τ : Type}

/-- Print something. -/
def print (c : Console τ) (p : Print) : Console τ :=
  { c with prints := p :: c.prints }

/-- What was printed, the first text first. -/
def printed (c : Console τ) : List Print :=
  c.prints.reverse

@[simp] theorem printed_print (c : Console τ) (p : Print) :
    (c.print p).printed = c.printed ++ [p] := by
  simp [printed, print]

/-- Print a text. -/
def say (c : Console τ) (text : String) : Console τ :=
  c.print (.say text)

/-- Print a line. -/
def sayLine (c : Console τ) (text : String) : Console τ :=
  c.say (text ++ "\n")

/-- Print a value on a line, its members in order. -/
def sayJson (c : Console τ) (v : Json) : Console τ :=
  c.sayLine v.normal.compact

/-- Print a text on the error output. -/
def warn (c : Console τ) (text : String) : Console τ :=
  c.print (.warn text)

/-- Print a line on the error output. -/
def warnLine (c : Console τ) (text : String) : Console τ :=
  c.warn (text ++ "\n")

/-- All that went to the standard output. -/
def output (c : Console τ) : String :=
  String.join (c.printed.filterMap Print.said?)

/-- All that went to the error output. -/
def errors (c : Console τ) : String :=
  String.join (c.printed.filterMap Print.warned?)

end Console

end CellReview
