import CellReview.Console.Desk
import CellReview.Console.Input
import CellReview.Report.Report

/-!
# The dialogue about a cell

The user types lines; each one is carried out and what came of it is printed, as text or
as one line of JSON.

* `Dialogue` — a review at a desk with its keystrokes;
* `Dialogue.answer` — what is printed about an outcome;
* `Dialogue.handle` — one line;
* `Dialogue.run` — lines until the user quits.
-/

namespace CellReview.Console

open Completion (Transport)
open Review (Command CommandOutcome Keymap Resolution Seat Verdict)

/-- A review at a desk with its keystrokes. -/
structure Dialogue (τ : Type) where
  seat : Seat (Desk τ)
  keys : Keymap
  /-- Print JSON instead of text. -/
  json : Bool

/-- The lines of a difference behind their markers. -/
def markedLines (lines : List Diff.Entry) : String :=
  Text.joinLines (lines.map Diff.Entry.marked)

/-- An event with its members. -/
def eventJson (name : String) (members : List (String × Json)) : Json :=
  .object (("event", .string name) :: members)

/-- The mark and the text of an entry of the history; the last reply has a star. -/
def historyLine (last : Option Nat) (e : Chat.DisplayEntry) : String :=
  (if last = some e.index then "*" else " ") ++ "[" ++ natText e.index ++ "] " ++
    e.role.name ++ " (" ++ e.displayType.name ++ "): " ++ e.text

namespace Dialogue

variable {τ : Type}

/-- What the dialogue works with. -/
def console (d : Dialogue τ) : Console τ :=
  d.seat.host.console

/-- A dialogue whose console was changed. -/
def onConsole (d : Dialogue τ) (change : Console τ → Console τ) : Dialogue τ :=
  { d with seat := { d.seat with host :=
    { d.seat.host with console := change d.seat.host.console } } }

/-- Print an event as JSON, or a text. -/
def print (d : Dialogue τ) (event : Json) (text : Console τ → Console τ) : Dialogue τ :=
  d.onConsole fun c => if d.json then c.sayJson event else text c

/-- The last reply. -/
def reply (d : Dialogue τ) : String :=
  (d.seat.state.log.lastAssistant?.map (·.content)).getD ""

/-- The lines of the open proposal. -/
def proposedLines (d : Dialogue τ) : List Diff.Entry :=
  (d.seat.state.proposal.map (·.diff.lines)).getD []

/-- A keystroke for a command. -/
def keystroke (d : Dialogue τ) (c : Command) : String :=
  (d.keys.keystrokeFor? c).getD "unbound"

/-! ## What came of a line -/

/-- How to go on after a proposal. -/
def reviewHint (d : Dialogue τ) (inserted deleted : Nat) : String :=
  "+" ++ natText inserted ++ " -" ++ natText deleted ++ " lines. /accept (" ++
    d.keystroke .acceptLatest ++ ") or /reject (" ++ d.keystroke .rejectLatest ++ ")"

/-- Print a resolution. -/
def answerResolution (d : Dialogue τ) : Resolution → Dialogue τ
  | .stale _ _ => d
  | .transportFailed message =>
    d.print (eventJson "transport_failed" [("message", .string message)])
      fun c => c.sayLine ("error: " ++ message)
  | .noCodeBlock =>
    d.print (eventJson "no_code_block" [("reply", .string d.reply)])
      fun c => c.sayLine d.reply
  | .explained =>
    d.print (eventJson "explained" [("reply", .string d.reply)])
      fun c => c.sayLine d.reply
  | .proposed superseded inserted deleted =>
    d.print
      (eventJson "proposed"
        [("superseded", .bool superseded), ("inserted", .ofNat inserted),
         ("deleted", .ofNat deleted), ("reply", .string d.reply),
         ("lines", .array (d.proposedLines.map Diff.Entry.toJson))])
      fun c => ((c.sayLine (d.reply ++ "\n")).sayLine (markedLines d.proposedLines)).sayLine
        ("\n" ++ d.reviewHint inserted deleted)

/-- Print a verdict. -/
def answerVerdict (d : Dialogue τ) : Verdict → Dialogue τ
  | .accepted drifted =>
    d.print (eventJson "accepted" [("drifted", .bool drifted)]) fun c => c.sayLine "Accepted."
  | .rejected =>
    d.print (eventJson "rejected" []) fun c => c.sayLine "Rejected; cell restored."
  | .noPendingDiff => d.print (eventJson "ignored" []) id

/-- Print what a command came to. -/
def answer (d : Dialogue τ) : CommandOutcome → Dialogue τ
  | .ignored => d.print (eventJson "ignored" []) id
  | .cleared => d.print (eventJson "cleared" []) fun c => c.sayLine "Conversation cleared."
  | .reviewed verdict => d.answerVerdict verdict
  | .resolved resolution => d.answerResolution resolution

/-- Print that a message cannot be edited. -/
def answerRefusal (d : Dialogue τ) (e : Chat.OutOfRange) : Dialogue τ :=
  let report := Report.messageOutOfRange e.index e.length
  d.print report.summary fun c => c.warn (report.text false)

/-- Print whether the code of a reply was written. -/
def answerApplied (d : Dialogue τ) (index : Nat) (written : Bool) : Dialogue τ :=
  d.print (eventJson "applied" [("index", .ofNat index), ("applied", .bool written)])
    fun c => c.sayLine
      (if written then "Applied code from message " ++ natText index ++ "."
        else "Message " ++ natText index ++ " has no code to apply.")

/-- Print the conversation. -/
def answerHistory (d : Dialogue τ) : Dialogue τ :=
  let log := d.seat.state.log
  d.print (eventJson "history" [("entries", .array (log.displayView.map Chat.DisplayEntry.toJson))])
    fun c => (log.displayView.map (historyLine log.lastAssistantIndex?)).foldl Console.sayLine c

/-! ## Lines -/

/-- A dialogue after something was done at its seat. -/
def moved (d : Dialogue τ) (seat : Seat (Desk τ)) : Dialogue τ :=
  { d with seat := seat }

variable [Transport τ]

/-- Carry out a line other than one that ends the dialogue. -/
def perform (d : Dialogue τ) : Input → Dialogue τ
  | .nothing => d
  | .quit => d
  | .help => d.onConsole fun c => c.warnLine helpText
  | .invalid message => d.onConsole fun c => c.warnLine message
  | .history => d.answerHistory
  | .command command argument =>
    let (seat, outcome) := d.seat.execute command argument
    (d.moved seat).answer outcome
  | .key keystroke =>
    let (seat, outcome) := d.seat.press d.keys keystroke
    (d.moved seat).answer outcome
  | .edit index text =>
    match d.seat.edit index text with
    | .ok (seat, resolution) => (d.moved seat).answerResolution resolution
    | .error e => d.answerRefusal e
  | .apply index =>
    let (seat, written) := d.seat.act fun s _ => s.applyReply index
    (d.moved seat).answerApplied index written

/-- Handle a line, and say whether the dialogue goes on. -/
def handle (d : Dialogue τ) (line : String) : Dialogue τ × Bool :=
  match Input.ofLine line with
  | .quit => (d, false)
  | input => (d.perform input, true)

/-- Handle lines until the user quits. -/
def run (d : Dialogue τ) : List String → Dialogue τ
  | [] => d
  | line :: rest =>
    match d.handle line with
    | (d, true) => d.run rest
    | (d, false) => d

end Dialogue

end CellReview.Console
