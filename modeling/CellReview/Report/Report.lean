import CellReview.Json.Reader

/-!
# Reports

What a user is told when something fails: a title, a message and what may help.

* `Report.Kind`, `Report` — the reports;
* `Report.text` — a report for a terminal;
* `Report.summary` — a report for a program;
* `Report.missingApiKey` and others — the usual reports.
-/

namespace CellReview

/-- What a report is about. -/
inductive Report.Kind where
  | configuration
  | network
  | validation
  | unknown
  deriving DecidableEq, Repr, Inhabited

namespace Report.Kind

/-- The name of a kind. -/
def name : Kind → String
  | configuration => "configuration"
  | network => "network"
  | validation => "validation"
  | unknown => "unknown"

/-- The kind of a name. -/
def ofName : String → Option Kind
  | "configuration" => some configuration
  | "network" => some network
  | "validation" => some validation
  | "unknown" => some unknown
  | _ => none

/-- The label of a kind in a terminal. -/
def label : Kind → String
  | configuration => "config"
  | network => "network"
  | validation => "input"
  | unknown => "error"

/-- A kind as JSON. -/
def toJson (k : Kind) : Json := .string k.name

/-- Read a kind. -/
def read : Reader Kind := Reader.enum ofName

end Report.Kind

/-- What a user is told when something fails. -/
structure Report where
  title : String
  message : String
  suggestions : List String
  kind : Report.Kind
  context : Option String
  deriving DecidableEq, Repr, Inhabited

namespace Report

/-- A report without suggestions and context. -/
def plain (title message : String) (kind : Kind) : Report :=
  ⟨title, message, [], kind, none⟩

/-- A report with more suggestions. -/
def suggest (r : Report) (more : List String) : Report :=
  { r with suggestions := r.suggestions ++ more }

/-- A report with a context. -/
def within (r : Report) (context : String) : Report :=
  { r with context := some context }

/-! ## Writing -/

/-- A report on one line. -/
def oneLine (r : Report) : String :=
  r.title ++ ": " ++ r.message

/-- The numbered suggestions. -/
def suggestionLines (r : Report) : List String :=
  r.suggestions.mapIdx fun i s => "    " ++ natText (i + 1) ++ ". " ++ s ++ "\n"

/-- A report for a terminal; its context is only shown to users who ask for more. -/
def text (r : Report) (verbose : Bool) : String :=
  "[" ++ r.kind.label ++ "] " ++ r.title ++ "\n  " ++ r.message ++ "\n" ++
    (match verbose, r.context with
      | true, some context => "\n  Context: " ++ context ++ "\n"
      | _, _ => "") ++
    (if r.suggestions.isEmpty then ""
      else "\n  Suggestions:\n" ++ String.join r.suggestionLines)

/-- A report for a program. -/
def summary (r : Report) : Json :=
  Json.normal (.object
    [("error", .object
      [("type", r.kind.toJson), ("title", .string r.title), ("message", .string r.message),
       ("suggestions", .array (r.suggestions.map .string))])])

/-- A report as JSON. -/
def toJson (r : Report) : Json :=
  .object
    [("title", .string r.title), ("message", .string r.message),
     ("suggestions", .array (r.suggestions.map .string)), ("error_type", r.kind.toJson),
     ("context", .ofOption .string r.context)]

/-- Read a report. -/
def read : Reader Report :=
  Reader.record
    [.of "title" .required Reader.string fun s r => { r with title := s },
     .of "message" .required Reader.string fun s r => { r with message := s },
     .of "suggestions" .required (Reader.list Reader.string)
       fun l r => { r with suggestions := l },
     .of "error_type" .required Kind.read fun k r => { r with kind := k },
     .of "context" .nullable (Reader.option Reader.string) fun c r => { r with context := c }]
    default

/-! ## Usual reports -/

/-- There is no key for the backend. -/
def missingApiKey (envName : String) : Report :=
  (plain "Missing API Key" "An API key is required to request completions."
    .configuration).suggest
    ["Set the " ++ envName ++ " environment variable",
     "Add llm.api_key to .cellpilot/settings.local.json"]

/-- The backend did not answer in time. -/
def networkTimeout (seconds : Nat) : Report :=
  (plain "Network Timeout"
    ("The completion API did not answer within " ++ natText seconds ++ "s.") .network).suggest
    ["Raise llm.timeout_seconds", "Try again later"]

/-- There is no file for the cell. -/
def cellFileNotFound (path : String) : Report :=
  (plain "Cell File Not Found" ("The file '" ++ path ++ "' does not exist.")
    .validation).suggest ["Pass an existing file with --cell"]

/-- A setting has a value that makes no sense. -/
def invalidConfiguration (field value : String) : Report :=
  (plain "Invalid Configuration"
    ("Invalid value '" ++ value ++ "' for field '" ++ field ++ "'.") .configuration).suggest
    ["Check .cellpilot/settings.json", "Remove the invalid setting and retry"]

/-- How to find the index of a message. -/
def historyHint : String := "Use /history to list message indices"

/-- A message cannot be edited. -/
def messageOutOfRange (index length : Nat) : Report :=
  (plain "Message Not Editable"
    ("Message " ++ natText index ++ " is not a user message (log has " ++ natText length ++
      " messages).") .validation).suggest [historyHint]

end Report

end CellReview
