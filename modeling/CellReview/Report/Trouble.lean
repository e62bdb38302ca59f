import CellReview.Report.Report
import CellReview.Text.Blank

/-!
# From a failure to a report

A failure is a report already, or a text that is sorted by the words in it.

* `Cause`, `Trouble` — a failure under the contexts in which it was met;
* `classify` — the report for a text;
* `Trouble.report` — the report for a failure.
-/

namespace CellReview

/-- What went wrong in the first place. -/
inductive Cause where
  | text (message : String)
  | report (r : Report)
  deriving DecidableEq, Repr

/-- What went wrong, on one line. -/
def Cause.message : Cause → String
  | text message => message
  | report r => r.oneLine

/-- A failure under the contexts in which it was met, the outermost first. -/
structure Trouble where
  contexts : List String
  cause : Cause
  deriving DecidableEq, Repr

/-- The report for a text, by the words in it. -/
def classify (message : String) : Report :=
  let lower := Text.lower message
  let has := Text.contains lower
  if has "api key" || has "api_key" || has "settings" then
    (Report.plain "Configuration Error" message .configuration).suggest
      ["Check .cellpilot/settings.json and ~/.cellpilot/settings.json",
       "Set the OPENAI_API_KEY environment variable",
       "Run `cellpilot config` to see the effective configuration"]
  else if has "timed out" || has "timeout" || has "connection" || has "network" ||
      has "http " then
    (Report.plain "Network Error" message .network).suggest
      ["Verify llm.endpoint is reachable", "Try again in a few moments"]
  else if has "out of range" || has "no such file" then
    (Report.plain "Invalid Input" message .validation).suggest [Report.historyHint]
  else Report.plain "Error" message .unknown

namespace Trouble

/-- A failure without context. -/
def ofText (message : String) : Trouble := ⟨[], .text message⟩

/-- A report as a failure. -/
def ofReport (r : Report) : Trouble := ⟨[], .report r⟩

/-- A failure in one more context. -/
def within (t : Trouble) (context : String) : Trouble :=
  { t with contexts := context :: t.contexts }

/-- The contexts and the cause on one line. -/
def chain (t : Trouble) : String :=
  ": ".intercalate (t.contexts ++ [t.cause.message])

/-- The report for a failure; one that is a report already stays as it is. -/
def report (t : Trouble) : Report :=
  match t.cause with
  | .report r => r
  | .text _ => classify t.chain

end Trouble

end CellReview
