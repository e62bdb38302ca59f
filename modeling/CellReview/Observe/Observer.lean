import CellReview.Completion.Transport
import CellReview.Json.Text
import CellReview.Observe.Event
import CellReview.Settings.Environment
import CellReview.Storage.Disk

/-!
# The observer

An observer numbers the events of a session and adds them, one line each, to the log of
the workspace.  It may also post them, and it may talk about them.

Two things are simpler here than on a machine.  The clock stands still during an observation: one
`now` is the time of the line, of the envelope and of the post, which are told one after the other
there.  And a post is sent before anything else happens, where a thread in the background would
send it: so posts arrive in the order of their events, and that one failed is told directly behind
its event.  Every line is added to the log as a whole.

* `Observer` — the session with its next number;
* `Noted` — what an observation leaves behind;
* `Observer.record`, `Observer.recordEnvelope`, `Observer.warn` — the observations;
* `Observer.undelivered`, `Observer.deliver` — a post that failed, and posting.
-/

namespace CellReview.Observe

open Completion (Post Transport)
open Time (Instant)

/-- A session that is observed. -/
structure Observer where
  logPath : String
  session : SessionId
  /-- The number of the next event.  It grows without a bound; a counter of 64 bits agrees with it
  below `2 ^ 64`. -/
  next : Nat
  /-- Where events are posted. -/
  endpoint : Option String
  verbose : Bool
  deriving DecidableEq, Repr

/-- What an observation leaves behind: the disk, lines for the user, a post to send, and
what went wrong. -/
structure Noted where
  disk : Disk
  notices : List String
  post : Option Post
  fault : Option DiskFault

/-! ## Lines -/

/-- A line of the log. -/
def logLine (now : Instant) (text : String) : String :=
  now.text "+00:00" ++ " " ++ text

/-- The text of an event in the log. -/
def eventText (e : Envelope) : String :=
  "EVENT " ++ e.toJson.compact

/-- The text of a warning in the log. -/
def warningText (text : String) : String :=
  "WARN " ++ text

/-- The post that tells of an event. -/
def telemetryPost (endpoint : String) (now : Instant) (e : Envelope) : Post where
  url := endpoint
  key := none
  body := Json.normal (.object
    [("name", .string "telemetry.event"), ("at", .string (now.text "+00:00")),
     ("payload", .object
       [("session_id", .string e.session.text), ("seq_no", .ofNat e.number),
        ("kind", e.event.toJson)])])
  timeoutSeconds := 3

namespace Observer

/-- The log of a workspace. -/
def logPathOf (workspace : String) : String :=
  Path.join (runtimeDir workspace) "observe.log"

/-- Where events are posted by the settings. -/
def endpointOf (t : TelemetrySettings) : Option String :=
  if t.enabled then t.endpoint else none

/-- Begin to observe a workspace. -/
def start (d : Disk) (workspace : String) (session : SessionId) (t : TelemetrySettings) :
    Except DiskFault (Observer × Disk) := do
  let d ← d.makeDirs (runtimeDir workspace)
  .ok (⟨logPathOf workspace, session, 1, endpointOf t, false⟩, d)

/-- A notice for the user, if the observer is to talk. -/
def notice (o : Observer) (text : String) : List String :=
  if o.verbose then ["[cellpilot] " ++ text] else []

/-- Add a line to the log. -/
def append (o : Observer) (d : Disk) (now : Instant) (text : String) : Except DiskFault Disk :=
  d.append o.logPath (logLine now text ++ "\n")

/-! ## Observations -/

/-- Record an event in its envelope.  The line and the post have the same time. -/
def recordEnvelope (o : Observer) (d : Disk) (now : Instant) (e : Envelope) : Noted :=
  match o.append d now (eventText e) with
  | .error fault => ⟨d, [], none, some fault⟩
  | .ok d =>
    { disk := d
      notices := o.notice (e.event.kind.name ++ " #" ++ natText e.number)
      post := o.endpoint.map fun endpoint => telemetryPost endpoint now e
      fault := none }

/-- Number an event and record it; its number is used up even if that fails. -/
def record (o : Observer) (d : Disk) (now : Instant) (event : Event) : Observer × Noted :=
  ({ o with next := o.next + 1 }, o.recordEnvelope d now ⟨o.next, now, o.session, event⟩)

/-- Warn the user, and keep the warning in the log if possible. -/
def warn (o : Observer) (d : Disk) (now : Instant) (text : String) : Noted :=
  { disk := (o.append d now (warningText text)).toOption.getD d
    notices := ["[cellpilot WARN] " ++ text]
    post := none
    fault := none }

/-- Keep in the log, if possible, that a post failed. -/
def undelivered (o : Observer) (d : Disk) (now : Instant) (error : String) : Disk :=
  (o.append d now ("TELEMETRY_ERROR error=" ++ error)).toOption.getD d

/-- Send what an observation wants posted, and wait for what comes of it. -/
def deliver {τ : Type} [Transport τ] (o : Observer) (now : Instant) (transport : τ)
    (n : Noted) : τ × Disk :=
  match n.post with
  | none => (transport, n.disk)
  | some p =>
    match Transport.send transport p with
    | (transport, .ok _) => (transport, n.disk)
    | (transport, .error f) => (transport, o.undelivered n.disk now f.text)

end Observer

end CellReview.Observe
