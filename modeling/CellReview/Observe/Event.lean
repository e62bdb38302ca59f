import CellReview.Chat.Message
import CellReview.Observe.SessionId
import CellReview.Time.Instant

/-!
# Events

What a review does to a conversation and to its cell, as it is recorded.

* `Event` — the kinds of event with what they say;
* `Event.toJson`, `Event.read` — the name as a tag beside the content;
* `Envelope` — an event with its number, its time and its session.
-/

namespace CellReview.Observe

open Chat (Role DisplayType)

/-! ## Events -/

/-- Something that happened. -/
inductive Event where
  | messageAppended (index : Nat) (role : Role) (displayType : DisplayType)
  | messageEdited (index discarded : Nat)
  | historyCleared
  | completionRequested (request messages : Nat)
  | completionDiscarded (request latest : Nat)
  | completionFailed (request : Nat) (message : String)
  | diffProposed (request inserted deleted : Nat) (superseded : Bool)
  | diffAccepted (drifted : Bool)
  | diffRejected
  | noCodeBlock (request : Nat)
  deriving DecidableEq, Repr

/-- The kinds of event. -/
inductive EventKind where
  | messageAppended
  | messageEdited
  | historyCleared
  | completionRequested
  | completionDiscarded
  | completionFailed
  | diffProposed
  | diffAccepted
  | diffRejected
  | noCodeBlock
  deriving DecidableEq, Repr

namespace EventKind

/-- The tag of a kind. -/
def tag : EventKind → String
  | messageAppended => "MessageAppended"
  | messageEdited => "MessageEdited"
  | historyCleared => "HistoryCleared"
  | completionRequested => "CompletionRequested"
  | completionDiscarded => "CompletionDiscarded"
  | completionFailed => "CompletionFailed"
  | diffProposed => "DiffProposed"
  | diffAccepted => "DiffAccepted"
  | diffRejected => "DiffRejected"
  | noCodeBlock => "NoCodeBlock"

/-- The kind of a tag. -/
def ofTag : String → Option EventKind
  | "MessageAppended" => some messageAppended
  | "MessageEdited" => some messageEdited
  | "HistoryCleared" => some historyCleared
  | "CompletionRequested" => some completionRequested
  | "CompletionDiscarded" => some completionDiscarded
  | "CompletionFailed" => some completionFailed
  | "DiffProposed" => some diffProposed
  | "DiffAccepted" => some diffAccepted
  | "DiffRejected" => some diffRejected
  | "NoCodeBlock" => some noCodeBlock
  | _ => none

/-- The name of a kind in running text. -/
def name : EventKind → String
  | messageAppended => "message_appended"
  | messageEdited => "message_edited"
  | historyCleared => "history_cleared"
  | completionRequested => "completion_requested"
  | completionDiscarded => "completion_discarded"
  | completionFailed => "completion_failed"
  | diffProposed => "diff_proposed"
  | diffAccepted => "diff_accepted"
  | diffRejected => "diff_rejected"
  | noCodeBlock => "no_code_block"

end EventKind

namespace Event

/-- The kind of an event. -/
def kind : Event → EventKind
  | messageAppended .. => .messageAppended
  | messageEdited .. => .messageEdited
  | historyCleared => .historyCleared
  | completionRequested .. => .completionRequested
  | completionDiscarded .. => .completionDiscarded
  | completionFailed .. => .completionFailed
  | diffProposed .. => .diffProposed
  | diffAccepted .. => .diffAccepted
  | diffRejected => .diffRejected
  | noCodeBlock .. => .noCodeBlock

/-- What an event says besides its kind. -/
def content : Event → List (String × Json)
  | messageAppended index role displayType =>
    [("index", .ofNat index), ("role", role.toJson), ("display_type", displayType.toJson)]
  | messageEdited index discarded =>
    [("index", .ofNat index), ("discarded", .ofNat discarded)]
  | completionRequested request messages =>
    [("request_seq", .ofNat request), ("message_count", .ofNat messages)]
  | completionDiscarded request latest =>
    [("request_seq", .ofNat request), ("latest_seq", .ofNat latest)]
  | completionFailed request message =>
    [("request_seq", .ofNat request), ("message", .string message)]
  | diffProposed request inserted deleted superseded =>
    [("request_seq", .ofNat request), ("inserted", .ofNat inserted),
     ("deleted", .ofNat deleted), ("superseded", .bool superseded)]
  | diffAccepted drifted => [("drifted", .bool drifted)]
  | noCodeBlock request => [("request_seq", .ofNat request)]
  | historyCleared => []
  | diffRejected => []

/-- An event as JSON; one without content has no member for it. -/
def toJson (e : Event) : Json :=
  .object (("type", .string e.kind.tag) ::
    match e.content with
    | [] => []
    | members => [("payload", .object members)])

/-! ## Reading -/

/-- The greatest count is one less than this. -/
def limit : Nat := Nat.pow 2 64

/-- A required count. -/
def count {α : Type} (name : String) (put : Nat → α → α) : Field α :=
  .of name .required (Reader.natBelow limit) put

/-- The event of a kind that says nothing else. -/
def bare : EventKind → Option Event
  | .historyCleared => some .historyCleared
  | .diffRejected => some .diffRejected
  | _ => none

/-- Read what an event of a kind says, by the names of its members. -/
def readContent : EventKind → Reader Event
  | .messageAppended => fun r d => do
    let (index, role, displayType) ← Reader.named
      [count "index" fun n a => (n, a.2),
       .of "role" .required Role.read fun x a => (a.1, x, a.2.2),
       .of "display_type" .required DisplayType.read fun x a => (a.1, a.2.1, x)]
      (0, Role.user, DisplayType.normal) r d
    .ok (.messageAppended index role displayType)
  | .messageEdited => fun r d => do
    let (index, discarded) ← Reader.named
      [count "index" fun n a => (n, a.2), count "discarded" fun n a => (a.1, n)] (0, 0) r d
    .ok (.messageEdited index discarded)
  | .completionRequested => fun r d => do
    let (request, messages) ← Reader.named
      [count "request_seq" fun n a => (n, a.2), count "message_count" fun n a => (a.1, n)]
      (0, 0) r d
    .ok (.completionRequested request messages)
  | .completionDiscarded => fun r d => do
    let (request, latest) ← Reader.named
      [count "request_seq" fun n a => (n, a.2), count "latest_seq" fun n a => (a.1, n)]
      (0, 0) r d
    .ok (.completionDiscarded request latest)
  | .completionFailed => fun r d => do
    let (request, message) ← Reader.named
      [count "request_seq" fun n a => (n, a.2),
       .of "message" .required Reader.string fun s a => (a.1, s)]
      (0, "") r d
    .ok (.completionFailed request message)
  | .diffProposed => fun r d => do
    let (request, inserted, deleted, superseded) ← Reader.named
      [count "request_seq" fun n a => (n, a.2),
       count "inserted" fun n a => (a.1, n, a.2.2),
       count "deleted" fun n a => (a.1, a.2.1, n, a.2.2.2),
       .of "superseded" .required Reader.bool fun b a => (a.1, a.2.1, a.2.2.1, b)]
      (0, 0, 0, false) r d
    .ok (.diffProposed request inserted deleted superseded)
  | .diffAccepted => fun r d => do
    let drifted ← Reader.named
      [.of "drifted" .required Reader.bool fun b _ => b] false r d
    .ok (.diffAccepted drifted)
  | .noCodeBlock => fun r d => do
    let request ← Reader.named [count "request_seq" fun n _ => n] 0 r d
    .ok (.noCodeBlock request)
  | .historyCleared => fun r d => do
    Reader.unit r d
    .ok .historyCleared
  | .diffRejected => fun r d => do
    Reader.unit r d
    .ok .diffRejected

/-- Read an event. -/
def read : Reader Event :=
  Reader.beside "type" "payload" EventKind.ofTag bare readContent

end Event

/-! ## Envelopes -/

/-- An event with its number, its time and its session. -/
structure Envelope where
  number : Nat
  time : Time.Instant
  session : SessionId
  event : Event
  deriving DecidableEq, Repr

namespace Envelope

/-- An envelope as JSON; its time is given in universal time. -/
def toJson (e : Envelope) : Json :=
  .object
    [("seq_no", .ofNat e.number), ("at", .string (e.time.text "Z")),
     ("session_id", .string e.session.text), ("kind", e.event.toJson)]

/-- Read an envelope. -/
def read : Reader Envelope :=
  Reader.record
    [Event.count "seq_no" fun n e => { e with number := n },
     .of "at" .required (Reader.refine Time.Instant.parse? Reader.string)
       fun t e => { e with time := t },
     .of "session_id" .required (Reader.refine SessionId.parse? Reader.string)
       fun s e => { e with session := s },
     .of "kind" .required Event.read fun k e => { e with event := k }]
    ⟨0, default, default, .historyCleared⟩

end Envelope

end CellReview.Observe
