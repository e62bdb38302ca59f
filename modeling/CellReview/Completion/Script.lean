import CellReview.Completion.Transport
import CellReview.Json.Text

/-!
# Scripted answers

A script answers requests in order from a list, and keeps the requests that reached it.

* `Line` — one scripted answer;
* `Script` — the answers that are left and the requests that were received.
-/

namespace CellReview.Completion

/-- A scripted answer. -/
inductive Line where
  | answer (status : Nat) (body : String)
  /-- The status arrives, but the body cannot be read. -/
  | broken (status : Nat) (failure : Failure)
  /-- The request is received, but the connection is closed. -/
  | close
  /-- The request is never received. -/
  | fail (failure : Failure)

/-- The body that offers a reply. -/
def replyBody (text : String) : String :=
  (Json.object
    [("choices", .array [.object
      [("finish_reason", .string "stop"),
       ("message", .object [("role", .string "assistant"), ("content", .string text)])]])]).compact

/-- A scripted reply. -/
def Line.reply (text : String) : Line :=
  .answer 200 (replyBody text)

/-- The answers that are left and the requests that were received. -/
structure Script where
  lines : List Line
  received : List Post

namespace Script

/-- The address where nothing listens. -/
def deadAddress : String := "http://127.0.0.1:1/"

/-- Receive a request. -/
def receive (s : Script) (p : Post) (lines : List Line) : Script :=
  ⟨lines, s.received ++ [p]⟩

/-- Answer a request. -/
def send (s : Script) (p : Post) : Script × Exchange :=
  if deadAddress.toList.isPrefixOf p.url.toList then (s, .error (.refused p.url))
  else if p.timeoutSeconds = 0 then (s, .error (.late p.url))
  else
    match s.lines with
    | [] => (s.receive p [], .ok ⟨500, .ok "no reply queued"⟩)
    | .answer status body :: rest => (s.receive p rest, .ok ⟨status, .ok body⟩)
    | .broken status failure :: rest => (s.receive p rest, .ok ⟨status, .error failure⟩)
    | .close :: rest => (s.receive p rest, .error (.closed p.url))
    | .fail failure :: rest => (⟨rest, s.received⟩, .error failure)

instance : Transport Script where
  send := Script.send

end Script

end CellReview.Completion
