import CellReview.Json.Reader

/-!
# Replies

What a completion backend answers: a text, or a failure with a message for the user.

* `Reply` — a text and the reason why it ends;
* `TransportError` — a failure.
-/

namespace CellReview.Completion

/-- A reply of the backend. -/
structure Reply where
  text : String
  finishReason : String
  deriving DecidableEq, Repr

namespace Reply

/-- A reply that ended by itself. -/
def ofText (text : String) : Reply :=
  ⟨text, "stop"⟩

/-- A reply as JSON. -/
def toJson (r : Reply) : Json :=
  .object [("text", .string r.text), ("finish_reason", .string r.finishReason)]

/-- Read a reply; it ended by itself unless another reason is given. -/
def read : Reader Reply :=
  Reader.record
    [.of "text" .required Reader.string fun s r => { r with text := s },
     .of "finish_reason" .defaulted Reader.string fun s r => { r with finishReason := s }]
    (ofText "")

end Reply

/-- A failure of the network or of the backend, in words for the user. -/
structure TransportError where
  message : String
  deriving DecidableEq, Repr

/-- What a request comes to. -/
abbrev Answer := Except TransportError Reply

end CellReview.Completion
