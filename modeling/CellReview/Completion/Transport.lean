import CellReview.Json.Value
import CellReview.Text.Blank

/-!
# The network

A transport takes a request and yields a response or a failure.  A response may fail
once more while its body is read.

* `Post` — a request with a JSON body;
* `Failure`, `Response`, `Exchange` — what comes of it;
* `Transport` — something that carries requests.
-/

namespace CellReview.Completion

/-- A request with a JSON body and, in most cases, a key. -/
structure Post where
  url : String
  key : Option String
  body : Json
  timeoutSeconds : Nat
  deriving DecidableEq, Repr

/-- The part of a URL that follows the name of the server. -/
def Post.path (p : Post) : String :=
  let cs := p.url.toList
  let rec afterScheme : List Char → List Char
    | ':' :: '/' :: '/' :: rest => rest
    | _ :: rest => afterScheme rest
    | [] => cs
  let path := (afterScheme cs).dropWhile fun c => c != '/' && c != '?' && c != '#'
  if path.isEmpty then "/" else String.ofList path

/-- Why a request or the reading of a body failed. -/
structure Failure where
  timeout : Bool
  connect : Bool
  /-- The text of the fault behind the failure. -/
  source : Option String
  text : String
  deriving DecidableEq, Repr

/-- A response: its status, and its body unless that cannot be read. -/
structure Response where
  status : Nat
  body : Except Failure String

/-- What comes of a request. -/
abbrev Exchange := Except Failure Response

/-- Something that carries requests. -/
class Transport (τ : Type) where
  send : τ → Post → τ × Exchange

/-! ## Usual failures -/

/-- The text of a failure to send to a URL. -/
def sendingFailed (url : String) : String :=
  "error sending request for url (" ++ url ++ ")"

/-- Nothing listens at a URL. -/
def Failure.refused (url : String) : Failure :=
  ⟨false, true, some "client error (Connect)", sendingFailed url⟩

/-- A connection was closed before an answer came. -/
def Failure.closed (url : String) : Failure :=
  ⟨false, false, some "client error (SendRequest)", sendingFailed url⟩

/-- No answer came in time. -/
def Failure.late (url : String) : Failure :=
  ⟨true, false, some "operation timed out", sendingFailed url⟩

/-! ## Without a network -/

/-- A place without a network: every request is refused. -/
structure Offline where
  deriving DecidableEq, Repr

instance : Transport Offline where
  send o p := (o, .error (.refused p.url))

end CellReview.Completion
