import CellReview.Json.Tagged

/-!
# Messages

What a conversation is made of and what a completion backend is sent.

* `Role` — who speaks;
* `DisplayType` — how a message is presented;
* `ChatMessage` — a role and a text, as the backend sees it.
-/

namespace CellReview.Chat

/-! ## Roles -/

/-- Who speaks. -/
inductive Role where
  | system
  | user
  | assistant
  deriving DecidableEq, Repr, Inhabited

namespace Role

/-- The name of a role. -/
def name : Role → String
  | system => "system"
  | user => "user"
  | assistant => "assistant"

/-- The role of a name. -/
def ofName : String → Option Role
  | "system" => some system
  | "user" => some user
  | "assistant" => some assistant
  | _ => none

/-- A role as JSON. -/
def toJson (r : Role) : Json := .string r.name

/-- Read a role. -/
def read : Reader Role := Reader.enum ofName

end Role

/-! ## Presentation -/

/-- How a message is presented. -/
inductive DisplayType where
  | normal
  | connectionError
  | debugError
  | explainCode
  deriving DecidableEq, Repr, Inhabited

namespace DisplayType

/-- The name of a presentation. -/
def name : DisplayType → String
  | normal => "normal"
  | connectionError => "connection-error"
  | debugError => "debug-error"
  | explainCode => "explain-code"

/-- The presentation of a name. -/
def ofName : String → Option DisplayType
  | "normal" => some normal
  | "connection-error" => some connectionError
  | "debug-error" => some debugError
  | "explain-code" => some explainCode
  | _ => none

/-- A presentation as JSON. -/
def toJson (t : DisplayType) : Json := .string t.name

/-- Read a presentation. -/
def read : Reader DisplayType := Reader.enum ofName

end DisplayType

/-! ## Messages for a backend -/

/-- A message as a completion backend sees it. -/
structure ChatMessage where
  role : Role
  content : String
  deriving DecidableEq, Repr, Inhabited

namespace ChatMessage

/-- A message as JSON. -/
def toJson (m : ChatMessage) : Json :=
  .object [("role", m.role.toJson), ("content", .string m.content)]

/-- Read a message; its role is the tag. -/
def read : Reader ChatMessage :=
  Reader.tagged "role" Role.ofName fun role =>
    Reader.record
      [.of "content" .required Reader.string fun s m => { m with content := s }]
      ⟨role, ""⟩

end ChatMessage

end CellReview.Chat
