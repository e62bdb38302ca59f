import CellReview.Chat.Message

/-!
# Conversations

A conversation is a list of messages that starts with a system message.  Messages
are only added at the end; an edit first drops the edited message and all behind it.
A message knows its index, so an index stays valid until an edit before it.

* `Message` — a message with what the user is shown instead;
* `Conversation` — the list, with `start` and the ways to append;
* `Conversation.replaceTurn` — an edit, which needs the index of a user message;
* `Conversation.modelView`, `Conversation.displayView` — what the backend sees and
  what the user sees.
-/

namespace CellReview.Chat

/-! ## Messages -/

/-- A message of a conversation.  The model sees `content`; the user sees `display` if
there is one. -/
structure Message where
  role : Role
  content : String
  display : Option String
  displayType : DisplayType
  index : Nat
  deriving DecidableEq, Repr, Inhabited

namespace Message

/-- The text shown to the user. -/
def displayText (m : Message) : String :=
  m.display.getD m.content

/-- A message as the backend sees it. -/
def toChat (m : Message) : ChatMessage :=
  ⟨m.role, m.content⟩

/-- A message as JSON; a missing display text is left out. -/
def toJson (m : Message) : Json :=
  .object ([("role", m.role.toJson), ("content", .string m.content)] ++
    (match m.display with
      | some s => [("display_content", .string s)]
      | none => []) ++
    [("display_type", m.displayType.toJson), ("created_index", .ofNat m.index)])

end Message

/-- An entry of the view for the user. -/
structure DisplayEntry where
  index : Nat
  role : Role
  text : String
  displayType : DisplayType
  deriving DecidableEq, Repr

/-- An entry of the view as JSON. -/
def DisplayEntry.toJson (e : DisplayEntry) : Json :=
  .object [("index", .ofNat e.index), ("role", e.role.toJson), ("text", .string e.text),
    ("display_type", e.displayType.toJson)]

/-- The entry that shows a message. -/
def Message.toEntry (m : Message) : DisplayEntry :=
  ⟨m.index, m.role, m.displayText, m.displayType⟩

/-! ## Conversations -/

/-- The index of an edit does not hold a user message. -/
structure OutOfRange where
  index : Nat
  length : Nat
  deriving DecidableEq, Repr

/-- The wording of a refused edit. -/
def OutOfRange.message (e : OutOfRange) : String :=
  "message index " ++ natText e.index ++ " out of range (len " ++ natText e.length ++
    ") or not a user message"

/-- The messages exchanged so far. -/
structure Conversation where
  messages : List Message
  deriving DecidableEq, Repr, Inhabited

namespace Conversation

/-- The number of messages. -/
def length (c : Conversation) : Nat :=
  c.messages.length

/-- The message at an index. -/
def get? (c : Conversation) (index : Nat) : Option Message :=
  c.messages[index]?

/-- Add a message at the end; its index is the length so far. -/
def push (c : Conversation) (role : Role) (content : String) (display : Option String)
    (displayType : DisplayType) : Conversation :=
  ⟨c.messages ++ [⟨role, content, display, displayType, c.length⟩]⟩

/-- A conversation that holds its system message only. -/
def start (systemPrompt : String) : Conversation :=
  push ⟨[]⟩ .system systemPrompt none .normal

/-- Add a system message. -/
def addSystem (c : Conversation) (text : String) : Conversation :=
  c.push .system text none .normal

/-- Add a user message with an optional text to show instead. -/
def addTurn (c : Conversation) (content : String) (display : Option String)
    (displayType : DisplayType) : Conversation :=
  c.push .user content display displayType

/-- Add a user message that is shown as it is. -/
def addUser (c : Conversation) (text : String) (displayType : DisplayType) : Conversation :=
  c.addTurn text none displayType

/-- Add a reply, or a failure in its place. -/
def addAssistant (c : Conversation) (text : String) (failed : Bool) : Conversation :=
  c.push .assistant text none (if failed then .connectionError else .normal)

/-- The first messages up to an index. -/
def truncate (c : Conversation) (index : Nat) : Conversation :=
  ⟨c.messages.take index⟩

/-- Drop every message from a user message on and put another one there. -/
def replaceTurn (c : Conversation) (index : Nat) (content : String) (display : Option String)
    (displayType : DisplayType) : Except OutOfRange Conversation :=
  match c.get? index with
  | some m =>
    if m.role = .user then .ok ((c.truncate index).addTurn content display displayType)
    else .error ⟨index, c.length⟩
  | none => .error ⟨index, c.length⟩

/-- Drop every message from a user message on and put another text there. -/
def replaceUser (c : Conversation) (index : Nat) (text : String) :
    Except OutOfRange Conversation :=
  c.replaceTurn index text none .normal

/-! ## Views -/

/-- Every message as the backend sees it. -/
def modelView (c : Conversation) : List ChatMessage :=
  c.messages.map Message.toChat

/-- The messages that are shown: all but the system ones. -/
def displayView (c : Conversation) : List DisplayEntry :=
  (c.messages.filter fun m => m.role != .system).map Message.toEntry

/-- The latest reply. -/
def lastAssistant? (c : Conversation) : Option Message :=
  c.messages.reverse.find? fun m => m.role == .assistant

/-- The index of the latest reply. -/
def lastAssistantIndex? (c : Conversation) : Option Nat :=
  c.lastAssistant?.map Message.index

/-- What an empty input line shows. -/
def placeholder (c : Conversation) : String :=
  if c.displayView.length < 2 then "Ask your personal Python expert anything!"
  else "Follow up on the conversation"

end Conversation

end CellReview.Chat
