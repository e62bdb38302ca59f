import CellReview.Chat.Conversation

/-!
# Changes of a conversation

What can be done to a conversation, as values.  A change puts one message at the end: behind
the whole conversation, or behind what stands before one of the user's messages.

* `Change` — the changes;
* `Conversation.change` — make one; the answer is the index of the new message;
* `Conversation.changeAll` — make several in order.
-/

namespace CellReview.Chat

/-- A change of a conversation. -/
inductive Change where
  | system (text : String)
  | user (text : String) (displayType : DisplayType)
  | turn (content : String) (display : Option String) (displayType : DisplayType)
  | assistant (text : String) (failed : Bool)
  /-- Drop every message from a user message on and put another text there. -/
  | replace (index : Nat) (text : String)
  /-- Drop every message from a user message on and put another one there. -/
  | replaceTurn (index : Nat) (content : String) (display : Option String)
      (displayType : DisplayType)
  deriving DecidableEq, Repr

namespace Conversation

/-- The answer to a message that was added behind the conversation. -/
def added (c longer : Conversation) : Conversation × Except OutOfRange Nat :=
  (longer, .ok c.length)

/-- The answer to an edit; one that is refused changes nothing. -/
def replaced (c : Conversation) (index : Nat) :
    Except OutOfRange Conversation → Conversation × Except OutOfRange Nat
  | .ok edited => (edited, .ok (c.truncate index).length)
  | .error fault => (c, .error fault)

/-- Make a change.  The answer is the index of the new message, or why there is none. -/
def change (c : Conversation) : Change → Conversation × Except OutOfRange Nat
  | .system text => c.added (c.addSystem text)
  | .user text type => c.added (c.addUser text type)
  | .turn content display type => c.added (c.addTurn content display type)
  | .assistant text failed => c.added (c.addAssistant text failed)
  | .replace index text => c.replaced index (c.replaceUser index text)
  | .replaceTurn index content display type =>
    c.replaced index (c.replaceTurn index content display type)

/-- Make several changes in order. -/
def changeAll (c : Conversation) (changes : List Change) : Conversation :=
  changes.foldl (fun c change => (c.change change).1) c

end Conversation

end CellReview.Chat
