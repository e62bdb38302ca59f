import CellReview.Settings.Config
import CellReview.Text.Blank

/-!
# Commands and the keystrokes bound to them

A keystroke is a list of words; blanks around them and the case of the letters `A` to
`Z` do not matter.  A later binding of a keystroke takes the place of an earlier one.

* `Command` — what a user can ask for, with names and labels;
* `normalKey` — the normal form of a keystroke;
* `Keymap` — the bindings, with `bind`, `lookup` and `keystrokeFor?`.
-/

namespace CellReview.Review

/-! ## Commands -/

/-- What a user can ask for. -/
inductive Command where
  | acceptLatest
  | rejectLatest
  | sendMessage
  | sendDebugError
  | sendExplainCode
  | clearHistory
  deriving DecidableEq, Repr

namespace Command

/-- All commands. -/
def all : List Command :=
  [acceptLatest, rejectLatest, sendMessage, sendDebugError, sendExplainCode, clearHistory]

/-- The identifier of a command. -/
def id : Command → String
  | acceptLatest => "cellpilot:accept-latest-code"
  | rejectLatest => "cellpilot:reject-latest-code"
  | sendMessage => "cellpilot:send-message"
  | sendDebugError => "cellpilot:send-debug-error-message"
  | sendExplainCode => "cellpilot:send-explain-code-message"
  | clearHistory => "cellpilot:clear-history"

/-- The label of a command in a menu. -/
def label : Command → String
  | acceptLatest => "Accept the proposed code"
  | rejectLatest => "Reject the proposed code"
  | sendMessage => "Send a chat message"
  | sendDebugError => "Ask for a fix to the last error"
  | sendExplainCode => "Explain the active cell"
  | clearHistory => "Clear the conversation"

/-- The command of an identifier. -/
def ofId? (name : String) : Option Command :=
  all.find? fun c => c.id == name

end Command

/-! ## Keystrokes -/

/-- The words of a keystroke in lower case with single spaces between them. -/
def normalKey (keystroke : String) : String :=
  String.ofList ([' '].intercalate ((Chars.words keystroke.toList).map Chars.lower))

/-- Commands by the normal forms of their keystrokes. -/
structure Keymap where
  bindings : List (String × Command)
  deriving DecidableEq, Repr

namespace Keymap

/-- No bindings. -/
def empty : Keymap := ⟨[]⟩

/-- Bind a keystroke to a command.  A blank keystroke is ignored. -/
def bind (k : Keymap) (keystroke : String) (c : Command) : Keymap :=
  let key := normalKey keystroke
  if key.isEmpty then k
  else ⟨(key, c) :: k.bindings.filter fun entry => entry.1 != key⟩

/-- The bindings of the settings. -/
def ofSettings (s : KeySettings) : Keymap :=
  (empty.bind s.accept .acceptLatest).bind s.reject .rejectLatest

/-- The command that a keystroke is bound to. -/
def lookup (k : Keymap) (keystroke : String) : Option Command :=
  (k.bindings.find? fun entry => entry.1 == normalKey keystroke).map (·.2)

/-- The lesser of two keystrokes, the first of which may be missing. -/
def lesser (best : Option String) (key : String) : Option String :=
  match best with
  | none => some key
  | some b => if key < b then some key else some b

/-- The least keystroke that is bound to a command. -/
def keystrokeFor? (k : Keymap) (c : Command) : Option String :=
  ((k.bindings.filter fun entry => entry.2 == c).map (·.1)).foldl lesser none

end Keymap

end CellReview.Review
