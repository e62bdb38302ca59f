import CellReview.Number.Digits
import CellReview.Review.Keymap
import CellReview.Text.Line

/-!
# What a user types

A line is a message, unless it begins with a slash: then its first word names a command
and the rest is the argument.  Blanks around a line and around an argument do not count.

* `Input` — what a line can mean;
* `index?` — the index of a message;
* `Input.ofLine` — the meaning of a line.
-/

namespace CellReview.Console

open Review (Command)

/-- What a line can mean. -/
inductive Input where
  /-- The line is blank. -/
  | nothing
  | command (c : Command) (argument : Option String)
  /-- Change the message at an index. -/
  | edit (index : Nat) (text : String)
  /-- Write the code of the reply at an index. -/
  | apply (index : Nat)
  | key (keystroke : String)
  | history
  | help
  | quit
  /-- The line means nothing; the user is told so. -/
  | invalid (message : String)
  deriving DecidableEq, Repr

/-- The commands that can be typed. -/
def helpText : String :=
  Text.joinLines
    ["/accept              keep the proposed code",
     "/reject              restore the code from before the review",
     "/debug <error>       ask for a fix to an error (starts a new conversation)",
     "/explain             explain the cell (starts a new conversation)",
     "/edit <i> <text>     rewrite user message i and ask again",
     "/apply <i>           write the code of assistant message i into the cell",
     "/key <keystroke>     run the command bound to a keystroke",
     "/history             show the conversation",
     "/clear               start a new conversation",
     "/quit                exit"]

/-! ## Parts of a line -/

/-- Indices are below this limit. -/
def indexLimit : Nat := Nat.pow 2 64

/-- Digits without the plus sign before them. -/
def unsigned : List Char → List Char
  | '+' :: ds => ds
  | ds => ds

/-- The index that digits stand for; a plus sign may precede them. -/
def index? (cs : List Char) : Option Nat :=
  let ds := unsigned cs
  if ds.isEmpty || !ds.all isDigit then none
  else
    let n := ofDigits (ds.map digitValue)
    if n < indexLimit then some n else none

/-- A text, if there is any. -/
def text? (cs : List Char) : Option String :=
  if cs.isEmpty then none else some (String.ofList cs)

/-- The name and the argument behind the slash. -/
def nameAndArgument (cs : List Char) : List Char × List Char :=
  match Chars.cutAtBlank cs with
  | some (name, rest) => (name, Chars.trim rest)
  | none => (cs, [])

/-- The index and the text of an edit. -/
def edit? (argument : List Char) : Option Input := do
  let (index, rest) ← Chars.cutAtBlank argument
  let n ← index? index
  let text ← text? (Chars.trim rest)
  some (.edit n text)

/-! ## Lines -/

namespace Input

/-- The meaning of a name with its argument. -/
def ofCommand (name : String) (argument : List Char) : Input :=
  match name with
  | "accept" => command .acceptLatest none
  | "reject" => command .rejectLatest none
  | "debug" => command .sendDebugError (text? argument)
  | "explain" => command .sendExplainCode none
  | "clear" => command .clearHistory none
  | "history" => history
  | "help" => help
  | "quit" => quit
  | "exit" => quit
  | "key" => key (String.ofList argument)
  | "apply" =>
    match index? argument with
    | some n => apply n
    | none => invalid "usage: /apply <message index>"
  | "edit" => (edit? argument).getD (invalid "usage: /edit <message index> <text>")
  | _ => invalid ("unknown command /" ++ name ++ "; try /help")

/-- The meaning of a line without outer blanks. -/
def ofTrimmed : List Char → Input
  | [] => nothing
  | '/' :: cs =>
    let (name, argument) := nameAndArgument cs
    ofCommand (String.ofList name) argument
  | cs => command .sendMessage (some (String.ofList cs))

/-- The meaning of a line. -/
def ofLine (line : String) : Input :=
  ofTrimmed (Chars.trim line.toList)

end Input

end CellReview.Console
