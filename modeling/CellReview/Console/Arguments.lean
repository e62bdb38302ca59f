import CellReview.Text.Blank

/-!
# The command line

A command line holds switches, options with a value and words.  The first word names
the task; some switches and options may stand before or after it, at most once on each
side.  After `--` everything is a word.  What is taken and what is refused follows a library for
command lines that is used as it is; the words with which it refuses are not followed.

* `Options`, `Task` — what a command line asks for;
* `Grammar` — what may stand on one side of the name of the task;
* `Grammar.scan` — one side, read from left to right;
* `Invocation.ofArguments` — a command line.
-/

namespace CellReview.Console

/-! ## What can be asked for -/

/-- A shell with completions. -/
inductive Shell where
  | bash
  | elvish
  | fish
  | powershell
  | zsh
  deriving DecidableEq, Repr

/-- The shell of a name. -/
def Shell.ofName : String → Option Shell
  | "bash" => some bash
  | "elvish" => some elvish
  | "fish" => some fish
  | "powershell" => some powershell
  | "zsh" => some zsh
  | _ => none

/-- What every task takes. -/
structure Options where
  /-- Print JSON instead of text. -/
  json : Bool
  verbose : Bool
  /-- The directory that holds the settings. -/
  workspace : Option String
  deriving DecidableEq, Repr

/-- What can be done. -/
inductive Task where
  /-- Talk about the cell in a file. -/
  | chat (cell : String)
  /-- Compare two files. -/
  | diff (before after : String) (patch : Bool)
  /-- Show the settings. -/
  | config
  /-- Print the completions of a shell. -/
  | completions (shell : Shell)
  deriving DecidableEq, Repr

/-- What a command line asks for. -/
inductive Invocation where
  | run (options : Options) (task : Task)
  | help
  /-- It makes no sense. -/
  | misuse
  deriving DecidableEq, Repr

/-! ## One side of a command line -/

/-- Something to switch on. -/
inductive Switch where
  | json
  | verbose
  | patch
  | help
  deriving DecidableEq, Repr

/-- An option with a value. -/
inductive Slot where
  | workspace
  | cell
  deriving DecidableEq, Repr

/-- The switch of a long name. -/
def Switch.ofName : String → Option Switch
  | "json" => some json
  | "verbose" => some verbose
  | "patch" => some patch
  | "help" => some help
  | _ => none

/-- The switch of a letter. -/
def Switch.ofLetter : Char → Option Switch
  | 'v' => some verbose
  | 'h' => some help
  | _ => none

/-- The option of a name. -/
def Slot.ofName : String → Option Slot
  | "workspace" => some workspace
  | "cell" => some cell
  | _ => none

/-- What was found so far. -/
structure Found where
  switches : List Switch
  values : List (Slot × String)
  words : List String
  deriving DecidableEq, Repr

namespace Found

/-- Nothing yet. -/
def nothing : Found := ⟨[], [], []⟩

/-- Whether a switch is on. -/
def has (f : Found) (s : Switch) : Bool :=
  f.switches.contains s

/-- The value of an option. -/
def value? (f : Found) (s : Slot) : Option String :=
  (f.values.find? fun entry => entry.1 == s).map (·.2)

end Found

/-- Why reading ends early. -/
inductive Stop where
  /-- Help was asked for. -/
  | help
  | misuse
  deriving DecidableEq, Repr

/-- What may stand on one side of the name of a task. -/
structure Grammar where
  switches : List Switch
  slots : List Slot
  /-- Whether a word may be the one behind `n` others; without it the first word ends
  the side. -/
  word : Option (Nat → String → Bool)

namespace Grammar

/-- Turn a switch on. -/
def turnOn (g : Grammar) (f : Found) (s : Option Switch) : Except Stop Found :=
  match s with
  | none => .error .misuse
  | some .help => .error .help
  | some s =>
    if g.switches.contains s && !f.has s then .ok { f with switches := f.switches ++ [s] }
    else .error .misuse

/-- Give an option its value, which must not be empty. -/
def fill (g : Grammar) (f : Found) (s : Slot) (value : String) : Except Stop Found :=
  if g.slots.contains s && (f.value? s).isNone && !value.isEmpty then
    .ok { f with values := f.values ++ [(s, value)] }
  else .error .misuse

/-- Take a word. -/
def take (ok : Nat → String → Bool) (f : Found) (word : String) : Except Stop Found :=
  if ok f.words.length word then .ok { f with words := f.words ++ [word] }
  else .error .misuse

/-- Cut a name off a value behind `=`. -/
def cutValue (cs : List Char) : String × Option String :=
  let name := cs.takeWhile (· != '=')
  match cs.drop name.length with
  | [] => (String.ofList name, none)
  | _ :: value => (String.ofList name, some (String.ofList value))

/-- Whether an argument stands for itself: it is no switch and no option. -/
def isPlain (argument : String) : Bool :=
  match argument.toList with
  | '-' :: _ :: _ => false
  | _ => true

/-- Read one side from left to right.  What is left begins with the name of the task. -/
def scan (g : Grammar) (f : Found) : List String → Except Stop (Found × List String)
  | [] => .ok (f, [])
  | argument :: rest =>
    match argument.toList with
    | ['-', '-'] =>
      match g.word with
      | none => .error .misuse
      | some ok => do .ok (← rest.foldlM (take ok) f, [])
    | '-' :: '-' :: cs =>
      match cutValue cs with
      | (name, value) =>
        match Slot.ofName name, value with
        | some slot, some value => do g.scan (← g.fill f slot value) rest
        | some slot, none =>
          match rest with
          | value :: rest =>
            if isPlain value then do g.scan (← g.fill f slot value) rest
            else .error .misuse
          | [] => .error .misuse
        | none, some _ => .error .misuse
        | none, none => do g.scan (← g.turnOn f (Switch.ofName name)) rest
    | '-' :: c :: cs => do
      let f ← (c :: cs).foldlM (fun f c => g.turnOn f (Switch.ofLetter c)) f
      g.scan f rest
    | _ =>
      match g.word with
      | none => .ok (f, argument :: rest)
      | some ok => do g.scan (← take ok f argument) rest

end Grammar

/-! ## The whole command line -/

/-- The switches that may stand anywhere. -/
def commonSwitches : List Switch := [.json, .verbose]

/-- What may stand before the name of the task. -/
def topGrammar : Grammar := ⟨commonSwitches, [.workspace], none⟩

/-- What a task of a name takes, and how to make it of what was found. -/
def taskOf? : String → Option (Grammar × (Found → Option Task))
  | "chat" =>
    some (⟨commonSwitches, [.workspace, .cell], some fun _ _ => false⟩,
      fun f => (f.value? .cell).map .chat)
  | "diff" =>
    some (⟨commonSwitches ++ [.patch], [.workspace],
        some fun n word => n < 2 && !word.isEmpty⟩,
      fun f =>
        match f.words with
        | [before, after] => some (.diff before after (f.has .patch))
        | _ => none)
  | "config" =>
    some (⟨commonSwitches, [.workspace], some fun _ _ => false⟩, fun _ => some .config)
  | "completions" =>
    some (⟨commonSwitches, [.workspace],
        some fun n word => n == 0 && (Shell.ofName word).isSome⟩,
      fun f => (f.words.head?.bind Shell.ofName).map .completions)
  | _ => none

/-- The options on both sides of the name; a workspace behind it counts more. -/
def Options.ofFound (before after : Found) : Options where
  json := before.has .json || after.has .json
  verbose := before.has .verbose || after.has .verbose
  workspace := (after.value? .workspace).or (before.value? .workspace)

/-- Whether help can be given on a list of names. -/
def isHelpTopic : List String → Bool
  | [] => true
  | [name] => name == "help" || (taskOf? name).isSome
  | _ => false

namespace Invocation

/-- What ends reading early. -/
def ofStop : Stop → Invocation
  | .help => help
  | .misuse => misuse

/-- The task behind its name. -/
def ofTask (before : Found) (name : String) (rest : List String) : Invocation :=
  match taskOf? name with
  | none => misuse
  | some (g, make) =>
    match g.scan .nothing rest with
    | .error stop => ofStop stop
    | .ok (after, _) =>
      match make after with
      | some task => run (.ofFound before after) task
      | none => misuse

/-- What a command line asks for. -/
def ofArguments (arguments : List String) : Invocation :=
  match topGrammar.scan .nothing arguments with
  | .error stop => ofStop stop
  | .ok (_, []) => misuse
  | .ok (before, name :: rest) =>
    if name = "help" then if isHelpTopic rest then help else misuse
    else ofTask before name rest

end Invocation

end CellReview.Console
