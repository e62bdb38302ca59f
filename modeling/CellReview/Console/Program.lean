import CellReview.Console.Completions
import CellReview.Console.Dialogue
import CellReview.Diff.Patch
import CellReview.Report.Trouble
import CellReview.Settings.Layers

/-!
# The program

A command line starts a task.  Most tasks end at once; a chat listens to lines until
the input ends or the user quits.

* `compareFiles`, `showSettings`, `openDialogue` — the tasks;
* `Stage` — whether the program has ended or listens;
* `Stage.start`, `Stage.hear`, `Stage.close` — its course;
* `Invocation.paths` — the files that it may use;
* `run` — the program from its arguments and its input to its end.
-/

namespace CellReview.Console

open Completion (Transport)
open Observe (Observer)

variable {τ : Type}

/-! ## Comparing two files -/

/-- The text of a file that has to be there. -/
def readFile (d : Disk) (path : String) : Except Trouble String :=
  if d.holds path then
    match d.readText path with
    | .ok text => .ok text
    | .error fault => .error (.ofText fault.message)
  else .error (.ofReport (.cellFileNotFound path))

/-- Print the patch between two texts. -/
def printPatch (c : Console τ) (json : Bool) (patch : Option String) : Console τ :=
  if json then c.sayJson (.object [("patch", .ofOption .string patch)])
  else
    match patch with
    | some text => c.say text
    | none => c

/-- Print the difference of two texts. -/
def printDiff (c : Console τ) (json : Bool) (d : Diff.UnifiedDiff) : Console τ :=
  if json then
    c.sayJson (.object
      [("inserted", .ofNat d.insertedCount), ("deleted", .ofNat d.deletedCount),
       ("lines", .array (d.lines.map Diff.Entry.toJson))])
  else if d.lines.isEmpty then c
  else c.sayLine (markedLines d.lines)

/-- Compare two files. -/
def compareFiles (c : Console τ) (json : Bool) (before after : String) (patch : Bool) :
    Except Trouble (Console τ) := do
  let old ← readFile c.disk before
  let new ← readFile c.disk after
  if patch then
    .ok (printPatch c json (Diff.patch? old new ("a/" ++ before) ("b/" ++ after)))
  else .ok (printDiff c json (.compute old new))

/-! ## Showing the settings -/

/-- The settings in force. -/
def loadSettings (c : Console τ) (workspace : String) : Except Trouble Settings :=
  match Settings.load c.disk workspace c.env with
  | .ok s => .ok s
  | .error fault => .error (.ofText fault.message)

/-- Settings that tell that there is a key, but not which. -/
def redacted (s : Settings) : Settings :=
  { s with llm := { s.llm with apiKey := s.llm.apiKey.map fun _ => "***REDACTED***" } }

/-- Show the settings. -/
def showSettings (c : Console τ) (json : Bool) (workspace : String) :
    Except Trouble (Console τ) := do
  let shown := (redacted (← loadSettings c workspace)).toJson.normal
  .ok (c.sayLine (if json then shown.compact else shown.pretty))

/-! ## Opening a dialogue -/

/-- Why a dialogue about a cell cannot be opened. -/
def objection? (c : Console τ) (s : Settings) (cell : String) : Option Report :=
  if !c.disk.holds cell then some (.cellFileNotFound cell)
  else if Text.isBlankText s.chat.codeLanguage then
    some (.invalidConfiguration "chat.code_language" s.chat.codeLanguage)
  else if (s.llm.apiKey? c.env).isNone then some (.missingApiKey s.llm.apiKeyEnv)
  else none

/-- What a dialogue tells about itself to users who ask for more. -/
def introduction (s : LlmSettings) (cell : String) : String :=
  "chat model=" ++ s.model ++ " endpoint=" ++ s.endpoint ++ " cell=" ++ cell

/-- The dialogue about a cell before the first line. -/
def newDialogue (c : Console τ) (json : Bool) (s : Settings) (cell : String) (o : Observer) :
    Dialogue τ where
  seat := ⟨.start s.chat, ⟨c, cell, o, s.llm⟩⟩
  keys := .ofSettings s.keybindings
  json := json

/-- Open the dialogue about a cell. -/
def openDialogue (c : Console τ) (options : Options) (workspace cell : String) :
    Except Trouble (Dialogue τ) := do
  let s ← loadSettings c workspace
  match objection? c s cell with
  | some report => .error (.ofReport report)
  | none =>
    match Observer.start c.disk workspace c.session s.telemetry with
    | .error fault => .error (.ofText fault.message)
    | .ok (o, disk) =>
      let o := { o with verbose := options.verbose }
      let c := (o.notice (introduction s.llm cell)).foldl Console.warnLine { c with disk := disk }
      let d := newDialogue c options.json s cell o
      .ok (d.onConsole fun c =>
        c.warnLine (d.seat.state.log.placeholder ++ " (/help for commands)"))

/-! ## The course of the program -/

/-- Whether the program has ended, with its exit status, or listens. -/
inductive Stage (τ : Type) where
  | ended (console : Console τ) (status : Nat)
  | listening (options : Options) (dialogue : Dialogue τ)

namespace Stage

/-- The end after a failure. -/
def failed (c : Console τ) (options : Options) (t : Trouble) : Stage τ :=
  ended
    (if options.json then c.sayJson t.report.summary
      else c.warn (t.report.text options.verbose))
    1

/-- The end of a task. -/
def finished (c : Console τ) (options : Options) : Except Trouble (Console τ) → Stage τ
  | .ok c => ended c 0
  | .error t => failed c options t

/-- Begin a task. -/
def ofTask (c : Console τ) (options : Options) (task : Task) : Stage τ :=
  let workspace := options.workspace.getD c.disk.currentPath
  match task with
  | .diff before after patch =>
    finished c options (compareFiles c options.json before after patch)
  | .config => finished c options (showSettings c options.json workspace)
  | .completions shell => ended (c.say (completions shell)) 0
  | .chat cell =>
    match openDialogue c options workspace cell with
    | .ok d => listening options d
    | .error t => failed c options t

/-- Begin what a command line asks for. -/
def start (c : Console τ) (arguments : List String) : Stage τ :=
  match Invocation.ofArguments arguments with
  | .run options task => ofTask c options task
  | .help => ended (c.say usage) 0
  | .misuse => ended (c.warn usage) 2

/-- Hear a line of the input, which may be no text. -/
def hear [Transport τ] : Stage τ → Option String → Stage τ
  | ended c status, _ => ended c status
  | listening options d, none =>
    failed d.console options (.ofText DiskFault.invalidData.message)
  | listening options d, some line =>
    match d.handle line with
    | (d, true) => listening options d
    | (d, false) => ended d.console 0

/-- The end of the input. -/
def close : Stage τ → Console τ × Nat
  | ended c status => (c, status)
  | listening _ d => (d.console, 0)

end Stage

/-- The same with another console. -/
def Stage.onConsole (change : Console τ → Console τ) : Stage τ → Stage τ
  | .ended c status => .ended (change c) status
  | .listening options d => .listening options (d.onConsole change)

/-- The paths that a command line can lead to. -/
def Invocation.paths (d : Disk) (env : Environment) : Invocation → List String
  | .run options task =>
    let workspace := options.workspace.getD d.currentPath
    let settings := (userSettings? env).toList ++
      [legacySettings workspace, projectSettings workspace, localSettings workspace]
    match task with
    | .chat cell => settings ++ [Observer.logPathOf workspace, cell]
    | .diff before after _ => [before, after]
    | .config => settings
    | .completions _ => []
  | _ => []

/-! ## The input -/

/-- Cut bytes after every line feed. -/
def bytePieces (bytes : List UInt8) : List (List UInt8) :=
  bytes.foldr
    (fun b parts =>
      if b = 10 then [b] :: parts
      else
        match parts with
        | [] => [[b]]
        | part :: rest => (b :: part) :: rest)
    []

/-- A line without its ending, if its bytes are a text. -/
def lineOf? (piece : List UInt8) : Option String :=
  (String.fromUTF8? ⟨piece.toArray⟩).map fun s => String.ofList (Chars.chomp s.toList)

/-- The lines of the input. -/
def inputLines (input : ByteArray) : List (Option String) :=
  (bytePieces input.toList).map lineOf?

/-- The program from its arguments and its input to its end and its exit status. -/
def run [Transport τ] (c : Console τ) (arguments : List String) (input : ByteArray) :
    Console τ × Nat :=
  ((inputLines input).foldl Stage.hear (Stage.start c arguments)).close

end CellReview.Console
