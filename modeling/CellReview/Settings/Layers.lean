import CellReview.Json.Text
import CellReview.Settings.Environment
import CellReview.Settings.Merge
import CellReview.Storage.Disk
import CellReview.Toml.Document

/-!
# Settings in layers

Settings are read from several documents.  Each one is laid over those before it: the
standard values, the older form, the user's, the project's and the local settings.

* `LoadFault` — why settings cannot be read or saved;
* `readLayer?` — one document, if its file is there;
* `mergeLayers` — documents laid over the standard values;
* `Settings.load` — the settings of a workspace;
* `Settings.save`, `Settings.ensure` — writing them.
-/

namespace CellReview

/-- Why settings cannot be read or saved. -/
inductive LoadFault where
  | disk (fault : DiskFault)
  /-- A document is not TOML. -/
  | toml
  | json (fault : Fault)
  deriving DecidableEq, Repr

/-- A fault in words.  Those for `toml` and `json` stand for what the libraries that read the
documents say about the place and the kind of the fault; no result rests on them. -/
def LoadFault.message : LoadFault → String
  | disk fault => fault.message
  | toml => "the document is not TOML"
  | json .malformed => "the document is not JSON"
  | json .mismatch => "a value in the document has the wrong type"

/-- The value of a JSON document. -/
def readJson (text : String) : Except LoadFault Json :=
  match Json.parse? text with
  | some v => .ok v
  | none => .error (.json .malformed)

/-- The value of a TOML document. -/
def readToml (text : String) : Except LoadFault Json :=
  match Toml.parse? text with
  | some v => .ok v
  | none => .error .toml

/-- The document at a path, if something is there. -/
def readLayer? (d : Disk) (read : String → Except LoadFault Json) (path : String) :
    Except LoadFault (Option Json) :=
  if d.holds path then
    match d.readText path with
    | .ok text => (read text).map some
    | .error fault => .error (.disk fault)
  else .ok none

/-- The documents of a workspace in the order in which they are laid over each other. -/
def layers (d : Disk) (workspace : String) (user : Option String) :
    Except LoadFault (List Json) := do
  let legacy ← readLayer? d readToml (legacySettings workspace)
  let others ← (user.toList ++ [projectSettings workspace, localSettings workspace]).mapM
    (readLayer? d readJson)
  .ok ((legacy :: others).filterMap id)

/-- Documents laid over the standard values. -/
def mergeLayers (documents : List Json) : Json :=
  documents.foldl Json.merge Settings.standard.toJson.normal

namespace Settings

/-- The settings of documents laid over the standard values. -/
def ofLayers (documents : List Json) : Except LoadFault Settings :=
  match Reader.ofJson Settings.read (mergeLayers documents) with
  | .ok s => .ok s
  | .error fault => .error (.json fault)

/-- The settings of a workspace under the given settings of its user. -/
def loadLayers (d : Disk) (workspace : String) (user : Option String) :
    Except LoadFault Settings := do
  ofLayers (← layers d workspace user)

/-- The settings of a workspace. -/
def load (d : Disk) (workspace : String) (env : Environment) : Except LoadFault Settings :=
  loadLayers d workspace (userSettings? env)

/-- Save settings as those of the project. -/
def save (s : Settings) (d : Disk) (workspace : String) : Except LoadFault Disk :=
  let saved := do
    let d ← d.makeDirs (runtimeDir workspace)
    d.write (projectSettings workspace) s.toJson.pretty
  match saved with
  | .ok d => .ok d
  | .error fault => .error (.disk fault)

/-- Whether a workspace or its user has settings. -/
def present (d : Disk) (workspace : String) (env : Environment) : Bool :=
  d.holds (projectSettings workspace) || d.holds (localSettings workspace) ||
    d.holds (legacySettings workspace) || (userSettings? env).any d.holds

/-- The settings of a workspace; where there are none, the standard ones are saved. -/
def ensure (d : Disk) (workspace : String) (env : Environment) :
    Except LoadFault (Settings × Disk) :=
  if present d workspace env then (load d workspace env).map (·, d)
  else (save standard d workspace).map (standard, ·)

end Settings

end CellReview
