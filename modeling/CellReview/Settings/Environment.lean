import CellReview.Settings.Config
import CellReview.Storage.Path
import CellReview.Text.Blank

/-!
# The environment and the places of settings

* `Environment.get?` — the value of a variable;
* `LlmSettings.apiKey?` — the key to use, from the settings or the environment;
* `runtimeDir`, `projectSettings`, `localSettings`, `legacySettings`, `userSettings?` —
  where the settings of a workspace and of its user are kept.
-/

namespace CellReview

/-- Variables with their values. -/
abbrev Environment := List (String × String)

/-- The value of a variable.  A name that is empty or holds `=` names none. -/
def Environment.get? (env : Environment) (name : String) : Option String :=
  if name.isEmpty ∨ name.toList.contains '=' then none
  else (env.find? fun entry => entry.1 == name).map (·.2)

/-- A text without its outer blanks, if anything is left. -/
def nonBlank? (s : String) : Option String :=
  let s := Text.trim s
  if s.isEmpty then none else some s

/-- The key to use: the one of the settings unless it is blank, else the one of the variable
that they name. -/
def LlmSettings.apiKey? (s : LlmSettings) (env : Environment) : Option String :=
  match s.apiKey.bind nonBlank? with
  | some key => some key
  | none => (env.get? s.apiKeyEnv).bind nonBlank?

/-! ## Places -/

/-- The directory for everything that belongs to a workspace. -/
def runtimeDir (workspace : String) : String :=
  Path.join workspace ".cellpilot"

/-- The settings of a workspace. -/
def projectSettings (workspace : String) : String :=
  Path.join (runtimeDir workspace) "settings.json"

/-- The settings of a workspace that are not shared. -/
def localSettings (workspace : String) : String :=
  Path.join (runtimeDir workspace) "settings.local.json"

/-- The settings of a workspace in their older form. -/
def legacySettings (workspace : String) : String :=
  Path.join (runtimeDir workspace) "config.toml"

/-- The settings of the user, if a home directory is known. -/
def userSettings? (env : Environment) : Option String :=
  ((env.get? "HOME").or (env.get? "USERPROFILE")).map fun home =>
    Path.join home ".cellpilot/settings.json"

end CellReview
