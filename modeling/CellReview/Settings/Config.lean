import CellReview.Json.Reader

/-!
# Settings

The settings of the program in four sections.  Every section and every field may be
left out of a document and then has its standard value.

* `LlmSettings`, `ChatSettings`, `KeySettings`, `TelemetrySettings` — the sections;
* `Settings` — all of them;
* `Settings.read`, `Settings.toJson` — reading and writing, fields in their order.
-/

namespace CellReview

/-! ## Previews -/

/-- What the cell shows while a proposal is under review. -/
inductive PreviewMode where
  /-- The proposed code; deleted lines are not in the cell. -/
  | proposed
  /-- All lines of the difference, deleted ones included. -/
  | unified
  deriving DecidableEq, Repr, Inhabited

namespace PreviewMode

/-- The name of a mode. -/
def name : PreviewMode → String
  | proposed => "proposed"
  | unified => "unified"

/-- The mode of a name. -/
def ofName : String → Option PreviewMode
  | "proposed" => some proposed
  | "unified" => some unified
  | _ => none

/-- A mode as JSON. -/
def toJson (m : PreviewMode) : Json := .string m.name

/-- Read a mode. -/
def read : Reader PreviewMode := Reader.enum ofName

end PreviewMode

/-! ## The sections -/

/-- The completion backend. -/
structure LlmSettings where
  model : String
  endpoint : String
  apiKey : Option String
  apiKeyEnv : String
  temperature : Binary .single
  maxTokens : Nat
  timeoutSeconds : Nat
  deriving DecidableEq, Repr

/-- The conversation. -/
structure ChatSettings where
  systemPrompt : String
  codeLanguage : String
  preview : PreviewMode
  deriving DecidableEq, Repr

/-- The keystrokes that are bound from the start. -/
structure KeySettings where
  accept : String
  reject : String
  deriving DecidableEq, Repr

/-- Where events are posted. -/
structure TelemetrySettings where
  enabled : Bool
  endpoint : Option String
  deriving DecidableEq, Repr

/-- All settings. -/
structure Settings where
  llm : LlmSettings
  chat : ChatSettings
  keybindings : KeySettings
  telemetry : TelemetrySettings
  deriving DecidableEq, Repr

/-! ## Standard values -/

/-- The standard backend. -/
def LlmSettings.standard : LlmSettings where
  model := "gpt-4o-mini"
  endpoint := "https://api.openai.com/v1/chat/completions"
  apiKey := none
  apiKeyEnv := "OPENAI_API_KEY"
  temperature := .zero .single false
  maxTokens := 4096
  timeoutSeconds := 120

/-- The standard conversation. -/
def ChatSettings.standard : ChatSettings where
  systemPrompt := "You are an expert Python programmer."
  codeLanguage := "python"
  preview := .proposed

/-- The standard keystrokes. -/
def KeySettings.standard : KeySettings where
  accept := "Accel Y"
  reject := "Accel D"

/-- By standard nothing is posted. -/
def TelemetrySettings.standard : TelemetrySettings where
  enabled := false
  endpoint := none

/-- The standard settings. -/
def Settings.standard : Settings where
  llm := .standard
  chat := .standard
  keybindings := .standard
  telemetry := .standard

instance : Inhabited Settings := ⟨.standard⟩

/-! ## Writing -/

/-- The backend section as JSON. -/
def LlmSettings.toJson (s : LlmSettings) : Json :=
  .object
    [("model", .string s.model), ("endpoint", .string s.endpoint),
     ("api_key", .ofOption .string s.apiKey), ("api_key_env", .string s.apiKeyEnv),
     ("temperature", .number (.single s.temperature)), ("max_tokens", .ofNat s.maxTokens),
     ("timeout_seconds", .ofNat s.timeoutSeconds)]

/-- The conversation section as JSON. -/
def ChatSettings.toJson (s : ChatSettings) : Json :=
  .object
    [("system_prompt", .string s.systemPrompt), ("code_language", .string s.codeLanguage),
     ("preview", s.preview.toJson)]

/-- The keystroke section as JSON. -/
def KeySettings.toJson (s : KeySettings) : Json :=
  .object [("accept", .string s.accept), ("reject", .string s.reject)]

/-- The telemetry section as JSON. -/
def TelemetrySettings.toJson (s : TelemetrySettings) : Json :=
  .object [("enabled", .bool s.enabled), ("endpoint", .ofOption .string s.endpoint)]

/-- All settings as JSON. -/
def Settings.toJson (s : Settings) : Json :=
  .object
    [("llm", s.llm.toJson), ("chat", s.chat.toJson), ("keybindings", s.keybindings.toJson),
     ("telemetry", s.telemetry.toJson)]

/-! ## Reading -/

/-- The fields of the backend section. -/
def LlmSettings.fields : List (Field LlmSettings) :=
  [.of "model" .defaulted Reader.string fun x s => { s with model := x },
   .of "endpoint" .defaulted Reader.string fun x s => { s with endpoint := x },
   .of "api_key" .defaulted (Reader.option Reader.string) fun x s => { s with apiKey := x },
   .of "api_key_env" .defaulted Reader.string fun x s => { s with apiKeyEnv := x },
   .of "temperature" .defaulted Reader.single fun x s => { s with temperature := x },
   .of "max_tokens" .defaulted (Reader.natBelow (Nat.pow 2 32))
     fun x s => { s with maxTokens := x },
   .of "timeout_seconds" .defaulted (Reader.natBelow (Nat.pow 2 64))
     fun x s => { s with timeoutSeconds := x }]

/-- Read the backend section. -/
def LlmSettings.read : Reader LlmSettings :=
  Reader.record fields .standard

/-- The fields of the conversation section. -/
def ChatSettings.fields : List (Field ChatSettings) :=
  [.of "system_prompt" .defaulted Reader.string fun x s => { s with systemPrompt := x },
   .of "code_language" .defaulted Reader.string fun x s => { s with codeLanguage := x },
   .of "preview" .defaulted PreviewMode.read fun x s => { s with preview := x }]

/-- Read the conversation section. -/
def ChatSettings.read : Reader ChatSettings :=
  Reader.record fields .standard

/-- The fields of the keystroke section. -/
def KeySettings.fields : List (Field KeySettings) :=
  [.of "accept" .defaulted Reader.string fun x s => { s with accept := x },
   .of "reject" .defaulted Reader.string fun x s => { s with reject := x }]

/-- Read the keystroke section. -/
def KeySettings.read : Reader KeySettings :=
  Reader.record fields .standard

/-- The fields of the telemetry section. -/
def TelemetrySettings.fields : List (Field TelemetrySettings) :=
  [.of "enabled" .defaulted Reader.bool fun x s => { s with enabled := x },
   .of "endpoint" .defaulted (Reader.option Reader.string) fun x s => { s with endpoint := x }]

/-- Read the telemetry section. -/
def TelemetrySettings.read : Reader TelemetrySettings :=
  Reader.record fields .standard

/-- The sections. -/
def Settings.fields : List (Field Settings) :=
  [.of "llm" .defaulted LlmSettings.read fun x s => { s with llm := x },
   .of "chat" .defaulted ChatSettings.read fun x s => { s with chat := x },
   .of "keybindings" .defaulted KeySettings.read fun x s => { s with keybindings := x },
   .of "telemetry" .defaulted TelemetrySettings.read fun x s => { s with telemetry := x }]

/-- Read all settings. -/
def Settings.read : Reader Settings :=
  Reader.record fields .standard

end CellReview
