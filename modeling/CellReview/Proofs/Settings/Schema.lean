import CellReview.Proofs.Json.Record
import CellReview.Proofs.Settings.Merge
import CellReview.Settings.Config

/-!
# The known settings

Fourteen settings in four areas are known.  Each has a name, values that say what it is, and a
place in the settings that are read.

* `Means`, `Means.Scalar` — which values say what;
* `LlmSettings.serves`, `ChatSettings.serves`, `KeySettings.serves`, `TelemetrySettings.serves` —
  every section is read by its slots;
* `Area`, `areas`, `Settings.serves` — settings are read by their sections;
* `Setting`, `Setting.all` — the known settings;
* `Setting.standard_means` — **the standard settings say what they are**;
* `Settings.ext_all` — nothing but the known settings makes up the settings.
-/

namespace CellReview

/-! ## Meanings -/

/-- A number in single width. -/
def Number.toSingle : Number → Binary .single
  | .int n => .ofInt .single n
  | .double x => x.convert .single
  | .single x => x

namespace Means

/-- A text stands for itself. -/
def text (v : Json) (s : String) : Prop :=
  v = .string s

/-- A text stands for itself, and `null` for none. -/
def optionalText (v : Json) (s : Option String) : Prop :=
  v = .ofOption .string s

/-- A truth value stands for itself. -/
def flag (v : Json) (b : Bool) : Prop :=
  v = .bool b

/-- A natural number below a limit stands for itself. -/
def countBelow (limit : Nat) (v : Json) (n : Nat) : Prop :=
  n < limit ∧ v = .ofNat n

/-- A number stands for the nearest one in single width. -/
def single (v : Json) (x : Binary .single) : Prop :=
  ∃ n, v = .number n ∧ x = n.toSingle

/-- The name of a mode stands for it. -/
def mode (v : Json) (m : PreviewMode) : Prop :=
  v = .string m.name

/-- A meaning of single values: an object has none, and no value has two. -/
structure Scalar {α : Type} (M : Json → α → Prop) : Prop where
  not_object : ∀ {v x}, M v x → ∀ members, v ≠ .object members
  unique : ∀ {v x y}, M v x → M v y → x = y

namespace Scalar

theorem text : Scalar Means.text where
  not_object := by
    rintro _ s rfl members
    simp
  unique := by
    rintro _ s t rfl h
    exact Json.string.inj h

theorem optionalText : Scalar Means.optionalText where
  not_object := by
    rintro _ s rfl members
    cases s <;> simp [Json.ofOption]
  unique := by
    rintro _ s t rfl h
    cases s <;> cases t <;> simp_all [Means.optionalText, Json.ofOption]

theorem flag : Scalar Means.flag where
  not_object := by
    rintro _ b rfl members
    simp
  unique := by
    rintro _ b c rfl h
    exact Json.bool.inj h

theorem countBelow (limit : Nat) : Scalar (Means.countBelow limit) where
  not_object := by
    rintro _ n ⟨-, rfl⟩ members
    simp [Json.ofNat]
  unique := by
    rintro _ n m ⟨-, rfl⟩ ⟨-, h⟩
    exact Int.ofNat.inj (Number.int.inj (Json.number.inj h))

theorem single : Scalar Means.single where
  not_object := by
    rintro _ x ⟨n, rfl, -⟩ members
    simp
  unique := by
    rintro _ x y ⟨n, rfl, rfl⟩ ⟨m, h, rfl⟩
    rw [Json.number.inj h]

theorem mode : Scalar Means.mode where
  not_object := by
    rintro _ m rfl members
    simp
  unique := by
    rintro _ m k rfl h
    have hname : m.name = k.name := Json.string.inj h
    cases m <;> cases k <;> first | rfl | exact absurd hname (by decide)

end Scalar

end Means

theorem reads_text : Reads Means.text Reader.string := by
  rintro r w s - rfl
  exact ⟨s, rfl, rfl⟩

theorem reads_optionalText : Reads Means.optionalText (Reader.option Reader.string) := by
  rintro r w s - rfl
  cases s with
  | none => exact ⟨none, rfl, rfl⟩
  | some s => exact ⟨some s, rfl, rfl⟩

theorem reads_flag : Reads Means.flag Reader.bool := by
  rintro r w b - rfl
  exact ⟨b, rfl, rfl⟩

theorem reads_countBelow (limit : Nat) :
    Reads (Means.countBelow limit) (Reader.natBelow limit) := by
  rintro r w n - ⟨hlimit, rfl⟩
  exact ⟨n, if_pos ⟨Int.natCast_nonneg n, Int.ofNat_lt.2 hlimit⟩, hlimit, rfl⟩

theorem reads_single : Reads Means.single Reader.single := by
  rintro r w x - ⟨n, rfl, rfl⟩
  cases n with
  | int n => exact ⟨_, rfl, .int n, rfl, rfl⟩
  | double x => exact ⟨_, rfl, .double x, rfl, rfl⟩
  | single x => exact ⟨_, rfl, .single x, rfl, rfl⟩

theorem reads_mode : Reads Means.mode PreviewMode.read := by
  rintro r w m - rfl
  cases m with
  | proposed => exact ⟨.proposed, rfl, rfl⟩
  | unified => exact ⟨.unified, rfl, rfl⟩

/-! ## The sections -/

/-- The parts of the backend section. -/
def LlmSettings.slots : List (Slot LlmSettings) :=
  [⟨"model", Means.text, model⟩, ⟨"endpoint", Means.text, endpoint⟩,
   ⟨"api_key", Means.optionalText, apiKey⟩, ⟨"api_key_env", Means.text, apiKeyEnv⟩,
   ⟨"temperature", Means.single, temperature⟩,
   ⟨"max_tokens", Means.countBelow (Nat.pow 2 32), maxTokens⟩,
   ⟨"timeout_seconds", Means.countBelow (Nat.pow 2 64), timeoutSeconds⟩]

/-- The parts of the conversation section. -/
def ChatSettings.slots : List (Slot ChatSettings) :=
  [⟨"system_prompt", Means.text, systemPrompt⟩, ⟨"code_language", Means.text, codeLanguage⟩,
   ⟨"preview", Means.mode, preview⟩]

/-- The parts of the keystroke section. -/
def KeySettings.slots : List (Slot KeySettings) :=
  [⟨"accept", Means.text, accept⟩, ⟨"reject", Means.text, reject⟩]

/-- The parts of the telemetry section. -/
def TelemetrySettings.slots : List (Slot TelemetrySettings) :=
  [⟨"enabled", Means.flag, enabled⟩, ⟨"endpoint", Means.optionalText, endpoint⟩]

/-! ## Sections are read by their slots -/

theorem LlmSettings.serves : Serves slots fields where
  stores := by
    simp only [slots, List.forall_mem_cons]
    exact ⟨⟨_, rfl, Field.stores_of reads_text fun _ _ => rfl⟩,
      ⟨_, rfl, Field.stores_of reads_text fun _ _ => rfl⟩,
      ⟨_, rfl, Field.stores_of reads_optionalText fun _ _ => rfl⟩,
      ⟨_, rfl, Field.stores_of reads_text fun _ _ => rfl⟩,
      ⟨_, rfl, Field.stores_of reads_single fun _ _ => rfl⟩,
      ⟨_, rfl, Field.stores_of (reads_countBelow _) fun _ _ => rfl⟩,
      ⟨_, rfl, Field.stores_of (reads_countBelow _) fun _ _ => rfl⟩, by simp⟩
  keeps := by
    intro k hk f hf hne
    simp only [slots, fields, List.mem_cons, List.not_mem_nil, or_false] at hk hf
    rcases hk with rfl | rfl | rfl | rfl | rfl | rfl | rfl <;>
      rcases hf with rfl | rfl | rfl | rfl | rfl | rfl | rfl <;>
      first
      | exact absurd rfl hne
      | exact Field.keeps_of fun _ _ => rfl
  names := rfl
  distinct := by decide
  optional := by simp [fields, Field.of]

theorem ChatSettings.serves : Serves slots fields where
  stores := by
    simp only [slots, List.forall_mem_cons]
    exact ⟨⟨_, rfl, Field.stores_of reads_text fun _ _ => rfl⟩,
      ⟨_, rfl, Field.stores_of reads_text fun _ _ => rfl⟩,
      ⟨_, rfl, Field.stores_of reads_mode fun _ _ => rfl⟩, by simp⟩
  keeps := by
    intro k hk f hf hne
    simp only [slots, fields, List.mem_cons, List.not_mem_nil, or_false] at hk hf
    rcases hk with rfl | rfl | rfl <;> rcases hf with rfl | rfl | rfl <;>
      first
      | exact absurd rfl hne
      | exact Field.keeps_of fun _ _ => rfl
  names := rfl
  distinct := by decide
  optional := by simp [fields, Field.of]

theorem KeySettings.serves : Serves slots fields where
  stores := by
    simp only [slots, List.forall_mem_cons]
    exact ⟨⟨_, rfl, Field.stores_of reads_text fun _ _ => rfl⟩,
      ⟨_, rfl, Field.stores_of reads_text fun _ _ => rfl⟩, by simp⟩
  keeps := by
    intro k hk f hf hne
    simp only [slots, fields, List.mem_cons, List.not_mem_nil, or_false] at hk hf
    rcases hk with rfl | rfl <;> rcases hf with rfl | rfl <;>
      first
      | exact absurd rfl hne
      | exact Field.keeps_of fun _ _ => rfl
  names := rfl
  distinct := by decide
  optional := by simp [fields, Field.of]

theorem TelemetrySettings.serves : Serves slots fields where
  stores := by
    simp only [slots, List.forall_mem_cons]
    exact ⟨⟨_, rfl, Field.stores_of reads_flag fun _ _ => rfl⟩,
      ⟨_, rfl, Field.stores_of reads_optionalText fun _ _ => rfl⟩, by simp⟩
  keeps := by
    intro k hk f hf hne
    simp only [slots, fields, List.mem_cons, List.not_mem_nil, or_false] at hk hf
    rcases hk with rfl | rfl <;> rcases hf with rfl | rfl <;>
      first
      | exact absurd rfl hne
      | exact Field.keeps_of fun _ _ => rfl
  names := rfl
  distinct := by decide
  optional := by simp [fields, Field.of]

/-! ## Areas -/

/-- A section of the settings. -/
structure Area : Type 1 where
  {σ : Type}
  name : String
  slots : List (Slot σ)
  get : Settings → σ

/-- The sections of the settings. -/
def areas : List Area :=
  [⟨"llm", LlmSettings.slots, Settings.llm⟩, ⟨"chat", ChatSettings.slots, Settings.chat⟩,
   ⟨"keybindings", KeySettings.slots, Settings.keybindings⟩,
   ⟨"telemetry", TelemetrySettings.slots, Settings.telemetry⟩]

/-- The settings as a record of their areas. -/
def Area.slot (a : Area) : Slot Settings :=
  ⟨a.name, Describes a.slots (a.get .standard), a.get⟩

/-- An object whose known members are of their types describes an area. -/
theorem Area.exists_described {a : Area} (h : a ∈ areas) {v : Json} (hordered : v.Ordered)
    (hobject : ∃ members, v = .object members) (htyped : Typed a.slots v) :
    ∃ s, Describes a.slots (a.get .standard) v s := by
  have hread : ∃ fields, Serves a.slots fields := by
    simp only [areas, List.mem_cons, List.not_mem_nil, or_false] at h
    rcases h with rfl | rfl | rfl | rfl
    · exact ⟨_, LlmSettings.serves⟩
    · exact ⟨_, ChatSettings.serves⟩
    · exact ⟨_, KeySettings.serves⟩
    · exact ⟨_, TelemetrySettings.serves⟩
  obtain ⟨fields, hserves⟩ := hread
  obtain ⟨s, -, hs⟩ := hserves.exists_record (a.get .standard) (r := ⟨.value, 0⟩) rfl hordered
    hobject htyped
  exact ⟨s, hs⟩

theorem Settings.serves : Serves (areas.map Area.slot) fields where
  stores := by
    simp only [areas, List.forall_mem_map, List.forall_mem_cons]
    exact ⟨⟨_, rfl, Field.stores_of LlmSettings.serves.reads_record fun _ _ => rfl⟩,
      ⟨_, rfl, Field.stores_of ChatSettings.serves.reads_record fun _ _ => rfl⟩,
      ⟨_, rfl, Field.stores_of KeySettings.serves.reads_record fun _ _ => rfl⟩,
      ⟨_, rfl, Field.stores_of TelemetrySettings.serves.reads_record fun _ _ => rfl⟩, by simp⟩
  keeps := by
    intro k hk f hf hne
    simp only [areas, fields, List.map_cons, List.map_nil, List.mem_cons, List.not_mem_nil,
      or_false] at hk hf
    rcases hk with rfl | rfl | rfl | rfl <;> rcases hf with rfl | rfl | rfl | rfl <;>
      first
      | exact absurd rfl hne
      | exact Field.keeps_of fun _ _ => rfl
  names := rfl
  distinct := by decide
  optional := by simp [fields, Field.of]

/-! ## The known settings -/

/-- A known setting: its area and its name there, which values say what it is, and its place. -/
structure Setting : Type 1 where
  {α : Type}
  area : String
  name : String
  Means : Json → α → Prop
  get : Settings → α

namespace Setting

/-- The setting for a slot in an area. -/
def ofSlot (a : Area) (k : Slot a.σ) : Setting :=
  ⟨a.name, k.name, k.Means, fun s => k.get (a.get s)⟩

/-- The known settings. -/
def all : List Setting :=
  areas.flatMap fun a => a.slots.map (ofSlot a)

theorem ofSlot_mem_all {a : Area} (ha : a ∈ areas) {k : Slot a.σ} (hk : k ∈ a.slots) :
    ofSlot a k ∈ all :=
  List.mem_flatMap.2 ⟨a, ha, List.mem_map_of_mem hk⟩

theorem exists_slot {k : Setting} (h : k ∈ all) :
    ∃ a ∈ areas, ∃ j ∈ a.slots, k = ofSlot a j := by
  obtain ⟨a, ha, hk⟩ := List.mem_flatMap.1 h
  obtain ⟨j, hj, rfl⟩ := List.mem_map.1 hk
  exact ⟨a, ha, j, hj, rfl⟩

/-- What a document says about a setting. -/
def find? (k : Setting) (v : Json) : Option Json :=
  v.find? k.area k.name

theorem scalar {k : Setting} (h : k ∈ all) : Means.Scalar k.Means := by
  have hscalar : ∀ a ∈ areas, ∀ j ∈ a.slots, Means.Scalar j.Means := by
    simp only [areas, LlmSettings.slots, ChatSettings.slots, KeySettings.slots,
      TelemetrySettings.slots, List.forall_mem_cons]
    exact ⟨⟨.text, .text, .optionalText, .text, .single, .countBelow _, .countBelow _, by simp⟩,
      ⟨.text, .text, .mode, by simp⟩, ⟨.text, .text, by simp⟩, ⟨.flag, .optionalText, by simp⟩,
      by simp⟩
  obtain ⟨a, ha, j, hj, rfl⟩ := exists_slot h
  exact hscalar a ha j hj

/-- **The standard settings say what they are.** -/
theorem standard_means {k : Setting} (h : k ∈ all) :
    ∃ w, k.find? Settings.standard.toJson.normal = some w ∧ k.Means w (k.get .standard) := by
  have hmeans : ∀ a ∈ areas, ∀ j ∈ a.slots, ∃ w,
      (ofSlot a j).find? Settings.standard.toJson.normal = some w ∧
        j.Means w (j.get (a.get .standard)) := by
    simp only [areas, LlmSettings.slots, ChatSettings.slots, KeySettings.slots,
      TelemetrySettings.slots, List.forall_mem_cons]
    exact ⟨⟨⟨_, rfl, rfl⟩, ⟨_, rfl, rfl⟩, ⟨_, rfl, rfl⟩, ⟨_, rfl, rfl⟩, ⟨_, rfl, _, rfl, rfl⟩,
        ⟨_, rfl, by decide, rfl⟩, ⟨_, rfl, by decide, rfl⟩, by simp⟩,
      ⟨⟨_, rfl, rfl⟩, ⟨_, rfl, rfl⟩, ⟨_, rfl, rfl⟩, by simp⟩,
      ⟨⟨_, rfl, rfl⟩, ⟨_, rfl, rfl⟩, by simp⟩, ⟨⟨_, rfl, rfl⟩, ⟨_, rfl, rfl⟩, by simp⟩, by simp⟩
  obtain ⟨a, ha, j, hj, rfl⟩ := exists_slot h
  exact hmeans a ha j hj

end Setting

/-- Settings are the same if each known one is. -/
theorem Settings.ext_all {s t : Settings} (h : ∀ k ∈ Setting.all, k.get s = k.get t) : s = t := by
  have hslots : ∀ a ∈ areas, ∀ j ∈ a.slots, j.get (a.get s) = j.get (a.get t) :=
    fun a ha j hj => h _ (Setting.ofSlot_mem_all ha hj)
  obtain ⟨⟨_, _, _, _, _, _, _⟩, ⟨_, _, _⟩, ⟨_, _⟩, ⟨_, _⟩⟩ := s
  obtain ⟨⟨_, _, _, _, _, _, _⟩, ⟨_, _, _⟩, ⟨_, _⟩, ⟨_, _⟩⟩ := t
  simpa [areas, LlmSettings.slots, ChatSettings.slots, KeySettings.slots,
    TelemetrySettings.slots] using hslots

end CellReview
