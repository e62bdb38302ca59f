import CellReview.Proofs.Console.Course
import CellReview.Proofs.Settings.Masked

/-!
# The shown settings do not tell the key

Two stacks of settings that are the same but for the texts of their keys give the same settings up
to the key, or neither can be read.  What is shown of the settings is redacted, so it is the same.

* `LayersAlike`, `StacksAlike` — layers and stacks that are the same but for the keys;
* `Alike` — attempts that fail, or come to results that a view of them does not tell apart;
* `StacksAlike.layers`, `StacksAlike.load` — their documents and their settings;
* `shown_settings_hide_key` — **the program shows the same, or fails for both**.
-/

namespace CellReview

open Console (redacted)
open Json (SameButKey)

/-! ## Layers -/

/-- Two attempts to read a layer: both fail, there is no layer, or there are layers that are the
same but for the text of the key. -/
inductive LayersAlike : Except LoadFault (Option Json) → Except LoadFault (Option Json) → Prop where
  | unreadable (fault other : LoadFault) : LayersAlike (.error fault) (.error other)
  | absent : LayersAlike (.ok none) (.ok none)
  | present {v w : Json} (h : SameButKey v w) : LayersAlike (.ok (some v)) (.ok (some w))

/-- Two disks on which the settings of a workspace and of its user are the same but for the texts of
the keys in them. -/
structure StacksAlike (d e : Disk) (workspace : String) (user : Option String) : Prop where
  legacy : LayersAlike (readLayer? d readToml (legacySettings workspace))
    (readLayer? e readToml (legacySettings workspace))
  user : ∀ path ∈ user, LayersAlike (readLayer? d readJson path) (readLayer? e readJson path)
  project : LayersAlike (readLayer? d readJson (projectSettings workspace))
    (readLayer? e readJson (projectSettings workspace))
  unshared : LayersAlike (readLayer? d readJson (localSettings workspace))
    (readLayer? e readJson (localSettings workspace))

/-! ## Attempts -/

/-- Two attempts fail, or come to results that a view of them does not tell apart. -/
inductive Alike {ε α β : Type} (view : α → β) : Except ε α → Except ε α → Prop where
  | failed (fault other : ε) : Alike view (.error fault) (.error other)
  | done {x y : α} (h : view x = view y) : Alike view (.ok x) (.ok y)

namespace Alike

variable {ε α β γ δ : Type} {view : α → β} {look : γ → δ}

theorem of_map_eq {a b : Except ε α} (h : a.map view = b.map view) : Alike view a b := by
  cases a with
  | error fault =>
    cases b with
    | error other => exact .failed fault other
    | ok y => cases h
  | ok x =>
    cases b with
    | error other => cases h
    | ok y => exact .done (Except.ok.inj h)

theorem bind {a b : Except ε α} (h : Alike view a b) {f g : α → Except ε γ}
    (hfg : ∀ x y, view x = view y → Alike look (f x) (g y)) :
    Alike look (a >>= f) (b >>= g) := by
  cases h with
  | failed fault other => exact .failed fault other
  | done h => exact hfg _ _ h

theorem mapError {ζ : Type} {a b : Except ε α} (h : Alike view a b) (f : ε → ζ) :
    Alike view (a.mapError f) (b.mapError f) := by
  cases h with
  | failed fault other => exact .failed (f fault) (f other)
  | done h => exact .done h

theorem mapM {σ : Type} {f g : σ → Except ε α} {xs : List σ}
    (h : ∀ x ∈ xs, Alike view (f x) (g x)) : Alike (List.map view) (xs.mapM f) (xs.mapM g) := by
  induction xs with
  | nil => exact .done rfl
  | cons x xs ih =>
    obtain ⟨hx, hxs⟩ := List.forall_mem_cons.1 h
    rw [List.mapM_cons, List.mapM_cons]
    refine hx.bind fun u v huv => (ih hxs).bind fun us vs husvs => .done ?_
    rw [List.map_cons, List.map_cons, huv, husvs]

end Alike

/-! ## Settings -/

theorem LayersAlike.alike {a b : Except LoadFault (Option Json)} (h : LayersAlike a b) :
    Alike (Option.map Json.masked) a b := by
  cases h with
  | unreadable fault other => exact .failed fault other
  | absent => exact .done rfl
  | present h => exact .done (congrArg some h.masked_eq)

variable {d e : Disk} {workspace : String}

/-- The documents of the stacks are the same once they are masked. -/
theorem StacksAlike.layers {user : Option String} (h : StacksAlike d e workspace user) :
    Alike (List.map Json.masked) (layers d workspace user) (layers e workspace user) := by
  have hothers : ∀ path ∈ user.toList ++ [projectSettings workspace, localSettings workspace],
      Alike (Option.map Json.masked) (readLayer? d readJson path) (readLayer? e readJson path) := by
    simp only [List.forall_mem_append, List.forall_mem_cons, Option.mem_toList]
    exact ⟨fun path hpath => (h.user path hpath).alike, h.project.alike, h.unshared.alike,
      fun _ hpath => absurd hpath List.not_mem_nil⟩
  refine h.legacy.alike.bind fun v w hvw => (Alike.mapM hothers).bind fun vs ws hvsws => .done ?_
  have hmasked : ∀ layers : List (Option Json), (layers.filterMap id).map Json.masked =
      (layers.map (Option.map Json.masked)).filterMap id := by
    intro layers
    simp [List.map_filterMap, List.filterMap_map]
  rw [hmasked, hmasked, List.map_cons, List.map_cons, hvw, hvsws]

/-- The settings of the stacks are the same once they are redacted. -/
theorem StacksAlike.load {env : Environment}
    (h : StacksAlike d e workspace (userSettings? env)) :
    Alike redacted (Settings.load d workspace env) (Settings.load e workspace env) := by
  refine h.layers.bind fun vs ws hvsws => .of_map_eq ?_
  rw [Settings.ofLayers_masked, hvsws, ← Settings.ofLayers_masked]

/-! ## The program -/

namespace Console

open Completion (Offline Transport)

variable {τ : Type}

theorem loadSettings_eq_mapError (c : Console τ) (workspace : String) :
    loadSettings c workspace =
      (Settings.load c.disk workspace c.env).mapError fun fault => .ofText fault.message := by
  unfold loadSettings
  cases Settings.load c.disk workspace c.env <;> rfl

theorem printed_sayLine (c : Console τ) (text : String) :
    (c.sayLine text).printed = c.printed ++ [.say (text ++ "\n")] :=
  printed_print c _

/-- What is shown of the settings is the same. -/
theorem showSettings_alike {c : Console τ} {other : Disk} {workspace : String} (json : Bool)
    (h : StacksAlike c.disk other workspace (userSettings? c.env)) :
    Alike printed (showSettings c json workspace)
      (showSettings { c with disk := other } json workspace) := by
  have hload : Alike redacted (loadSettings c workspace)
      (loadSettings { c with disk := other } workspace) := by
    rw [loadSettings_eq_mapError, loadSettings_eq_mapError]
    exact h.load.mapError _
  refine hload.bind fun s t hst => .done ?_
  rw [printed_sayLine, printed_sayLine, hst]
  rfl

/-- Tasks whose attempts are alike end alike. -/
theorem close_finished_alike {a b : Except Trouble (Console τ)} (c d : Console τ)
    (options : Options) (h : Alike printed a b) :
    let shown := (Stage.finished c options a).close
    let again := (Stage.finished d options b).close
    (shown.2 = 0 ∧ again.2 = 0 ∧ again.1.printed = shown.1.printed) ∨
      (shown.2 = 1 ∧ again.2 = 1) := by
  cases h with
  | failed trouble other => exact .inr ⟨rfl, rfl⟩
  | done hprinted => exact .inl ⟨rfl, rfl, hprinted.symm⟩

variable [Transport τ]

/-- A command line that asks for the settings ends with them, whatever the input is. -/
theorem run_config {arguments : List String} {options : Options}
    (h : Invocation.ofArguments arguments = .run options .config) (c : Console τ)
    (input : ByteArray) :
    run c arguments input = (Stage.finished c options
      (showSettings c options.json (options.workspace.getD c.disk.currentPath))).close := by
  have hstart : Stage.start c arguments = Stage.finished c options
      (showSettings c options.json (options.workspace.getD c.disk.currentPath)) := by
    rw [Stage.start, h]
    rfl
  rw [run, hstart]
  cases showSettings c options.json (options.workspace.getD c.disk.currentPath) with
  | error trouble => exact congrArg Stage.close (Stage.hear_ended _ _ _)
  | ok later => exact congrArg Stage.close (Stage.hear_ended _ _ _)

/-- **The shown settings do not tell the key.**  If the settings of a workspace and of its user are
the same on two disks but for the texts of the keys in them, the program shows the same settings for
both, as JSON or laid out for reading, or it fails for both. -/
theorem shown_settings_hide_key (c : Console τ) (other : Disk) (arguments : List String)
    (input : ByteArray) (options : Options)
    (hconfig : Invocation.ofArguments arguments = .run options .config)
    (hcurrent : other.current = c.disk.current)
    (hstacks : StacksAlike c.disk other (options.workspace.getD c.disk.currentPath)
      (userSettings? c.env)) :
    let shown := run c arguments input
    let again := run { c with disk := other } arguments input
    (shown.2 = 0 ∧ again.2 = 0 ∧ again.1.printed = shown.1.printed) ∨
      (shown.2 = 1 ∧ again.2 = 1) := by
  intro shown again
  have hpath : other.currentPath = c.disk.currentPath := congrArg (Path.ofNames true) hcurrent
  have hshown : shown = (Stage.finished c options (showSettings c options.json
      (options.workspace.getD c.disk.currentPath))).close := run_config hconfig c input
  have hagain : again = (Stage.finished { c with disk := other } options
      (showSettings { c with disk := other } options.json
        (options.workspace.getD other.currentPath))).close :=
    run_config hconfig { c with disk := other } input
  rw [hpath] at hagain
  rw [hshown, hagain]
  exact close_finished_alike _ _ options (showSettings_alike options.json hstacks)

/-- Another key in the older form and another one in the settings of the project: the same is
shown, and it is shown. -/
theorem shown_settings_hide_key_layers :
    let disk (old key : String) : Disk :=
      ((Disk.empty ["w"]).putFile ["w", ".cellpilot", "config.toml"]
        ("[llm]\napi_key = \"" ++ old ++ "\"\n").toUTF8).putFile
          ["w", ".cellpilot", "settings.json"]
          ("\x7b\"llm\": \x7b\"api_key\": \"" ++ key ++ "\"\x7d\x7d").toUTF8
    let c (old key : String) : Console Offline :=
      ⟨disk old key, [], .mk, default, default, []⟩
    (run (c "a" "b") ["config"] .empty).2 = 0 ∧ (run (c "ccc" "dd") ["config"] .empty).2 = 0 ∧
      (run (c "ccc" "dd") ["config"] .empty).1.printed =
        (run (c "a" "b") ["config"] .empty).1.printed := by
  intro disk c
  have hread : ∀ keys ∈ [("a", "b"), ("ccc", "dd")],
      readLayer? (disk keys.1 keys.2) readToml (legacySettings "/w") =
          .ok (some (.object [("llm", .object [("api_key", .string keys.1)])])) ∧
        readLayer? (disk keys.1 keys.2) readJson (projectSettings "/w") =
          .ok (some (.object [("llm", .object [("api_key", .string keys.2)])])) ∧
        readLayer? (disk keys.1 keys.2) readJson (localSettings "/w") = .ok none := by
    decide +kernel
  obtain ⟨hlegacy, hproject, hlocal⟩ := hread ("a", "b") (by decide)
  obtain ⟨hlegacy', hproject', hlocal'⟩ := hread ("ccc", "dd") (by decide)
  have hpath : (disk "a" "b").currentPath = "/w" := by decide +kernel
  have hstacks : StacksAlike (disk "a" "b") (disk "ccc" "dd") "/w" (userSettings? []) := by
    refine ⟨?_, nofun, ?_, ?_⟩
    · rw [hlegacy, hlegacy']
      exact .present (.key [] [] [] [] "a" "ccc")
    · rw [hproject, hproject']
      exact .present (.key [] [] [] [] "b" "dd")
    · rw [hlocal, hlocal']
      exact .absent
  have hstatus : (run (c "a" "b") ["config"] .empty).2 = 0 := by decide +kernel
  obtain ⟨-, hagain, hsame⟩ | ⟨hfailed, -⟩ :=
    shown_settings_hide_key (c "a" "b") (disk "ccc" "dd") ["config"] .empty ⟨false, false, none⟩
      (by decide +kernel) rfl (hpath ▸ hstacks)
  · exact ⟨hstatus, hagain, hsame⟩
  · exact absurd (hstatus.symm.trans hfailed) (by decide)

end Console

end CellReview
