import CellReview.Proofs.Json.Single
import CellReview.Proofs.Json.Wide
import CellReview.Proofs.Settings.Saved

/-!
# Loaded settings are saved and loaded again

Whatever documents settings were loaded from, their numbers are those of their formats.  If the
temperature is finite, the saved document is loaded again, with a temperature that is read from
its text; every other setting is as it was.  An infinite temperature, which a large number is
rounded to, is saved as `null`, and a document that says so is refused.

* `Reader.ensures_single`, `Reader.ensures_natBelow` — the numbers that readers take;
* `LlmSettings.Held`, `Settings.held_of_loadLayers` — the numbers of loaded settings;
* `Settings.readsBack_of_held`, `Settings.pretty_of_not_finite` — the saved document;
* `Reader.exists_stored` — a record that was read, and the member of one of its parts;
* `Settings.ofLayers_ne_ok` — a document without a temperature is refused;
* `loaded_again_iff_finite` — **when settings that were loaded and saved are loaded again**;
* `saved_infinite_refused` — one that are not.
-/

namespace CellReview

/-! ## The numbers of loaded settings -/

theorem Number.Wide.inFormat_toSingle {n : Number} (h : n.Wide) : n.toSingle.InFormat := by
  have hround : ∀ (negative : Bool) (n d : Nat), 0 < d →
      (Binary.ofRatio .single negative n d).InFormat :=
    fun negative n d => Binary.inFormat_ofRatio negative (by decide) (by decide)
  cases n with
  | int n => exact hround _ _ 1 one_pos
  | double x =>
    cases x with
    | finite s m q => exact hround _ _ _ (Binary.ratio_eq m q).2
    | infinite s => trivial
    | nan => trivial
  | single x => exact absurd rfl (h x)

namespace Reader

theorem ensures_single : single.Ensures Binary.InFormat := by
  intro r v x hv h
  cases hv with
  | number hn =>
    obtain ⟨n, heq, rfl⟩ := single_eq_ok h
    obtain rfl := Option.some.inj (Doc.number.inj heq)
    exact hn.inFormat_toSingle
  | _ => exact absurd h (by simp [Json.doc, single])

theorem ensures_natBelow (limit : Nat) : (natBelow limit).Ensures (· < limit) := by
  intro r v n _ h
  unfold natBelow at h
  split at h
  · split at h
    · obtain rfl := Except.ok.inj h
      omega
    · exact absurd h (by simp)
  · exact absurd h (by simp)

end Reader

/-- Backend settings whose numbers are those of their formats. -/
structure LlmSettings.Held (s : LlmSettings) : Prop where
  temperature : s.temperature.InFormat
  maxTokens : s.maxTokens < Nat.pow 2 32
  timeoutSeconds : s.timeoutSeconds < Nat.pow 2 64

theorem LlmSettings.held_standard : LlmSettings.standard.Held :=
  ⟨⟨by decide, by decide, by decide⟩, by decide, by decide⟩

theorem LlmSettings.ensures_read : read.Ensures Held := by
  refine Reader.ensures_record ?_ held_standard
  simp only [fields, List.forall_mem_cons]
  have hother : ∀ (name : String) {α : Type} (r : Reader α) (put : α → LlmSettings → LlmSettings),
      (∀ x s, s.Held → (put x s).Held) → (Field.of name .defaulted r put).Maintains Held :=
    fun name α r put hput => Field.maintains_of r.ensures_true fun x s _ => hput x s
  refine ⟨hother _ _ _ fun x s h => ⟨h.1, h.2, h.3⟩, hother _ _ _ fun x s h => ⟨h.1, h.2, h.3⟩,
    hother _ _ _ fun x s h => ⟨h.1, h.2, h.3⟩, hother _ _ _ fun x s h => ⟨h.1, h.2, h.3⟩,
    ?temperature, ?maxTokens, ?timeoutSeconds, List.forall_mem_nil _⟩
  case temperature =>
    exact Field.maintains_of Reader.ensures_single fun x s hx h => ⟨hx, h.2, h.3⟩
  case maxTokens =>
    exact Field.maintains_of (Reader.ensures_natBelow _) fun x s hx h => ⟨h.1, hx, h.3⟩
  case timeoutSeconds =>
    exact Field.maintains_of (Reader.ensures_natBelow _) fun x s hx h => ⟨h.1, h.2, hx⟩

theorem Settings.ensures_read : read.Ensures fun s => s.llm.Held := by
  refine Reader.ensures_record ?_ LlmSettings.held_standard
  simp only [fields, List.forall_mem_cons]
  exact ⟨Field.maintains_of LlmSettings.ensures_read fun x s hx _ => hx,
    Field.maintains_of (Reader.ensures_true _) fun x s _ h => h,
    Field.maintains_of (Reader.ensures_true _) fun x s _ h => h,
    Field.maintains_of (Reader.ensures_true _) fun x s _ h => h, List.forall_mem_nil _⟩

theorem wide_mergeLayers {documents : List Json} (h : ∀ v ∈ documents, v.Wide) :
    (mergeLayers documents).Wide := by
  rw [mergeLayers]
  exact List.foldlRecOn documents Json.merge (motive := Json.Wide) (Json.wide_normal _)
    fun base hbase v hv => hbase.merge (h v hv)

theorem wide_of_readJson {text : String} {v : Json} (h : readJson text = .ok v) : v.Wide := by
  unfold readJson at h
  split at h
  · rename_i hparse
    exact Json.wide_of_parse? (Except.ok.inj h ▸ hparse)
  · exact absurd h (by simp)

theorem wide_of_readToml {text : String} {v : Json} (h : readToml text = .ok v) : v.Wide := by
  unfold readToml at h
  split at h
  · rename_i hparse
    exact Toml.wide_of_parse? (Except.ok.inj h ▸ hparse)
  · exact absurd h (by simp)

/-- The documents of a workspace are wide. -/
theorem wide_of_layers {d : Disk} {workspace : String} {user : Option String}
    {documents : List Json} (h : layers d workspace user = .ok documents) :
    ∀ v ∈ documents, v.Wide := by
  obtain ⟨legacy, hlegacy, h⟩ := bind_eq_ok_iff.1 h
  obtain ⟨others, hothers, h⟩ := bind_eq_ok_iff.1 h
  obtain rfl := Except.ok.inj h
  intro v hv
  have hv : some v ∈ legacy :: others := by simpa using hv
  rcases List.mem_cons.1 hv with rfl | hv
  · exact Layered.holds_of_readLayer? (fun _ _ => wide_of_readToml) hlegacy
  · obtain ⟨path, -, hpath⟩ := exists_of_mem_mapM hothers hv
    exact Layered.holds_of_readLayer? (fun _ _ => wide_of_readJson) hpath

/-- The numbers of loaded settings are those of their formats. -/
theorem Settings.held_of_loadLayers {d : Disk} {workspace : String} {user : Option String}
    {s : Settings} (h : loadLayers d workspace user = .ok s) : s.llm.Held := by
  obtain ⟨documents, hlayers, hread⟩ := bind_eq_ok_iff.1 h
  unfold ofLayers at hread
  split at hread
  · rename_i hs
    obtain rfl := Except.ok.inj hread
    exact ensures_read _ _ _ (wide_mergeLayers (wide_of_layers hlayers)) hs
  · exact absurd hread (by simp)

/-! ## The saved document -/

/-- The saved document of settings with a finite temperature is read back. -/
theorem Settings.readsBack_of_held {s : Settings} (h : s.llm.Held)
    (hfinite : s.llm.temperature.isFinite = true) : ∃ x, s.ReadsBack x := by
  obtain ⟨hlegible, n, hn⟩ := Number.legible_single hfinite h.temperature
  exact ⟨n.toSingle, hlegible, ⟨n, hn, rfl⟩, h.maxTokens, h.timeoutSeconds⟩

/-- A temperature that is not finite is saved as `null`. -/
theorem Settings.pretty_of_not_finite {s : Settings} (h : s.llm.temperature.isFinite = false) :
    s.toJson.pretty = (s.toJsonWith .null).pretty := by
  have hnull : Json.chars (.number (.single s.llm.temperature)) = Json.chars .null := by
    have hword : "null".toList = ['n', 'u', 'l', 'l'] := by decide
    rw [Json.chars, Json.chars, Json.numberChars]
    cases hx : s.llm.temperature with
    | finite => simp [hx, Binary.isFinite] at h
    | infinite => exact hword
    | nan => exact hword
  simp only [Settings.toJson, LlmSettings.toJson, Settings.toJsonWith, LlmSettings.toJsonWith,
    LlmSettings.membersWith, Json.pretty, Json.prettyChars, Json.prettyMembers, hnull]

/-! ## Documents without a temperature -/

/-- In a record that was read from an object, the member of a part was stored. -/
theorem Reader.exists_stored {σ : Type} {slots : List (Slot σ)} {fields : List (Field σ)}
    (hserves : Serves slots fields) {start s : σ} {r : Reading} {v w : Json} (hv : v.Ordered)
    (hobject : ∃ members, v = .object members) (h : record fields start r v.doc = .ok s)
    {k : Slot σ} (hk : k ∈ slots) (hw : v.get? k.name = some w) :
    ∃ f, (fields.find? fun f => f.name == k.name) = some f ∧
      ∃ inner a b, f.store inner w.doc a = .ok b := by
  obtain ⟨members, rfl⟩ := hobject
  obtain ⟨inner, seen, -, hfill⟩ := named_eq_ok h
  obtain ⟨f, hfind, -⟩ := hserves.stores k hk
  have hname : f.name = k.name := by simpa using List.find?_some hfind
  obtain ⟨-, hstored⟩ := get_fillEntries k.get (hname ▸ hfind)
    (fun g hg hne => hserves.keeps k hk g hg (hname ▸ hne)) hv.sorted.nodup
    (fun _ _ => List.not_mem_nil) hfill
  obtain ⟨a, b, hab, -⟩ := hstored w (hname ▸ hw)
  exact ⟨f, hfind, inner, a, b, hab⟩

theorem Field.exists_read_of_store {σ α : Type} {name : String} {presence : Presence}
    {read : Reader α} {put : α → σ → σ} {r : Reading} {d : Doc} {s t : σ}
    (h : (Field.of name presence read put).store r d s = .ok t) : ∃ x, read r d = .ok x := by
  obtain ⟨x, hx, -⟩ := map_eq_ok_iff.1 h
  exact ⟨x, hx⟩

/-- Settings are not read from a document whose temperature is `null`. -/
theorem Settings.read_ne_ok {r : Reading} {v : Json} (hv : Grounded v)
    (hnull : v.find? "llm" "temperature" = some .null) (s : Settings) : read r v.doc ≠ .ok s := by
  intro h
  obtain ⟨llm, hllm, htemperature⟩ := Option.bind_eq_some_iff.1 hnull
  obtain ⟨members, hmembers⟩ := hv.sections _ (List.getElem_mem (show 0 < areas.length by decide))
  obtain ⟨f, hf, inner, a, b, hstore⟩ := Reader.exists_stored serves hv.ordered hv.isObject h
    (List.getElem_mem (show 0 < (areas.map Area.slot).length by decide)) hllm
  obtain rfl := Option.some.inj hf
  obtain ⟨x, hx⟩ := Field.exists_read_of_store hstore
  obtain ⟨g, hg, inner', a', b', hstore'⟩ := Reader.exists_stored LlmSettings.serves
    (hv.ordered.get? hllm) ⟨members, Option.some.inj (hllm.symm.trans hmembers)⟩ hx
    (List.getElem_mem (show 4 < LlmSettings.slots.length by decide)) htemperature
  obtain rfl := Option.some.inj hg
  obtain ⟨y, hy⟩ := Field.exists_read_of_store hstore'
  exact absurd hy (by simp [Json.doc, Reader.single])

/-- A document whose temperature is `null`, laid over the standard values, is refused. -/
theorem Settings.ofLayers_ne_ok {v : Json} (hv : Grounded v)
    (hnull : v.find? "llm" "temperature" = some .null) (s : Settings) : ofLayers [v] ≠ .ok s := by
  have hmerged : mergeLayers [v] = standard.toJson.normal.merge v := rfl
  have hread : ∀ t, Reader.ofJson read (mergeLayers [v]) ≠ .ok t := by
    rw [hmerged]
    refine read_ne_ok (hv.over (Json.ordered_normal _)) ?_
    exact Json.find?_merge_of_some hv.ordered hnull (by simp) _
  unfold ofLayers
  split
  · exact absurd ‹_› (hread _)
  · simp

/-! ## Saving what was loaded -/

/-- A document of the project that has no others beside it. -/
theorem Settings.loadLayers_alone {d : Disk} {workspace : String} {user : Option String} {v : Json}
    (hproject : readLayer? d readJson (projectSettings workspace) = .ok (some v))
    (hlegacy : d.holds (legacySettings workspace) = false)
    (huser : ∀ path, user = some path → d.holds path = false)
    (hlocal : d.holds (localSettings workspace) = false) :
    loadLayers d workspace user = ofLayers [v] := by
  have hmissing : ∀ {path} (read : String → Except LoadFault Json), d.holds path = false →
      readLayer? d read path = .ok none := by
    intro path read h
    rw [readLayer?, h]
    rfl
  have hread : (Layered.mk none none (some v) none).ReadFrom d workspace user := by
    refine ⟨hmissing _ hlegacy, ?_, hproject, hmissing _ hlocal⟩
    cases user with
    | none => rfl
    | some path => exact hmissing _ (huser path rfl)
  rw [loadLayers, hread.layers_eq]
  rfl

section Saved

variable {s : Settings} {before later : Disk} {target : String} {user : Option String}
  (hsave : s.save before target = .ok later)
  (hlegacy : later.holds (legacySettings target) = false)
  (huser : ∀ path, user = some path → later.holds path = false)
  (hlocal : later.holds (localSettings target) = false)
include hsave hlegacy huser hlocal

/-- What is loaded from a workspace in which settings were saved is what their document says. -/
theorem Settings.loadLayers_saved {v : Json} (hv : readJson s.toJson.pretty = .ok v) :
    loadLayers later target user = ofLayers [v] := by
  obtain ⟨between, -, hwrite⟩ := save_eq_ok hsave
  refine loadLayers_alone ?_ hlegacy huser hlocal
  rw [readLayer?_of_readText (Disk.readText_of_write hwrite), hv]
  rfl

variable (hheld : s.llm.Held)
include hheld

/-- Settings with a finite temperature are loaded again. -/
theorem Settings.exists_loaded_again (hfinite : s.llm.temperature.isFinite = true) :
    ∃ x, loadLayers later target user = .ok (s.withTemperature x) := by
  obtain ⟨x, hx⟩ := readsBack_of_held hheld hfinite
  obtain ⟨v, hv, hgrounded, hsaid⟩ := hx.exists_saved
  rw [loadLayers_saved hsave hlegacy huser hlocal hv]
  exact ⟨x, ofLayers_concat (List.forall_mem_nil _) hgrounded hsaid⟩

/-- Settings with another temperature are not. -/
theorem Settings.not_loaded_again (hinfinite : s.llm.temperature.isFinite = false)
    (t : Settings) : loadLayers later target user ≠ .ok t := by
  obtain ⟨v, hv, hgrounded, hllm, -⟩ := exists_read_document (s := s) (t := .null) (w := .null)
    .null rfl hheld.maxTokens hheld.timeoutSeconds
  rw [← pretty_of_not_finite hinfinite] at hv
  rw [loadLayers_saved hsave hlegacy huser hlocal hv]
  refine ofLayers_ne_ok hgrounded (Option.bind_eq_some_iff.2 ⟨_, hllm, ?_⟩) t
  have hnodup : ((s.llm.membersWith .null).map Prod.fst).Nodup :=
    show (LlmSettings.slots.map Slot.name).Nodup by decide
  exact Json.lookup_ofMembers hnodup _

end Saved

/-- **When settings that were loaded and saved are loaded again.**  Let settings be loaded from any
documents and saved in any workspace that has no other documents.  If the temperature is finite,
they are loaded again, each as it was but for the temperature, which is read from its text.  If it
is not, nothing is loaded. -/
theorem loaded_again_iff_finite {d before later : Disk} {workspace target : String}
    {user user' : Option String} {s : Settings}
    (hload : Settings.loadLayers d workspace user = .ok s)
    (hsave : s.save before target = .ok later)
    (hlegacy : later.holds (legacySettings target) = false)
    (huser : ∀ path, user' = some path → later.holds path = false)
    (hlocal : later.holds (localSettings target) = false) :
    (s.llm.temperature.isFinite = true → ∃ x,
      Settings.loadLayers later target user' = .ok (s.withTemperature x)) ∧
    (s.llm.temperature.isFinite = false → ∀ t,
      Settings.loadLayers later target user' ≠ .ok t) :=
  have hheld := Settings.held_of_loadLayers hload
  ⟨Settings.exists_loaded_again hsave hlegacy huser hlocal hheld,
    Settings.not_loaded_again hsave hlegacy huser hlocal hheld⟩

/-- A disk whose workspace has a temperature in its settings and no other documents. -/
def diskWith (temperature : String) : Disk :=
  (Disk.empty []).putFile ["w", ".cellpilot", "settings.json"]
    ("\x7b\"llm\": \x7b\"temperature\": " ++ temperature ++ "\x7d\x7d").toUTF8

/-- Settings are loaded and saved over their own document, with none beside it. -/
def resaved (d : Disk) (workspace : String) (finite : Bool) : Bool :=
  match Settings.loadLayers d workspace none with
  | .ok s =>
    match s.save d workspace with
    | .ok later => s.llm.temperature.isFinite == finite &&
      !later.holds (legacySettings workspace) && !later.holds (localSettings workspace)
    | .error _ => false
  | .error _ => false

theorem exists_of_resaved {d : Disk} {workspace : String} {finite : Bool}
    (h : resaved d workspace finite = true) :
    ∃ s later, Settings.loadLayers d workspace none = .ok s ∧ s.save d workspace = .ok later ∧
      s.llm.temperature.isFinite = finite ∧ later.holds (legacySettings workspace) = false ∧
      later.holds (localSettings workspace) = false := by
  unfold resaved at h
  split at h
  · split at h
    · exact ⟨_, _, ‹_›, ‹_›, by simpa [and_assoc] using h⟩
    · exact absurd h (by simp)
  · exact absurd h (by simp)

/-- A temperature that is loaded and saved, and one that is too large for its width. -/
theorem loaded_again_iff_finite_both :
    (∃ s later, Settings.loadLayers (diskWith "0.7") "/w" none = .ok s ∧
      s.save (diskWith "0.7") "/w" = .ok later ∧
      ∃ x, Settings.loadLayers later "/w" none = .ok (s.withTemperature x)) ∧
    ∃ s later, Settings.loadLayers (diskWith "1e39") "/w" none = .ok s ∧
      s.save (diskWith "1e39") "/w" = .ok later ∧
      ∀ t, Settings.loadLayers later "/w" none ≠ .ok t := by
  have hnone : ∀ (later : Disk) (path : String), none = some path → later.holds path = false :=
    fun _ _ h => absurd h (by simp)
  constructor
  · obtain ⟨s, later, hload, hsave, hfinite, hlegacy, hlocal⟩ :=
      exists_of_resaved (show resaved (diskWith "0.7") "/w" true = true by decide +kernel)
    exact ⟨s, later, hload, hsave,
      (loaded_again_iff_finite hload hsave hlegacy (hnone later) hlocal).1 hfinite⟩
  · obtain ⟨s, later, hload, hsave, hinfinite, hlegacy, hlocal⟩ :=
      exists_of_resaved (show resaved (diskWith "1e39") "/w" false = true by decide +kernel)
    exact ⟨s, later, hload, hsave,
      (loaded_again_iff_finite hload hsave hlegacy (hnone later) hlocal).2 hinfinite⟩

/-- Settings that are loaded and saved need not be loaded again: a temperature can be rounded to
infinity and written as `null`. -/
theorem saved_infinite_refused :
    ¬ ∀ (d before later : Disk) (workspace target : String) (s : Settings),
      Settings.loadLayers d workspace none = .ok s → s.save before target = .ok later →
      later.holds (legacySettings target) = false → later.holds (localSettings target) = false →
      ∃ t, Settings.loadLayers later target none = .ok t := by
  intro h
  obtain ⟨s, later, hload, hsave, hinfinite, hlegacy, hlocal⟩ :=
    exists_of_resaved (show resaved (diskWith "1e39") "/w" false = true by decide +kernel)
  obtain ⟨t, ht⟩ := h _ _ later "/w" "/w" s hload hsave hlegacy hlocal
  exact Settings.not_loaded_again hsave hlegacy (fun _ h => absurd h (by simp)) hlocal
    (Settings.held_of_loadLayers hload) hinfinite t ht

end CellReview
