import CellReview.Proofs.Json.Indented
import CellReview.Proofs.Json.Legible
import CellReview.Proofs.Json.Reread
import CellReview.Proofs.Settings.Layers
import CellReview.Proofs.Storage.Made

/-!
# Saved settings are loaded again

Settings are saved with all of their parts, so that the saved document says something about each
known setting.  Laid over other documents, of whatever shape, it decides all of them.

* `Settings.Writable` — settings whose numbers are read back;
* `SaidBy`, `Settings.Writable.exists_saved` — what the saved document says;
* `Grounded.over`, `Settings.ofLayers_concat` — a document that says everything, over any others;
* `save_then_load` — **settings that are saved are the ones that are loaded**.
-/

namespace CellReview

/-! ## The saved document -/

/-- Whether the numbers of settings are read back: the temperature from its own text, the others as
counts of their width. -/
structure Settings.Writable (s : Settings) : Prop where
  temperature : Reader.ofText Reader.single (Json.number (.single s.llm.temperature)).compact =
    .ok s.llm.temperature
  maxTokens : s.llm.maxTokens < Nat.pow 2 32
  timeoutSeconds : s.llm.timeoutSeconds < Nat.pow 2 64

/-- Whether a tree is that of an object, at some depth, that says of every slot what it holds. -/
def SaidBy {σ : Type} (slots : List (Slot σ)) (s : σ) (depth : Nat) (d : Doc) : Prop :=
  ∃ members, d.value? depth = some (.object members) ∧
    ∀ j ∈ slots, ∃ w, (Json.object members).get? j.name = some w ∧ j.Means w (j.get s)

/-- The depth that is left to the sections of a document. -/
def sectionDepth : Nat :=
  Doc.nesting - 1

theorem SaidBy.of_members {σ : Type} {slots : List (Slot σ)} {s : σ} {depth : Nat} {d : Doc}
    {members : List (String × Json)}
    (hvalue : d.value? depth = some (.object (Json.ofMembers members)))
    (hnames : members.map Prod.fst = slots.map Slot.name) (hnodup : (slots.map Slot.name).Nodup)
    (hsaid : ∀ j ∈ slots, ∃ w, Json.lookup j.name members = some w ∧ j.Means w (j.get s)) :
    SaidBy slots s depth d := by
  refine ⟨_, hvalue, fun j hj => ?_⟩
  rw [Json.get?, Json.lookup_ofMembers (hnames ▸ hnodup)]
  exact hsaid j hj

theorem value?_written_ofOption (depth : Nat) (t : Option String) :
    Doc.value? depth (Json.ofOption .string t).written = some (.ofOption .string t) := by
  cases t <;> rfl

theorem ChatSettings.saidBy (s : ChatSettings) : SaidBy slots s sectionDepth s.toJson.written := by
  refine SaidBy.of_members rfl rfl (by decide) ?_
  simp only [slots, List.forall_mem_cons]
  exact ⟨⟨_, rfl, rfl⟩, ⟨_, rfl, rfl⟩, ⟨_, rfl, rfl⟩, List.forall_mem_nil _⟩

theorem KeySettings.saidBy (s : KeySettings) : SaidBy slots s sectionDepth s.toJson.written := by
  refine SaidBy.of_members rfl rfl (by decide) ?_
  simp only [slots, List.forall_mem_cons]
  exact ⟨⟨_, rfl, rfl⟩, ⟨_, rfl, rfl⟩, List.forall_mem_nil _⟩

theorem TelemetrySettings.saidBy (s : TelemetrySettings) :
    SaidBy slots s sectionDepth s.toJson.written := by
  have hvalue : Doc.value? sectionDepth s.toJson.written = some (.object (Json.ofMembers
      [("enabled", .bool s.enabled), ("endpoint", .ofOption .string s.endpoint)])) := by
    simp [toJson, Json.written, Json.writtenMembers, Doc.value?, Doc.members?, sectionDepth,
      Doc.nesting, value?_written_ofOption]
  refine SaidBy.of_members hvalue rfl (by decide) ?_
  simp only [slots, List.forall_mem_cons]
  exact ⟨⟨_, rfl, rfl⟩, ⟨_, rfl, rfl⟩, List.forall_mem_nil _⟩

/-! ## The sections of the saved document -/

/-- The members of the backend section, with a given value for the temperature. -/
def LlmSettings.membersWith (s : LlmSettings) (temperature : Json) : List (String × Json) :=
  [("model", .string s.model), ("endpoint", .string s.endpoint),
   ("api_key", .ofOption .string s.apiKey), ("api_key_env", .string s.apiKeyEnv),
   ("temperature", temperature), ("max_tokens", .ofNat s.maxTokens),
   ("timeout_seconds", .ofNat s.timeoutSeconds)]

/-- The backend section as JSON, with a given value for the temperature. -/
def LlmSettings.toJsonWith (s : LlmSettings) (temperature : Json) : Json :=
  .object (s.membersWith temperature)

/-- All settings as JSON, with a given value for the temperature. -/
def Settings.toJsonWith (s : Settings) (temperature : Json) : Json :=
  .object
    [("llm", s.llm.toJsonWith temperature), ("chat", s.chat.toJson),
     ("keybindings", s.keybindings.toJson), ("telemetry", s.telemetry.toJson)]

theorem LlmSettings.value?_written {s : LlmSettings} {t w : Json}
    (ht : t.written.value? (sectionDepth - 1) = some w) (hmax : s.maxTokens < Nat.pow 2 32)
    (htimeout : s.timeoutSeconds < Nat.pow 2 64) :
    Doc.value? sectionDepth (s.toJsonWith t).written =
      some (.object (Json.ofMembers (s.membersWith w))) := by
  have hmax : (Number.int s.maxTokens).reread = some (.int s.maxTokens) :=
    Number.IsCount.reread ⟨_, hmax.trans (by decide), rfl⟩
  have htimeout : (Number.int s.timeoutSeconds).reread = some (.int s.timeoutSeconds) :=
    Number.IsCount.reread ⟨_, htimeout, rfl⟩
  have hdepth : sectionDepth - 1 = 126 := rfl
  rw [hdepth] at ht
  simp [toJsonWith, membersWith, Json.written, Json.writtenMembers, Doc.value?, Doc.members?,
    sectionDepth, Doc.nesting, value?_written_ofOption, Json.ofNat, ht, hmax, htimeout]

/-- All numbers of the saved document are read as far as they go, if the temperature is. -/
theorem Settings.legible_toJsonWith (s : Settings) {t : Json} (ht : t.Each Number.Legible) :
    (s.toJsonWith t).Each Number.Legible := by
  have hstring : ∀ t, (Json.string t).Each Number.Legible := .string
  have hcount : ∀ n, (Json.ofNat n).Each Number.Legible := fun n => .number (legible_int n)
  have hoption : ∀ t, (Json.ofOption .string t).Each Number.Legible := by
    intro t
    cases t with
    | none => exact .null
    | some t => exact .string t
  refine .object ?_
  simp only [List.forall_mem_cons]
  refine ⟨.object ?_, .object ?_, .object ?_, .object ?_, List.forall_mem_nil _⟩
  all_goals simp only [LlmSettings.membersWith, List.forall_mem_cons]
  · exact ⟨hstring _, hstring _, hoption _, hstring _, ht, hcount _, hcount _,
      List.forall_mem_nil _⟩
  · exact ⟨hstring _, hstring _, hstring _, List.forall_mem_nil _⟩
  · exact ⟨hstring _, hstring _, List.forall_mem_nil _⟩
  · exact ⟨.bool _, hoption _, List.forall_mem_nil _⟩

/-- The saved document is read back, has every section, and says what each setting outside the
backend section is. -/
theorem Settings.exists_read_document {s : Settings} {t w : Json} (hlegible : t.Each Number.Legible)
    (ht : t.written.value? (sectionDepth - 1) = some w) (hmax : s.llm.maxTokens < Nat.pow 2 32)
    (htimeout : s.llm.timeoutSeconds < Nat.pow 2 64) :
    ∃ v, readJson (s.toJsonWith t).pretty = .ok v ∧ Grounded v ∧
      v.get? "llm" = some (.object (Json.ofMembers (s.llm.membersWith w))) ∧
      ∀ a ∈ areas.tail, ∃ members, v.get? a.name = some (.object members) ∧
        ∀ j ∈ a.slots, ∃ u, (Json.object members).get? j.name = some u ∧
          j.Means u (j.get (a.get s)) := by
  have hllm := LlmSettings.value?_written ht hmax htimeout
  obtain ⟨chat, hchat, hchatsaid⟩ := s.chat.saidBy
  obtain ⟨keys, hkeys, hkeyssaid⟩ := s.keybindings.saidBy
  obtain ⟨telemetry, htelemetry, htelemetrysaid⟩ := s.telemetry.saidBy
  let sections : List (String × Json) :=
    [("llm", .object (Json.ofMembers (s.llm.membersWith w))), ("chat", .object chat),
     ("keybindings", .object keys), ("telemetry", .object telemetry)]
  have hread : readJson (s.toJsonWith t).pretty = .ok (.object (Json.ofMembers sections)) := by
    rw [readJson, Json.parse?, Doc.ofText_pretty (s.legible_toJsonWith hlegible)]
    have hdepth : Doc.nesting - 1 = sectionDepth := rfl
    have hnested : ¬ Doc.nesting ≤ 1 := by decide
    simp [Settings.toJsonWith, Json.written, Json.writtenMembers, Doc.value?, Doc.members?,
      hdepth, hnested, hllm, hchat, hkeys, htelemetry, sections]
  have hsections : ∀ name, (Json.object (Json.ofMembers sections)).get? name =
      Json.lookup name sections :=
    Json.lookup_ofMembers (show (["llm", "chat", "keybindings", "telemetry"]).Nodup by decide)
  have hsaid : ∀ a ∈ areas.tail, ∃ members,
      (Json.object (Json.ofMembers sections)).get? a.name = some (.object members) ∧
      ∀ j ∈ a.slots, ∃ u, (Json.object members).get? j.name = some u ∧
        j.Means u (j.get (a.get s)) := by
    simp only [areas, List.tail_cons, List.forall_mem_cons, hsections]
    exact ⟨⟨_, rfl, hchatsaid⟩, ⟨_, rfl, hkeyssaid⟩, ⟨_, rfl, htelemetrysaid⟩,
      List.forall_mem_nil _⟩
  have hfirst : (Json.object (Json.ofMembers sections)).get? "llm" =
      some (.object (Json.ofMembers (s.llm.membersWith w))) := hsections "llm"
  refine ⟨_, hread, ⟨Layered.ordered_of_readJson hread, ⟨_, rfl⟩, ?_⟩, hfirst, hsaid⟩
  refine List.forall_mem_cons.2 ⟨⟨_, hfirst⟩, fun a ha => ?_⟩
  obtain ⟨members, hmembers, -⟩ := hsaid a ha
  exact ⟨members, hmembers⟩

/-! ## What the saved document says -/

/-- Settings with another temperature. -/
def Settings.withTemperature (s : Settings) (x : Binary .single) : Settings :=
  { s with llm := { s.llm with temperature := x } }

/-- Whether the numbers of settings are read back, the temperature as a given number. -/
structure Settings.ReadsBack (s : Settings) (x : Binary .single) : Prop where
  legible : (Number.single s.llm.temperature).Legible
  temperature : ∃ n, (Number.single s.llm.temperature).reread = some n ∧ n.toSingle = x
  maxTokens : s.llm.maxTokens < Nat.pow 2 32
  timeoutSeconds : s.llm.timeoutSeconds < Nat.pow 2 64

/-- The saved document is read back, has every section, and says what each setting is, with the
temperature as it is read back. -/
theorem Settings.ReadsBack.exists_saved {s : Settings} {x : Binary .single} (h : s.ReadsBack x) :
    ∃ v, readJson s.toJson.pretty = .ok v ∧ Grounded v ∧
      ∀ k ∈ Setting.all, ∃ w, k.find? v = some w ∧ k.Means w (k.get (s.withTemperature x)) := by
  obtain ⟨n, hn, hsingle⟩ := h.temperature
  have htree : (Json.number (.single s.llm.temperature)).written.value? (sectionDepth - 1) =
      some (.number n) := by rw [Json.written, hn]; rfl
  obtain ⟨v, hread, hgrounded, hllm, hothers⟩ :=
    Settings.exists_read_document (.number h.legible) htree h.maxTokens h.timeoutSeconds
  have hmembers : ∀ name, (Json.object (Json.ofMembers (s.llm.membersWith (.number n)))).get? name =
      Json.lookup name (s.llm.membersWith (.number n)) :=
    Json.lookup_ofMembers (show (LlmSettings.slots.map Slot.name).Nodup by decide)
  have hfirst : ∀ j ∈ LlmSettings.slots, ∃ u,
      (Json.object (Json.ofMembers (s.llm.membersWith (.number n)))).get? j.name = some u ∧
        j.Means u (j.get (s.withTemperature x).llm) := by
    simp only [LlmSettings.slots, List.forall_mem_cons, hmembers]
    exact ⟨⟨_, rfl, rfl⟩, ⟨_, rfl, rfl⟩, ⟨_, rfl, rfl⟩, ⟨_, rfl, rfl⟩,
      ⟨_, rfl, n, rfl, hsingle.symm⟩, ⟨_, rfl, h.maxTokens, rfl⟩, ⟨_, rfl, h.timeoutSeconds, rfl⟩,
      List.forall_mem_nil _⟩
  have hsaid : ∀ a ∈ areas, ∃ members, v.get? a.name = some (.object members) ∧
      ∀ j ∈ a.slots, ∃ u, (Json.object members).get? j.name = some u ∧
        j.Means u (j.get (a.get (s.withTemperature x))) :=
    List.forall_mem_cons.2 ⟨⟨_, hllm, hfirst⟩, by simpa [areas, withTemperature] using hothers⟩
  refine ⟨v, hread, hgrounded, fun k hk => ?_⟩
  obtain ⟨a, ha, j, hj, rfl⟩ := Setting.exists_slot hk
  obtain ⟨members, hmembers, hslots⟩ := hsaid a ha
  obtain ⟨w, hw, hmeans⟩ := hslots j hj
  exact ⟨w, Option.bind_eq_some_iff.2 ⟨_, hmembers, hw⟩, hmeans⟩

theorem Settings.Writable.readsBack {s : Settings} (h : s.Writable) :
    s.ReadsBack s.llm.temperature := by
  obtain ⟨hlegible, htemperature⟩ := Number.legible_of_ofText h.temperature
  exact ⟨hlegible, htemperature, h.maxTokens, h.timeoutSeconds⟩

/-- The saved document is read back, has every section, and says what each setting is. -/
theorem Settings.Writable.exists_saved {s : Settings} (h : s.Writable) :
    ∃ v, readJson s.toJson.pretty = .ok v ∧ Grounded v ∧
      ∀ k ∈ Setting.all, ∃ w, k.find? v = some w ∧ k.Means w (k.get s) :=
  h.readsBack.exists_saved

/-! ## A document over others -/

/-- Over any other document, a grounded one has all of its sections. -/
theorem Grounded.over {base v : Json} (h : Grounded v) (hbase : base.Ordered) :
    Grounded (base.merge v) := by
  have hobject : ∀ b : Json, ∀ w : Json, (∃ members, w = .object members) →
      ∃ members, b.merge w = .object members := by
    rintro b _ ⟨members, rfl⟩
    exact Json.exists_merge_object b members
  refine ⟨hbase.merge h.ordered, hobject base v h.isObject, fun a ha => ?_⟩
  obtain ⟨members, hmembers⟩ := h.sections a ha
  rcases Json.get?_merge_of_some h.ordered hmembers base with hmerged | ⟨b, hmerged⟩
  · exact ⟨members, hmerged⟩
  · obtain ⟨merged, heq⟩ := Json.exists_merge_object b members
    exact ⟨merged, hmerged.trans (congrArg some heq)⟩

theorem ordered_mergeLayers {documents : List Json} (h : ∀ v ∈ documents, v.Ordered) :
    (mergeLayers documents).Ordered := by
  rw [mergeLayers]
  exact List.foldlRecOn documents Json.merge (motive := Json.Ordered) (Json.ordered_normal _)
    fun base hbase v hv => hbase.merge (h v hv)

/-- A last document that says of every known setting what it is decides the settings. -/
theorem Settings.ofLayers_concat {s : Settings} {lower : List Json} {v : Json}
    (hlower : ∀ u ∈ lower, u.Ordered) (hv : Grounded v)
    (hsaid : ∀ k ∈ Setting.all, ∃ w, k.find? v = some w ∧ k.Means w (k.get s)) :
    ofLayers (lower ++ [v]) = .ok s := by
  have hmerged : mergeLayers (lower ++ [v]) = (mergeLayers lower).merge v := by
    rw [mergeLayers, List.foldl_concat]
    rfl
  have hfind : ∀ k ∈ Setting.all, ∃ w,
      k.find? (mergeLayers (lower ++ [v])) = some w ∧ k.Means w (k.get s) := by
    intro k hk
    obtain ⟨w, hw, hmeans⟩ := hsaid k hk
    refine ⟨w, ?_, hmeans⟩
    rw [hmerged]
    exact Json.find?_merge_of_some hv.ordered hw ((Setting.scalar hk).not_object hmeans) _
  have hgrounded : Grounded (mergeLayers (lower ++ [v])) :=
    hmerged ▸ hv.over (ordered_mergeLayers hlower)
  obtain ⟨t, hread, htold⟩ := hgrounded.exists_read fun k hk w hw => by
    obtain ⟨u, hu, hmeans⟩ := hfind k hk
    exact ⟨_, Option.some.inj (hu.symm.trans hw) ▸ hmeans⟩
  rw [ofLayers, hread]
  refine congrArg Except.ok (Settings.ext_all fun k hk => ?_)
  obtain ⟨w, hw, hmeans⟩ := hfind k hk
  exact (Setting.scalar hk).unique (htold k hk w hw) hmeans

/-! ## Saving and loading -/

theorem Settings.save_eq_ok {s : Settings} {d later : Disk} {workspace : String}
    (h : s.save d workspace = .ok later) :
    ∃ between, d.makeDirs (runtimeDir workspace) = .ok between ∧
      between.write (projectSettings workspace) s.toJson.pretty = .ok later := by
  unfold save at h
  dsimp only at h
  split at h
  · rename_i hsaved
    obtain rfl := Except.ok.inj h
    exact bind_eq_ok_iff.1 hsaved
  · exact absurd h (by simp)

theorem readLayer?_of_readText {d : Disk} {path text : String}
    (h : d.readText path = .ok text) (read : String → Except LoadFault Json) :
    readLayer? d read path = (read text).map some := by
  have hholds : d.holds path = true := by
    cases hfind : d.find path with
    | error fault => simp [Disk.readText, Disk.readBytes, hfind, bind, Except.bind] at h
    | ok node => simp [Disk.holds, hfind, Except.isOk, Except.toBool]
  simp [readLayer?, hholds, h]

/-- **Settings that are saved are the ones that are loaded.**  Let settings whose numbers are read
back be saved in a workspace.  If the older form and the document of the user are missing or can
be parsed then, whatever they say and whatever their shape, and if there are no local settings,
then the settings of the workspace are the saved ones.  Saving them changes no other file: what a
path led to before is read as before, or is the saved document. -/
theorem save_then_load {s : Settings} {d later : Disk} {workspace : String} {user : Option String}
    (hs : s.Writable) (hsave : s.save d workspace = .ok later)
    (hlegacy : ∃ v, readLayer? later readToml (legacySettings workspace) = .ok v)
    (huser : ∀ path, user = some path → ∃ v, readLayer? later readJson path = .ok v)
    (hlocal : later.holds (localSettings workspace) = false) :
    Settings.loadLayers later workspace user = .ok s ∧
      ∀ path bytes, d.readBytes path = .ok bytes → later.readBytes path = .ok bytes ∨
        later.readBytes path = .ok s.toJson.pretty.toUTF8 := by
  obtain ⟨between, hmade, hwrite⟩ := Settings.save_eq_ok hsave
  refine ⟨?_, fun path bytes hbytes =>
    Disk.readBytes_of_write hwrite ((Disk.grown_makeDirs hmade).readBytes hbytes)⟩
  obtain ⟨v, hv, hgrounded, hsaid⟩ := hs.exists_saved
  obtain ⟨legacy, hlegacy⟩ := hlegacy
  have hproject : readLayer? later readJson (projectSettings workspace) = .ok (some v) := by
    rw [readLayer?_of_readText (Disk.readText_of_write hwrite), hv]
    rfl
  have hunshared : readLayer? later readJson (localSettings workspace) = .ok none := by
    rw [readLayer?, hlocal]
    rfl
  obtain ⟨theirs, hread⟩ : ∃ theirs,
      (Layered.mk legacy theirs (some v) none).ReadFrom later workspace user := by
    cases user with
    | none => exact ⟨none, hlegacy, rfl, hproject, hunshared⟩
    | some path =>
      obtain ⟨theirs, htheirs⟩ := huser path rfl
      exact ⟨theirs, hlegacy, htheirs, hproject, hunshared⟩
  have hpresent : (Layered.mk legacy theirs (some v) none).present =
      [legacy, theirs].filterMap id ++ [v] := by
    cases legacy <;> cases theirs <;> rfl
  rw [Settings.loadLayers, hread.layers_eq, hpresent]
  refine Settings.ofLayers_concat (fun u hu => hread.ordered ?_) hgrounded hsaid
  rw [hpresent]
  exact List.mem_append_left _ hu

/-- The older form has a key and an endpoint, and the document of the user has no section of the
right shape.  The saved settings have neither key nor endpoint, and so have those that are
loaded. -/
theorem save_then_load_absent_key :
    let d := ((Disk.empty []).putFile ["w", ".cellpilot", "config.toml"]
      "[llm]\napi_key = \"old\"\n[telemetry]\nendpoint = \"t\"\n".toUTF8).putFile ["u.json"]
        "\x7b\"llm\": [1], \"chat\": null, \"telemetry\": \x7b\"endpoint\": 5\x7d\x7d".toUTF8
    let older : Settings := { Settings.standard with
      llm := { LlmSettings.standard with apiKey := some "old" }
      telemetry := { TelemetrySettings.standard with endpoint := some "t" } }
    let s : Settings := { Settings.standard with
      llm := { LlmSettings.standard with temperature := .finite false 11744051 (-24) } }
    Settings.loadLayers d "/w" none = .ok older ∧
      ∃ later, s.save d "/w" = .ok later ∧
        Settings.loadLayers later "/w" (some "/u.json") = .ok s := by
  intro d older s
  have hok : ∀ {α : Type} {x : Except LoadFault α}, x.isOk = true → ∃ v, x = .ok v := by
    intro α x h
    cases x with
    | error fault => exact absurd h (by simp [Except.isOk, Except.toBool])
    | ok v => exact ⟨v, rfl⟩
  have hlayers : ∀ later, s.save d "/w" = .ok later →
      ((readLayer? later readToml (legacySettings "/w")).isOk = true ∧
        (readLayer? later readJson "/u.json").isOk = true) ∧
          later.holds (localSettings "/w") = false := by
    have hall : (match s.save d "/w" with
        | .ok later => (readLayer? later readToml (legacySettings "/w")).isOk &&
          (readLayer? later readJson "/u.json").isOk && !later.holds (localSettings "/w")
        | .error _ => true) = true := by
      decide +kernel
    intro later h
    rw [h] at hall
    simpa using hall
  obtain ⟨later, hsave⟩ := hok (x := s.save d "/w") (by decide +kernel)
  obtain ⟨⟨hlegacy, huser⟩, hlocal⟩ := hlayers later hsave
  have hs : s.Writable := ⟨by decide +kernel, by decide, by decide⟩
  refine ⟨by decide +kernel, later, hsave, ?_⟩
  exact (save_then_load hs hsave (hok hlegacy) (fun _ h => Option.some.inj h ▸ hok huser) hlocal).1

end CellReview
