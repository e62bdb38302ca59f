import CellReview.Proofs.Settings.Schema
import CellReview.Settings.Layers

/-!
# The last layer decides

Settings come from up to four documents over the standard values.  What a setting is, is told
by the last document that mentions it; everything else in the documents does not matter.

* `Shaped`, `WellTyped` — documents whose sections are objects, and whose known settings are of
  their types;
* `Grounded`, `Grounded.foldl_merge` — the documents merged so far, and what they say;
* `Grounded.exists_read`, `Settings.ofLayers_of_wellTyped` — well-typed documents are read;
* `Layered` — the documents of a workspace;
* `last_layer_decides` — **the settings of a workspace, for every choice of layers**.
-/

namespace CellReview

/-! ## Documents -/

/-- A document that is an object and whose sections are objects. -/
structure Shaped (v : Json) : Prop where
  isObject : ∃ members, v = .object members
  sections : ∀ a ∈ areas, ∀ w, v.get? a.name = some w → ∃ members, w = .object members

/-- A document in which every known setting is of its type. -/
structure WellTyped (v : Json) : Prop extends Shaped v where
  values : ∀ k ∈ Setting.all, ∀ w, k.find? v = some w → ∃ x, k.Means w x

/-! ## Merging documents -/

/-- An ordered object in which no section is missing. -/
structure Grounded (v : Json) : Prop where
  ordered : v.Ordered
  isObject : ∃ members, v = .object members
  sections : ∀ a ∈ areas, ∃ members, v.get? a.name = some (.object members)

theorem grounded_standard : Grounded Settings.standard.toJson.normal where
  ordered := Json.ordered_normal _
  isObject := ⟨_, rfl⟩
  sections := by
    simp only [areas, List.forall_mem_cons]
    exact ⟨⟨_, rfl⟩, ⟨_, rfl⟩, ⟨_, rfl⟩, ⟨_, rfl⟩, by simp⟩

namespace Grounded

variable {base v : Json}

/-- A document laid over others decides the settings that it mentions. -/
theorem find?_merge (h : Grounded base) (hv : v.Ordered) (htyped : WellTyped v) {k : Setting}
    (hk : k ∈ Setting.all) : k.find? (base.merge v) = (k.find? v).or (k.find? base) := by
  obtain ⟨a, ha, j, hj, rfl⟩ := Setting.exists_slot hk
  refine Json.find?_merge h.isObject (h.sections a ha) hv htyped.isObject
    (htyped.sections a ha) fun w hw => ?_
  obtain ⟨x, hx⟩ := htyped.values _ hk w hw
  exact (Setting.scalar hk).not_object hx

theorem merge (h : Grounded base) (hv : v.Ordered) (hshaped : Shaped v) :
    Grounded (base.merge v) := by
  obtain ⟨members, rfl⟩ := h.isObject
  obtain ⟨overlay, rfl⟩ := hshaped.isObject
  refine ⟨h.ordered.merge hv, ⟨Json.mergeMembers members overlay, by rw [Json.merge]⟩,
    fun a ha => ?_⟩
  obtain ⟨lower, hlower⟩ := h.sections a ha
  have hlower : Json.lookup a.name members = some (.object lower) := hlower
  rw [Json.get?_merge hv.sorted, hlower]
  cases hupper : Json.lookup a.name overlay with
  | none => exact ⟨lower, rfl⟩
  | some w =>
    obtain ⟨upper, rfl⟩ := hshaped.sections a ha w hupper
    exact ⟨Json.mergeMembers lower upper, by simp [Json.merge]⟩

/-- Among documents laid over others, the last one that mentions a setting decides it. -/
theorem foldl_merge (h : Grounded base) {documents : List Json}
    (hordered : ∀ v ∈ documents, v.Ordered) (htyped : ∀ v ∈ documents, WellTyped v) :
    Grounded (documents.foldl Json.merge base) ∧ ∀ k ∈ Setting.all,
      k.find? (documents.foldl Json.merge base) =
        (documents.reverse.findSome? k.find?).or (k.find? base) := by
  induction documents generalizing base with
  | nil => exact ⟨h, fun k hk => rfl⟩
  | cons v documents ih =>
    obtain ⟨hv, hordered⟩ := List.forall_mem_cons.1 hordered
    obtain ⟨hvtyped, htyped⟩ := List.forall_mem_cons.1 htyped
    obtain ⟨hgrounded, hfind⟩ := ih (h.merge hv hvtyped.toShaped) hordered htyped
    refine ⟨hgrounded, fun k hk => ?_⟩
    rw [List.foldl_cons, hfind k hk, h.find?_merge hv hvtyped hk, List.reverse_cons,
      List.findSome?_append, Option.or_assoc]
    simp

end Grounded

/-! ## Reading merged documents -/

/-- A grounded document is read if its known settings are of their types. -/
theorem Grounded.exists_read {v : Json} (h : Grounded v)
    (hvalues : ∀ k ∈ Setting.all, ∀ w, k.find? v = some w → ∃ x, k.Means w x) :
    ∃ s, Reader.ofJson Settings.read v = .ok s ∧
      ∀ k ∈ Setting.all, ∀ w, k.find? v = some w → k.Means w (k.get s) := by
  have hsections : Typed (areas.map Area.slot) v := by
    intro k hk w hw
    obtain ⟨a, ha, rfl⟩ := List.mem_map.1 hk
    obtain ⟨members, hmembers⟩ := h.sections a ha
    refine Area.exists_described ha (h.ordered.get? hw)
      ⟨members, Option.some.inj (hw.symm.trans hmembers)⟩ fun j hj u hu => ?_
    refine hvalues _ (Setting.ofSlot_mem_all ha hj) u ?_
    exact Option.bind_eq_some_iff.2 ⟨w, hw, hu⟩
  obtain ⟨s, hread, hdescribes⟩ := Settings.serves.exists_record .standard
    (r := ⟨.value, Doc.nesting⟩) rfl h.ordered h.isObject hsections
  refine ⟨s, hread, fun k hk w hw => ?_⟩
  obtain ⟨a, ha, j, hj, rfl⟩ := Setting.exists_slot hk
  obtain ⟨u, hu, huw⟩ := Option.bind_eq_some_iff.1 hw
  have harea := (hdescribes.tells a.slot (List.mem_map_of_mem ha)).2 u hu
  exact (harea.tells j hj).2 w huw

/-- Well-typed documents are read, and each known setting is what the last document that
mentions it tells, or standard if there is none. -/
theorem Settings.ofLayers_of_wellTyped {documents : List Json}
    (hordered : ∀ v ∈ documents, v.Ordered) (htyped : ∀ v ∈ documents, WellTyped v) :
    ∃ s, ofLayers documents = .ok s ∧ ∀ k ∈ Setting.all,
      (∀ w, documents.reverse.findSome? k.find? = some w → k.Means w (k.get s)) ∧
      (documents.reverse.findSome? k.find? = none → k.get s = k.get .standard) := by
  obtain ⟨hgrounded, hfind⟩ := grounded_standard.foldl_merge hordered htyped
  have hmerged : documents.foldl Json.merge standard.toJson.normal = mergeLayers documents := rfl
  rw [hmerged] at hgrounded hfind
  have hvalues : ∀ k ∈ Setting.all, ∀ w, k.find? (mergeLayers documents) = some w →
      ∃ x, k.Means w x := by
    intro k hk w hw
    rw [hfind k hk] at hw
    cases hlast : documents.reverse.findSome? k.find? with
    | none =>
      rw [hlast, Option.none_or] at hw
      obtain ⟨u, hu, hmeans⟩ := Setting.standard_means hk
      exact ⟨_, Option.some.inj (hu.symm.trans hw) ▸ hmeans⟩
    | some u =>
      rw [hlast, Option.some_or] at hw
      obtain ⟨v, hv, hvu⟩ := List.exists_of_findSome?_eq_some hlast
      exact (htyped v (List.mem_reverse.1 hv)).values k hk w (hvu.trans hw)
  obtain ⟨s, hread, hsaid⟩ := hgrounded.exists_read hvalues
  refine ⟨s, by rw [ofLayers, hread], fun k hk => ?_⟩
  have hsaid := hsaid k hk
  rw [hfind k hk] at hsaid
  constructor
  · intro w hw
    exact hsaid w (by rw [hw, Option.some_or])
  · intro hnone
    obtain ⟨u, hu, hmeans⟩ := Setting.standard_means hk
    exact (Setting.scalar hk).unique (hsaid u (by rw [hnone, Option.none_or, hu])) hmeans

/-! ## The layers of a workspace -/

/-- The documents of a workspace and of its user, as far as they are there. -/
structure Layered where
  legacy : Option Json
  user : Option Json
  project : Option Json
  unshared : Option Json

namespace Layered

/-- The layers in the order in which they are laid over each other. -/
def all (ds : Layered) : List (Option Json) :=
  [ds.legacy, ds.user, ds.project, ds.unshared]

/-- The documents that are there. -/
def present (ds : Layered) : List Json :=
  ds.all.filterMap id

/-- What each layer says about a setting. -/
def mentions (ds : Layered) (k : Setting) : List (Option Json) :=
  ds.all.map fun v => v.bind k.find?

/-- What the last layer that mentions a setting says about it. -/
def last? (ds : Layered) (k : Setting) : Option Json :=
  (ds.mentions k).reverse.findSome? id

/-- The documents on a disk. -/
structure ReadFrom (ds : Layered) (d : Disk) (workspace : String) (user : Option String) :
    Prop where
  legacy : readLayer? d readToml (legacySettings workspace) = .ok ds.legacy
  user : match user with
    | some path => readLayer? d readJson path = .ok ds.user
    | none => ds.user = none
  project : readLayer? d readJson (projectSettings workspace) = .ok ds.project
  unshared : readLayer? d readJson (localSettings workspace) = .ok ds.unshared

variable {ds : Layered} {d : Disk} {workspace : String} {user : Option String}

/-- The last layer that mentions a setting is one of those that are there. -/
theorem last?_eq (ds : Layered) (k : Setting) :
    ds.last? k = ds.present.reverse.findSome? k.find? := by
  have hpresent : ∀ layers : List (Option Json),
      (layers.map fun v => v.bind k.find?).findSome? id =
        (layers.filterMap id).findSome? k.find? := by
    intro layers
    induction layers with
    | nil => rfl
    | cons v layers ih => cases v <;> simp [ih, List.findSome?_cons]
  rw [last?, mentions, present, ← List.map_reverse, hpresent, List.filterMap_reverse]

theorem ReadFrom.layers_eq (h : ds.ReadFrom d workspace user) :
    layers d workspace user = .ok ds.present := by
  obtain ⟨hlegacy, huser, hproject, hunshared⟩ := h
  cases user with
  | none =>
    have huser : ds.user = none := huser
    simp only [layers, hlegacy, Option.toList, List.nil_append, List.mapM_cons, List.mapM_nil,
      hproject, hunshared, present, all, huser]
    rfl
  | some path =>
    simp only [layers, hlegacy, Option.toList, List.singleton_append, List.mapM_cons,
      List.mapM_nil, hproject, hunshared, huser]
    rfl

/-- What holds of every document that can be parsed holds of a layer. -/
theorem holds_of_readLayer? {read : String → Except LoadFault Json} {p : Json → Prop}
    (hread : ∀ text v, read text = .ok v → p v) {path : String} {v : Json}
    (h : readLayer? d read path = .ok (some v)) : p v := by
  unfold readLayer? at h
  split at h
  · split at h
    · rename_i text _
      obtain ⟨w, hw, hsome⟩ := map_eq_ok_iff.1 h
      exact hread text v (Option.some.inj hsome ▸ hw)
    · exact absurd h (by simp)
  · exact absurd h (by simp)

theorem ordered_of_readJson {text : String} {v : Json} (h : readJson text = .ok v) :
    v.Ordered := by
  unfold readJson at h
  split at h
  · rename_i hparse
    exact Json.ordered_of_parse? (Except.ok.inj h ▸ hparse)
  · exact absurd h (by simp)

theorem ordered_of_readToml {text : String} {v : Json} (h : readToml text = .ok v) :
    v.Ordered := by
  unfold readToml at h
  split at h
  · rename_i hparse
    exact Toml.ordered_of_parse? (Except.ok.inj h ▸ hparse)
  · exact absurd h (by simp)

theorem ReadFrom.ordered (h : ds.ReadFrom d workspace user) {v : Json} (hv : v ∈ ds.present) :
    v.Ordered := by
  obtain ⟨hlegacy, huser, hproject, hunshared⟩ := h
  have hv : some v ∈ ds.all := by simpa [present] using hv
  simp only [all, List.mem_cons, List.not_mem_nil, or_false] at hv
  rcases hv with hv | hv | hv | hv
  · exact holds_of_readLayer? (fun _ _ => ordered_of_readToml) (hv ▸ hlegacy)
  · cases user with
    | none => exact absurd (hv.trans huser) (by simp)
    | some path => exact holds_of_readLayer? (fun _ _ => ordered_of_readJson) (hv ▸ huser)
  · exact holds_of_readLayer? (fun _ _ => ordered_of_readJson) (hv ▸ hproject)
  · exact holds_of_readLayer? (fun _ _ => ordered_of_readJson) (hv ▸ hunshared)

/-- Documents that say the same as well-typed ones are well-typed. -/
theorem wellTyped_of_mentions {ds' : Layered} (htyped : ∀ v ∈ ds.present, WellTyped v)
    (hshaped : ∀ v ∈ ds'.present, Shaped v)
    (hsame : ∀ k ∈ Setting.all, ds'.mentions k = ds.mentions k) :
    ∀ v ∈ ds'.present, WellTyped v := by
  intro v hv
  refine ⟨hshaped v hv, fun k hk w hw => ?_⟩
  have hmention : some w ∈ ds.mentions k := by
    rw [← hsame k hk]
    exact List.mem_map.2 ⟨some v, by simpa [present] using hv, hw⟩
  obtain ⟨u, hu, huw⟩ := List.mem_map.1 hmention
  obtain ⟨u, rfl, huw⟩ := Option.bind_eq_some_iff.1 huw
  exact (htyped u (by simpa [present] using hu)).values k hk w huw

end Layered

/-- **The last layer decides.**  Let the layers of a workspace that are there be objects whose
sections are objects, with every known setting of its type.  Then the settings are read.  Each
known setting is what the last layer that mentions it tells, and standard if there is none.  The
same settings are read from all other documents of that shape in which each layer says the same
about each known setting. -/
theorem last_layer_decides (d : Disk) (workspace : String) (user : Option String) (ds : Layered)
    (hread : ds.ReadFrom d workspace user) (htyped : ∀ v ∈ ds.present, WellTyped v) :
    ∃ s, Settings.loadLayers d workspace user = .ok s ∧
      (∀ k ∈ Setting.all, (∀ w, ds.last? k = some w → k.Means w (k.get s)) ∧
        (ds.last? k = none → k.get s = k.get .standard)) ∧
      ∀ (d' : Disk) (workspace' : String) (user' : Option String) (ds' : Layered),
        ds'.ReadFrom d' workspace' user' → (∀ v ∈ ds'.present, Shaped v) →
        (∀ k ∈ Setting.all, ds'.mentions k = ds.mentions k) →
        Settings.loadLayers d' workspace' user' = .ok s := by
  have hload : ∀ {d workspace user} {ds : Layered}, ds.ReadFrom d workspace user →
      Settings.loadLayers d workspace user = Settings.ofLayers ds.present := by
    intro d workspace user ds h
    rw [Settings.loadLayers, h.layers_eq]
    rfl
  obtain ⟨s, hs, hsaid⟩ := Settings.ofLayers_of_wellTyped (fun v hv => hread.ordered hv) htyped
  refine ⟨s, (hload hread).trans hs, fun k hk => ?_, ?_⟩
  · rw [ds.last?_eq]
    exact hsaid k hk
  · intro d' workspace' user' ds' hread' hshaped' hsame
    have htyped' := Layered.wellTyped_of_mentions htyped hshaped' hsame
    obtain ⟨t, ht, htold⟩ :=
      Settings.ofLayers_of_wellTyped (fun v hv => hread'.ordered hv) htyped'
    rw [hload hread', ht]
    refine congrArg Except.ok (Settings.ext_all fun k hk => ?_)
    have hlast : ds'.last? k = ds.last? k := by
      rw [Layered.last?, Layered.last?, hsame k hk]
    obtain ⟨hsome, hnone⟩ := htold k hk
    obtain ⟨hsome', hnone'⟩ := hsaid k hk
    rw [← Layered.last?_eq, hlast] at hsome hnone
    rw [← Layered.last?_eq] at hsome' hnone'
    cases h : ds.last? k with
    | none => rw [hnone h, hnone' h]
    | some w => exact (Setting.scalar hk).unique (hsome w h) (hsome' w h)

/-- The model of the project is taken, the number of tokens is still that of the older form, and
no other member of the document matters. -/
theorem last_layer_decides_model :
    let disk (project : String) : Disk :=
      ((Disk.empty []).putFile ["w", ".cellpilot", "config.toml"]
        "[llm]\nmodel = \"a\"\nmax_tokens = 7\n".toUTF8).putFile
          ["w", ".cellpilot", "settings.json"] project.toUTF8
    ∃ s, Settings.loadLayers (disk "\x7b\"llm\": \x7b\"model\": \"b\"\x7d\x7d") "/w" none = .ok s ∧
      s.llm.model = "b" ∧ s.llm.maxTokens = 7 ∧ s.chat.preview = .proposed ∧
      Settings.loadLayers
        (disk "\x7b\"theme\": 1, \"llm\": \x7b\"color\": [], \"model\": \"b\"\x7d\x7d") "/w" none =
          .ok s := by
  intro disk
  let layered (project : Json) : Layered :=
    ⟨some (.object [("llm", .object [("max_tokens", .ofNat 7), ("model", .string "a")])]), none,
      some project, none⟩
  let plain : Json := .object [("llm", .object [("model", .string "b")])]
  let coloured : Json :=
    .object [("llm", .object [("color", .array []), ("model", .string "b")]), ("theme", .ofNat 1)]
  have hread : (layered plain).ReadFrom
      (disk "\x7b\"llm\": \x7b\"model\": \"b\"\x7d\x7d") "/w" none :=
    ⟨by decide +kernel, rfl, by decide +kernel, by decide +kernel⟩
  have hread' : (layered coloured).ReadFrom
      (disk "\x7b\"theme\": 1, \"llm\": \x7b\"color\": [], \"model\": \"b\"\x7d\x7d") "/w" none :=
    ⟨by decide +kernel, rfl, by decide +kernel, by decide +kernel⟩
  have htyped : ∀ v ∈ (layered plain).present, WellTyped v := by
    have hllm : ∀ members, Typed LlmSettings.slots (.object members) →
        WellTyped (.object [("llm", .object members)]) := by
      intro members h
      refine ⟨⟨⟨_, rfl⟩, by simp [areas, Json.get?, Json.lookup]⟩, fun k hk => ?_⟩
      obtain ⟨a, ha, j, hj, rfl⟩ := Setting.exists_slot hk
      simp only [areas, List.mem_cons, List.not_mem_nil, or_false] at ha
      rcases ha with rfl | rfl | rfl | rfl
      · exact h j hj
      all_goals
        intro w hw
        simp [Setting.find?, Setting.ofSlot, Json.find?, Json.get?, Json.lookup] at hw
    refine List.forall_mem_cons.2 ⟨hllm _ ?_, List.forall_mem_cons.2 ⟨hllm _ ?_, by simp⟩⟩
    · simp [Typed, LlmSettings.slots, Json.get?, Json.lookup, Means.text]
      exact ⟨7, by decide, rfl⟩
    · simp [Typed, LlmSettings.slots, Json.get?, Json.lookup, Means.text]
  have hshaped : ∀ v ∈ (layered coloured).present, Shaped v := by
    refine List.forall_mem_cons.2 ⟨⟨⟨_, rfl⟩, ?_⟩,
      List.forall_mem_cons.2 ⟨⟨⟨_, rfl⟩, ?_⟩, by simp⟩⟩
    · simp [areas, Json.get?, Json.lookup]
    · simp [areas, Json.get?, Json.lookup, coloured]
  have hsame : ∀ k ∈ Setting.all, (layered coloured).mentions k = (layered plain).mentions k := by
    decide +kernel
  obtain ⟨s, hload, htold, hother⟩ := last_layer_decides _ "/w" none _ hread htyped
  refine ⟨s, hload, ?_, ?_, ?_, hother _ _ _ _ hread' hshaped hsame⟩
  · have hmodel : Json.string "b" = .string s.llm.model :=
      (htold Setting.all[0] (List.getElem_mem _)).1 _ rfl
    exact (Json.string.inj hmodel).symm
  · have htokens : _ ∧ Json.ofNat 7 = .ofNat s.llm.maxTokens :=
      (htold Setting.all[5] (List.getElem_mem _)).1 _ rfl
    exact (Int.ofNat.inj (Number.int.inj (Json.number.inj htokens.2))).symm
  · exact (htold Setting.all[9] (List.getElem_mem _)).2 rfl

end CellReview
