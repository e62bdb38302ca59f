import CellReview.Console.Program
import CellReview.Proofs.Json.Record
import CellReview.Proofs.Settings.Merge

/-!
# Settings with a masked key

A document is masked by leaving out what the key in it is, not that there is one.  Masking goes
past merging and past reading: the settings of masked documents are those of the documents, up to
the key itself.

* `Json.mapMember`, `Json.masked` — a member that is changed, and a masked key;
* `Json.Merges`, `Json.merges_masked` — **masking goes past merging**;
* `map_bind_congr` — attempts that a view does not tell apart are continued alike;
* `Field.Alike`, `Reader.record_mapMember` — records that are read from a changed member;
* `Settings.read_masked`, `Settings.ofLayers_masked` — **masking does not show in redacted
  settings**.
-/

namespace CellReview

namespace Json

/-! ## Masking -/

/-- A list of members with those of a name changed. -/
def changed (key : String) (f : Json → Json) (members : List (String × Json)) :
    List (String × Json) :=
  members.map fun m => (m.1, if m.1 = key then f m.2 else m.2)

/-- An object with its member of a name changed. -/
def mapMember (key : String) (f : Json → Json) : Json → Json
  | .object members => .object (changed key f members)
  | v => v

/-- A value that does not tell which text it is. -/
def blank : Json → Json
  | .string _ => .string ""
  | v => v

/-- A document that does not tell which key it holds. -/
def masked : Json → Json :=
  mapMember "llm" (mapMember "api_key" blank)

/-! ## Merging -/

/-- A change that goes past merging. -/
def Merges (f : Json → Json) : Prop :=
  ∀ base v, f (merge base v) = merge (f base) (f v)

theorem merges_blank : Merges blank := by
  intro base v
  cases v with
  | object overlay => cases base <;> simp [merge, blank]
  | _ => rw [merge_of_not_object (by simp), merge_of_not_object (by simp [blank])]

section Merges

variable {key : String} {f : Json → Json}

theorem changed_cons (m : String × Json) (members : List (String × Json)) :
    changed key f (m :: members) =
      (m.1, if m.1 = key then f m.2 else m.2) :: changed key f members := rfl

theorem lookup_changed (name : String) (members : List (String × Json)) :
    lookup name (changed key f members) =
      (lookup name members).map fun v => if name = key then f v else v := by
  induction members with
  | nil => rfl
  | cons m members ih =>
    rw [changed_cons, lookup_cons, ih, lookup_cons]
    by_cases hname : m.1 = name
    · simp [hname]
    · simp [hname]

theorem changed_insertMember (name : String) (v : Json) (members : List (String × Json)) :
    changed key f (insertMember name v members) =
      insertMember name (if name = key then f v else v) (changed key f members) := by
  induction members with
  | nil => rfl
  | cons m members ih =>
    rw [insertMember, changed_cons, insertMember]
    split
    · rfl
    split
    · rfl
    · rw [changed_cons, ih]

theorem changed_mergeMembers (h : Merges f) (members overlay : List (String × Json)) :
    changed key f (mergeMembers members overlay) =
      mergeMembers (changed key f members) (changed key f overlay) := by
  induction overlay generalizing members with
  | nil => rfl
  | cons m overlay ih =>
    obtain ⟨name, v⟩ := m
    rw [mergeMembers, ih, changed_insertMember, changed_cons, mergeMembers, lookup_changed]
    congr 2
    cases lookup name members with
    | none => rfl
    | some b =>
      dsimp only [Option.map_some]
      split
      · exact h b v
      · rfl

/-- A change of one member goes past merging if the change of its value does. -/
theorem Merges.mapMember (h : Merges f) : Merges (mapMember key f) := by
  intro base v
  cases v with
  | object overlay =>
    cases base with
    | object members => simp only [merge, Json.mapMember, changed_mergeMembers h]
    | _ => simp [merge, Json.mapMember]
  | _ => rw [merge_of_not_object (by simp), merge_of_not_object (by simp [Json.mapMember])]

end Merges

/-- **Masking goes past merging.** -/
theorem merges_masked : Merges masked :=
  merges_blank.mapMember.mapMember

/-! ## Documents that are the same but for the key -/

/-- Two documents are the same, or the same but for the text of the key. -/
inductive SameButKey : Json → Json → Prop where
  | same (v : Json) : SameButKey v v
  | key (before after front back : List (String × Json)) (text other : String) :
    SameButKey
      (.object (before ++ ("llm", .object (front ++ ("api_key", .string text) :: back)) :: after))
      (.object (before ++ ("llm", .object (front ++ ("api_key", .string other) :: back)) :: after))

theorem SameButKey.masked_eq {v w : Json} (h : SameButKey v w) : v.masked = w.masked := by
  cases h with
  | same => rfl
  | key before after front back text other => simp [masked, mapMember, changed, blank]

end Json

/-! ## Reading -/

section Reading

variable {σ α : Type} {red : σ → σ}

/-- Attempts that a view does not tell apart are continued alike. -/
theorem map_bind_congr {ε β γ δ : Type} {view : α → β} {look : γ → δ} {a b : Except ε α}
    (h : a.map view = b.map view) {f g : α → Except ε γ}
    (hfg : ∀ x y, view x = view y → (f x).map look = (g y).map look) :
    (a.bind f).map look = (b.bind g).map look := by
  cases a with
  | error fault =>
    cases b with
    | error other => exact congrArg Except.error (Except.error.inj h)
    | ok y => cases h
  | ok x =>
    cases b with
    | error other => cases h
    | ok y => exact hfg x y (Except.ok.inj h)

/-- A field takes two trees alike if what it stores cannot be told apart once it is redacted. -/
def Field.Alike (f : Field σ) (red : σ → σ) (d e : Doc) : Prop :=
  ∀ r s t, red s = red t → (f.store r d s).map red = (f.store r e t).map red

/-- Trees are taken alike if their values are read alike and redacting goes past storing. -/
theorem Field.alike_of {name : String} {presence : Presence} {read : Reader α}
    {put : α → σ → σ} {d e : Doc} (redValue : α → α)
    (hread : ∀ r, (read r d).map redValue = (read r e).map redValue)
    (hput : ∀ x s, red (put x s) = put (redValue x) (red s)) :
    (Field.of name presence read put).Alike red d e := by
  intro r s t hst
  have hvalues := hread r
  cases hd : read r d <;> cases he : read r e <;> simp_all [Field.of, Except.map]

/-- A field of another name takes what is left alone. -/
theorem Field.alike_of_ne {name key : String} {presence : Presence} {read : Reader α}
    {put : α → σ → σ} {f : Json → Json} (hname : name ≠ key)
    (hput : ∀ x s, red (put x s) = put x (red s)) (v : Json) :
    (Field.of name presence read put).Alike red v.doc (if name = key then f v else v).doc := by
  rw [if_neg hname]
  exact Field.alike_of id (fun _ => rfl) hput

namespace Reader

open Json (changed mapMember memberDocs)

variable {fields : List (Field σ)} {key : String} {f : Json → Json}

theorem fillEntries_changed
    (h : ∀ g ∈ fields, ∀ v : Json, g.Alike red v.doc (if g.name = key then f v else v).doc)
    (r : Reading) (members : List (String × Json)) (seen : List String) {s t : σ}
    (hst : red s = red t) :
    (fillEntries fields r (memberDocs members) seen s).map (Prod.map id red) =
      (fillEntries fields r (memberDocs (changed key f members)) seen t).map (Prod.map id red) := by
  induction members generalizing seen s t with
  | nil => simp [changed, memberDocs, fillEntries, Except.map, hst]
  | cons m members ih =>
    obtain ⟨name, v⟩ := m
    rw [Json.changed_cons]
    cases hfind : fields.find? fun g => g.name == name with
    | none =>
      rw [fillEntries_unknown _ hfind, fillEntries_unknown _ hfind]
      exact ih seen hst
    | some g =>
      have hname : g.name = name := by simpa using List.find?_some hfind
      have halike := h g (List.mem_of_find?_eq_some hfind) v r s t hst
      rw [hname] at halike
      by_cases hfresh : name ∈ seen
      · simp [memberDocs, fillEntries, hfind, hfresh]
      · rw [fillEntries_known hfind hfresh, fillEntries_known hfind hfresh]
        exact map_bind_congr halike fun _ _ hstored => ih (name :: seen) hstored

/-- A record from which a member was changed is read alike, if its fields take it alike. -/
theorem record_mapMember
    (h : ∀ g ∈ fields, ∀ v : Json, g.Alike red v.doc (if g.name = key then f v else v).doc)
    (start : σ) (r : Reading) (v : Json) :
    (record fields start r v.doc).map red =
      (record fields start r (mapMember key f v).doc).map red := by
  cases v with
  | object members =>
    show (named fields start r (.object (memberDocs members) true)).map red =
      (named fields start r (.object (memberDocs (changed key f members)) true)).map red
    -- Both readings enter alike, and then the names that were seen are the same.
    have henter : r.enter.map id = r.enter.map id := rfl
    refine map_bind_congr henter ?_
    rintro inner _ rfl
    refine map_bind_congr (fillEntries_changed h inner members [] rfl) ?_
    rintro ⟨seen, x⟩ ⟨_, y⟩ hxy
    obtain ⟨rfl, hred⟩ : seen = _ ∧ red x = red y := Prod.mk.inj hxy
    dsimp only
    split
    · rfl
    · split
      · exact congrArg Except.ok hred
      · rfl
  | _ => rfl

end Reader

end Reading

/-! ## Redacted settings -/

/-- A key that does not tell which it is. -/
def LlmSettings.redacted (s : LlmSettings) : LlmSettings :=
  { s with apiKey := s.apiKey.map fun _ => "***REDACTED***" }

open Console (redacted)

theorem blank_alike (r : Reading) (v : Json) :
    ((Reader.option Reader.string r v.doc).map (Option.map fun _ => "***REDACTED***")) =
      (Reader.option Reader.string r v.blank.doc).map (Option.map fun _ => "***REDACTED***") := by
  cases v <;> rfl

/-- The backend section is read alike whatever the key in it is. -/
theorem LlmSettings.read_blank (r : Reading) (v : Json) :
    (LlmSettings.read r v.doc).map redacted =
      (LlmSettings.read r (v.mapMember "api_key" Json.blank).doc).map redacted := by
  refine Reader.record_mapMember ?_ standard r v
  simp only [fields, List.forall_mem_cons]
  refine ⟨Field.alike_of_ne (by decide) fun _ _ => rfl,
    Field.alike_of_ne (by decide) fun _ _ => rfl,
    fun v => Field.alike_of _ (fun r => blank_alike r v) fun _ _ => rfl,
    Field.alike_of_ne (by decide) fun _ _ => rfl, Field.alike_of_ne (by decide) fun _ _ => rfl,
    Field.alike_of_ne (by decide) fun _ _ => rfl, Field.alike_of_ne (by decide) fun _ _ => rfl,
    fun _ hg => absurd hg List.not_mem_nil⟩

/-- All settings are read alike whatever the key in them is. -/
theorem Settings.read_masked (r : Reading) (v : Json) :
    (Settings.read r v.doc).map redacted = (Settings.read r v.masked.doc).map redacted := by
  refine Reader.record_mapMember ?_ standard r v
  simp only [fields, List.forall_mem_cons]
  refine ⟨fun v => Field.alike_of _ (fun r => LlmSettings.read_blank r v) fun _ _ => rfl,
    Field.alike_of_ne (by decide) fun _ _ => rfl, Field.alike_of_ne (by decide) fun _ _ => rfl,
    Field.alike_of_ne (by decide) fun _ _ => rfl, fun _ hg => absurd hg List.not_mem_nil⟩

/-- Documents without their keys give the same settings up to the key. -/
theorem Settings.ofLayers_masked (documents : List Json) :
    (ofLayers documents).map redacted = (ofLayers (documents.map Json.masked)).map redacted := by
  have hmerged : ∀ base : Json, (documents.foldl Json.merge base).masked =
      (documents.map Json.masked).foldl Json.merge base.masked := by
    induction documents with
    | nil => exact fun _ => rfl
    | cons v documents ih =>
      intro base
      rw [List.foldl_cons, ih, Json.merges_masked, List.map_cons, List.foldl_cons]
  have hstandard : standard.toJson.normal.masked = standard.toJson.normal := by decide +kernel
  have hread := read_masked ⟨.value, Doc.nesting⟩ (mergeLayers documents)
  rw [mergeLayers, hmerged, hstandard] at hread
  rw [ofLayers, ofLayers, Reader.ofJson, Reader.ofJson, mergeLayers, mergeLayers]
  revert hread
  cases read _ _ <;> cases read _ _ <;> simp +contextual [Except.map]

end CellReview
