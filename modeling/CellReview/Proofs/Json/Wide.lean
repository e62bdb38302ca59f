import CellReview.Proofs.Json.Record
import CellReview.Proofs.Json.Written
import CellReview.Proofs.Settings.Merge

/-!
# The numbers of a document

A number that is read from a text is an integer or has double width, in whatever document it
stands.  Single width comes about only when a typed value is read.

* `Number.Wide`, `Json.Wide` — integers and numbers of double width;
* `Doc.wide_of_scan`, `Json.wide_of_parse?`, `Toml.wide_of_parse?` — **documents are wide**;
* `Json.Wide.merge`, `Json.wide_normal` — so are merged documents and normal forms;
* `Reader.Ensures`, `Reader.ensures_record` — what a reader ensures for every wide value, and a
  record if each field keeps it.
-/

namespace CellReview

open Scan

/-- A number that is not of single width. -/
def Number.Wide (n : Number) : Prop :=
  ∀ x, n ≠ .single x

theorem Number.wide_int (n : Int) : (Number.int n).Wide :=
  fun _ => nofun

theorem Number.wide_double (x : Binary .double) : (Number.double x).Wide :=
  fun _ => nofun

namespace Json

/-- A value whose numbers are not of single width. -/
abbrev Wide (v : Json) : Prop :=
  v.Each Number.Wide

end Json

/-! ## Documents -/

theorem Scan.wide_of_numberOf? {l : Literal} {n : Number} (h : numberOf? l = some n) :
    n.Wide := by
  obtain ⟨found, -, rfl⟩ := Option.map_eq_some_iff.1 h
  cases found with
  | inl n => exact Number.wide_int n
  | inr x => exact Number.wide_double x

namespace Doc

theorem values?_cons {depth : Nat} {d : Doc} {ds : List Doc} {vs : List Json}
    (h : Doc.values? depth (d :: ds) = some vs) :
    ∃ v rest, d.value? depth = some v ∧ Doc.values? depth ds = some rest ∧ vs = v :: rest := by
  rw [Doc.values?] at h
  split at h
  · exact ⟨_, _, ‹_›, ‹_›, (Option.some.inj h).symm⟩
  · exact absurd h (by simp)

theorem members?_cons {depth : Nat} {k : Option String} {d : Doc}
    {es : List (Option String × Doc)} {ms : List (String × Json)}
    (h : Doc.members? depth ((k, d) :: es) = some ms) :
    ∃ key v rest, d.value? depth = some v ∧ Doc.members? depth es = some rest ∧
      ms = (key, v) :: rest := by
  cases k with
  | none => exact absurd h (by simp [Doc.members?])
  | some key =>
    cases hv : d.value? depth with
    | none => exact absurd h (by simp [Doc.members?, hv])
    | some v =>
      cases hrest : Doc.members? depth es with
      | none => exact absurd h (by simp [Doc.members?, hv, hrest])
      | some rest =>
        simp only [Doc.members?, hv, hrest, Option.some.injEq] at h
        exact ⟨key, v, rest, rfl, rfl, h.symm⟩

/-- Whether the values of trees are wide. -/
def Wide (d : Doc) : Prop :=
  ∀ depth v, d.value? depth = some v → v.Wide

theorem wide_broken : Wide .broken :=
  fun _ _ h => absurd h (by simp [Doc.value?])

theorem wide_array {items : List Doc} (h : ∀ d ∈ items, d.Wide) (closed : Bool) :
    Wide (.array items closed) := by
  intro depth v hv
  have hvalues : ∀ {vs}, Doc.values? (depth - 1) items = some vs → ∀ v ∈ vs, v.Wide := by
    clear hv
    intro vs hvs
    induction items generalizing vs with
    | nil =>
      cases hvs
      exact List.forall_mem_nil _
    | cons d ds ih =>
      obtain ⟨v, rest, hv, hrest, rfl⟩ := values?_cons hvs
      obtain ⟨hd, hds⟩ := List.forall_mem_cons.1 h
      exact List.forall_mem_cons.2 ⟨hd _ _ hv, ih hds hrest⟩
  rw [Doc.value?] at hv
  split at hv
  · exact absurd hv (by simp)
  · obtain ⟨vs, hvs, rfl⟩ := Option.map_eq_some_iff.1 hv
    exact .array (hvalues hvs)

theorem wide_object {entries : List (Option String × Doc)} (h : ∀ e ∈ entries, e.2.Wide)
    (closed : Bool) : Wide (.object entries closed) := by
  intro depth v hv
  have hmembers : ∀ {ms}, Doc.members? (depth - 1) entries = some ms → ∀ m ∈ ms, m.2.Wide := by
    clear hv
    intro ms hms
    induction entries generalizing ms with
    | nil =>
      cases hms
      exact List.forall_mem_nil _
    | cons e es ih =>
      obtain ⟨key, v, rest, hv, hrest, rfl⟩ := members?_cons hms
      obtain ⟨he, hes⟩ := List.forall_mem_cons.1 h
      exact List.forall_mem_cons.2 ⟨he _ _ hv, ih hes hrest⟩
  rw [Doc.value?] at hv
  split at hv
  · exact absurd hv (by simp)
  · obtain ⟨ms, hms, rfl⟩ := Option.map_eq_some_iff.1 hv
    exact .object fun m hm => hmembers hms m (Json.mem_of_mem_ofMembers hm)

/-- The trees that are scanned are wide, at every nesting. -/
theorem wide_of_scan (fuel : Nat) :
    (∀ cs, (Doc.scan fuel cs).1.Wide) ∧ (∀ cs, ∀ d ∈ (Doc.scanItems fuel cs).1, d.Wide) ∧
      ∀ cs, ∀ e ∈ (Doc.scanEntries fuel cs).1, e.2.Wide := by
  induction fuel with
  | zero => exact ⟨fun _ => wide_broken, fun _ => List.forall_mem_nil _,
      fun _ => List.forall_mem_nil _⟩
  | succ fuel ih =>
    obtain ⟨hscan, hitems, hentries⟩ := ih
    refine ⟨fun cs => ?scan, fun cs => ?items, fun cs => ?entries⟩
    case scan =>
      have hnamed : ∀ (d : Doc) (left : Option (List Char)), d.Wide →
          (Doc.scan.named d left).1.Wide := by
        intro d left hd
        cases left with
        | none => exact wide_broken
        | some left => exact hd
      rw [Doc.scan]
      split
      · split
        · exact wide_array (List.forall_mem_nil _) true
        · exact wide_array (hitems _) _
      · split
        · exact wide_object (List.forall_mem_nil _) true
        · exact wide_object (hentries _) _
        · exact fun _ _ h => absurd h (by simp [Doc.value?])
      · split
        · rintro depth v h
          obtain ⟨s, -, rfl⟩ := Option.map_eq_some_iff.1 h
          exact .string s
        · exact wide_broken
      · refine hnamed _ _ ?_
        rintro depth v ⟨⟩
        exact .null
      · refine hnamed _ _ ?_
        rintro depth v ⟨⟩
        exact .bool true
      · refine hnamed _ _ ?_
        rintro depth v ⟨⟩
        exact .bool false
      · split
        · rintro depth v h
          obtain ⟨n, hn, rfl⟩ := Option.map_eq_some_iff.1 h
          exact .number (wide_of_numberOf? hn)
        · exact wide_broken
    case items =>
      have hfirst : ∀ d ∈ [(Doc.scan fuel cs).1], d.Wide :=
        List.forall_mem_singleton.2 (hscan cs)
      rw [Doc.scanItems]
      dsimp only
      split
      · exact hfirst
      split
      · exact hfirst
      · split
        · exact hfirst
        · exact List.forall_mem_cons.2 ⟨hscan cs, hitems _⟩
      · exact hfirst
    case entries =>
      rw [Doc.scanEntries]
      split
      · split
        · exact List.forall_mem_nil _
        · split
          · rename_i rest _
            have hfirst : ∀ k : Option String, ∀ e ∈ [(k, (Doc.scan fuel rest).1)], e.2.Wide :=
              fun k => List.forall_mem_singleton.2 (hscan rest)
            dsimp only
            split
            · exact hfirst _
            split
            · exact hfirst _
            · exact List.forall_mem_cons.2 ⟨hscan rest, hentries _⟩
            · exact hfirst _
          · exact List.forall_mem_singleton.2 wide_broken
      · exact List.forall_mem_nil _

end Doc

/-- The value of a JSON text is wide. -/
theorem Json.wide_of_parse? {s : String} {v : Json} (h : Json.parse? s = some v) : v.Wide := by
  rw [Json.parse?] at h
  split at h
  · rename_i heq
    refine (Doc.wide_of_scan (Doc.fuel s.toList)).1 s.toList Doc.nesting v ?_
    exact (congrArg (Doc.value? Doc.nesting) (congrArg Prod.fst heq)).trans h
  · exact absurd h (by simp)

namespace Toml

theorem Word.wide_of_fit? {n : Int} {v : Json} (h : Word.fit? n = some v) : v.Wide := by
  unfold fit? at h
  split at h
  · cases h
    exact .number (Number.wide_int n)
  · exact absurd h (by simp)

theorem Word.wide_of_toJson? {w : Word} {v : Json} (h : w.toJson? = some v) : v.Wide := by
  cases w with
  | bool b =>
    cases h
    exact .bool b
  | moment text =>
    cases h
    exact .object (List.forall_mem_singleton.2 (.string text))
  | integer base negative digits =>
    cases digits with
    | nil => exact absurd h (by simp [toJson?])
    | cons digit more =>
      obtain ⟨ds, -, hfit⟩ := Option.bind_eq_some_iff.1 h
      exact wide_of_fit? hfit
  | float negative whole fraction power =>
    rw [toJson?] at h
    split at h
    · rename_i hfinite
      simp only [Json.ofNumber, hfinite, if_true, Option.some.injEq] at h
      subst h
      exact .number (Number.wide_double _)
    · exact absurd h (by simp)
  | infinity negative =>
    cases h
    exact .null
  | nan =>
    cases h
    exact .null

mutual

theorem Value.wide_of_toJson? : ∀ {x : Value} {v : Json}, x.toJson? = some v → v.Wide
  | .word w, v, h => Word.wide_of_toJson? h
  | .string s, v, h => by cases h; exact .string s
  | .array items, v, h => by
    obtain ⟨vs, hvs, rfl⟩ := Option.map_eq_some_iff.1 h
    exact .array (Value.wide_of_itemsJson? hvs)
  | .table entries, v, h => by
    rw [Value.toJson?] at h
    split at h
    · rename_i s _
      split at h
      · cases h
        exact .object (List.forall_mem_singleton.2 (.string s))
      · exact absurd h (by simp)
    · exact absurd h (by simp)
    · obtain ⟨ms, hms, rfl⟩ := Option.map_eq_some_iff.1 h
      exact .object fun m hm =>
        Value.wide_of_membersJson? hms m (Json.mem_of_mem_ofMembers hm)

theorem Value.wide_of_itemsJson? :
    ∀ {items : List Value} {vs : List Json}, Value.itemsJson? items = some vs → ∀ v ∈ vs, v.Wide
  | [], vs, h => by
    cases h
    exact List.forall_mem_nil _
  | x :: rest, vs, h => by
    rw [Value.itemsJson?] at h
    split at h
    · rename_i j hj
      obtain ⟨js, hjs, rfl⟩ := Option.map_eq_some_iff.1 h
      exact List.forall_mem_cons.2 ⟨Value.wide_of_toJson? hj, Value.wide_of_itemsJson? hjs⟩
    · exact absurd h (by simp)

theorem Value.wide_of_membersJson? :
    ∀ {entries : List (String × Value)} {ms : List (String × Json)},
      Value.membersJson? entries = some ms → ∀ m ∈ ms, m.2.Wide
  | [], ms, h => by
    cases h
    exact List.forall_mem_nil _
  | (k, x) :: rest, ms, h => by
    rw [Value.membersJson?] at h
    split at h
    · rename_i j hj
      obtain ⟨js, hjs, rfl⟩ := Option.map_eq_some_iff.1 h
      exact List.forall_mem_cons.2 ⟨Value.wide_of_toJson? hj, Value.wide_of_membersJson? hjs⟩
    · exact absurd h (by simp)

end

/-- The value of a TOML document is wide. -/
theorem wide_of_parse? {text : String} {v : Json} (h : parse? text = some v) : v.Wide := by
  obtain ⟨es, -, h⟩ := Option.bind_eq_some_iff.1 h
  obtain ⟨draft, -, h⟩ := Option.bind_eq_some_iff.1 h
  obtain ⟨members, hmembers, h⟩ := Option.bind_eq_some_iff.1 h
  cases h
  exact .object fun m hm =>
    Value.wide_of_membersJson? hmembers m (Json.mem_of_mem_ofMembers hm)

end Toml

/-! ## Merged documents -/

namespace Json

theorem wide_ofNumber (n : Number) : (ofNumber n).Wide := by
  cases n with
  | int n => exact .number (Number.wide_int n)
  | double x | single x =>
    simp only [ofNumber]
    split
    · exact .number (Number.wide_double _)
    · exact .null

mutual

/-- A normal form is wide. -/
theorem wide_normal : ∀ v : Json, v.normal.Wide
  | .null => .null
  | .bool b => .bool b
  | .number n => wide_ofNumber n
  | .string s => .string s
  | .array items => .array (wide_normalItems items)
  | .object members => .object fun m hm =>
    wide_normalMembers members m (mem_of_mem_ofMembers hm)

theorem wide_normalItems : ∀ items : List Json, ∀ v ∈ normalItems items, v.Wide
  | [] => List.forall_mem_nil _
  | v :: rest => List.forall_mem_cons.2 ⟨wide_normal v, wide_normalItems rest⟩

theorem wide_normalMembers :
    ∀ members : List (String × Json), ∀ m ∈ normalMembers members, m.2.Wide
  | [] => List.forall_mem_nil _
  | (_, v) :: rest => List.forall_mem_cons.2 ⟨wide_normal v, wide_normalMembers rest⟩

end

mutual

/-- Merging keeps values wide. -/
theorem Wide.merge {base : Json} (hbase : base.Wide) :
    ∀ {v : Json}, v.Wide → (Json.merge base v).Wide
  | .object overlay, h => by
    cases base with
    | object members =>
      rw [Json.merge]
      cases h with
      | object hoverlay =>
        cases hbase with
        | object hmembers => exact .object (Wide.mergeMembers hmembers hoverlay)
    | _ => rw [Json.merge]; exact h; simp
  | .null, h | .bool _, h | .number _, h | .string _, h | .array _, h => by
    rwa [merge_of_not_object (by simp)]

theorem Wide.mergeMembers {members : List (String × Json)} (hbase : ∀ m ∈ members, m.2.Wide) :
    ∀ {overlay : List (String × Json)}, (∀ m ∈ overlay, m.2.Wide) →
      ∀ m ∈ Json.mergeMembers members overlay, m.2.Wide
  | [], _ => hbase
  | (key, v) :: rest, h => by
    obtain ⟨hv, hrest⟩ := List.forall_mem_cons.1 h
    rw [Json.mergeMembers]
    refine Wide.mergeMembers (fun m hm => ?_) hrest
    rcases eq_or_mem_of_mem_insertMember hm with rfl | hm
    · cases hlookup : lookup key members with
      | none => exact hv
      | some b =>
        obtain ⟨m, hm, rfl⟩ := Option.map_eq_some_iff.1 hlookup
        exact Wide.merge (hbase m (List.mem_of_find?_eq_some hm)) hv
    · exact hbase m hm

end

end Json

/-! ## What reading ensures -/

namespace Reader

variable {α σ : Type}

/-- Whatever wide value a reader takes, what it is taken for satisfies a condition. -/
def Ensures (read : Reader α) (p : α → Prop) : Prop :=
  ∀ (r : Reading) (v : Json) (x : α), v.Wide → read r v.doc = .ok x → p x

end Reader

/-- Storing a field from a wide value keeps a condition on the record. -/
def Field.Maintains {σ : Type} (f : Field σ) (p : σ → Prop) : Prop :=
  ∀ (r : Reading) (v : Json) (s t : σ), v.Wide → p s → f.store r v.doc s = .ok t → p t

theorem Field.maintains_of {σ α : Type} {name : String} {presence : Presence} {read : Reader α}
    {put : α → σ → σ} {p : σ → Prop} {q : α → Prop} (hread : read.Ensures q)
    (hput : ∀ x s, q x → p s → p (put x s)) : (Field.of name presence read put).Maintains p := by
  intro r v s t hv hs hstore
  obtain ⟨x, hx, rfl⟩ := map_eq_ok_iff.1 hstore
  exact hput x s (hread r v x hv hx) hs

namespace Reader

variable {α σ : Type} {fields : List (Field σ)} {p : σ → Prop} {r : Reading}

theorem ensures_true (read : Reader α) : read.Ensures fun _ => True :=
  fun _ _ _ _ _ => trivial

theorem maintains_fillItems (hfields : ∀ f ∈ fields, f.Maintains p) {closed : Bool}
    {items : List Json} (hitems : ∀ v ∈ items, v.Wide) {s t : σ} (hs : p s)
    (h : fillItems r closed fields (Json.itemDocs items) s = .ok t) : p t := by
  induction fields generalizing items s with
  | nil =>
    cases items with
    | nil =>
      rw [Json.itemDocs, fillItems] at h
      split at h
      · exact Except.ok.inj h ▸ hs
      · exact absurd h (by simp)
    | cons v items => exact absurd h (by simp [Json.itemDocs, fillItems])
  | cons f fields ih =>
    obtain ⟨hf, hfields⟩ := List.forall_mem_cons.1 hfields
    cases items with
    | nil =>
      rw [Json.itemDocs, fillItems] at h
      split at h
      · exact absurd h (by simp)
      split at h
      · exact Except.ok.inj h ▸ hs
      · exact absurd h (by simp)
    | cons v items =>
      obtain ⟨hv, hitems⟩ := List.forall_mem_cons.1 hitems
      rw [Json.itemDocs, fillItems] at h
      obtain ⟨a, hstore, h⟩ := bind_eq_ok_iff.1 h
      exact ih hfields hitems (hf r v s a hv hs hstore) h

theorem maintains_fillEntries (hfields : ∀ f ∈ fields, f.Maintains p)
    {members : List (String × Json)} (hmembers : ∀ m ∈ members, m.2.Wide)
    {seen later : List String} {s t : σ} (hs : p s)
    (h : fillEntries fields r (Json.memberDocs members) seen s = .ok (later, t)) : p t := by
  induction members generalizing seen s with
  | nil =>
    cases h
    exact hs
  | cons member members ih =>
    obtain ⟨key, v⟩ := member
    obtain ⟨hv, hmembers⟩ := List.forall_mem_cons.1 hmembers
    cases hfind : fields.find? fun f => f.name == key with
    | none =>
      rw [fillEntries_unknown v hfind] at h
      exact ih hmembers hs h
    | some f =>
      by_cases hseen : key ∈ seen
      · rw [Json.memberDocs, fillEntries, hfind] at h
        simp [hseen] at h
      · rw [fillEntries_known hfind hseen] at h
        obtain ⟨a, hstore, h⟩ := bind_eq_ok_iff.1 h
        exact ih hmembers (hfields f (List.mem_of_find?_eq_some hfind) r v s a hv hs hstore) h

/-- An object is read by its entries. -/
theorem named_eq_ok {start s : σ} {members : List (String × Json)}
    (h : named fields start r (Json.object members).doc = .ok s) :
    ∃ inner seen, r.enter = .ok inner ∧
      fillEntries fields inner (Json.memberDocs members) [] start = .ok (seen, s) := by
  rw [Json.doc, named] at h
  obtain ⟨inner, henter, h⟩ := bind_eq_ok_iff.1 h
  obtain ⟨⟨seen, t⟩, hfill, h⟩ := bind_eq_ok_iff.1 h
  simp only [Bool.not_true, Bool.false_eq_true, if_false] at h
  split at h
  · obtain rfl := Except.ok.inj h
    exact ⟨inner, seen, henter, hfill⟩
  · exact absurd h (by simp)

/-- A record satisfies what each of its fields keeps, whether it is read by name or by position. -/
theorem ensures_record (hfields : ∀ f ∈ fields, f.Maintains p) {start : σ} (hstart : p start) :
    (record fields start).Ensures p := by
  intro r v s hv h
  cases hv with
  | @object members hmembers =>
    obtain ⟨inner, seen, -, hfill⟩ := named_eq_ok h
    exact maintains_fillEntries hfields hmembers hstart hfill
  | @array items hitems =>
    rw [Json.doc, record] at h
    obtain ⟨inner, -, h⟩ := bind_eq_ok_iff.1 h
    exact maintains_fillItems hfields hitems hstart h
  | _ => exact absurd h (by simp [Json.doc, record, named])

end Reader

end CellReview
