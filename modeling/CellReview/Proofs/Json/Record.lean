import CellReview.Json.Reader
import CellReview.Proofs.Attempt
import CellReview.Proofs.Json.Ordered

/-!
# Reading records from values

A record is read from an object member by member.  If every member that the record knows is of
its type, the reading succeeds, and every part of the record is what its member says, or what it
was at the start if there is no such member.  Other members do not matter.

* `Slot` — a part of a record, and which values say what about it;
* `Tells` — what an object says about a record;
* `Reads` — a reader that follows a meaning;
* `Serves` — the fields of a record that serve its slots;
* `Reader.record_of_typed` — **reading a record whose known members are of their types**;
* `Describes`, `Serves.reads_record` — records as values of members.
-/

namespace CellReview

open Json (lookup memberDocs)

/-! ## What is said about a record -/

/-- A part of a record: the name of its member, and which values of the member say what. -/
structure Slot (σ : Type) : Type 1 where
  {α : Type}
  name : String
  Means : Json → α → Prop
  get : σ → α

/-- An object says what a record is, up to `start` for what it does not mention. -/
def Tells {σ : Type} (slots : List (Slot σ)) (start : σ) (v : Json) (s : σ) : Prop :=
  ∀ k ∈ slots, (v.get? k.name = none → k.get s = k.get start) ∧
    ∀ w, v.get? k.name = some w → k.Means w (k.get s)

/-- The members of an object that a record knows are of their types. -/
def Typed {σ : Type} (slots : List (Slot σ)) (v : Json) : Prop :=
  ∀ k ∈ slots, ∀ w, v.get? k.name = some w → ∃ x, k.Means w x

theorem Tells.typed {σ : Type} {slots : List (Slot σ)} {start : σ} {v : Json} {s : σ}
    (h : Tells slots start v s) : Typed slots v :=
  fun k hk w hw => ⟨k.get s, (h k hk).2 w hw⟩

/-! ## Readers and fields -/

/-- Where a value is read from. -/
def Reading.ofValue (r : Reading) : Prop :=
  r.source = .value

theorem Reading.enter_ofValue {r : Reading} (h : r.ofValue) : r.enter = .ok r := by
  rw [ofValue] at h
  simp [enter, inText, h]

/-- A reader takes every value that has a meaning for what it means. -/
def Reads {α : Type} (Means : Json → α → Prop) (read : Reader α) : Prop :=
  ∀ (r : Reading) (w : Json) (x : α), r.ofValue → Means w x →
    ∃ y, read r w.doc = .ok y ∧ Means w y

/-- Storing a field leaves a part of the record as it is. -/
def Field.Keeps {σ α : Type} (f : Field σ) (get : σ → α) : Prop :=
  ∀ (r : Reading) (d : Doc) (s t : σ), f.store r d s = .ok t → get t = get s

/-- Storing a field takes a value for what it means for a slot. -/
def Field.Stores {σ : Type} (f : Field σ) (k : Slot σ) : Prop :=
  ∀ (r : Reading) (w : Json) (x : k.α) (s : σ), r.ofValue → k.Means w x →
    ∃ t, f.store r w.doc s = .ok t ∧ k.Means w (k.get t)

/-- The fields of a record serve its slots: for each slot there is a field of its name that
stores it, the other fields keep it, and none has to be there. -/
structure Serves {σ : Type} (slots : List (Slot σ)) (fields : List (Field σ)) : Prop where
  stores : ∀ k ∈ slots, ∃ f, (fields.find? fun f => f.name == k.name) = some f ∧ f.Stores k
  keeps : ∀ k ∈ slots, ∀ f ∈ fields, f.name ≠ k.name → f.Keeps k.get
  names : fields.map Field.name = slots.map Slot.name
  distinct : (fields.map Field.name).Nodup
  optional : ∀ f ∈ fields, f.presence ≠ .required

theorem find?_name_of_nodup {σ : Type} {fields : List (Field σ)}
    (h : (fields.map Field.name).Nodup) {f : Field σ} (hf : f ∈ fields) :
    (fields.find? fun g => g.name == f.name) = some f := by
  induction fields with
  | nil => exact absurd hf List.not_mem_nil
  | cons g rest ih =>
    obtain ⟨hnot, hrest⟩ := List.nodup_cons.1 h
    rcases List.mem_cons.1 hf with rfl | hf
    · simp
    · have hne : g.name ≠ f.name := fun hname => hnot (hname ▸ List.mem_map_of_mem hf)
      simpa [hne] using ih hrest hf

/-- Every field stores a slot. -/
theorem Serves.exists_slot {σ : Type} {slots : List (Slot σ)} {fields : List (Field σ)}
    (h : Serves slots fields) {f : Field σ} (hf : f ∈ fields) :
    ∃ k ∈ slots, f.name = k.name ∧ f.Stores k := by
  have hname : f.name ∈ slots.map Slot.name := h.names ▸ List.mem_map_of_mem hf
  obtain ⟨k, hk, hkname⟩ := List.mem_map.1 hname
  obtain ⟨g, hfind, hstores⟩ := h.stores k hk
  rw [hkname, find?_name_of_nodup h.distinct hf] at hfind
  cases hfind
  exact ⟨k, hk, hkname.symm, hstores⟩

section Of

variable {σ α : Type} {name : String} {presence : Presence} {read : Reader α} {put : α → σ → σ}

theorem Field.keeps_of {β : Type} {get : σ → β} (h : ∀ x s, get (put x s) = get s) :
    (Field.of name presence read put).Keeps get := by
  intro r d s t hstore
  cases hread : read r d with
  | error fault => simp [Field.of, hread, Except.map] at hstore
  | ok x =>
    simp only [Field.of, hread, Except.map, Except.ok.injEq] at hstore
    rw [← hstore, h]

theorem Field.stores_of {Means : Json → α → Prop} {get : σ → α} (hread : Reads Means read)
    (h : ∀ x s, get (put x s) = x) {slot : String} :
    (Field.of name presence read put).Stores ⟨slot, Means, get⟩ := by
  intro r w x s hr hw
  obtain ⟨y, hy, hmeans⟩ := hread r w x hr hw
  refine ⟨put y s, by simp [Field.of, hy, Except.map], ?_⟩
  show Means w (get (put y s))
  rwa [h]

end Of

/-! ## Reading members -/

namespace Reader

variable {σ : Type} {fields : List (Field σ)} {slots : List (Slot σ)} {r : Reading}
  {members : List (String × Json)} {seen : List String} {s : σ}

theorem sound_doc (v : Json) : v.doc.sound = true := by
  cases v <;> rfl

/-- A member that the record does not know is skipped. -/
theorem fillEntries_unknown {key : String} (v : Json)
    (hfind : (fields.find? fun f => f.name == key) = none) :
    fillEntries fields r (memberDocs ((key, v) :: members)) seen s =
      fillEntries fields r (memberDocs members) seen s := by
  rw [memberDocs, fillEntries, hfind]
  simp only [skippable, sound_doc, if_true]
  rfl

theorem fillEntries_known {key : String} {v : Json} {f : Field σ}
    (hfind : (fields.find? fun f => f.name == key) = some f) (hfresh : key ∉ seen) :
    fillEntries fields r (memberDocs ((key, v) :: members)) seen s =
      (f.store r v.doc s).bind (fillEntries fields r (memberDocs members) (key :: seen)) := by
  rw [memberDocs, fillEntries, hfind]
  simp [hfresh]
  rfl

theorem not_seen_cons {key : String} {names : List String} (hnot : key ∉ names)
    (hseen : ∀ name ∈ names, name ∉ seen) : ∀ name ∈ names, name ∉ key :: seen := by
  intro name hname
  exact List.not_mem_cons_of_ne_of_not_mem (fun h => hnot (h ▸ hname)) (hseen name hname)

/-- Members are stored if every known one is of its type. -/
theorem fillEntries_of_stored (hnodup : (members.map Prod.fst).Nodup)
    (hseen : ∀ name ∈ members.map Prod.fst, name ∉ seen)
    (hstore : ∀ f ∈ fields, ∀ w, lookup f.name members = some w →
      ∀ s, ∃ t, f.store r w.doc s = .ok t) :
    ∃ seen' t, fillEntries fields r (memberDocs members) seen s = .ok (seen', t) := by
  induction members generalizing seen s with
  | nil => exact ⟨seen, s, rfl⟩
  | cons member rest ih =>
    obtain ⟨key, v⟩ := member
    obtain ⟨hnot, hrest⟩ := List.nodup_cons.1 hnodup
    obtain ⟨hfresh, hseen⟩ := List.forall_mem_cons.1 hseen
    have hlater : ∀ f ∈ fields, ∀ w, lookup f.name rest = some w →
        ∀ s, ∃ t, f.store r w.doc s = .ok t := by
      intro f hf w hw
      refine hstore f hf w ?_
      rw [Json.lookup_cons, if_neg, hw]
      rintro rfl
      exact absurd (Json.lookup_eq_none_of_not_mem hnot ▸ hw) (by simp)
    cases hfind : fields.find? fun f => f.name == key with
    | none =>
      rw [fillEntries_unknown v hfind]
      exact ih hrest hseen hlater
    | some f =>
      have hname : f.name = key := by simpa using List.find?_some hfind
      obtain ⟨t, ht⟩ := hstore f (List.mem_of_find?_eq_some hfind) v
        (by rw [Json.lookup_cons, if_pos hname.symm]) s
      rw [fillEntries_known hfind hfresh, ht]
      exact ih hrest (not_seen_cons hnot hseen) hlater

/-- A part of the record changes with its own member only. -/
theorem get_fillEntries {α : Type} (get : σ → α) {f : Field σ}
    (hfind : (fields.find? fun g => g.name == f.name) = some f)
    (hkeeps : ∀ g ∈ fields, g.name ≠ f.name → g.Keeps get)
    (hnodup : (members.map Prod.fst).Nodup)
    (hseen : ∀ name ∈ members.map Prod.fst, name ∉ seen) {seen' : List String} {t : σ}
    (h : fillEntries fields r (memberDocs members) seen s = .ok (seen', t)) :
    (lookup f.name members = none → get t = get s) ∧
      ∀ w, lookup f.name members = some w →
        ∃ a b, f.store r w.doc a = .ok b ∧ get t = get b := by
  induction members generalizing seen s with
  | nil =>
    cases h
    exact ⟨fun _ => rfl, fun w hw => absurd hw (by simp [lookup])⟩
  | cons member rest ih =>
    obtain ⟨key, v⟩ := member
    obtain ⟨hnot, hrest⟩ := List.nodup_cons.1 hnodup
    obtain ⟨hfresh, hseen⟩ := List.forall_mem_cons.1 hseen
    rw [Json.lookup_cons]
    cases hkey : fields.find? fun g => g.name == key with
    | none =>
      have hother : key ≠ f.name := by
        rintro rfl
        exact absurd (hkey.symm.trans hfind) (by simp)
      rw [if_neg hother]
      rw [fillEntries_unknown v hkey] at h
      exact ih hrest hseen h
    | some g =>
      have hname : g.name = key := by simpa using List.find?_some hkey
      rw [fillEntries_known hkey hfresh] at h
      obtain ⟨a, hstore, h⟩ := bind_eq_ok_iff.1 h
      obtain ⟨hnone, hsome⟩ := ih hrest (not_seen_cons hnot hseen) h
      by_cases hsame : key = f.name
      · -- this is the member of the part, and there is no other one
        subst hsame
        obtain rfl : g = f := Option.some.inj (hkey.symm.trans hfind)
        rw [if_pos rfl]
        refine ⟨fun h => absurd h (by simp), ?_⟩
        rintro w ⟨⟩
        exact ⟨s, a, hstore, hnone (Json.lookup_eq_none_of_not_mem hnot)⟩
      · rw [if_neg hsame]
        have hkept := hkeeps g (List.mem_of_find?_eq_some hkey) (hname ▸ hsame) r _ _ _ hstore
        exact ⟨fun h => (hnone h).trans hkept, hsome⟩

/-- **A record whose known members are of their types** is read, and it is what its members
say. -/
theorem record_of_typed {start : σ} (hserves : Serves slots fields) (hr : r.ofValue)
    (hnodup : (members.map Prod.fst).Nodup) (htyped : Typed slots (.object members)) :
    ∃ s, record fields start r (Json.object members).doc = .ok s ∧
      Tells slots start (.object members) s := by
  have hseen : ∀ name ∈ members.map Prod.fst, name ∉ ([] : List String) :=
    fun _ _ => List.not_mem_nil
  have hstore : ∀ f ∈ fields, ∀ w, lookup f.name members = some w →
      ∀ s, ∃ t, f.store r w.doc s = .ok t := by
    intro f hf w hw s
    obtain ⟨k, hk, hname, hstores⟩ := hserves.exists_slot hf
    obtain ⟨x, hx⟩ := htyped k hk w (hname ▸ hw)
    obtain ⟨t, ht, -⟩ := hstores r w x s hr hx
    exact ⟨t, ht⟩
  obtain ⟨seen, s, hfill⟩ := fillEntries_of_stored (s := start) hnodup hseen hstore
  refine ⟨s, ?_, fun k hk => ?_⟩
  · show named fields start r (.object (memberDocs members) true) = _
    have hall : (fields.all fun f => f.presence != .required || seen.contains f.name) = true := by
      rw [List.all_eq_true]
      intro f hf
      simp [hserves.optional f hf]
    simp only [named, Reading.enter_ofValue hr, hfill, hall, bind, Except.bind]
    rfl
  · obtain ⟨f, hfind, hstores⟩ := hserves.stores k hk
    have hname : f.name = k.name := by simpa using List.find?_some hfind
    obtain ⟨hnone, hsome⟩ := get_fillEntries k.get (hname ▸ hfind)
      (fun g hg hne => hserves.keeps k hk g hg (hname ▸ hne)) hnodup hseen hfill
    rw [hname] at hnone hsome
    refine ⟨hnone, fun w hw => ?_⟩
    obtain ⟨a, b, hab, hget⟩ := hsome w hw
    obtain ⟨x, hx⟩ := htyped k hk w hw
    obtain ⟨t, ht, hmeans⟩ := hstores r w x a hr hx
    obtain rfl : b = t := Except.ok.inj (hab.symm.trans ht)
    rwa [hget]

end Reader

/-! ## Records as values of members -/

/-- An ordered object says what a record is. -/
structure Describes {σ : Type} (slots : List (Slot σ)) (start : σ) (v : Json) (s : σ) : Prop where
  ordered : v.Ordered
  isObject : ∃ members, v = .object members
  tells : Tells slots start v s

section Describes

variable {σ : Type} {fields : List (Field σ)} {slots : List (Slot σ)}

theorem Serves.exists_record (h : Serves slots fields) (start : σ) {r : Reading} (hr : r.ofValue)
    {v : Json} (hordered : v.Ordered) (hobject : ∃ members, v = .object members)
    (htyped : Typed slots v) :
    ∃ s, Reader.record fields start r v.doc = .ok s ∧ Describes slots start v s := by
  obtain ⟨members, rfl⟩ := hobject
  obtain ⟨s, hread, htells⟩ := Reader.record_of_typed h hr hordered.sorted.nodup htyped
  exact ⟨s, hread, hordered, ⟨members, rfl⟩, htells⟩

/-- A record is read from what describes it. -/
theorem Serves.reads_record (h : Serves slots fields) {start : σ} :
    Reads (Describes slots start) (Reader.record fields start) :=
  fun _ _ _ hr hw => h.exists_record start hr hw.ordered hw.isObject hw.tells.typed

end Describes

end CellReview
