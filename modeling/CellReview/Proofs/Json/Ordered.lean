import CellReview.Json.Doc
import CellReview.Toml.Document
import Mathlib.Data.String.Basic

/-!
# Objects are sorted

The members of every object that comes from a document are sorted by name, so that no name
occurs twice.

* `Json.lookup_insertMember` — an inserted member is found, and the others are as before;
* `Json.Sorted`, `Json.Ordered` — sorted members, and values whose objects are all sorted;
* `Json.sorted_ofMembers`, `Json.lookup_ofMembers` — members are sorted by inserting them;
* `Json.Sorted.ext` — sorted members are determined by what is found among them;
* `Json.ordered_normal` — a normal form is ordered;
* `Json.ordered_of_parse?`, `Toml.ordered_of_parse?` — **every document is ordered**.
-/

namespace CellReview

namespace Json

/-! ## Sorted members -/

theorem lookup_cons (key k : String) (v : Json) (rest : List (String × Json)) :
    lookup key ((k, v) :: rest) = if k = key then some v else lookup key rest := by
  unfold lookup
  by_cases h : k = key <;> simp [h]

theorem lookup_eq_none_of_not_mem {name : String} {members : List (String × Json)}
    (h : name ∉ members.map Prod.fst) : lookup name members = none := by
  rw [lookup, Option.map_eq_none_iff, List.find?_eq_none]
  intro m hm hname
  exact h (beq_iff_eq.1 hname ▸ List.mem_map_of_mem hm)

theorem lookup_insertMember (name key : String) (v : Json) (members : List (String × Json)) :
    lookup name (insertMember key v members) =
      if key = name then some v else lookup name members := by
  induction members with
  | nil => exact lookup_cons ..
  | cons member rest ih =>
    obtain ⟨k, w⟩ := member
    rw [insertMember]
    split
    · rename_i hsame
      subst hsame
      rw [lookup_cons, lookup_cons]
      split <;> rfl
    · rename_i hother
      split
      · exact lookup_cons ..
      · rw [lookup_cons, lookup_cons, ih]
        by_cases hk : k = name
        · simp [hk, hk ▸ hother]
        · simp [hk]

/-- Members in the order of their names, each name once. -/
def Sorted (members : List (String × Json)) : Prop :=
  members.Pairwise fun a b => a.1 < b.1

variable {members : List (String × Json)}

theorem Sorted.nodup (h : Sorted members) : (members.map Prod.fst).Nodup := by
  rw [List.nodup_iff_pairwise_ne, List.pairwise_map]
  exact h.imp fun hlt => ne_of_lt hlt

theorem eq_or_mem_of_mem_insertMember {key : String} {v : Json} {m : String × Json}
    (h : m ∈ insertMember key v members) : m = (key, v) ∨ m ∈ members := by
  induction members with
  | nil => exact .inl (List.mem_singleton.1 h)
  | cons member rest ih =>
    obtain ⟨k, w⟩ := member
    rw [insertMember] at h
    split at h
    · exact (List.mem_cons.1 h).imp id (List.mem_cons_of_mem _)
    split at h
    · exact List.mem_cons.1 h
    · rcases List.mem_cons.1 h with rfl | h
      · exact .inr List.mem_cons_self
      · exact (ih h).imp id (List.mem_cons_of_mem _)

theorem Sorted.insertMember (h : Sorted members) (key : String) (v : Json) :
    Sorted (insertMember key v members) := by
  induction members with
  | nil => exact List.pairwise_singleton _ _
  | cons member rest ih =>
    obtain ⟨k, w⟩ := member
    obtain ⟨hfirst, hrest⟩ := List.pairwise_cons.1 h
    rw [Json.insertMember]
    split
    · rename_i hsame
      exact List.pairwise_cons.2 ⟨hsame ▸ hfirst, hrest⟩
    · rename_i hother
      split
      · rename_i hlt
        refine List.pairwise_cons.2 ⟨fun m hm => ?_, h⟩
        rcases List.mem_cons.1 hm with rfl | hm
        · exact hlt
        · exact hlt.trans (hfirst m hm)
      · rename_i hnot
        refine List.pairwise_cons.2 ⟨fun m hm => ?_, ih hrest⟩
        rcases eq_or_mem_of_mem_insertMember hm with rfl | hm
        · exact lt_of_le_of_ne (not_lt.1 hnot) (Ne.symm hother)
        · exact hfirst m hm

/-- Inserting members one after the other keeps them sorted. -/
theorem Sorted.foldl_insertMember (h : Sorted members) (more : List (String × Json)) :
    Sorted (more.foldl (fun sorted m => Json.insertMember m.1 m.2 sorted) members) := by
  induction more generalizing members with
  | nil => exact h
  | cons m more ih => exact ih (h.insertMember m.1 m.2)

theorem sorted_ofMembers (members : List (String × Json)) : Sorted (ofMembers members) :=
  Sorted.foldl_insertMember .nil members

theorem mem_of_mem_foldl_insertMember {more : List (String × Json)} {m : String × Json}
    (h : m ∈ more.foldl (fun sorted m => insertMember m.1 m.2 sorted) members) :
    m ∈ members ∨ m ∈ more := by
  induction more generalizing members with
  | nil => exact .inl h
  | cons n more ih =>
    rcases ih h with h | h
    · rcases eq_or_mem_of_mem_insertMember h with rfl | h
      · exact .inr List.mem_cons_self
      · exact .inl h
    · exact .inr (List.mem_cons_of_mem _ h)

theorem mem_of_mem_ofMembers {m : String × Json} (h : m ∈ ofMembers members) : m ∈ members :=
  (mem_of_mem_foldl_insertMember h).resolve_left List.not_mem_nil

theorem lookup_foldl_insertMember {more : List (String × Json)}
    (hnodup : (more.map Prod.fst).Nodup) (name : String) :
    lookup name (more.foldl (fun sorted m => insertMember m.1 m.2 sorted) members) =
      (lookup name more).or (lookup name members) := by
  induction more generalizing members with
  | nil => rfl
  | cons m more ih =>
    obtain ⟨key, v⟩ := m
    obtain ⟨hnot, hmore⟩ := List.nodup_cons.1 hnodup
    rw [List.foldl_cons, ih hmore, lookup_cons, lookup_insertMember]
    by_cases hkey : key = name
    · subst hkey
      rw [lookup_eq_none_of_not_mem hnot, if_pos rfl, if_pos rfl]
      rfl
    · rw [if_neg hkey, if_neg hkey]

/-- Sorting members of different names does not change what is found. -/
theorem lookup_ofMembers (hnodup : (members.map Prod.fst).Nodup) (name : String) :
    lookup name (ofMembers members) = lookup name members := by
  rw [ofMembers, lookup_foldl_insertMember hnodup]
  exact Option.or_none

theorem Sorted.mem_iff_lookup (h : Sorted members) {name : String} {v : Json} :
    (name, v) ∈ members ↔ lookup name members = some v := by
  induction members with
  | nil => exact ⟨fun hmem => absurd hmem List.not_mem_nil, fun hfound => nomatch hfound⟩
  | cons member rest ih =>
    obtain ⟨k, w⟩ := member
    rw [List.mem_cons, ih (List.pairwise_cons.1 h).2, lookup_cons]
    by_cases hname : k = name
    · subst hname
      have hnone : lookup k rest = none :=
        lookup_eq_none_of_not_mem (List.nodup_cons.1 h.nodup).1
      rw [hnone, if_pos rfl]
      simp [eq_comm]
    · have hother : (name, v) ≠ (k, w) := fun heq => hname (congrArg Prod.fst heq).symm
      rw [if_neg hname]
      exact or_iff_right hother

/-- Sorted members are determined by what is found among them. -/
theorem Sorted.ext {others : List (String × Json)} (h : Sorted members) (hothers : Sorted others)
    (hlookup : ∀ name, lookup name members = lookup name others) : members = others := by
  have hnodup : ∀ {l : List (String × Json)}, Sorted l → l.Nodup := fun hl =>
    List.nodup_iff_pairwise_ne.2 (hl.imp fun hlt heq => (ne_of_lt hlt) (congrArg Prod.fst heq))
  refine List.Perm.eq_of_pairwise (fun m n _ _ hmn hnm => absurd hmn (lt_asymm hnm)) h hothers ?_
  refine (List.perm_ext_iff_of_nodup (hnodup h) (hnodup hothers)).2 fun m => ?_
  rw [h.mem_iff_lookup, hothers.mem_iff_lookup, hlookup]

/-! ## Ordered values -/

/-- Whether the members of every object in a value are sorted. -/
inductive Ordered : Json → Prop where
  | null : Ordered .null
  | bool (b : Bool) : Ordered (.bool b)
  | number (n : Number) : Ordered (.number n)
  | string (s : String) : Ordered (.string s)
  | array {items : List Json} (hitems : ∀ v ∈ items, Ordered v) : Ordered (.array items)
  | object {members : List (String × Json)} (hsorted : Sorted members)
      (hmembers : ∀ m ∈ members, Ordered m.2) : Ordered (.object members)

theorem Ordered.sorted (h : Ordered (.object members)) : Sorted members := by
  cases h with
  | object hsorted => exact hsorted

/-- The member of an ordered value is ordered. -/
theorem Ordered.get? {v w : Json} (h : v.Ordered) {name : String} (hw : v.get? name = some w) :
    w.Ordered := by
  cases h with
  | object hsorted hmembers =>
    obtain ⟨m, hm, rfl⟩ := Option.map_eq_some_iff.1 hw
    exact hmembers m (List.mem_of_find?_eq_some hm)
  | _ => exact absurd hw (by simp [Json.get?])

theorem ordered_ofMembers (h : ∀ m ∈ members, m.2.Ordered) :
    (object (ofMembers members)).Ordered :=
  .object (sorted_ofMembers members) fun m hm => h m (mem_of_mem_ofMembers hm)

theorem ordered_ofNumber (n : Number) : (ofNumber n).Ordered := by
  cases n with
  | int n => exact .number _
  | double x | single x =>
    simp only [ofNumber]
    split
    · exact .number _
    · exact .null

mutual

/-- A normal form is ordered. -/
theorem ordered_normal : ∀ v : Json, v.normal.Ordered
  | .null => .null
  | .bool b => .bool b
  | .number n => ordered_ofNumber n
  | .string s => .string s
  | .array items => .array (ordered_normalItems items)
  | .object members => ordered_ofMembers (ordered_normalMembers members)

theorem ordered_normalItems : ∀ items : List Json, ∀ v ∈ normalItems items, v.Ordered
  | [] => fun _ hv => absurd hv List.not_mem_nil
  | v :: rest => List.forall_mem_cons.2 ⟨ordered_normal v, ordered_normalItems rest⟩

theorem ordered_normalMembers :
    ∀ members : List (String × Json), ∀ m ∈ normalMembers members, m.2.Ordered
  | [] => fun _ hm => absurd hm List.not_mem_nil
  | (_, v) :: rest => List.forall_mem_cons.2 ⟨ordered_normal v, ordered_normalMembers rest⟩

end

end Json

/-! ## Documents -/

open Json (Ordered)

mutual

/-- The value of a tree is ordered. -/
theorem Doc.ordered_of_value? {depth : Nat} :
    ∀ {d : Doc} {v : Json}, d.value? depth = some v → v.Ordered
  | .null, v, h => by cases h; exact .null
  | .bool b, v, h => by cases h; exact .bool b
  | .number n, v, h => by
    obtain ⟨n, -, rfl⟩ := Option.map_eq_some_iff.1 h
    exact .number n
  | .string s, v, h => by
    obtain ⟨s, -, rfl⟩ := Option.map_eq_some_iff.1 h
    exact .string s
  | .array items closed, v, h => by
    rw [Doc.value?] at h
    split at h
    · exact absurd h (by simp)
    · obtain ⟨vs, hvs, rfl⟩ := Option.map_eq_some_iff.1 h
      exact .array (Doc.ordered_of_values? hvs)
  | .object entries closed, v, h => by
    rw [Doc.value?] at h
    split at h
    · exact absurd h (by simp)
    · obtain ⟨ms, hms, rfl⟩ := Option.map_eq_some_iff.1 h
      exact Json.ordered_ofMembers (Doc.ordered_of_members? hms)
  | .nameless first, v, h => absurd h (by simp [Doc.value?])
  | .broken, v, h => absurd h (by simp [Doc.value?])

theorem Doc.ordered_of_values? {depth : Nat} :
    ∀ {ds : List Doc} {vs : List Json}, Doc.values? depth ds = some vs → ∀ v ∈ vs, v.Ordered
  | [], vs, h => by
    cases h
    exact fun v hv => absurd hv List.not_mem_nil
  | d :: rest, vs, h => by
    rw [Doc.values?] at h
    split at h
    · rename_i v vs' hv hvs
      cases h
      exact List.forall_mem_cons.2 ⟨Doc.ordered_of_value? hv, Doc.ordered_of_values? hvs⟩
    · exact absurd h (by simp)

theorem Doc.ordered_of_members? {depth : Nat} :
    ∀ {es : List (Option String × Doc)} {ms : List (String × Json)},
      Doc.members? depth es = some ms → ∀ m ∈ ms, m.2.Ordered
  | [], ms, h => by
    cases h
    exact fun m hm => absurd hm List.not_mem_nil
  | (none, d) :: rest, ms, h => absurd h (by simp [Doc.members?])
  | (some k, d) :: rest, ms, h => by
    cases hv : d.value? depth with
    | none => exact absurd h (by simp [Doc.members?, hv])
    | some v =>
      cases hms : Doc.members? depth rest with
      | none => exact absurd h (by simp [Doc.members?, hv, hms])
      | some ms' =>
        simp only [Doc.members?, hv, hms, Option.some.injEq] at h
        subst h
        exact List.forall_mem_cons.2 ⟨Doc.ordered_of_value? hv, Doc.ordered_of_members? hms⟩

end

/-- **The value of a JSON text is ordered.** -/
theorem Json.ordered_of_parse? {s : String} {v : Json} (h : Json.parse? s = some v) :
    v.Ordered := by
  rw [Json.parse?] at h
  split at h
  · exact Doc.ordered_of_value? h
  · exact absurd h (by simp)

namespace Toml

theorem Word.ordered_ofMoment (text : String) : (Word.ofMoment text).Ordered :=
  .object (List.pairwise_singleton _ _) fun _ hm => List.mem_singleton.1 hm ▸ .string text

theorem Word.ordered_of_fit? {n : Int} {v : Json} (h : Word.fit? n = some v) : v.Ordered := by
  unfold fit? at h
  split at h
  · cases h
    exact .number _
  · exact absurd h (by simp)

theorem Word.ordered_of_toJson? {w : Word} {v : Json} (h : w.toJson? = some v) : v.Ordered := by
  cases w with
  | bool b =>
    cases h
    exact .bool b
  | moment text =>
    cases h
    exact ordered_ofMoment text
  | integer base negative digits =>
    cases digits with
    | nil => exact absurd h (by simp [toJson?])
    | cons digit more =>
      obtain ⟨ds, -, hfit⟩ := Option.bind_eq_some_iff.1 h
      exact ordered_of_fit? hfit
  | float negative whole fraction power =>
    rw [toJson?] at h
    split at h
    · rename_i hfinite
      simp only [Json.ofNumber, hfinite, if_true, Option.some.injEq] at h
      subst h
      exact .number _
    · exact absurd h (by simp)
  | infinity negative =>
    cases h
    exact .null
  | nan =>
    cases h
    exact .null

mutual

theorem Value.ordered_of_toJson? :
    ∀ {x : Value} {v : Json}, x.toJson? = some v → v.Ordered
  | .word w, v, h => Word.ordered_of_toJson? h
  | .string s, v, h => by cases h; exact .string s
  | .array items, v, h => by
    obtain ⟨vs, hvs, rfl⟩ := Option.map_eq_some_iff.1 h
    exact .array (Value.ordered_of_itemsJson? hvs)
  | .table entries, v, h => by
    rw [Value.toJson?] at h
    split at h
    · rename_i s _
      split at h
      · cases h
        exact Word.ordered_ofMoment s
      · exact absurd h (by simp)
    · exact absurd h (by simp)
    · obtain ⟨ms, hms, rfl⟩ := Option.map_eq_some_iff.1 h
      exact Json.ordered_ofMembers (Value.ordered_of_membersJson? hms)

theorem Value.ordered_of_itemsJson? :
    ∀ {items : List Value} {vs : List Json}, Value.itemsJson? items = some vs →
      ∀ v ∈ vs, v.Ordered
  | [], vs, h => by
    cases h
    exact fun v hv => absurd hv List.not_mem_nil
  | x :: rest, vs, h => by
    rw [Value.itemsJson?] at h
    split at h
    · rename_i j hj
      obtain ⟨js, hjs, rfl⟩ := Option.map_eq_some_iff.1 h
      exact List.forall_mem_cons.2 ⟨Value.ordered_of_toJson? hj, Value.ordered_of_itemsJson? hjs⟩
    · exact absurd h (by simp)

theorem Value.ordered_of_membersJson? :
    ∀ {entries : List (String × Value)} {ms : List (String × Json)},
      Value.membersJson? entries = some ms → ∀ m ∈ ms, m.2.Ordered
  | [], ms, h => by
    cases h
    exact fun m hm => absurd hm List.not_mem_nil
  | (k, x) :: rest, ms, h => by
    rw [Value.membersJson?] at h
    split at h
    · rename_i j hj
      obtain ⟨js, hjs, rfl⟩ := Option.map_eq_some_iff.1 h
      exact List.forall_mem_cons.2 ⟨Value.ordered_of_toJson? hj, Value.ordered_of_membersJson? hjs⟩
    · exact absurd h (by simp)

end

/-- **The value of a TOML document is ordered.** -/
theorem ordered_of_parse? {text : String} {v : Json} (h : parse? text = some v) : v.Ordered := by
  obtain ⟨es, -, h⟩ := Option.bind_eq_some_iff.1 h
  obtain ⟨draft, -, h⟩ := Option.bind_eq_some_iff.1 h
  obtain ⟨members, hmembers, h⟩ := Option.bind_eq_some_iff.1 h
  cases h
  exact Json.ordered_ofMembers (Value.ordered_of_membersJson? hmembers)

end Toml

end CellReview
