import CellReview.Proofs.Json.Ordered
import CellReview.Settings.Merge

/-!
# What a merged value holds

A member of a merged object is the one of the upper object, laid over the lower one of the same
name; a member that the upper object lacks is that of the lower one.

* `lookup_mergeMembers`, `get?_merge` — the members of a merged object;
* `Ordered.merge` — merging keeps values ordered;
* `Json.find?`, `find?_merge_of_some` — a value inside a section, laid over anything;
* `find?_merge` — **a value inside a section is the upper one, if there is one**.
-/

namespace CellReview.Json

/-! ## Members -/

theorem lookup_mergeMembers {overlay : List (String × Json)}
    (hnodup : (overlay.map Prod.fst).Nodup) (base : List (String × Json)) (name : String) :
    lookup name (mergeMembers base overlay) =
      match lookup name overlay with
      | none => lookup name base
      | some v => some ((lookup name base).elim v (merge · v)) := by
  induction overlay generalizing base with
  | nil => rfl
  | cons member rest ih =>
    obtain ⟨key, v⟩ := member
    obtain ⟨hnot, hrest⟩ := List.nodup_cons.1 hnodup
    rw [mergeMembers, ih hrest, lookup_cons, lookup_insertMember]
    by_cases hkey : key = name
    · subst hkey
      rw [lookup_eq_none_of_not_mem hnot, if_pos rfl, if_pos rfl]
      cases lookup key base <;> rfl
    · rw [if_neg hkey, if_neg hkey]

/-- Two objects are merged member by member. -/
theorem get?_merge {members overlay : List (String × Json)} (h : Sorted overlay) (name : String) :
    (merge (.object members) (.object overlay)).get? name =
      match lookup name overlay with
      | none => lookup name members
      | some v => some ((lookup name members).elim v (merge · v)) := by
  rw [merge]
  exact lookup_mergeMembers h.nodup members name

/-- What is laid over something is taken as it is unless it is an object. -/
theorem merge_of_not_object {v : Json} (h : ∀ members, v ≠ .object members) (base : Json) :
    merge base v = v := by
  cases v with
  | object members => exact absurd rfl (h members)
  | _ => rw [merge]; simp

/-- A member of the upper object is found in the merged value, alone or laid over something. -/
theorem get?_merge_of_some {v w : Json} {name : String} (hv : v.Ordered)
    (h : v.get? name = some w) (base : Json) :
    (merge base v).get? name = some w ∨ ∃ b, (merge base v).get? name = some (merge b w) := by
  cases v with
  | object overlay =>
    cases base with
    | object members =>
      have hw : lookup name overlay = some w := h
      rw [get?_merge hv.sorted, hw]
      cases lookup name members with
      | none => exact .inl rfl
      | some b => exact .inr ⟨b, rfl⟩
    | _ =>
      rw [merge]
      · exact .inl h
      · simp
  | _ => exact absurd h (by simp [get?])

/-- What is laid over something is an object if it was one. -/
theorem exists_merge_object (base : Json) (overlay : List (String × Json)) :
    ∃ members, merge base (.object overlay) = .object members := by
  cases base with
  | object members => exact ⟨mergeMembers members overlay, by rw [merge]⟩
  | _ =>
    refine ⟨overlay, ?_⟩
    rw [merge]
    simp

/-! ## Order -/

theorem Ordered.insertMember {members : List (String × Json)} (h : Ordered (.object members))
    (key : String) {v : Json} (hv : v.Ordered) :
    Ordered (.object (Json.insertMember key v members)) := by
  cases h with
  | object hsorted hmembers =>
    refine .object (hsorted.insertMember key v) fun m hm => ?_
    rcases eq_or_mem_of_mem_insertMember hm with rfl | hm
    · exact hv
    · exact hmembers m hm

mutual

/-- Merging keeps values ordered. -/
theorem Ordered.merge {base : Json} (hbase : base.Ordered) :
    ∀ {v : Json}, v.Ordered → (Json.merge base v).Ordered
  | .object overlay, h => by
    cases base with
    | object members =>
      rw [Json.merge]
      cases h with
      | object hsorted hmembers => exact Ordered.mergeMembers hbase hmembers
    | _ => rw [Json.merge]; exact h; simp
  | .null, h | .bool _, h | .number _, h | .string _, h | .array _, h => by
    rwa [merge_of_not_object (by simp)]

theorem Ordered.mergeMembers {members : List (String × Json)}
    (hbase : Ordered (.object members)) :
    ∀ {overlay : List (String × Json)}, (∀ m ∈ overlay, m.2.Ordered) →
      Ordered (.object (Json.mergeMembers members overlay))
  | [], _ => hbase
  | (key, v) :: rest, h => by
    obtain ⟨hv, hrest⟩ := List.forall_mem_cons.1 h
    rw [Json.mergeMembers]
    refine Ordered.mergeMembers (hbase.insertMember key ?_) hrest
    cases hlookup : lookup key members with
    | none => exact hv
    | some b => exact Ordered.merge (hbase.get? hlookup) hv

end

/-! ## Sections -/

/-- What an object says under a name in one of its sections. -/
def find? (v : Json) (area name : String) : Option Json :=
  (v.get? area).bind (·.get? name)

/-- A value inside a section is the upper one, whatever it is laid over. -/
theorem find?_merge_of_some {v u : Json} {area name : String} (hv : v.Ordered)
    (h : v.find? area name = some u) (hu : ∀ members, u ≠ .object members) (base : Json) :
    (merge base v).find? area name = some u := by
  obtain ⟨w, hw, hwu⟩ := Option.bind_eq_some_iff.1 h
  rw [find?]
  rcases get?_merge_of_some hv hw base with hmerged | ⟨b, hmerged⟩
  · rw [hmerged]
    exact hwu
  · rw [hmerged, Option.bind_some]
    rcases get?_merge_of_some (hv.get? hw) hwu b with hinner | ⟨c, hinner⟩
    · exact hinner
    · rwa [merge_of_not_object hu] at hinner

/-- A value inside a section is the upper one, if there is one and no object. -/
theorem find?_merge {base v : Json} {area name : String}
    (hbase : ∃ members, base = .object members)
    (harea : ∃ members, base.get? area = some (.object members))
    (hv : v.Ordered) (hobject : ∃ members, v = .object members)
    (hsection : ∀ w, v.get? area = some w → ∃ members, w = .object members)
    (hplain : ∀ w, v.find? area name = some w → ∀ members, w ≠ .object members) :
    (merge base v).find? area name = (v.find? area name).or (base.find? area name) := by
  cases hfound : v.find? area name with
  | some u => exact find?_merge_of_some hv hfound (hplain u hfound) base
  | none =>
    obtain ⟨members, rfl⟩ := hbase
    obtain ⟨overlay, rfl⟩ := hobject
    obtain ⟨lower, hlower⟩ := harea
    have hlower : lookup area members = some (.object lower) := hlower
    rw [Option.none_or, find?, get?_merge hv.sorted]
    cases hupper : lookup area overlay with
    | none => rfl
    | some w =>
      obtain ⟨upper, rfl⟩ := hsection w hupper
      have hnone : lookup name upper = none := by
        simpa [find?, get?, hupper] using hfound
      have hmerged : (merge (.object lower) (.object upper)).get? name = lookup name lower := by
        rw [get?_merge (hv.get? hupper).sorted, hnone]
      rw [hlower]
      exact hmerged.trans (by simp [find?, get?, hlower])

end CellReview.Json
