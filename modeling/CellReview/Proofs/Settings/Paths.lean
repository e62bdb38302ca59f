import CellReview.Proofs.Settings.Merge

/-!
# Merging, path by path

A path of member names leads from a value to one inside it.  What a merged value has at the end of
a path is told by what the two values have there and on the way.

* `at?` — the value at the end of a path;
* `Blocked`, `blocked_cons_iff` — a path on which a value that is no object stands in the way;
* `get?_merge_object` — one step into a merged value;
* `at?_merge_of_some`, `Blocked.merge`, `at?_merge_of_absent` — the end of a path where the upper
  value has something, where it stands in the way, and where it says nothing;
* `merge_merge_self` — laying a value over another one twice is laying it over once;
* `merge_by_path` — **what a merged value has at the end of every path**.
-/

namespace CellReview.Json

/-! ## Paths -/

/-- The value at the end of a path of member names. -/
def at? : Json → List String → Option Json
  | v, [] => some v
  | v, name :: path => (v.get? name).bind fun w => w.at? path

/-- Whether a value that is no object stands on a path before its end. -/
def Blocked (v : Json) (path : List String) : Prop :=
  ∃ front name rest w, path = front ++ name :: rest ∧ v.at? front = some w ∧
    ∀ members, w ≠ .object members

variable {v w base overlay : Json} {name : String} {path : List String}

theorem at?_cons (v : Json) (name : String) (path : List String) :
    v.at? (name :: path) = (v.get? name).bind (·.at? path) := rfl

theorem at?_append (v : Json) (front rest : List String) :
    v.at? (front ++ rest) = (v.at? front).bind (·.at? rest) := by
  induction front generalizing v with
  | nil => rfl
  | cons name front ih =>
    rw [List.cons_append, at?_cons, at?_cons, Option.bind_assoc]
    exact congrArg _ (funext ih)

theorem get?_of_not_object (h : ∀ members, v ≠ .object members) (name : String) :
    v.get? name = none := by
  cases v with
  | object members => exact absurd rfl (h members)
  | _ => rfl

/-- Behind a value that is no object a path leads nowhere. -/
theorem Blocked.at?_eq_none (h : v.Blocked path) : v.at? path = none := by
  obtain ⟨front, name, rest, w, rfl, hfront, hw⟩ := h
  rw [at?_append, hfront, Option.bind_some, at?_cons, get?_of_not_object hw, Option.bind_none]

theorem blocked_cons_iff : v.Blocked (name :: path) ↔
    (∀ members, v ≠ .object members) ∨ ∃ w, v.get? name = some w ∧ w.Blocked path := by
  constructor
  · rintro ⟨front, key, rest, w, hpath, hfront, hw⟩
    cases front with
    | nil =>
      obtain rfl := Option.some.inj hfront
      exact .inl hw
    | cons first front =>
      obtain ⟨rfl, htail⟩ := List.cons.inj hpath
      obtain ⟨u, hu, hfront⟩ := Option.bind_eq_some_iff.1 hfront
      exact .inr ⟨u, hu, front, key, rest, w, htail, hfront, hw⟩
  · rintro (hv | ⟨u, hu, front, key, rest, w, rfl, hfront, hw⟩)
    · exact ⟨[], name, path, v, rfl, rfl, hv⟩
    · exact ⟨name :: front, key, rest, w, rfl, by rw [at?_cons, hu]; exact hfront, hw⟩

/-! ## One step -/

/-- A member of a merged value, whatever an object is laid over. -/
theorem get?_merge_object {members : List (String × Json)} (h : Sorted members) (base : Json)
    (name : String) :
    (merge base (.object members)).get? name =
      match lookup name members with
      | none => base.get? name
      | some v => some ((base.get? name).elim v (merge · v)) := by
  cases base with
  | object lower => exact get?_merge h name
  | _ => cases hfound : lookup name members <;> simp [merge, get?, hfound]

theorem merge_of_base_not_object (h : ∀ members, base ≠ .object members) (v : Json) :
    merge base v = v := by
  cases v with
  | object upper =>
    cases base with
    | object members => exact absurd rfl (h members)
    | _ => simp [merge]
  | _ => exact merge_of_not_object (by simp) base

/-! ## A whole path -/

/-- What the upper value has at the end of a path is laid over what the lower one has there. -/
theorem at?_merge_of_some (ho : overlay.Ordered) (h : overlay.at? path = some v) (base : Json) :
    (merge base overlay).at? path = some ((base.at? path).elim v (merge · v)) := by
  induction path generalizing base overlay with
  | nil =>
    obtain rfl := Option.some.inj h
    rfl
  | cons name path ih =>
    obtain ⟨w, hw, hwv⟩ := Option.bind_eq_some_iff.1 h
    cases overlay with
    | object upper =>
      have hfound : lookup name upper = some w := hw
      rw [at?_cons, get?_merge_object ho.sorted, hfound, at?_cons]
      cases base.get? name with
      | none => exact hwv
      | some b => exact ih (ho.get? hw) hwv b
    | _ => exact absurd hw (by simp [get?])

/-- What stands in the way in the upper value stands there in the merged one. -/
theorem Blocked.merge (ho : overlay.Ordered) (h : overlay.Blocked path) (base : Json) :
    (Json.merge base overlay).Blocked path := by
  obtain ⟨front, name, rest, w, rfl, hfront, hw⟩ := h
  refine ⟨front, name, rest, w, rfl, ?_, hw⟩
  rw [at?_merge_of_some ho hfront]
  cases base.at? front with
  | none => rfl
  | some b => exact congrArg some (merge_of_not_object hw b)

/-- Where the upper value has nothing and does not stand in the way, the lower one shows. -/
theorem at?_merge_of_absent (ho : overlay.Ordered) (h : overlay.at? path = none)
    (hfree : ¬ overlay.Blocked path) (base : Json) :
    (merge base overlay).at? path = base.at? path := by
  induction path generalizing base overlay with
  | nil => exact absurd h (Option.some_ne_none _)
  | cons name path ih =>
    rw [blocked_cons_iff, not_or] at hfree
    obtain ⟨hobject, hfree⟩ := hfree
    cases overlay with
    | object upper =>
      rw [at?_cons, get?_merge_object ho.sorted, at?_cons]
      cases hfound : lookup name upper with
      | none => rfl
      | some w =>
        have hw : (object upper).get? name = some w := hfound
        rw [at?_cons, hw] at h
        -- with nothing below it, the member is a copy, which has nothing there either
        cases base.get? name with
        | none => exact h
        | some b => exact ih (ho.get? hw) h (fun hblocked => hfree ⟨w, hw, hblocked⟩) b
    | _ => exact absurd (fun members => by simp) hobject

/-! ## Merging twice -/

/-- Objects with the same members are equal. -/
theorem Ordered.ext_get? (hv : v.Ordered) (hw : w.Ordered) (hvo : ∃ members, v = .object members)
    (hwo : ∃ members, w = .object members) (h : ∀ name, v.get? name = w.get? name) : v = w := by
  obtain ⟨members, rfl⟩ := hvo
  obtain ⟨others, rfl⟩ := hwo
  exact congrArg Json.object (hv.sorted.ext hw.sorted h)

/-- Laying a value over another one twice is laying it over once. -/
theorem merge_merge_self (ho : overlay.Ordered) (hbase : base.Ordered) :
    merge (merge base overlay) overlay = merge base overlay := by
  induction ho generalizing base with
  | @object upper hsorted hmembers ih =>
    have ho : (object upper).Ordered := .object hsorted hmembers
    refine ((hbase.merge ho).merge ho).ext_get? (hbase.merge ho) (exists_merge_object _ upper)
      (exists_merge_object _ upper) fun name => ?_
    rw [get?_merge_object hsorted]
    cases hfound : lookup name upper with
    | none => rfl
    | some w =>
      have hw : (name, w) ∈ upper := hsorted.mem_iff_lookup.2 hfound
      rw [get?_merge_object hsorted, hfound]
      cases hb : base.get? name with
      | none =>
        -- the copied member is the one laid over nothing
        have hnull : merge .null w = w := merge_of_base_not_object (by simp) w
        have hself : merge (merge .null w) w = merge .null w := ih (name, w) hw .null
        rw [hnull] at hself
        exact congrArg some hself
      | some b => exact congrArg some (ih _ hw (hbase.get? hb))
  | _ => rw [merge_of_not_object (by simp), merge_of_not_object (by simp)]

/-! ## Merging by paths -/

/-- **What a merged value has at the end of every path.**  The values are any that documents can
have, with the members of their objects sorted.  Where the upper value has something that is no
object, that is there.  Where it has an object, that is laid over the object of the lower value,
or stands there alone if the lower value has none.  Where a value that is no object stands in the
way in the upper value, there is nothing.  In every other place there is what the lower value has.
And laying the upper value over the merged one changes nothing. -/
theorem merge_by_path (hbase : base.Ordered) (ho : overlay.Ordered) :
    (∀ path v, overlay.at? path = some v → (∀ members, v ≠ .object members) →
      (merge base overlay).at? path = some v) ∧
    (∀ path upper, overlay.at? path = some (.object upper) →
      (∀ lower, base.at? path = some (.object lower) →
        (merge base overlay).at? path = some (merge (.object lower) (.object upper))) ∧
      ((∀ lower, base.at? path ≠ some (.object lower)) →
        (merge base overlay).at? path = some (.object upper))) ∧
    (∀ path, overlay.Blocked path →
      overlay.at? path = none ∧ (merge base overlay).at? path = none) ∧
    (∀ path, overlay.at? path = none → ¬ overlay.Blocked path →
      (merge base overlay).at? path = base.at? path) ∧
    merge (merge base overlay) overlay = merge base overlay := by
  refine ⟨fun path v hv hplain => ?_, fun path upper hupper => ⟨fun lower hlower => ?_,
    fun hlower => ?_⟩, fun path hblocked => ⟨hblocked.at?_eq_none, ?_⟩,
    fun path hnone hfree => at?_merge_of_absent ho hnone hfree base, merge_merge_self ho hbase⟩
  · rw [at?_merge_of_some ho hv]
    cases base.at? path with
    | none => rfl
    | some b => exact congrArg some (merge_of_not_object hplain b)
  · rw [at?_merge_of_some ho hupper, hlower]
    rfl
  · rw [at?_merge_of_some ho hupper]
    cases hb : base.at? path with
    | none => rfl
    | some b =>
      have hplain : ∀ members, b ≠ .object members := fun members heq =>
        hlower members (by rw [hb, heq])
      exact congrArg some (merge_of_base_not_object hplain _)
  · exact (hblocked.merge ho base).at?_eq_none

/-- A number that gives way to an object, an object that gives way to a number, members that are
replaced and members that stay. -/
theorem merge_by_path_conflicting :
    let base : Json := .object
      [("a", .object [("x", .ofNat 1), ("y", .object [("z", .ofNat 2)])]), ("b", .ofNat 3),
        ("c", .object [("k", .ofNat 4)])]
    let overlay : Json := .object
      [("a", .object [("x", .null), ("y", .ofNat 6)]), ("b", .object [("w", .ofNat 5)])]
    base.Ordered ∧ overlay.Ordered ∧
      (merge base overlay).at? ["a", "x"] = some .null ∧
      (merge base overlay).at? ["a"] = some (.object [("x", .null), ("y", .ofNat 6)]) ∧
      (merge base overlay).at? ["b"] = some (.object [("w", .ofNat 5)]) ∧
      base.at? ["a", "y", "z"] = some (.ofNat 2) ∧
      (merge base overlay).at? ["a", "y", "z"] = none ∧
      (merge base overlay).at? ["c", "k"] = some (.ofNat 4) ∧
      merge (merge base overlay) overlay = merge base overlay := by
  intro base overlay
  have hnormal : base.normal = base ∧ overlay.normal = overlay := by decide +kernel
  have hbase : base.Ordered := hnormal.1 ▸ ordered_normal base
  have ho : overlay.Ordered := hnormal.2 ▸ ordered_normal overlay
  obtain ⟨hplain, hobject, hblocked, habsent, htwice⟩ := merge_by_path hbase ho
  have hmerged : merge (.object [("x", .ofNat 1), ("y", .object [("z", .ofNat 2)])])
      (.object [("x", .null), ("y", .ofNat 6)]) =
        .object [("x", .null), ("y", .ofNat 6)] := by
    decide +kernel
  have hway : overlay.Blocked ["a", "y", "z"] :=
    ⟨["a", "y"], "z", [], .ofNat 6, rfl, rfl, by simp [ofNat]⟩
  have hfree : ¬ overlay.Blocked ["c", "k"] := by
    simp [blocked_cons_iff, overlay, get?, lookup]
  refine ⟨hbase, ho, hplain _ _ rfl (by simp), ?_, ?_, rfl, (hblocked _ hway).2, ?_, htwice⟩
  · rw [(hobject ["a"] _ rfl).1 _ rfl, hmerged]
  · exact (hobject ["b"] _ rfl).2 (by simp [base, at?, get?, lookup, ofNat])
  · exact habsent _ rfl hfree

end CellReview.Json
