import CellReview.Json.Value

/-!
# Merging values

A value is laid over another one: two objects are merged member by member, and in
every other case the upper value takes the place of the lower one.

* `Json.merge` — the merged value;
* `Json.mergeMembers` — the same for the members of two objects.
-/

namespace CellReview.Json

mutual

/-- A value with another one laid over it. -/
def merge (base : Json) : Json → Json
  | .object overlay =>
    match base with
    | .object members => .object (mergeMembers members overlay)
    | _ => .object overlay
  | v => v

/-- The sorted members of an object with other members laid over them. -/
def mergeMembers (base : List (String × Json)) : List (String × Json) → List (String × Json)
  | [] => base
  | (key, v) :: rest =>
    let merged :=
      match lookup key base with
      | some b => merge b v
      | none => v
    mergeMembers (insertMember key merged base) rest

end

end CellReview.Json
