import CellReview.Number.Shortest

/-!
# JSON values

Integers are kept apart from floating-point numbers, and an object is a list of
named members.  A value in *normal form* has every object sorted by name without
repetition and only double-width finite numbers.

The modules about JSON stand for a library that is used as it is.  Of its values these are
followed: the three kinds of number, the sorted objects, and that the last of equal names wins.

* `Json` — the values;
* `Json.get?` — a member by name;
* `Json.insertMember`, `Json.ofMembers` — sorted objects, the last of equal names winning;
* `Json.normal` — the normal form of a value.
-/

namespace CellReview

/-- A JSON number: an integer, or a floating-point number of either width. -/
inductive Number where
  | int (n : Int)
  | double (x : Binary .double)
  | single (x : Binary .single)
  deriving DecidableEq, Repr

/-- A JSON value. -/
inductive Json where
  | null
  | bool (b : Bool)
  | number (n : Number)
  | string (s : String)
  | array (items : List Json)
  | object (members : List (String × Json))
  deriving Repr

namespace Json

/-! ## Equality is decidable -/

mutual

/-- Decide whether two values are equal. -/
def decEq : (a b : Json) → Decidable (a = b)
  | .null, .null => isTrue rfl
  | .bool a, .bool b => decidable_of_iff (a = b) (by simp)
  | .number a, .number b => decidable_of_iff (a = b) (by simp)
  | .string a, .string b => decidable_of_iff (a = b) (by simp)
  | .array xs, .array ys =>
    have := decEqItems xs ys
    decidable_of_iff (xs = ys) (by simp)
  | .object xs, .object ys =>
    have := decEqMembers xs ys
    decidable_of_iff (xs = ys) (by simp)
  | .null, .bool _ | .null, .number _ | .null, .string _ | .null, .array _ | .null, .object _
  | .bool _, .null | .bool _, .number _ | .bool _, .string _ | .bool _, .array _
  | .bool _, .object _
  | .number _, .null | .number _, .bool _ | .number _, .string _ | .number _, .array _
  | .number _, .object _
  | .string _, .null | .string _, .bool _ | .string _, .number _ | .string _, .array _
  | .string _, .object _
  | .array _, .null | .array _, .bool _ | .array _, .number _ | .array _, .string _
  | .array _, .object _
  | .object _, .null | .object _, .bool _ | .object _, .number _ | .object _, .string _
  | .object _, .array _ => isFalse (by simp)

/-- Decide whether two lists of values are equal. -/
def decEqItems : (xs ys : List Json) → Decidable (xs = ys)
  | [], [] => isTrue rfl
  | x :: xs, y :: ys =>
    have := decEq x y
    have := decEqItems xs ys
    decidable_of_iff (x = y ∧ xs = ys) (by simp)
  | [], _ :: _ | _ :: _, [] => isFalse (by simp)

/-- Decide whether two lists of members are equal. -/
def decEqMembers : (xs ys : List (String × Json)) → Decidable (xs = ys)
  | [], [] => isTrue rfl
  | (k, x) :: xs, (l, y) :: ys =>
    have := decEq x y
    have := decEqMembers xs ys
    decidable_of_iff (k = l ∧ x = y ∧ xs = ys) (by simp [and_assoc])
  | [], _ :: _ | _ :: _, [] => isFalse (by simp)

end

instance : DecidableEq Json := decEq

instance : Inhabited Json := ⟨.null⟩

/-! ## Members of an object -/

/-- The member of the given name in a list, the first if there are several. -/
def lookup (key : String) (members : List (String × Json)) : Option Json :=
  (members.find? fun member => member.1 == key).map (·.2)

/-- The member of the given name, if the value is an object that has one. -/
def get? (v : Json) (key : String) : Option Json :=
  match v with
  | .object members => lookup key members
  | _ => none

/-- Put a member into a sorted list, in place of one of the same name. -/
def insertMember (key : String) (v : Json) : List (String × Json) → List (String × Json)
  | [] => [(key, v)]
  | (k, w) :: rest =>
    if key = k then (key, v) :: rest
    else if key < k then (key, v) :: (k, w) :: rest
    else (k, w) :: insertMember key v rest

/-- The sorted list of the given members, the last of equal names winning. -/
def ofMembers (members : List (String × Json)) : List (String × Json) :=
  members.foldl (fun sorted member => insertMember member.1 member.2 sorted) []

/-- The text of a string value. -/
def text? : Json → Option String
  | .string s => some s
  | _ => none

/-- The items of an array. -/
def items? : Json → Option (List Json)
  | .array items => some items
  | _ => none

/-- The value of a natural number. -/
def ofNat (n : Nat) : Json :=
  .number (.int n)

/-- The value of an optional one, `null` in its absence. -/
def ofOption (f : α → Json) : Option α → Json
  | none => .null
  | some a => f a

/-! ## The normal form -/

/-- A number in double width, or `null` if it is not finite. -/
def ofNumber : Number → Json
  | .int n => .number (.int n)
  | .double x => if x.isFinite then .number (.double x) else .null
  | .single x => if x.isFinite then .number (.double (x.convert .double)) else .null

mutual

/-- The normal form of a value. -/
def normal : Json → Json
  | .number n => ofNumber n
  | .array items => .array (normalItems items)
  | .object members => .object (ofMembers (normalMembers members))
  | v => v

/-- The normal forms of the items of an array. -/
def normalItems : List Json → List Json
  | [] => []
  | v :: rest => normal v :: normalItems rest

/-- The members of an object with their values in normal form, in their order. -/
def normalMembers : List (String × Json) → List (String × Json)
  | [] => []
  | (k, v) :: rest => (k, normal v) :: normalMembers rest

end

end Json

end CellReview
