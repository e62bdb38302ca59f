import CellReview.Number.Digits
import CellReview.Text.Blank

/-!
# Session identifiers

An identifier is 32 hexadecimal digits, written in five groups with hyphens between.  The other
forms that are read are those of a library for identifiers that is used as it is.

* `SessionId` — the identifiers;
* `SessionId.text` — the written form;
* `SessionId.parse?` — reading it, with or without hyphens, in braces or as a name;
* `SessionId.fresh` — an identifier made of a time and a random number.
-/

namespace CellReview.Observe

/-- An identifier of 32 hexadecimal digits. -/
structure SessionId where
  digits : List (Fin 16)
  size : digits.length = 32
  deriving DecidableEq, Repr

instance : Inhabited SessionId := ⟨⟨List.replicate 32 0, rfl⟩⟩

namespace SessionId

/-- The sizes of the groups. -/
def groups : List Nat := [8, 4, 4, 4, 12]

/-- Cut a list into groups of the given sizes. -/
def cut {α : Type} : List Nat → List α → List (List α)
  | [], _ => []
  | n :: ns, xs => xs.take n :: cut ns (xs.drop n)

/-- The written form of an identifier. -/
def text (id : SessionId) : String :=
  String.ofList
    (['-'].intercalate (cut groups (id.digits.map fun d => Nat.digitChar d.val)))

/-- The value of a hexadecimal digit. -/
def digit? (c : Char) : Option (Fin 16) :=
  (hexValue? c).bind fun d => if h : d < 16 then some ⟨d, h⟩ else none

/-- The identifier of 32 digits. -/
def ofDigits? (cs : List Char) : Option SessionId :=
  match cs.mapM digit? with
  | some ds => if h : ds.length = 32 then some ⟨ds, h⟩ else none
  | none => none

/-- The identifier of digits in groups. -/
def ofGroups? (cs : List Char) : Option SessionId :=
  let parts := Chars.splitWhere (· == '-') cs
  if parts.map List.length = groups then ofDigits? parts.flatten else none

/-- The name of the scheme in front of an identifier, in capitals or small letters. -/
def scheme : List Char := "urn:uuid:".toList

/-- The characters between braces, or after the name of the scheme, or all of them. -/
def unwrapped (cs : List Char) : List Char :=
  if cs.head? = some '\x7b' ∧ cs.getLast? = some '\x7d' ∧ cs.length = 38 then
    (cs.drop 1).dropLast
  else if (cs.take 9).map Char.toLower = scheme then cs.drop 9
  else cs

/-- The identifier that a text stands for. -/
def parse? (s : String) : Option SessionId :=
  if s.toList.length = 32 then ofDigits? s.toList else ofGroups? (unwrapped s.toList)

/-! ## Making -/

/-- The identifier of a number. -/
def ofNat (n : Nat) : SessionId :=
  ⟨(List.range 32).map fun k => Fin.ofNat 16 (n / Nat.pow 16 (31 - k)), by simp⟩

/-- An identifier that begins with a time in milliseconds and is random behind it.  Its
thirteenth digit is a seven, and the two bits before the last 62 are `10`. -/
def fresh (millis random : Nat) : SessionId :=
  ofNat
    ((millis % Nat.pow 2 48 <<< 80) + (7 <<< 76) + (random / Nat.pow 2 62 % 4096 <<< 64) +
      (2 <<< 62) + random % Nat.pow 2 62)

end SessionId

end CellReview.Observe
