import CellReview.Json.Doc

/-!
# Reading typed values

A reader turns a tree into a value of a type and fails with the first fault in the
order of the text: the text is not JSON there (`malformed`), or it is JSON of
another shape (`mismatch`).  A tree may also come from a value that was read
before, or from a part of a text that was kept until its kind was known; then
nothing is malformed and some shapes are judged differently.

This stands for the typed reading that the JSON library derives for records and names.  What is
followed is which texts and values it takes, what becomes of members that are missing, unknown or
repeated, and which kind of fault comes first; the words of a fault are not.

* `Fault`, `Source`, `Reading`, `Reader` — what a reader fails with, works in, and is;
* `Reader.string`, `Reader.natBelow`, `Reader.enum` and others — single values;
* `Field`, `Reader.named`, `Reader.record` — records by name, or also by position;
* `Reader.ofText`, `Reader.ofJson` — the two ways to run a reader.
-/

namespace CellReview

/-- Why a typed value cannot be read. -/
inductive Fault where
  /-- The text is not JSON. -/
  | malformed
  /-- The text is JSON of another shape. -/
  | mismatch
  deriving DecidableEq, Repr

/-- Where a tree comes from. -/
inductive Source where
  /-- A text that is read for the first time. -/
  | text
  /-- A value. -/
  | value
  /-- A part of a text that was read as a whole before its kind was known. -/
  | kept
  deriving DecidableEq, Repr

/-- Where a tree comes from, and how deep it may still nest. -/
structure Reading where
  source : Source
  depth : Nat
  deriving DecidableEq, Repr

/-- Whether a tree comes from a text that is read for the first time. -/
def Reading.inText (r : Reading) : Bool :=
  r.source = .text

/-- A reader of values of a type. -/
abbrev Reader (α : Type) := Reading → Doc → Except Fault α

/-- Step into an array or object. -/
def Reading.enter (r : Reading) : Except Fault Reading :=
  if !r.inText then .ok r
  else if r.depth ≤ 1 then .error .malformed
  else .ok { r with depth := r.depth - 1 }

/-- Step into a part of a text that was first read as a whole. -/
def Reading.ofWhole (r : Reading) : Reading :=
  { r with source := .kept }

/-- The fault of a tree that is not of the kind a reader wants. -/
def Doc.unwanted : Doc → Fault
  | .broken => .malformed
  | .number none => .malformed
  | .string none => .malformed
  | _ => .mismatch

namespace Reader

variable {α β : Type}

/-! ## Single values -/

/-- A string. -/
def string : Reader String
  | _, .string (some s) => .ok s
  | _, d => .error d.unwanted

/-- A truth value. -/
def bool : Reader Bool
  | _, .bool b => .ok b
  | _, d => .error d.unwanted

/-- An integer from zero up to, but not including, a limit. -/
def natBelow (limit : Nat) : Reader Nat
  | _, .number (some (.int n)) =>
    if 0 ≤ n ∧ n < limit then .ok n.toNat else .error .mismatch
  | _, d => .error d.unwanted

/-- A number of 32 bits; integers and wider numbers are rounded. -/
def single : Reader (Binary .single)
  | _, .number (some (.int n)) => .ok (Binary.ofInt .single n)
  | _, .number (some (.double x)) => .ok (x.convert .single)
  | _, .number (some (.single x)) => .ok x
  | _, d => .error d.unwanted

/-- The value `null`. -/
def unit : Reader Unit
  | _, .null => .ok ()
  | _, d => .error d.unwanted

/-- What stands beside a name that needs nothing: `null`, and in a kept tree also an
object without members. -/
def nothing : Reader Unit
  | r, .object [] closed => if r.source = .kept then .ok () else unit r (.object [] closed)
  | r, d => unit r d

/-- Any value. -/
def any : Reader Json := fun r d =>
  match d.value? r.depth with
  | some v => .ok v
  | none => .error .malformed

/-- A value or `null`. -/
def option (read : Reader α) : Reader (Option α)
  | _, .null => .ok none
  | r, d => (read r d).map some

/-- A value turned into another one, which may refuse it. -/
def refine (f : α → Option β) (read : Reader α) : Reader β := fun r d => do
  match f (← read r d) with
  | some b => .ok b
  | none => .error .mismatch

/-- One of several names, written as a string or as an object with the name and `null`. -/
def enum (ofName : String → Option α) : Reader α
  | _, .string (some s) =>
    match ofName s with
    | some a => .ok a
    | none => .error .mismatch
  | r, .object entries closed => do
    let inner ← r.enter
    match entries with
    | (some k, d) :: rest =>
      if !r.inText ∧ !rest.isEmpty then .error .mismatch
      else
        match ofName k with
        | none => .error .mismatch
        | some a =>
          nothing inner d
          if rest.isEmpty ∧ closed then .ok a else .error .malformed
    | _ => .error (if r.inText then .malformed else .mismatch)
  | r, .nameless first => do
    let _ ← r.enter
    .error first.unwanted
  | r, d => .error (if r.inText then .malformed else d.unwanted)

/-! ## Lists -/

/-- The items of a list of trees. -/
def items (read : Reader α) (r : Reading) : List Doc → Except Fault (List α)
  | [] => .ok []
  | d :: rest => do
    let a ← read r d
    let as ← items read r rest
    .ok (a :: as)

/-- An array. -/
def list (read : Reader α) : Reader (List α)
  | r, .array ds closed => do
    let inner ← r.enter
    let as ← items read inner ds
    if closed then .ok as else .error .malformed
  | _, d => .error d.unwanted

end Reader

/-! ## Records -/

/-- Whether a field may be left out. -/
inductive Presence where
  /-- It may not. -/
  | required
  /-- It may by name, but not by position. -/
  | nullable
  /-- It may. -/
  | defaulted
  deriving DecidableEq, Repr

/-- A field of a record: its name and how its value is read and stored. -/
structure Field (α : Type) where
  name : String
  presence : Presence
  store : Reading → Doc → α → Except Fault α

/-- A field from the reader of its value and the way to store it. -/
def Field.of {α β : Type} (name : String) (presence : Presence) (read : Reader β)
    (put : β → α → α) : Field α :=
  ⟨name, presence, fun r d a => (read r d).map fun b => put b a⟩

namespace Reader

variable {α : Type}

/-- Whether a member that nobody asked for obeys the grammar. -/
def skippable (d : Doc) : Except Fault Unit :=
  if d.sound then .ok () else .error .malformed

/-- Store the entries of an object: each known field once, unknown ones skipped. -/
def fillEntries (fields : List (Field α)) (r : Reading) :
    List (Option String × Doc) → List String → α → Except Fault (List String × α)
  | [], seen, a => .ok (seen, a)
  | (none, _) :: _, _, _ => .error .malformed
  | (some k, d) :: rest, seen, a => do
    match fields.find? fun f => f.name == k with
    | none =>
      skippable d
      fillEntries fields r rest seen a
    | some f =>
      if seen.contains k then .error .mismatch
      else
        let a ← f.store r d a
        fillEntries fields r rest (k :: seen) a

/-- Store the items of an array in the order of the fields. -/
def fillItems (r : Reading) (closed : Bool) :
    List (Field α) → List Doc → α → Except Fault α
  | [], [], a => if closed then .ok a else .error .malformed
  | [], _ :: _, _ => .error (if r.inText then .malformed else .mismatch)
  | f :: fs, [], a =>
    if !closed then .error .malformed
    else if (f :: fs).all fun f => f.presence == .defaulted then .ok a
    else .error .mismatch
  | f :: fs, d :: ds, a => do
    let a ← f.store r d a
    fillItems r closed fs ds a

/-- A record as an object with the names of its fields.  What is left out keeps its value
in `start`. -/
def named (fields : List (Field α)) (start : α) : Reader α
  | r, .object entries closed => do
    let inner ← r.enter
    let (seen, a) ← fillEntries fields inner entries [] start
    if !closed then .error .malformed
    else if fields.all fun f => f.presence != .required || seen.contains f.name then .ok a
    else .error .mismatch
  | _, .nameless _ => .error .malformed
  | _, d => .error d.unwanted

/-- A record, as an object with the names of its fields or as an array in their order. -/
def record (fields : List (Field α)) (start : α) : Reader α
  | r, .array ds closed => do
    let inner ← r.enter
    fillItems inner closed fields ds start
  | r, d => named fields start r d

/-! ## Running a reader -/

/-- Read a whole text. -/
def ofText (read : Reader α) (s : String) : Except Fault α := do
  let (d, alone) := Doc.ofText s
  let a ← read ⟨.text, Doc.nesting⟩ d
  if alone then .ok a else .error .malformed

/-- Read from a value. -/
def ofJson (read : Reader α) (v : Json) : Except Fault α :=
  read ⟨.value, Doc.nesting⟩ v.doc

end Reader

end CellReview
