import CellReview.Toml.Value

/-!
# TOML tables

A table grows while a document is read.  Headers and dotted keys may open tables on
their way, and how a table was opened decides who may add to it later, as the library behind
`CellReview.Toml.Document` decides it.

* `Entry` — a finished value, a table, or a list of tables whose last one is open;
* `Table.put` — add a value under a dotted key;
* `Table.openTable`, `Table.openItem` — the two kinds of header;
* `Table.members` — the finished values of a table.
-/

namespace CellReview.Toml

/-- How a table came to be. -/
inductive Origin where
  /-- It stands on the way to another table of a header. -/
  | implied
  /-- It stands on the way to the last part of a dotted key. -/
  | dotted
  /-- A header names it. -/
  | headed
  deriving DecidableEq, Repr

/-- What a key of a table leads to.  The finished tables of a list stand with the latest
first. -/
inductive Entry where
  | value (v : Value)
  | table (origin : Origin) (entries : List (String × Entry))
  | tables (done : List Value) (entries : List (String × Entry))

/-- The keys of a table with what they lead to. -/
abbrev Table := List (String × Entry)

/-! ## Values -/

mutual

/-- An entry as a value. -/
def Entry.finish : Entry → Value
  | .value v => v
  | .table _ entries => .table (Table.members entries)
  | .tables done entries => .array (.table (Table.members entries) :: done).reverse

/-- The finished values of a table. -/
def Table.members : List (String × Entry) → List (String × Value)
  | [] => []
  | (k, e) :: rest => (k, e.finish) :: Table.members rest

end

namespace Table

/-! ## Keys -/

/-- What a key leads to. -/
def find (t : Table) (key : String) : Option Entry :=
  (t.find? fun entry => entry.1 == key).map (·.2)

/-- Let a key lead to an entry. -/
def set (t : Table) (key : String) (e : Entry) : Table :=
  if t.any fun entry => entry.1 == key then
    t.map fun entry => if entry.1 == key then (key, e) else entry
  else t ++ [(key, e)]

/-- Change the table at the end of a path, opening tables on the way.  A dotted key does
not pass through a table that has a header, and no header names a table that it passed. -/
def descend (byDots : Bool) (change : Origin → Table → Option (Origin × Table)) :
    List String → Origin → Table → Option (Origin × Table)
  | [], origin, t => change origin t
  | key :: path, origin, t =>
    match find t key with
    | none => do
      let (o, inner) ← descend byDots change path (if byDots then .dotted else .implied) []
      some (origin, set t key (.table o inner))
    | some (.value _) => none
    | some (.table o inner) =>
      if byDots ∧ o = .headed then none
      else do
        let (o, inner) ← descend byDots change path (if byDots then .dotted else o) inner
        some (origin, set t key (.table o inner))
    | some (.tables done inner) => do
      let (_, inner) ← descend byDots change path .headed inner
      some (origin, set t key (.tables done inner))

/-! ## Adding -/

/-- Add a value under the last part of a key to the table of the parts before it.  That
table is the one at hand, or one without a header of its own. -/
def put (path : List String) (key : String) (v : Value) (t : Table) : Option Table :=
  let add (origin : Origin) (t : Table) : Option (Origin × Table) :=
    if !path.isEmpty ∧ origin = .headed then none
    else if (find t key).isSome then none
    else some (origin, set t key (.value v))
  (descend true add path .headed t).map (·.2)

/-- Open a table by its header; it may stand there already only if it is implied. -/
def openTable (path : List String) (key : String) (t : Table) : Option Table :=
  let add (origin : Origin) (t : Table) : Option (Origin × Table) :=
    match find t key with
    | none => some (origin, set t key (.table .headed []))
    | some (.table .implied inner) => some (origin, set t key (.table .headed inner))
    | some _ => none
  (descend false add path .headed t).map (·.2)

/-- Open the next table of a list by its header. -/
def openItem (path : List String) (key : String) (t : Table) : Option Table :=
  let add (origin : Origin) (t : Table) : Option (Origin × Table) :=
    match find t key with
    | none => some (origin, set t key (.tables [] []))
    | some (.tables done inner) =>
      some (origin, set t key (.tables (.table (members inner) :: done) []))
    | some _ => none
  (descend false add path .headed t).map (·.2)

/-- Change the table that the latest header opened. -/
def within (path : List String) (change : Table → Option Table) (t : Table) : Option Table :=
  (descend false (fun origin t => (change t).map (origin, ·)) path .headed t).map (·.2)

end Table

end CellReview.Toml
