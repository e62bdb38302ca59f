import CellReview.Diff.Edit

/-!
# Tidying an edit script

Runs of one kind are brought together by sliding deletions, and then insertions,
past equal elements as far up and then as far down as they go.  At the end
neighbouring runs are joined and a deletion next to an insertion becomes a
replacement.

This too stands for the library of `CellReview.Diff.Edit`, and follows its order: all deletions
first, then all insertions, each of them up and then down.  No result rests on where a run comes
to stand, only on the elements that the script pairs being equal and in their order.

* `Cursor` — a script with one run in hand;
* `Cursor.slideUp`, `Cursor.slideDown` — move the run in hand;
* `compact` — both, for every deletion and then for every insertion;
* `joinRuns` — neighbouring runs joined;
* `script` — the tidy script of two arrays.
-/

namespace CellReview.Diff

variable {α : Type} [BEq α]

/-- A script with one run in hand; the runs before it are listed from the nearest on. -/
structure Cursor where
  before : List Edit
  here : Edit
  after : List Edit
  deriving Repr

/-- The elements and runs of a list of runs, counted together. -/
def weight : List Edit → Nat
  | [] => 0
  | e :: rest => e.oldCount + e.newCount + 1 + weight rest

/-- How far the run in hand can slide up over the equal run before it. -/
def upCount (a b : Array α) (previous here : Edit) : Nat :=
  endCount a b (previous.old + previous.oldCount) (here.new + here.newCount)
    (min previous.oldCount here.newCount)

/-- How far the run in hand can slide down over the equal run after it. -/
def downCount (a b : Array α) (here next : Edit) : Nat :=
  startCount a b next.old here.new (min next.oldCount here.newCount)

/-- Grow an equal run to the left while both its starts move. -/
def Edit.growLeft (e : Edit) (s : Nat) : Edit :=
  { e with
    old := e.old - s
    new := e.new - s
    oldCount := e.oldCount + s
    newCount := e.newCount + s }

/-- Join a run of the same kind to the right of a run. -/
def Edit.absorb (e next : Edit) : Edit :=
  { e with oldCount := e.oldCount + next.oldCount, newCount := e.newCount + next.newCount }

/-- Slide the run in hand up as far as it goes. -/
def Cursor.slideUp (a b : Array α) : List Edit → Edit → List Edit → Cursor
  | [], here, after => ⟨[], here, after⟩
  | previous :: before, here, after =>
    if previous.kind = .equal then
      if previous.oldCount = 0 ∧ previous.newCount = 0 then Cursor.slideUp a b before here after
      else
        let s := upCount a b previous here
        if s = 0 then ⟨previous :: before, here, after⟩
        else
          let after :=
            match after with
            | next :: rest =>
              if next.kind = .equal then next.growLeft s :: rest
              else .equal (previous.old + previous.oldCount - s) (here.new + here.newCount - s) s ::
                next :: rest
            | [] =>
              [.equal (previous.old + previous.oldCount - s) (here.new + here.newCount - s) s]
          let here := { here with old := here.old - s, new := here.new - s }
          let shrunk :=
            { previous with
              oldCount := previous.oldCount - s, newCount := previous.newCount - s }
          if _fits : 0 < s ∧ s ≤ previous.oldCount then
            if shrunk.isEmpty then Cursor.slideUp a b before here after
            else Cursor.slideUp a b (shrunk :: before) here after
          else ⟨previous :: before, here, after⟩
    else if previous.kind = here.kind then
      Cursor.slideUp a b before (previous.absorb here) after
    else Cursor.slideUp a b before here (previous :: after)
termination_by before => weight before
decreasing_by all_goals (simp only [weight]; omega)

/-- Slide the run in hand down as far as it goes. -/
def Cursor.slideDown (a b : Array α) (before : List Edit) (here : Edit) : List Edit → Cursor
  | [] => ⟨before, here, []⟩
  | next :: after =>
    if next.kind = .equal then
      if next.oldCount = 0 ∧ next.newCount = 0 then Cursor.slideDown a b before here after
      else
        let s := downCount a b here next
        if s = 0 then ⟨before, here, next :: after⟩
        else
          let before :=
            match before with
            | previous :: rest =>
              if previous.kind = .equal then
                { previous with
                  oldCount := previous.oldCount + s, newCount := previous.newCount + s } :: rest
              else .equal next.old here.new s :: previous :: rest
            | [] => [.equal next.old here.new s]
          let here := { here with old := here.old + s, new := here.new + s }
          let shrunk : Edit :=
            { next with
              old := next.old + s, oldCount := next.oldCount - s
              new := next.new + s, newCount := next.newCount - s }
          if _fits : 0 < s ∧ s ≤ next.oldCount then
            if shrunk.isEmpty then Cursor.slideDown a b before here after
            else Cursor.slideDown a b before here (shrunk :: after)
          else ⟨before, here, next :: after⟩
    else if next.kind = here.kind then
      Cursor.slideDown a b before (here.absorb next) after
    else Cursor.slideDown a b (next :: before) here after
termination_by after => weight after
decreasing_by all_goals (simp only [weight]; omega)

/-- Slide every run of a kind up and then down, from the first run to the last. -/
def compactKind (a b : Array α) (kind : EditKind) : Nat → List Edit → List Edit → List Edit
  | 0, before, after => before.reverse ++ after
  | _, before, [] => before.reverse
  | fuel + 1, before, here :: after =>
    if here.kind = kind then
      let up := Cursor.slideUp a b before here after
      let down := Cursor.slideDown a b up.before up.here up.after
      compactKind a b kind fuel (down.here :: down.before) down.after
    else compactKind a b kind fuel (here :: before) after

/-- Slide deletions and then insertions. -/
def compact (a b : Array α) (edits : List Edit) : List Edit :=
  let fuel (edits : List Edit) := (weight edits + 1) * (weight edits + 1)
  let edits := compactKind a b .delete (fuel edits) [] edits
  compactKind a b .insert (fuel edits) [] edits

/-! ## Joining neighbours -/

/-- Join a run to one waiting, or make it the one waiting. -/
def joinTo (waiting : Option Edit) (e : Edit) : Option Edit :=
  some (waiting.elim e fun w => w.absorb e)

/-- A waiting deletion and a waiting insertion as runs of a script. -/
def settle : Option Edit → Option Edit → List Edit
  | none, none => []
  | some d, none => [d]
  | none, some i => [i]
  | some d, some i => [⟨.replace, d.old, d.oldCount, i.new, i.newCount⟩]

/-- Join neighbouring runs; a deletion next to an insertion becomes a replacement. -/
def joinRuns (same deleted inserted : Option Edit) : List Edit → List Edit
  | [] => same.toList ++ settle deleted inserted
  | e :: rest =>
    match e.kind with
    | .equal => settle deleted inserted ++ joinRuns (joinTo same e) none none rest
    | .delete => same.toList ++ joinRuns none (joinTo deleted e) inserted rest
    | .insert => same.toList ++ joinRuns none deleted (joinTo inserted e) rest
    | .replace => same.toList ++ settle deleted inserted ++ e :: joinRuns none none none rest

/-- The tidy script of two arrays. -/
def script (a b : Array α) : List Edit :=
  joinRuns none none none (compact a b (plainScript a b))

/-- The index pairs of the equal runs of a script. -/
def equalPairs (edits : List Edit) : List (Nat × Nat) :=
  edits.flatMap fun e =>
    if e.kind = .equal then (List.range e.oldCount).map fun k => (e.old + k, e.new + k) else []

end CellReview.Diff
