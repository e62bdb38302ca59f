import CellReview.Review.Bench

/-!
# What effects leave at a bench

Of the effects of an operation only the writes reach the cell, and only the renderings
reach the frames and the notebook.  Events and warnings go to the observer and the disk.

* `Bench.performAll` — a bench after some effects;
* `Bench.cell_performAll`, `Bench.frames_performAll`, `Bench.notebook_performAll` — the
  cell, the frames and the notebook follow from the writes and the renderings alone.
-/

namespace CellReview.Review

open Diff (Entry)

namespace Effect

/-- What an effect writes into the cell. -/
def write? : Effect → Option CellWrite
  | .write code isFinal => some ⟨code, isFinal⟩
  | _ => none

/-- What an effect shows. -/
def frame? : Effect → Option (Option (List Entry))
  | .render lines => some lines
  | _ => none

end Effect

namespace Bench

/-- A bench after some effects. -/
def performAll (b : Bench) (effects : List Effect) : Bench :=
  effects.foldl perform b

@[simp] theorem performAll_nil (b : Bench) : b.performAll [] = b := rfl

@[simp] theorem performAll_cons (b : Bench) (e : Effect) (effects : List Effect) :
    b.performAll (e :: effects) = (b.perform e).performAll effects := rfl

variable (b : Bench) (watch : Observe.Observer → Observe.Observer × Observe.Noted)

@[simp] theorem cell_observe : (b.observe watch).cell = b.cell := by
  unfold observe
  cases b.observer <;> rfl

@[simp] theorem frames_observe : (b.observe watch).frames = b.frames := by
  unfold observe
  cases b.observer <;> rfl

@[simp] theorem notebook_observe : (b.observe watch).notebook = b.notebook := by
  unfold observe
  cases b.observer <;> rfl

/-- The cell takes the writes one after the other. -/
theorem cell_performAll (effects : List Effect) :
    (b.performAll effects).cell =
      (effects.filterMap Effect.write?).foldl (fun c w => c.write w.code w.isFinal) b.cell := by
  induction effects generalizing b with
  | nil => rfl
  | cons e effects ih =>
    rw [performAll_cons, ih]
    cases e <;> simp [perform, Effect.write?, List.filterMap_cons]

/-- Every rendering is kept as a frame. -/
theorem frames_performAll (effects : List Effect) :
    (b.performAll effects).frames = b.frames ++ effects.filterMap Effect.frame? := by
  induction effects generalizing b with
  | nil => simp
  | cons e effects ih =>
    rw [performAll_cons, ih]
    cases e <;> simp [perform, Effect.frame?, List.filterMap_cons]

/-- The notebook follows the renderings. -/
theorem notebook_performAll (effects : List Effect) :
    (b.performAll effects).notebook =
      (effects.filterMap Effect.frame?).foldl Notebook.render b.notebook := by
  induction effects generalizing b with
  | nil => rfl
  | cons e effects ih =>
    rw [performAll_cons, ih]
    cases e <;> simp [perform, Effect.frame?, List.filterMap_cons]

end Bench

end CellReview.Review
