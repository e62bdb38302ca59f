import CellReview.Proofs.Review.Move
import Mathlib.Data.List.Induction

/-!
# The history of a run

A run of a session is told moment by moment: what was asked for, the session it was asked
of, and the answer.  The statements about runs speak of this history and not of the fields
that the review keeps for itself.

* `Session.history` — the moments of a run;
* `Moment.applies`, `Moment.proposes`, `Moment.opens` — an answer that was taken for a
  request, a proposal, and one that starts a chain of proposals;
* `latest` — the last moment of a kind;
* `Session.run_step_induction`, `Session.run_induction` — **what holds at the start and
  survives every step, or every move, holds after every run**.
-/

namespace CellReview.Review

/-! ## Moments -/

/-- An operation of a run, with the session it found and its result. -/
structure Moment where
  before : Session
  op : Operation
  result : Result

namespace Moment

/-- Whether an answer was taken for the request with an index. -/
def applies (id : Nat) (m : Moment) : Bool :=
  match m.op with
  | .resolve k _ => k == id && m.result.isApplied
  | _ => false

theorem applies_iff {id : Nat} {m : Moment} :
    m.applies id = true ↔ (∃ answer, m.op = .resolve id answer) ∧ m.result.isApplied = true := by
  unfold applies
  split
  · rename_i k answer hop
    rw [hop, Bool.and_eq_true, beq_iff_eq]
    constructor
    · rintro ⟨rfl, hresult⟩
      exact ⟨⟨answer, rfl⟩, hresult⟩
    · rintro ⟨⟨_, h⟩, hresult⟩
      cases h
      exact ⟨rfl, hresult⟩
  · rename_i hop
    simp only [Bool.false_eq_true, false_iff]
    rintro ⟨⟨answer, h⟩, -⟩
    exact hop id answer h

theorem applies_eq_false {id : Nat} {m : Moment} (h : m.result.isApplied = false) :
    m.applies id = false := by
  rw [Bool.eq_false_iff, Ne, applies_iff, h]
  simp

/-- Whether a code was proposed. -/
def proposes (m : Moment) : Bool :=
  m.result.isProposed

/-- Whether a code was proposed while no proposal was open. -/
def opens (m : Moment) : Bool :=
  m.result.isOpened

end Moment

/-- The last moment of a kind. -/
def latest (kind : Moment → Bool) (history : List Moment) : Option Moment :=
  history.reverse.find? kind

theorem latest_concat (kind : Moment → Bool) (history : List Moment) (m : Moment) :
    latest kind (history ++ [m]) = if kind m then some m else latest kind history := by
  unfold latest
  rw [List.reverse_append, List.reverse_singleton, List.singleton_append, List.find?_cons]
  cases kind m <;> rfl

/-! ## Runs -/

namespace Session

/-- The moments of a run, the first one first. -/
def history (s : Session) : List Operation → List Moment
  | [] => []
  | op :: ops => ⟨s, op, (s.step op).2⟩ :: history (s.step op).1 ops

theorem run_concat (s : Session) (ops : List Operation) (op : Operation) :
    s.run (ops ++ [op]) = ((s.run ops).step op).1 := by
  simp [run, List.foldl_append]

theorem history_append (s : Session) (first second : List Operation) :
    s.history (first ++ second) = s.history first ++ (s.run first).history second := by
  induction first generalizing s with
  | nil => rfl
  | cons op ops ih =>
    rw [List.cons_append, history, history, ih]
    rfl

theorem history_concat (s : Session) (ops : List Operation) (op : Operation) :
    s.history (ops ++ [op]) =
      s.history ops ++ [⟨s.run ops, op, ((s.run ops).step op).2⟩] :=
  s.history_append ops [op]

/-- What holds at the start and survives every step holds after every run.  The property may
speak of the history as well as of the session. -/
theorem run_step_induction {s : Session} {P : List Moment → Session → Prop} (start : P [] s)
    (step : ∀ past now op, P past now →
      P (past ++ [⟨now, op, (now.step op).2⟩]) (now.step op).1)
    (ops : List Operation) : P (s.history ops) (s.run ops) := by
  induction ops using List.reverseRecOn with
  | nil => exact start
  | append_singleton ops op ih =>
    rw [history_concat, run_concat]
    exact step _ _ _ ih

/-- What holds at the start and survives every move holds after every run. -/
theorem run_induction {s : Session} {P : List Moment → Session → Prop} (start : P [] s)
    (move : ∀ past now op t, P past now → Move now op t →
      P (past ++ [⟨now, op, t.answer⟩]) (now.after op t))
    (ops : List Operation) : P (s.history ops) (s.run ops) := by
  refine run_step_induction start (fun past now op ih => ?_) ops
  obtain ⟨t, hmove, hstep⟩ := now.exists_move op
  rw [hstep]
  exact move _ _ _ _ ih hmove

end Session

end CellReview.Review
