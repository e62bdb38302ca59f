import CellReview.Proofs.Review.Commands

/-!
# What every command leaves alone

A review reaches its host only through the effects of its operations and the requests it sends.
A property of the host that both leave alone survives every command, keystroke and edit; and none
of these ends in an answer that came too late.

* `Survives` — effects and requests leave a property of the host alone;
* `Survives.execute`, `Survives.press`, `Survives.edit` — commands, keystrokes and edits;
* `Seat.execute_ne_stale`, `Seat.press_ne_stale`, `Seat.edit_ne_stale` — no answer is stale.
-/

namespace CellReview.Review

variable {σ α : Type} [Host σ]

/-- Effects and requests leave a property of the host alone. -/
structure Survives (P : σ → Prop) : Prop where
  perform : ∀ h e, P h → P (Host.perform h e)
  send : ∀ h messages, P h → P (Host.send h messages).1

namespace Survives

variable {P : σ → Prop} (hP : Survives P) {seat : Seat σ}
include hP

theorem performed {h : σ} (hh : P h) (effects : List Effect) :
    P (effects.foldl Host.perform h) := by
  induction effects generalizing h with
  | nil => exact hh
  | cons e effects ih => exact ih (hP.perform h e hh)

theorem follow (h : P seat.host) (t : Transition α) : P (seat.follow t).1.host :=
  hP.performed h t.effects

theorem act (h : P seat.host) (op : State → Option String → Transition α) :
    P (seat.act op).1.host :=
  hP.follow h _

theorem complete (h : P seat.host) (r : Request) : P (seat.complete r).1.host :=
  hP.performed (hP.send seat.host r.messages h) _

theorem converse (h : P seat.host) (op : State → Option String → Transition Request) :
    P (seat.converse op).1.host := by
  have hacted : P (seat.act op).1.host := hP.act h op
  exact hP.complete hacted _

theorem execute (h : P seat.host) (c : Command) (arg : Option String) :
    P (seat.execute c arg).1.host := by
  cases c with
  | acceptLatest => exact hP.act h State.accept
  | rejectLatest => exact hP.act h fun s _ => s.reject
  | clearHistory => exact hP.act h fun s _ => s.clear
  | sendExplainCode => exact hP.converse h State.explain
  | sendMessage =>
    rw [Seat.execute]
    split
    · exact h
    · exact hP.converse h fun s cell => s.send cell _
  | sendDebugError =>
    rw [Seat.execute]
    split
    · exact h
    · exact hP.converse h fun s cell => s.debug cell _

theorem press (h : P seat.host) (keys : Keymap) (keystroke : String) :
    P (seat.press keys keystroke).1.host := by
  rw [Seat.press]
  split
  · exact hP.execute h _ _
  · exact h

theorem edit (h : P seat.host) {index : Nat} {input : String} {done : Seat σ × Resolution}
    (hdone : seat.edit index input = .ok done) : P done.1.host := by
  rw [Seat.edit] at hdone
  split at hdone
  · exact absurd hdone (by simp)
  · rename_i t _
    cases hdone
    have hfollowed : P (seat.follow t).1.host := hP.follow h t
    exact hP.complete hfollowed _

end Survives

/-! ## No answer is stale -/

namespace Seat

variable (seat : Seat σ) (request latest : Nat)

theorem execute_ne_stale (c : Command) (arg : Option String) :
    (seat.execute c arg).2 ≠ .resolved (.stale request latest) := by
  cases hasks : c.asks with
  | true =>
    intro hstale
    have hwarranted : ¬ c.Unwarranted seat.state arg := by
      rw [← seat.execute_ignored_iff, hstale]
      exact fun h => nomatch h
    obtain ⟨kept, content, shown, type, intent, -, hdone⟩ := seat.execute_asks hasks hwarranted
    rw [hdone] at hstale
    obtain ⟨-, -, hfresh⟩ := seat.settle_asking kept content shown type intent _
    exact hfresh request latest (CommandOutcome.resolved.inj hstale)
  | false =>
    cases c with
    | acceptLatest =>
      show outcomeOf (seat.state.accept seat.cell).answer ≠ _
      cases (seat.state.accept seat.cell).answer <;> exact fun h => nomatch h
    | rejectLatest =>
      show outcomeOf seat.state.reject.answer ≠ _
      cases seat.state.reject.answer <;> exact fun h => nomatch h
    | clearHistory => exact fun h => nomatch h
    | sendMessage => exact absurd hasks (by decide)
    | sendDebugError => exact absurd hasks (by decide)
    | sendExplainCode => exact absurd hasks (by decide)

theorem press_ne_stale (keys : Keymap) (keystroke : String) :
    (seat.press keys keystroke).2 ≠ .resolved (.stale request latest) := by
  rw [press]
  split
  · exact seat.execute_ne_stale request latest _ none
  · simp

theorem edit_ne_stale {index : Nat} {input : String} {done : Seat σ × Resolution}
    (hdone : seat.edit index input = .ok done) : done.2 ≠ .stale request latest := by
  rw [edit] at hdone
  split at hdone
  · exact absurd hdone (by simp)
  · rename_i t ht
    cases hdone
    obtain ⟨-, rfl⟩ := State.edit_eq_ok ht
    obtain ⟨-, -, hfresh⟩ := seat.settle_asking (seat.state.log.truncate index)
      (seat.state.taskPrompt seat.cell input) input .normal .applyCode _
    exact hfresh request latest

end Seat

end CellReview.Review
