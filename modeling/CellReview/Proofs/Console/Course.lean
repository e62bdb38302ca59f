import CellReview.Console.Program

/-!
# The course of a chat

The program listens once a dialogue was opened, and then it hears the lines of its input one after
the other, until the user quits or the input ends.

* `openDialogue_eq_ok`, `Stage.start_eq_listening`, `Stage.exists_listening` — the dialogue in
  which the program listens;
* `Dialogue.handle_of_quit`, `Dialogue.handle_of_ne`, `Dialogue.run_concat` — one line;
* `Stage.close_hear` — all lines.
-/

namespace CellReview.Console

open Completion (Transport)

variable {τ : Type}

/-! ## The beginning -/

/-- A dialogue that was opened: its settings, its observer and what was told about it. -/
theorem openDialogue_eq_ok {c : Console τ} {options : Options} {workspace cell : String}
    {d : Dialogue τ} (h : openDialogue c options workspace cell = .ok d) :
    ∃ s o disk, loadSettings c workspace = .ok s ∧ objection? c s cell = none ∧
      Observe.Observer.start c.disk workspace c.session s.telemetry = .ok (o, disk) ∧
      let o := { o with verbose := options.verbose }
      let told := (o.notice (introduction s.llm cell)).foldl warnLine { c with disk := disk }
      ∃ hint, d = (newDialogue told options.json s cell o).onConsole (·.warnLine hint) := by
  simp only [openDialogue, bind, Except.bind] at h
  split at h
  · exact absurd h (by simp)
  · rename_i s hsettings
    split at h
    · exact absurd h (by simp)
    · rename_i hfine
      split at h
      · exact absurd h (by simp)
      · rename_i o disk hstart
        exact ⟨s, o, disk, hsettings, hfine, hstart, _, (Except.ok.inj h).symm⟩

theorem Stage.finished_ne_listening (c : Console τ) (asked options : Options)
    (result : Except Trouble (Console τ)) (d : Dialogue τ) :
    finished c asked result ≠ .listening options d := by
  cases result <;> simp [finished, failed]

theorem Stage.ofTask_eq_listening {c : Console τ} {asked options : Options} {task : Task}
    {d : Dialogue τ} (h : ofTask c asked task = .listening options d) :
    asked = options ∧ ∃ cell, task = .chat cell ∧
      openDialogue c options (options.workspace.getD c.disk.currentPath) cell = .ok d := by
  unfold ofTask at h
  cases task with
  | diff before after patch => exact (finished_ne_listening _ _ _ _ _ h).elim
  | config => exact (finished_ne_listening _ _ _ _ _ h).elim
  | completions shell => exact nomatch h
  | chat cell =>
    dsimp only at h
    split at h
    · rename_i opened hopened
      obtain ⟨rfl, rfl⟩ := listening.inj h
      exact ⟨rfl, cell, rfl, hopened⟩
    · exact nomatch h

/-- The program listens only after a dialogue was opened. -/
theorem Stage.start_eq_listening {c : Console τ} {arguments : List String} {options : Options}
    {d : Dialogue τ} (h : Stage.start c arguments = .listening options d) :
    ∃ cell, Invocation.ofArguments arguments = .run options (.chat cell) ∧
      openDialogue c options (options.workspace.getD c.disk.currentPath) cell = .ok d := by
  unfold start at h
  split at h
  · rename_i asked task hinvocation
    obtain ⟨rfl, cell, rfl, hopened⟩ := ofTask_eq_listening h
    exact ⟨cell, hinvocation, hopened⟩
  · simp at h
  · simp at h

/-- A test of the stage at which a program begins finds a dialogue if it fails at every end. -/
theorem Stage.exists_listening (c : Console τ) (arguments : List String) (p : Dialogue τ → Bool)
    (h : (match start c arguments with
      | .listening _ d => p d
      | .ended _ _ => false) = true) :
    ∃ options d, start c arguments = .listening options d ∧ p d = true := by
  cases hstart : start c arguments with
  | ended console status =>
    rw [hstart] at h
    exact absurd h Bool.false_ne_true
  | listening options d =>
    rw [hstart] at h
    exact ⟨options, d, rfl, h⟩

/-! ## Lines -/

variable [Transport τ]

namespace Dialogue

variable {d : Dialogue τ}

theorem handle_of_quit {line : String} (h : Input.ofLine line = .quit) :
    d.handle line = (d, false) := by
  rw [handle, h]

theorem handle_of_ne {line : String} (h : Input.ofLine line ≠ .quit) :
    d.handle line = (d.perform (Input.ofLine line), true) := by
  rw [handle]
  split
  · contradiction
  · rfl

/-- One line more, while the user did not quit. -/
theorem run_concat {lines : List String} (h : ∀ line ∈ lines, Input.ofLine line ≠ .quit)
    (line : String) : d.run (lines ++ [line]) = (d.run lines).perform (Input.ofLine line) := by
  induction lines generalizing d with
  | nil =>
    rw [List.nil_append, run, run]
    by_cases hquit : Input.ofLine line = .quit
    · rw [handle_of_quit hquit, hquit]
      rfl
    · rw [handle_of_ne hquit]
      rfl
  | cons first lines ih =>
    obtain ⟨hfirst, hlines⟩ := List.forall_mem_cons.1 h
    rw [List.cons_append, run, run, handle_of_ne hfirst]
    exact ih hlines

end Dialogue

namespace Stage

/-- A program that has ended hears nothing more. -/
theorem hear_ended (c : Console τ) (status : Nat) (lines : List (Option String)) :
    lines.foldl hear (.ended c status) = .ended c status := by
  induction lines with
  | nil => rfl
  | cons line lines ih => exact ih

/-- Lines that are texts are heard one after the other until the user quits. -/
theorem close_hear (options : Options) (d : Dialogue τ) (lines : List String) :
    ((lines.map some).foldl hear (.listening options d)).close =
      ((d.run lines).console, 0) := by
  induction lines generalizing d with
  | nil => rfl
  | cons line lines ih =>
    rw [List.map_cons, List.foldl_cons, hear, Dialogue.run]
    rcases hhandle : d.handle line with ⟨later, goes⟩
    cases goes with
    | true => exact ih later
    | false =>
      show (List.foldl hear (.ended later.console 0) (lines.map some)).close = _
      rw [hear_ended]
      rfl

end Stage

end CellReview.Console
