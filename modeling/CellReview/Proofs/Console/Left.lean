import CellReview.Proofs.Console.Restored
import CellReview.Proofs.Storage.Made

/-!
# What a chat leaves in the file

A chat that ends with a decided review leaves a final code in the file of the cell, or what the
file held at first.  Nothing is decided when the user quits or the input ends: a preview that is
open by then stays in the file.

* `EndsAfter`, `EndsAfter.run_eq` — the lines that are heard before the chat ends;
* `Dialogue.path_run` — the cell stays at its path;
* `Dialogue.Finished` — the codes that some lines made final;
* `Dialogue.Leaves`, `Dialogue.leaves_after` — what the file holds after each line;
* `file_left_behind` — **what a chat leaves in the file**;
* `preview_left_behind` — a preview that was never decided.
-/

namespace CellReview.Console

open Completion (Transport)
open Review (Command Proposal State Survives)

variable {τ : Type} [Transport τ]

/-! ## The end -/

/-- Some lines are all that is heard: none of them quits, and then the input ends or a line
quits. -/
structure EndsAfter (input : List (Option String)) (lines : List String) : Prop where
  goes : ∀ line ∈ lines, Input.ofLine line ≠ .quit
  ends : input = lines.map some ∨
    ∃ line rest, Input.ofLine line = .quit ∧ input = lines.map some ++ some line :: rest

theorem Stage.hear_lines {lines : List String} (h : ∀ line ∈ lines, Input.ofLine line ≠ .quit)
    (options : Options) (d : Dialogue τ) :
    (lines.map some).foldl hear (.listening options d) = .listening options (d.run lines) := by
  induction lines generalizing d with
  | nil => rfl
  | cons line lines ih =>
    obtain ⟨hline, hlines⟩ := List.forall_mem_cons.1 h
    rw [List.map_cons, List.foldl_cons, hear, Dialogue.run, Dialogue.handle_of_ne hline]
    exact ih hlines _

/-- A chat ends well after the lines that are heard. -/
theorem EndsAfter.close_hear {input : List (Option String)} {lines : List String}
    (h : EndsAfter input lines) (options : Options) (d : Dialogue τ) :
    (input.foldl Stage.hear (.listening options d)).close = ((d.run lines).console, 0) := by
  rcases h.ends with rfl | ⟨line, rest, hquit, rfl⟩
  · rw [Stage.hear_lines h.goes]
    rfl
  · rw [List.foldl_append, Stage.hear_lines h.goes, List.foldl_cons, Stage.hear,
      Dialogue.handle_of_quit hquit, Stage.hear_ended]
    rfl

/-- The program comes to the dialogue after the lines that are heard, and ends well. -/
theorem EndsAfter.run_eq {c : Console τ} {arguments : List String} {options : Options}
    {d : Dialogue τ} {input : ByteArray} {lines : List String}
    (h : EndsAfter (inputLines input) lines)
    (hstart : Stage.start c arguments = .listening options d) :
    run c arguments input = ((d.run lines).console, 0) := by
  rw [run, hstart, h.close_hear]

namespace Dialogue

variable {d : Dialogue τ}

/-! ## The path -/

theorem survives_path (path : String) : Survives fun h : Desk τ => h.path = path where
  perform h e hpath := by
    refine Eq.trans ?_ hpath
    cases e with
    | write code isFinal =>
      show (h.write code).path = h.path
      rw [Desk.write]
      split <;> rfl
    | render lines => rfl
    | record event => rfl
    | warn text => rfl
  send _ _ hpath := hpath

omit [Transport τ] in
theorem Told.path_eq {later : Dialogue τ} {seat : Review.Seat (Desk τ)}
    (h : (d.moved seat).Told later) : later.seat.host.path = seat.host.path := by
  obtain ⟨change, -, rfl⟩ := h
  rfl

theorem path_perform (d : Dialogue τ) (input : Input) :
    (d.perform input).seat.host.path = d.seat.host.path := by
  have hpath := survives_path (τ := τ) d.seat.host.path
  cases input with
  | nothing => rfl
  | quit => rfl
  | help => rfl
  | invalid message => rfl
  | history => exact told_answerHistory.path_eq
  | command c argument => exact (told_answer _).path_eq.trans (hpath.execute rfl c argument)
  | key keystroke => exact (told_answer _).path_eq.trans (hpath.press rfl d.keys keystroke)
  | edit index text =>
    rw [perform]
    split
    · rename_i seat r hedit
      exact (told_answerResolution r).path_eq.trans (hpath.edit rfl hedit)
    · exact (told_answerRefusal _).path_eq
  | apply index =>
    exact (told_answerApplied index _).path_eq.trans
      (hpath.act rfl fun s _ => s.applyReply index)

/-- The cell stays at its path. -/
theorem path_run (d : Dialogue τ) (lines : List String) :
    (d.run lines).seat.host.path = d.seat.host.path := by
  induction lines generalizing d with
  | nil => rfl
  | cons line lines ih =>
    rw [run]
    by_cases hquit : Input.ofLine line = .quit
    · rw [handle_of_quit hquit]
    · rw [handle_of_ne hquit]
      exact (ih _).trans (d.path_perform _)

/-! ## The file after each line -/

/-- Whether some lines made a code final. -/
def Finished (d : Dialogue τ) (lines : List String) (code : String) : Prop :=
  ∃ i, ∃ hi : i < lines.length, (d.after lines i).Finishes (Input.ofLine lines[i]) code

/-- What the file holds after the first `n` lines: the preview of the proposal that is open then,
and a final code or what it held at first if none is. -/
def Leaves (d : Dialogue τ) (start : ByteArray) (lines : List String) (n : Nat)
    (bytes : ByteArray) : Prop :=
  let now := (d.after lines n).seat.state
  (∀ p, now.proposal = some p →
    bytes = (State.previewText now.settings.preview p.proposed p.diff).toUTF8) ∧
  (now.proposal = none → bytes = start ∨ ∃ code, d.Finished lines code ∧ bytes = code.toUTF8)

/-- What the file holds after each line, by induction on the number of lines. -/
theorem leaves_after {start : ByteArray} {lines : List String}
    (hgoes : ∀ line ∈ lines, Input.ofLine line ≠ .quit) (h : d.seat.host.Holds start)
    (hclosed : d.seat.state.proposal = none) {n : Nat} (hn : n ≤ lines.length) :
    ∃ bytes, (d.after lines n).seat.host.Holds bytes ∧ d.Leaves start lines n bytes := by
  induction n with
  | zero =>
    refine ⟨start, h, fun p hp => ?_, fun _ => .inl rfl⟩
    exact absurd (hclosed.symm.trans hp) (by simp)
  | succ n ih =>
    obtain ⟨bytes, hbytes, hopen, hdone⟩ := ih (Nat.le_of_succ_le hn)
    obtain ⟨later, hlater, hturn⟩ := perform_turn hbytes (Input.ofLine lines[n])
    rw [← after_succ hgoes hn] at hlater hturn
    refine ⟨later, hlater, ?_⟩
    rw [Leaves]
    cases hturn with
    | quiet hkept hsettings =>
      rw [hkept, hsettings]
      exact ⟨hopen, hdone⟩
    | preview hpreview hbase =>
      rw [hpreview]
      exact ⟨fun p hp => Option.some.inj hp ▸ rfl, fun hnone => nomatch hnone⟩
    | final hfinal hcode =>
      rw [hfinal]
      exact ⟨fun p hp => (nomatch hp), fun _ => .inr ⟨_, ⟨n, hn, hcode⟩, rfl⟩⟩

end Dialogue

/-! ## The whole chat -/

omit [Transport τ] in
/-- A dialogue that was opened has a cell that is as it was, and no review of it. -/
theorem file_openDialogue {c : Console τ} {options : Options} {workspace cell : String}
    {d : Dialogue τ} (h : openDialogue c options workspace cell = .ok d) :
    d.seat.host.path = cell ∧ d.seat.state.proposal = none ∧
      Disk.Grown c.disk d.console.disk := by
  obtain ⟨s, o, disk, -, -, hstart, hint, rfl⟩ := openDialogue_eq_ok h
  refine ⟨rfl, rfl, ?_⟩
  have hdisk : c.disk.makeDirs (runtimeDir workspace) = .ok disk := by
    obtain ⟨made, hmade, hstarted⟩ := bind_eq_ok_iff.1 hstart
    obtain rfl : made = disk := congrArg Prod.snd (Except.ok.inj hstarted)
    exact hmade
  show Disk.Grown c.disk (List.foldl Console.warnLine _ _).disk
  rw [disk_warnLines]
  exact Disk.grown_makeDirs hdisk

/-- **What a chat leaves in the file.**  Let the program begin to listen, let the path of the cell
lead to a file and that of the log elsewhere, and let the user quit or the input end after some
lines.  Then the program ends well.  If no proposal is open by then, the file holds what it held at
first, or a code that one of the lines made final: one that was accepted, one from before a
rejected proposal, or one of a reply that was applied.  If a proposal is open, the file holds its
preview. -/
theorem file_left_behind (c : Console τ) (arguments : List String) (options : Options)
    (d : Dialogue τ) (hstart : Stage.start c arguments = .listening options d)
    (start : ByteArray) (hfile : c.disk.readBytes d.seat.host.path = .ok start)
    (hlog : ∀ place, d.console.disk.Leads d.seat.host.path place →
      ¬ d.console.disk.Leads d.seat.host.observer.logPath place)
    (input : ByteArray) (lines : List String) (hends : EndsAfter (inputLines input) lines) :
    let last := (d.run lines).seat.state
    (run c arguments input).2 = 0 ∧
      ∃ left, (run c arguments input).1.disk.readBytes d.seat.host.path = .ok left ∧
        (last.proposal = none →
          left = start ∨ ∃ code, d.Finished lines code ∧ left = code.toUTF8) ∧
        ∀ p, last.proposal = some p →
          left = (State.previewText last.settings.preview p.proposed p.diff).toUTF8 := by
  intro last
  obtain ⟨cell, -, hopened⟩ := Stage.start_eq_listening hstart
  obtain ⟨-, hclosed, hgrown⟩ := file_openDialogue hopened
  have hholds : d.seat.host.Holds start := d.holds_of_file (hgrown.readBytes hfile) hlog
  have hall : d.after lines lines.length = d.run lines := by
    rw [Dialogue.after, List.take_length]
  obtain ⟨left, hleft, hopen, hdone⟩ :=
    Dialogue.leaves_after hends.goes hholds hclosed (Nat.le_refl lines.length)
  rw [hall] at hleft hopen hdone
  rw [hends.run_eq hstart, ← d.path_run lines]
  exact ⟨rfl, left, hleft.readBytes, hdone, hopen⟩

/-- The code of a first reply is applied, and a proposal from a second one is open when the user
quits: the file is left with the lines of its difference, the deleted one included. -/
theorem file_left_behind_unified :
    let c : Console Completion.Script :=
      { disk := ((Disk.empty ["ws"]).putFile ["ws", "cell.py"] "x = 1".toUTF8).putFile
          ["ws", ".cellpilot", "settings.json"]
            "\x7b\"chat\": \x7b\"preview\": \"unified\"\x7d\x7d".toUTF8
        env := [("OPENAI_API_KEY", "k")]
        transport := ⟨[.reply "```\nx = 2\n```", .reply "```\nx = 0.5\n```"], []⟩
        now := default
        session := default
        prints := [] }
    let arguments := ["chat", "--cell", "cell.py"]
    let lines := ["double it", "/apply 2", "halve it"]
    let input := (Text.joinLines (lines ++ ["/quit", "/reject", ""])).toUTF8
    EndsAfter (inputLines input) lines ∧ (run c arguments input).2 = 0 ∧
      (run c arguments input).1.disk.readBytes "cell.py" = .ok "x = 2\nx = 0.5".toUTF8 := by
  intro c arguments lines input
  have hends : EndsAfter (inputLines input) lines := by
    refine ⟨by decide +kernel, .inr ⟨"/quit", [some "/reject"], by decide +kernel, ?_⟩⟩
    decide +kernel
  obtain ⟨options, d, hstart, hfacts⟩ := Stage.exists_listening c arguments (fun d =>
    decide (d.seat.host.path = "cell.py" ∧
      (d.console.disk.walk "cell.py").toOption.map Spot.place ≠
        (d.console.disk.walk d.seat.host.observer.logPath).toOption.map Spot.place ∧
      (d.run lines).seat.state.proposal.map (fun p => State.previewText
        (d.run lines).seat.state.settings.preview p.proposed p.diff) = some "x = 2\nx = 0.5"))
    (by decide +kernel)
  obtain ⟨hpath, hplaces, hshown⟩ := of_decide_eq_true hfacts
  rw [← hpath] at hplaces
  obtain ⟨hwell, left, hleft, -, hopen⟩ := file_left_behind c arguments options d hstart
    "x = 1".toUTF8 (by rw [hpath]; decide +kernel) (Disk.not_leads_of_walk_ne hplaces) input lines
    hends
  obtain ⟨p, hp, htext⟩ := Option.map_eq_some_iff.1 hshown
  rw [hpath, hopen p hp, htext] at hleft
  exact ⟨hends, hwell, hleft⟩

/-- No line made a code final, and yet the file does not hold what it held at first: the preview
of the only proposal is left in it. -/
theorem preview_left_behind :
    let c : Console Completion.Script :=
      { disk := (Disk.empty ["ws"]).putFile ["ws", "cell.py"] "x = 1".toUTF8
        env := [("OPENAI_API_KEY", "k")]
        transport := ⟨[.reply "```\nx = 2\n```"], []⟩
        now := default
        session := default
        prints := [] }
    let arguments := ["chat", "--cell", "cell.py"]
    let lines := ["double it"]
    let input := (Text.joinLines (lines ++ ["/quit", ""])).toUTF8
    c.disk.readBytes "cell.py" = .ok "x = 1".toUTF8 ∧
      ∃ options d, Stage.start c arguments = .listening options d ∧
        d.seat.host.path = "cell.py" ∧ EndsAfter (inputLines input) lines ∧
        (∀ code, ¬ d.Finished lines code) ∧ (run c arguments input).2 = 0 ∧
        (run c arguments input).1.disk.readBytes "cell.py" = .ok "x = 2".toUTF8 := by
  intro c arguments lines input
  have hends : EndsAfter (inputLines input) lines :=
    ⟨by decide +kernel, .inr ⟨"/quit", [], by decide +kernel, by decide +kernel⟩⟩
  have hleft : (run c arguments input).2 = 0 ∧
      (run c arguments input).1.disk.readBytes "cell.py" = .ok "x = 2".toUTF8 := by
    decide +kernel
  have hline : Input.ofLine "double it" = .command .sendMessage (some "double it") := by
    decide +kernel
  obtain ⟨options, d, hstart, hpath⟩ := Stage.exists_listening c arguments
    (fun d => decide (d.seat.host.path = "cell.py")) (by decide +kernel)
  refine ⟨by decide +kernel, options, d, hstart, of_decide_eq_true hpath, hends, ?_, hleft⟩
  rintro code ⟨i, hi, hcode⟩
  obtain rfl : i = 0 := Nat.lt_one_iff.1 hi
  rw [List.getElem_cons_zero, hline] at hcode
  cases hcode with
  | command h argument => cases h

end CellReview.Console
