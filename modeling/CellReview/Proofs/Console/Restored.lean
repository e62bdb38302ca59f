import CellReview.Completion.Script
import CellReview.Proofs.Console.CellFile
import CellReview.Proofs.Console.Course

/-!
# What a rejection makes of the file

The code from before a review is kept as a text.  So a rejection brings the file of the cell back
if it was a text before the first proposal; a file that was no text is left empty.

* `restored`, `restored_eq_iff` — the file that a rejection leaves behind;
* `Rejects` — the lines that reject;
* `Dialogue.holds_after`, `Dialogue.base_of_chain` — the file during a run, and the proposals of a
  chain, all of which go back to the text before the first one;
* `reject_restores_text` — **what a rejection makes of the file**;
* `reject_empties_bytes` — a file that is lost.
-/

namespace CellReview.Console

open Completion (Transport)
open Review (Command Keymap Proposal)

variable {τ : Type}

/-! ## The file that a rejection leaves behind -/

/-- The file that a rejection leaves behind: the text of the file from before, or nothing. -/
def restored (bytes : ByteArray) : ByteArray :=
  (textOf bytes).toUTF8

/-- A text has the bytes that it was read from. -/
theorem toUTF8_of_fromUTF8? {bytes : ByteArray} {text : String}
    (h : String.fromUTF8? bytes = some text) : text.toUTF8 = bytes := by
  unfold String.fromUTF8? at h
  split at h
  · obtain rfl := Option.some.inj h
    rfl
  · exact absurd h (by simp)

/-- A file comes back exactly if it is a text. -/
theorem restored_eq_iff (bytes : ByteArray) :
    restored bytes = bytes ↔ (String.fromUTF8? bytes).isSome = true := by
  rw [restored, textOf]
  cases h : String.fromUTF8? bytes with
  | some text => exact iff_of_true (toUTF8_of_fromUTF8? h) rfl
  | none =>
    -- no bytes at all are a text
    refine iff_of_false (fun hempty => ?_) Bool.false_ne_true
    have hvalid : String.fromUTF8? "".toUTF8 = some "" := by decide
    rw [Option.getD_none] at hempty
    rw [hempty, h] at hvalid
    exact absurd hvalid (by simp)

/-! ## Chains -/

/-- Whether an input rejects, by name or by its keystroke. -/
def Rejects (keys : Keymap) (input : Input) : Prop :=
  (∃ argument, input = .command .rejectLatest argument) ∨
    ∃ keystroke, input = .key keystroke ∧ keys.lookup keystroke = some .rejectLatest

namespace Dialogue

variable [Transport τ] {d : Dialogue τ} {bytes : ByteArray}

/-- A line that rejects an open proposal. -/
theorem perform_rejects (h : d.seat.host.Holds bytes) {p : Proposal}
    (hopen : d.seat.state.proposal = some p) {input : Input} (hinput : Rejects d.keys input) :
    (d.perform input).seat.host.Holds p.base.toUTF8 ∧
      (d.perform input).seat.state.proposal = none := by
  rcases hinput with ⟨argument, rfl⟩ | ⟨keystroke, rfl, hbound⟩
  · obtain ⟨hfile, hclosed⟩ := h.reject hopen argument
    obtain ⟨hstate, hholds⟩ := (told_answer (d := d.moved (d.seat.execute .rejectLatest argument).1)
      (d.seat.execute .rejectLatest argument).2).seat
    exact ⟨hholds hfile, hstate ▸ hclosed⟩
  · obtain ⟨hfile, hclosed⟩ := h.reject hopen none
    have hpress : d.seat.press d.keys keystroke = d.seat.execute .rejectLatest none := by
      rw [Review.Seat.press, hbound]
    obtain ⟨hstate, hholds⟩ := (told_answer (d := d.moved (d.seat.press d.keys keystroke).1)
      (d.seat.press d.keys keystroke).2).seat
    rw [← hpress] at hfile hclosed
    exact ⟨hholds hfile, hstate ▸ hclosed⟩

/-- The dialogue after the first of some lines. -/
def after (d : Dialogue τ) (lines : List String) (n : Nat) : Dialogue τ :=
  d.run (lines.take n)

/-- The file of the cell. -/
def file (d : Dialogue τ) : Except DiskFault ByteArray :=
  d.console.disk.readBytes d.seat.host.path

omit [Transport τ] in
/-- A file that is read stays apart from a log whose path leads elsewhere. -/
theorem holds_of_file (d : Dialogue τ) (hfile : d.file = .ok bytes)
    (hlog : ∀ place, d.console.disk.Leads d.seat.host.path place →
      ¬ d.console.disk.Leads d.seat.host.observer.logPath place) : d.seat.host.Holds bytes := by
  obtain ⟨place, hleads, hat⟩ := Disk.readBytes_eq_ok hfile
  exact ⟨place, hleads, hat, hlog place hleads⟩

variable {lines : List String} (hgoes : ∀ line ∈ lines, Input.ofLine line ≠ .quit)
include hgoes

/-- The dialogue after one line more. -/
theorem after_succ {n : Nat} (hn : n < lines.length) :
    d.after lines (n + 1) = (d.after lines n).perform (Input.ofLine lines[n]) := by
  rw [after, List.take_succ_eq_append_getElem hn]
  exact run_concat (fun line hline => hgoes line (List.mem_of_mem_take hline)) _

/-- The file and the log stay apart during a run. -/
theorem holds_after (h : d.seat.host.Holds bytes) (n : Nat) :
    ∃ now, (d.after lines n).seat.host.Holds now := by
  induction n with
  | zero => exact ⟨bytes, h⟩
  | succ n ih =>
    by_cases hn : n < lines.length
    · obtain ⟨now, hnow⟩ := ih
      rw [after_succ hgoes hn]
      obtain ⟨later, hlater, -⟩ := perform_turn hnow (Input.ofLine lines[n])
      exact ⟨later, hlater⟩
    · rw [after, List.take_of_length_le (by omega)]
      rwa [after, List.take_of_length_le (by omega)] at ih

/-- While a chain goes on, by induction on its lines, every proposal goes back to the text that the
file held when no proposal was open. -/
theorem base_of_chain (h : d.seat.host.Holds bytes) {i k : Nat} {before : ByteArray}
    (hbefore : (d.after lines i).seat.host.Holds before)
    (hclosed : (d.after lines i).seat.state.proposal = none) (hk : k ≤ lines.length)
    (hopen : ∀ j, i < j → j ≤ k → (d.after lines j).seat.state.proposal ≠ none) :
    ∀ j, i < j → j ≤ k → ∀ p, (d.after lines j).seat.state.proposal = some p →
      p.base = textOf before := by
  intro j hij hjk p hp
  induction j generalizing p with
  | zero => exact absurd hij (Nat.not_lt_zero i)
  | succ j ih =>
    rw [after_succ hgoes (by omega)] at hp
    obtain rfl | hlater : i = j ∨ i < j := by omega
    · -- the chain begins with this line
      obtain ⟨later, -, hturn⟩ := perform_turn hbefore (Input.ofLine lines[i])
      cases hturn with
      | quiet hkept => exact absurd (hp.symm.trans (hkept.trans hclosed)) (by simp)
      | preview hpreview hbase =>
        obtain rfl := Option.some.inj (hpreview.symm.trans hp)
        rw [hbase, hclosed]
        rfl
      | final hfinal => exact absurd (hp.symm.trans hfinal) (by simp)
    · obtain ⟨now, hnow⟩ := holds_after hgoes h j
      obtain ⟨q, hq⟩ := Option.ne_none_iff_exists'.1 (hopen j hlater (by omega))
      have hbefore := ih hlater (by omega) q hq
      obtain ⟨later, -, hturn⟩ := perform_turn hnow (Input.ofLine lines[j])
      cases hturn with
      | quiet hkept =>
        obtain rfl := Option.some.inj (hq.symm.trans (hkept.symm.trans hp))
        exact hbefore
      | preview hpreview hbase =>
        obtain rfl := Option.some.inj (hpreview.symm.trans hp)
        rw [hbase, hq]
        exact hbefore
      | final hfinal => exact absurd (hp.symm.trans hfinal) (by simp)

end Dialogue

/-- **What a rejection makes of the file.**  Let the path of the cell lead to a file, and that of
the log elsewhere, and let some lines be carried out of which none quits.  If no proposal is open
after the first `i` of them, one is after each of the following up to the line `k`, and that line
rejects, then the file holds afterwards the text that it held after the first `i` lines, and
nothing if that was no text.  So it comes back byte for byte exactly if it was a text. -/
theorem reject_restores_text [Transport τ] (d : Dialogue τ) (start : ByteArray)
    (hfile : d.file = .ok start)
    (hlog : ∀ place, d.console.disk.Leads d.seat.host.path place →
      ¬ d.console.disk.Leads d.seat.host.observer.logPath place)
    (lines : List String) (hgoes : ∀ line ∈ lines, Input.ofLine line ≠ .quit) (i k : Nat)
    (hik : i < k) (hk : k < lines.length)
    (hclosed : (d.after lines i).seat.state.proposal = none)
    (hopen : ∀ j, i < j → j ≤ k → (d.after lines j).seat.state.proposal ≠ none)
    (hrejects : Rejects (d.after lines k).keys (Input.ofLine lines[k])) :
    ∃ before, (d.after lines i).file = .ok before ∧
      (d.after lines (k + 1)).file = .ok (restored before) ∧
      (d.after lines (k + 1)).seat.state.proposal = none ∧
      ((d.after lines (k + 1)).file = (d.after lines i).file ↔
        (String.fromUTF8? before).isSome = true) := by
  have hstart : d.seat.host.Holds start := d.holds_of_file hfile hlog
  obtain ⟨before, hbefore⟩ := Dialogue.holds_after hgoes hstart i
  obtain ⟨last, hlast⟩ := Dialogue.holds_after hgoes hstart k
  obtain ⟨p, hp⟩ := Option.ne_none_iff_exists'.1 (hopen k hik (Nat.le_refl k))
  have hbase : p.base = textOf before :=
    Dialogue.base_of_chain hgoes hstart hbefore hclosed (Nat.le_of_lt hk) hopen k hik
      (Nat.le_refl k) p hp
  obtain ⟨hafter, hdone⟩ := Dialogue.perform_rejects hlast hp hrejects
  rw [hbase, ← Dialogue.after_succ hgoes hk] at hafter
  rw [← Dialogue.after_succ hgoes hk] at hdone
  have hthen : (d.after lines i).file = .ok before := hbefore.readBytes
  have hlater : (d.after lines (k + 1)).file = .ok (restored before) := hafter.readBytes
  refine ⟨before, hthen, hlater, hdone, ?_⟩
  rw [hlater, hthen, Except.ok.injEq]
  exact restored_eq_iff before

/-- Two proposals are made before the rejection: the file, which ended its only line with a
carriage return, comes back. -/
theorem reject_restores_text_twice :
    let c : Console Completion.Script :=
      { disk := (Disk.empty ["ws"]).putFile ["ws", "cell.py"] "x = 1\r\n".toUTF8
        env := [("OPENAI_API_KEY", "k")]
        transport := ⟨[.reply "```\nx = 2\n```", .reply "```\nx = 0.5\n```"], []⟩
        now := default
        session := default
        prints := [] }
    let d := newDialogue c false .standard "cell.py" ⟨"observe.log", default, 1, none, false⟩
    let lines := ["double it", "halve it", "/reject"]
    d.file = .ok "x = 1\r\n".toUTF8 ∧ (d.after lines 2).file = .ok "x = 0.5".toUTF8 ∧
      (d.after lines 3).file = (d.after lines 0).file := by
  intro c d lines
  have hcell : d.console.disk.Leads "cell.py" ["ws", "cell.py"] := ⟨_, rfl, rfl⟩
  have hlog : d.console.disk.Leads "observe.log" ["ws", "observe.log"] := ⟨_, rfl, rfl⟩
  have hfile : d.file = .ok "x = 1\r\n".toUTF8 := hcell.readBytes rfl
  have happart : ∀ place, d.console.disk.Leads "cell.py" place →
      ¬ d.console.disk.Leads "observe.log" place := by
    intro place hplace hother
    rw [hplace.unique hcell] at hother
    exact absurd (hother.unique hlog) (by decide)
  obtain ⟨hfirst, hsecond, hproposed⟩ : (d.after lines 1).seat.state.proposal ≠ none ∧
      (d.after lines 2).seat.state.proposal ≠ none ∧
      (d.after lines 2).file = .ok "x = 0.5".toUTF8 := by
    decide +kernel
  have hopen : ∀ j, 0 < j → j ≤ 2 → (d.after lines j).seat.state.proposal ≠ none := by
    intro j hlow hhigh
    obtain rfl | rfl : j = 1 ∨ j = 2 := by omega
    · exact hfirst
    · exact hsecond
  have hgoes : ∀ line ∈ lines, Input.ofLine line ≠ .quit := by decide +kernel
  have hrejects : Rejects (d.after lines 2).keys (Input.ofLine lines[2]) := by
    refine .inl ⟨none, ?_⟩
    decide +kernel
  obtain ⟨before, hbefore, -, -, hsame⟩ := reject_restores_text d _ hfile happart lines hgoes 0 2
    (by decide) (by decide) rfl hopen hrejects
  have hsome : (String.fromUTF8? before).isSome = true := by
    rw [← Except.ok.inj (hfile.symm.trans hbefore)]
    decide +kernel
  exact ⟨hfile, hproposed, hsame.2 hsome⟩

/-- A file that was no text before the first proposal is empty after the rejection. -/
theorem reject_empties_bytes :
    let bytes : ByteArray := ⟨#[0xff]⟩
    let c : Console Completion.Script :=
      { disk := (Disk.empty ["ws"]).putFile ["ws", "cell.py"] bytes
        env := [("OPENAI_API_KEY", "k")]
        transport := ⟨[.reply "```\nx = 2\n```"], []⟩
        now := default
        session := default
        prints := [] }
    let d := newDialogue c false .standard "cell.py" ⟨"observe.log", default, 1, none, false⟩
    let lines := ["double it", "/reject"]
    d.seat.state.proposal = none ∧ (d.after lines 1).seat.state.proposal ≠ none ∧
      Rejects (d.after lines 1).keys (Input.ofLine lines[1]) ∧
      (d.after lines 2).seat.state.proposal = none ∧ d.file = .ok bytes ∧
      (d.after lines 2).file = .ok .empty ∧ (d.after lines 2).file ≠ d.file := by
  intro bytes c d lines
  have hrejects : Rejects (d.after lines 1).keys (Input.ofLine lines[1]) := by
    refine .inl ⟨none, ?_⟩
    decide +kernel
  have hstart : d.file = .ok bytes := by decide +kernel
  obtain ⟨hopen, hended, hempty⟩ : (d.after lines 1).seat.state.proposal ≠ none ∧
      (d.after lines 2).seat.state.proposal = none ∧ (d.after lines 2).file = .ok .empty := by
    decide +kernel
  have hlost : (d.after lines 2).file ≠ d.file := by
    rw [hempty, hstart]
    decide +kernel
  exact ⟨rfl, hopen, hrejects, hended, hstart, hempty, hlost⟩

end CellReview.Console
