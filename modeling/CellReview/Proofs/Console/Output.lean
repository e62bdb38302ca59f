import CellReview.Completion.Script
import CellReview.Proofs.Console.Course
import CellReview.Proofs.Json.Written
import CellReview.Proofs.Review.Survives

/-!
# Every command is answered by one line of JSON

What a desk does for a review goes to the error output, and no answer comes too late to be
reported.  So a dialogue in JSON prints exactly one object for every line that asks for something,
in the order of the lines.

* `Console.output_warnLine`, `Console.output_sayJson` — the two outputs are kept apart;
* `survives_output` — a review prints nothing by itself;
* `IsReport` — an object whose numbers are integers;
* `Dialogue.Reports` — a dialogue printed one value and nothing else;
* `Dialogue.perform_reports`, `Dialogue.perform_silent` — a line that is answered and one that is
  not;
* `answered`, `Dialogue.run_reports` — lines until the user quits;
* `json_answers_each_command` — **every command is answered by one line of JSON**.
-/

namespace CellReview

open Console (Print)

/-! ## The two outputs -/

namespace Console

variable {τ : Type} (c : Console τ)

theorem output_say (text : String) : (c.say text).output = c.output ++ text := by
  rw [output, say, printed_print, List.filterMap_append, String.join_append]
  simp [Print.said?, output]

theorem output_warn (text : String) : (c.warn text).output = c.output := by
  rw [output, warn, printed_print, List.filterMap_append, String.join_append]
  simp [List.filterMap_cons, Print.said?, output]

theorem output_warnLine (text : String) : (c.warnLine text).output = c.output :=
  c.output_warn _

theorem output_warnLines (texts : List String) :
    (texts.foldl warnLine c).output = c.output := by
  induction texts generalizing c with
  | nil => rfl
  | cons text texts ih => exact (ih _).trans (c.output_warnLine text)

/-- The line of a value. -/
def jsonLine (v : Json) : String :=
  v.normal.compact ++ "\n"

theorem output_sayJson (v : Json) : (c.sayJson v).output = c.output ++ jsonLine v :=
  c.output_say _

end Console

namespace Console

open Completion (Transport)
open Review (CommandOutcome Resolution Seat Survives Verdict)

variable {τ : Type}

/-! ## The desk -/

theorem Desk.output_write (d : Desk τ) (code : String) :
    (d.write code).console.output = d.console.output := by
  rw [write]
  split
  · rfl
  · exact d.console.output_warnLine _

section Desk

variable [Transport τ] (d : Desk τ)

theorem Desk.output_observe (watch : Observe.Observer → Observe.Observer × Observe.Noted) :
    (d.observe watch).console.output = d.console.output :=
  output_warnLines _ _

/-- A review prints nothing by itself. -/
theorem survives_output (text : String) :
    Survives fun d : Desk τ => d.console.output = text where
  perform d e h := by
    refine Eq.trans ?_ h
    cases e with
    | write code isFinal => exact d.output_write code
    | render lines => rfl
    | record event => exact d.output_observe _
    | warn text => exact d.output_observe _
  send _ _ h := h

end Desk

/-! ## Objects that are printed -/

/-- An object whose numbers are integers. -/
def IsReport (v : Json) : Prop :=
  ∃ members, v = .object members ∧ v.Whole

theorem IsReport.normal {v : Json} (h : IsReport v) : IsReport v.normal := by
  obtain ⟨members, rfl, hwhole⟩ := h
  exact ⟨_, rfl, hwhole.normal⟩

/-- The text of such an object is one line and reads back as an object. -/
theorem IsReport.reads {v : Json} (h : IsReport v) :
    '\n' ∉ v.compact.toList ∧ ∃ entries, Doc.ofText v.compact = (.object entries true, true) := by
  obtain ⟨members, rfl, hwhole⟩ := h
  exact ⟨hwhole.newline_not_mem_compact, _, Doc.ofText_compact hwhole.legible⟩

theorem isReport_name (name : String) : IsReport (eventJson name []) :=
  ⟨_, rfl, .object (List.forall_mem_singleton.2 (.string name))⟩

theorem isReport_event {name : String} {members : List (String × Json)}
    (h : ∀ m ∈ members, m.2.Whole) : IsReport (eventJson name members) :=
  ⟨_, rfl, .object (List.forall_mem_cons.2 ⟨.string name, h⟩)⟩

theorem whole_entry (e : Diff.Entry) : e.toJson.Whole := by
  have hcount : ∀ (name : String) (n : Option Nat), ∀ m ∈ Diff.Entry.countMember name n,
      m.2.Whole := by
    intro name n
    cases n with
    | none => exact fun _ hm => absurd hm List.not_mem_nil
    | some n => exact List.forall_mem_singleton.2 (.ofNat n)
  refine .object ?_
  rw [List.forall_mem_append, List.forall_mem_append, List.forall_mem_cons,
    List.forall_mem_singleton]
  exact ⟨⟨⟨.string _, .string _⟩, hcount _ _⟩, hcount _ _⟩

theorem whole_displayEntry (e : Chat.DisplayEntry) : e.toJson.Whole := by
  refine .object ?_
  simp only [List.forall_mem_cons, List.not_mem_nil, false_imp_iff, implies_true, and_true]
  exact ⟨Json.Whole.ofNat _, .string _, .string _, .string _⟩

theorem isReport_summary (r : Report) : IsReport r.summary := by
  refine IsReport.normal ⟨_, rfl, .object (List.forall_mem_singleton.2 (.object ?_))⟩
  simp only [List.forall_mem_cons, List.not_mem_nil, false_imp_iff, implies_true, and_true]
  exact ⟨.string _, .string _, .string _, Json.Whole.array_map .string _⟩

/-! ## Answers -/

namespace Dialogue

/-- A dialogue printed one object and nothing else. -/
structure Reports (d later : Dialogue τ) (v : Json) : Prop where
  isReport : IsReport v
  output_eq : later.console.output = d.console.output ++ jsonLine v
  json_eq : later.json = true

variable {d : Dialogue τ}

theorem print_reports (hjson : d.json = true) {v : Json} (hv : IsReport v)
    (text : Console τ → Console τ) : d.Reports (d.print v text) v where
  isReport := hv
  output_eq := by
    show (if d.json then d.console.sayJson v else text d.console).output = _
    rw [if_pos hjson]
    exact d.console.output_sayJson v
  json_eq := hjson

theorem answerResolution_reports (hjson : d.json = true) {r : Resolution}
    (hfresh : ∀ request latest, r ≠ .stale request latest) :
    ∃ v, d.Reports (d.answerResolution r) v := by
  have htext : ∀ name key text : String, IsReport (eventJson name [(key, .string text)]) :=
    fun _ _ text => isReport_event (List.forall_mem_singleton.2 (.string text))
  cases r with
  | stale request latest => exact absurd rfl (hfresh request latest)
  | transportFailed message => exact ⟨_, print_reports hjson (htext ..) _⟩
  | noCodeBlock => exact ⟨_, print_reports hjson (htext ..) _⟩
  | explained => exact ⟨_, print_reports hjson (htext ..) _⟩
  | proposed superseded inserted deleted =>
    refine ⟨_, print_reports hjson (isReport_event ?_) _⟩
    simp only [List.forall_mem_cons, List.not_mem_nil, false_imp_iff, implies_true, and_true]
    exact ⟨.bool _, Json.Whole.ofNat _, Json.Whole.ofNat _, .string _,
      Json.Whole.array_map whole_entry _⟩

theorem answerVerdict_reports (hjson : d.json = true) (verdict : Verdict) :
    ∃ v, d.Reports (d.answerVerdict verdict) v := by
  cases verdict with
  | accepted drifted =>
    have hdrifted : IsReport (eventJson "accepted" [("drifted", .bool drifted)]) :=
      isReport_event (List.forall_mem_singleton.2 (.bool drifted))
    exact ⟨_, print_reports hjson hdrifted _⟩
  | rejected => exact ⟨_, print_reports hjson (isReport_name "rejected") _⟩
  | noPendingDiff => exact ⟨_, print_reports hjson (isReport_name "ignored") _⟩

theorem answer_reports (hjson : d.json = true) {outcome : CommandOutcome}
    (hfresh : ∀ request latest, outcome ≠ .resolved (.stale request latest)) :
    ∃ v, d.Reports (d.answer outcome) v := by
  cases outcome with
  | ignored => exact ⟨_, print_reports hjson (isReport_name "ignored") _⟩
  | cleared => exact ⟨_, print_reports hjson (isReport_name "cleared") _⟩
  | reviewed verdict => exact answerVerdict_reports hjson verdict
  | resolved r =>
    exact answerResolution_reports hjson fun request latest h =>
      hfresh request latest (congrArg CommandOutcome.resolved h)

theorem answerApplied_reports (hjson : d.json = true) (index : Nat) (written : Bool) :
    ∃ v, d.Reports (d.answerApplied index written) v := by
  refine ⟨_, print_reports hjson (isReport_event ?_) _⟩
  exact List.forall_mem_cons.2
    ⟨Json.Whole.ofNat index, List.forall_mem_singleton.2 (.bool written)⟩

theorem answerHistory_reports (hjson : d.json = true) : ∃ v, d.Reports d.answerHistory v := by
  refine ⟨_, print_reports hjson (isReport_event ?_) _⟩
  exact List.forall_mem_singleton.2 (Json.Whole.array_map whole_displayEntry _)

theorem answerRefusal_reports (hjson : d.json = true) (e : Chat.OutOfRange) :
    ∃ v, d.Reports (d.answerRefusal e) v :=
  ⟨_, print_reports hjson (isReport_summary _) _⟩

/-- What is printed about the seat that a dialogue moved to is all that is printed, if nothing was
printed on the way. -/
theorem Reports.of_moved {seat : Seat (Desk τ)} {later : Dialogue τ} {v : Json}
    (hseat : seat.host.console.output = d.console.output)
    (h : (d.moved seat).Reports later v) : d.Reports later v where
  isReport := h.isReport
  output_eq := h.output_eq.trans (congrArg (· ++ jsonLine v) hseat)
  json_eq := h.json_eq

end Dialogue

/-! ## Lines -/

/-- Whether a line asks for something that is answered. -/
def Input.isAnswered : Input → Bool
  | .nothing | .help | .quit | .invalid _ => false
  | .command .. | .edit .. | .apply _ | .key _ | .history => true

/-- The lines that are answered: those that ask for something before the user quits. -/
def answered (lines : List String) : List String :=
  (lines.takeWhile fun line => Input.ofLine line != .quit).filter fun line =>
    (Input.ofLine line).isAnswered

namespace Dialogue

variable [Transport τ] {d : Dialogue τ}

/-- A line that asks for something is answered by one object. -/
theorem perform_reports (hjson : d.json = true) {input : Input} (h : input.isAnswered = true) :
    ∃ v, d.Reports (d.perform input) v := by
  have hquiet := survives_output (τ := τ) d.console.output
  cases input with
  | nothing => exact absurd h Bool.false_ne_true
  | help => exact absurd h Bool.false_ne_true
  | quit => exact absurd h Bool.false_ne_true
  | invalid message => exact absurd h Bool.false_ne_true
  | history => exact answerHistory_reports hjson
  | command command argument =>
    obtain ⟨v, hv⟩ := answer_reports (d := d.moved (d.seat.execute command argument).1) hjson
      fun request latest => d.seat.execute_ne_stale request latest command argument
    exact ⟨v, .of_moved (hquiet.execute rfl command argument) hv⟩
  | key keystroke =>
    obtain ⟨v, hv⟩ := answer_reports (d := d.moved (d.seat.press d.keys keystroke).1) hjson
      fun request latest => d.seat.press_ne_stale request latest d.keys keystroke
    exact ⟨v, .of_moved (hquiet.press rfl d.keys keystroke) hv⟩
  | edit index text =>
    rw [perform]
    split
    · rename_i seat r hedit
      obtain ⟨v, hv⟩ := answerResolution_reports (d := d.moved seat) hjson
        fun request latest => d.seat.edit_ne_stale request latest hedit
      exact ⟨v, .of_moved (hquiet.edit rfl hedit) hv⟩
    · exact answerRefusal_reports hjson _
  | apply index =>
    obtain ⟨v, hv⟩ := answerApplied_reports (d := d.moved (d.seat.act _).1) hjson index _
    exact ⟨v, .of_moved (hquiet.act rfl fun s _ => s.applyReply index) hv⟩

/-- Any other line prints nothing to the output. -/
theorem perform_silent {input : Input} (h : input.isAnswered = false) :
    (d.perform input).console.output = d.console.output ∧ (d.perform input).json = d.json := by
  cases input with
  | nothing => exact ⟨rfl, rfl⟩
  | quit => exact ⟨rfl, rfl⟩
  | help => exact ⟨d.console.output_warnLine _, rfl⟩
  | invalid message => exact ⟨d.console.output_warnLine _, rfl⟩
  | _ => exact absurd h.symm Bool.false_ne_true

/-- The answers to some lines, by induction on the lines: after any number of them, the answers to
these stand on the output. -/
theorem run_reports (hjson : d.json = true) (lines : List String) :
    ∃ events : List Json, events.length = (answered lines).length ∧
      (∀ v ∈ events, IsReport v) ∧
      ∀ n, (d.run (lines.take n)).console.output =
        d.console.output ++
          String.join ((events.take (answered (lines.take n)).length).map jsonLine) := by
  have hstart : ∀ (d : Dialogue τ) (events : List Json), (d.run []).console.output =
      d.console.output ++ String.join ((events.take (answered []).length).map jsonLine) :=
    fun _ _ => String.append_empty.symm
  induction lines generalizing d with
  | nil =>
    refine ⟨[], rfl, fun _ hv => absurd hv List.not_mem_nil, fun n => ?_⟩
    rw [List.take_nil]
    exact hstart d []
  | cons line lines ih =>
    by_cases hquit : Input.ofLine line = .quit
    · refine ⟨[], by simp [answered, hquit], fun _ hv => absurd hv List.not_mem_nil, fun n => ?_⟩
      rw [List.take_nil, List.map_nil, String.join_nil, String.append_empty]
      cases n with
      | zero => rfl
      | succ n => rw [List.take_succ_cons, run, handle_of_quit hquit]
    · have hrun : ∀ n, d.run ((line :: lines).take (n + 1)) =
          (d.perform (Input.ofLine line)).run (lines.take n) := fun n => by
        rw [List.take_succ_cons, run, handle_of_ne hquit]
      cases hasks : (Input.ofLine line).isAnswered with
      | false =>
        obtain ⟨hsilent, hkept⟩ := d.perform_silent hasks
        obtain ⟨events, hlength, hreports, houtput⟩ :=
          ih (d := d.perform (Input.ofLine line)) (hkept.trans hjson)
        have hanswered : ∀ rest, answered (line :: rest) = answered rest := by
          simp [answered, hquit, hasks]
        refine ⟨events, by rw [hanswered, hlength], hreports, fun n => ?_⟩
        cases n with
        | zero => exact hstart d _
        | succ n => rw [hrun, houtput n, hsilent, List.take_succ_cons, hanswered]
      | true =>
        obtain ⟨v, hv⟩ := perform_reports hjson hasks
        obtain ⟨events, hlength, hreports, houtput⟩ := ih hv.json_eq
        have hanswered : ∀ rest, answered (line :: rest) = line :: answered rest := by
          simp [answered, hquit, hasks]
        refine ⟨v :: events, by rw [hanswered, List.length_cons, List.length_cons, hlength],
          List.forall_mem_cons.2 ⟨hv.isReport, hreports⟩, fun n => ?_⟩
        cases n with
        | zero => exact hstart d _
        | succ n =>
          rw [hrun, houtput n, hv.output_eq, List.take_succ_cons, hanswered, List.length_cons,
            List.take_succ_cons, List.map_cons, String.join_cons, String.append_assoc]

end Dialogue

/-! ## The program -/

/-- A dialogue is opened without a word on the output. -/
theorem output_openDialogue {c : Console τ} {options : Options} {workspace cell : String}
    {d : Dialogue τ} (h : openDialogue c options workspace cell = .ok d) :
    d.console.output = c.output ∧ d.json = options.json := by
  obtain ⟨s, o, disk, -, -, -, hint, rfl⟩ := openDialogue_eq_ok h
  exact ⟨(output_warnLine _ hint).trans (output_warnLines _ _), rfl⟩

variable [Transport τ]

/-- **Every command is answered by one line of JSON.**  Let the program begin to listen in JSON,
and let every line of its input be a text.  Then it ends well, and there is one value for each line
that asks for something before the user quits: the output holds the lines of these values and
nothing more, each of them is a single line that reads as a JSON object, and after any number of
input lines the values for these lines, and no others, have been printed. -/
theorem json_answers_each_command (c : Console τ) (arguments : List String) (options : Options)
    (d : Dialogue τ) (hstart : Stage.start c arguments = .listening options d)
    (hjson : options.json = true) (input : ByteArray) (lines : List String)
    (htexts : inputLines input = lines.map some) :
    ∃ events : List Json, events.length = (answered lines).length ∧
      (∀ v ∈ events, '\n' ∉ v.normal.compact.toList ∧
        ∃ entries, Doc.ofText v.normal.compact = (.object entries true, true)) ∧
      (run c arguments input).2 = 0 ∧
      (run c arguments input).1.output = c.output ++ String.join (events.map jsonLine) ∧
      ∀ n, (((inputLines input).take n).foldl Stage.hear (Stage.start c arguments)).close.1.output =
        c.output ++ String.join ((events.take (answered (lines.take n)).length).map jsonLine) := by
  obtain ⟨cell, -, hopened⟩ := Stage.start_eq_listening hstart
  obtain ⟨houtput, hmode⟩ := output_openDialogue hopened
  obtain ⟨events, hlength, hreports, hruns⟩ := Dialogue.run_reports (hmode.trans hjson) lines
  have hall := hruns lines.length
  rw [List.take_length, ← hlength, List.take_length, houtput] at hall
  have hrun : run c arguments input = ((d.run lines).console, 0) := by
    rw [run, htexts, hstart, Stage.close_hear]
  refine ⟨events, hlength, fun v hv => (hreports v hv).normal.reads, congrArg Prod.snd hrun, ?_,
    fun n => ?_⟩
  · rw [hrun]
    exact hall
  · rw [htexts, hstart, ← List.map_take, Stage.close_hear, ← houtput]
    exact hruns n

/-- A task, an edit that is refused and an acceptance are answered; a question about the commands
and what follows the end are not. -/
theorem json_answers_each_command_accepted :
    let c : Console Completion.Script :=
      { disk := (Disk.empty ["ws"]).putFile ["ws", "cell.py"] "x = 1".toUTF8
        env := [("OPENAI_API_KEY", "k")]
        transport := ⟨[.reply "```\nx = 2\n```"], []⟩
        now := default
        session := default
        prints := [] }
    let arguments := ["--json", "chat", "--cell", "cell.py"]
    let lines := ["double it", "/help", "/edit 9 no", "/accept", "/quit", "/history"]
    let input := (Text.joinLines (lines ++ [""])).toUTF8
    answered lines = ["double it", "/edit 9 no", "/accept"] ∧
    ∃ first second third : Json, ∃ entries,
      (run c arguments input).1.output = jsonLine first ++ jsonLine second ++ jsonLine third ∧
      Doc.ofText first.normal.compact = (.object entries true, true) := by
  intro c arguments lines input
  have hlistening : (match Stage.start c arguments with
      | .listening options _ => options.json
      | .ended _ _ => false) = true := by decide +kernel
  have hanswered : answered lines = ["double it", "/edit 9 no", "/accept"] := by decide +kernel
  cases hstart : Stage.start c arguments with
  | ended console status =>
    rw [hstart] at hlistening
    exact absurd hlistening Bool.false_ne_true
  | listening options d =>
    rw [hstart] at hlistening
    obtain ⟨events, hlength, hreads, -, houtput, -⟩ :=
      json_answers_each_command c arguments options d hstart hlistening input lines
        (by decide +kernel)
    rw [hanswered] at hlength
    obtain ⟨first, second, third, rfl⟩ := List.length_eq_three.1 hlength
    obtain ⟨-, entries, hfirst⟩ := hreads first List.mem_cons_self
    refine ⟨hanswered, first, second, third, entries, ?_, hfirst⟩
    have hempty : c.output = "" := rfl
    rw [houtput, hempty, String.empty_append]
    simp [String.append_assoc]

end Console

end CellReview
