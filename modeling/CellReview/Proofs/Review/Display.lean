import CellReview.Proofs.Review.Landing

/-!
# The cell, the frames and the open proposal move together

An operation writes into the cell and shows a frame at most once each, and its result tells
what: a proposal puts its preview into the cell and its difference on display, the end of a
review a final code and a clear frame, and everything else leaves both alone.  So what is on
display is at any time the difference of the open proposal.

* `Leaves` — the table of results with what they write and show;
* `Move.leaves` — every move keeps to the table;
* `Displayed` — the invariant: the last frame is the difference of the open proposal;
* `cell_and_frames_follow_result` — **both, for every operation after every run**.
-/

namespace CellReview.Review

open Diff (Entry)
open Completion (Reply)

/-! ## The table -/

/-- Whether a result goes with no write and no frame. -/
def Result.isSilent : Result → Bool
  | .resolved (.proposed _ _ _) => false
  | .decided (.accepted _) | .decided .rejected => false
  | .applied true => false
  | _ => true

theorem Result.isSilent_of_isIdle {result : Result} (h : result.isIdle = true) :
    result.isSilent = true := by
  cases result with
  | issued r => exact absurd h Bool.false_ne_true
  | resolved resolution => exact absurd h Bool.false_ne_true
  | decided verdict =>
    cases verdict with
    | accepted drifted => exact absurd h Bool.false_ne_true
    | rejected => exact absurd h Bool.false_ne_true
    | noPendingDiff => rfl
  | applied written =>
    cases written with
    | false => rfl
    | true => exact absurd h Bool.false_ne_true
  | refused fault => rfl
  | done => rfl
  | unknown => rfl

/-- What an operation writes into the cell and what it shows, by its result, and what becomes
of the open proposal.  A frame without a difference clears the display. -/
inductive Leaves (mode : PreviewMode) (before after : State) :
    Operation → Result → Option CellWrite → Option (Option (List Entry)) → Prop where
  /-- The preview of a proposal is not final; its difference is shown. -/
  | proposed {id : Nat} {reply : Reply} {p : Proposal} {superseded : Bool}
      {inserted deleted : Nat} (hcode : Chat.codeBlock reply.text = some p.proposed)
      (hopen : after.proposal = some p) :
      Leaves mode before after (.resolve id (.ok reply))
        (.resolved (.proposed superseded inserted deleted))
        (some ⟨State.previewText mode p.proposed p.diff, false⟩) (some (some p.diff.lines))
  | accepted {p : Proposal} {drifted : Bool} (hopen : before.proposal = some p)
      (hclosed : after.proposal = none) :
      Leaves mode before after .accept (.decided (.accepted drifted)) (some ⟨p.proposed, true⟩)
        (some none)
  | rejected {p : Proposal} (hopen : before.proposal = some p)
      (hclosed : after.proposal = none) :
      Leaves mode before after .reject (.decided .rejected) (some ⟨p.base, true⟩) (some none)
  /-- The code block of an earlier reply is final. -/
  | applied {index : Nat} {m : Chat.Message} {code : String}
      (hget : before.log.get? index = some m) (hrole : m.role = .assistant)
      (hcode : Chat.codeBlock m.content = some code) (hclosed : after.proposal = none) :
      Leaves mode before after (.applyReply index) (.applied true) (some ⟨code, true⟩) (some none)
  | silent {op : Operation} {result : Result} (hsilent : result.isSilent = true)
      (hkept : after.proposal = before.proposal) :
      Leaves mode before after op result none none

/-! ## Every move keeps to the table -/

theorem State.replyCode?_eq_some {s : State} {index : Nat} {code : String}
    (h : s.replyCode? index = some code) :
    ∃ m, s.log.get? index = some m ∧ m.role = .assistant ∧
      Chat.codeBlock m.content = some code := by
  obtain ⟨m, hget, hm⟩ := Option.bind_eq_some_iff.1 h
  by_cases hrole : m.role = .assistant
  · rw [if_pos hrole] at hm
    exact ⟨m, hget, hrole, hm⟩
  · rw [if_neg hrole] at hm
    exact absurd hm (by simp)

/-- A warning is neither written nor shown. -/
theorem State.filterMap_driftWarning (drifted : Bool) :
    (State.driftWarning drifted).filterMap Effect.write? = [] ∧
      (State.driftWarning drifted).filterMap Effect.frame? = [] := by
  cases drifted <;> exact ⟨rfl, rfl⟩

theorem Move.leaves {s : Session} {op : Operation} {t : Transition Result} (h : Move s op t) :
    ∃ write frame,
      Leaves s.seat.state.settings.preview s.seat.state t.state op t.answer write frame ∧
        t.effects.filterMap Effect.write? = write.toList ∧
        t.effects.filterMap Effect.frame? = frame.toList := by
  cases h with
  | ask content shown type intent hop hkept => exact ⟨none, none, .silent rfl rfl, rfl, rfl⟩
  | edit input hget hrole => exact ⟨none, none, .silent rfl rfl, rfl, rfl⟩
  | clear => exact ⟨none, none, .silent rfl rfl, rfl, rfl⟩
  | discard answer hr hlate => exact ⟨none, none, .silent rfl rfl, rfl, rfl⟩
  | fail e hr hwait => exact ⟨none, none, .silent rfl rfl, rfl, rfl⟩
  | explained reply hr hwait hintent => exact ⟨none, none, .silent rfl rfl, rfl, rfl⟩
  | noCode reply hr hwait hintent hcode => exact ⟨none, none, .silent rfl rfl, rfl, rfl⟩
  | propose reply hr hwait hintent hcode => exact ⟨_, _, .proposed hcode rfl, rfl, rfl⟩
  | @accept p hopen =>
    obtain ⟨hwrites, hframes⟩ := State.filterMap_driftWarning (State.drifted s.seat.cell p)
    refine ⟨_, _, .accepted hopen rfl, ?_, ?_⟩
    · rw [List.filterMap_append, hwrites]
      rfl
    · rw [List.filterMap_append, hframes]
      rfl
  | reject hopen => exact ⟨_, _, .rejected hopen rfl, rfl, rfl⟩
  | apply hcode =>
    obtain ⟨m, hget, hrole, hcode⟩ := State.replyCode?_eq_some hcode
    exact ⟨_, _, .applied hget hrole hcode rfl, rfl, rfl⟩
  | rest result vars hop hresolve hidle =>
    exact ⟨none, none, .silent (Result.isSilent_of_isIdle hidle) rfl, rfl, rfl⟩

/-! ## The cell and the frames after an operation -/

/-- What the user does to the cell is no write, and it shows nothing. -/
theorem Operation.touch_writes (op : Operation) (b : Bench) :
    (op.touch b).cell.writes = b.cell.writes ∧ (op.touch b).frames = b.frames := by
  cases op <;> exact ⟨rfl, rfl⟩

theorem Operation.touch_of_ne_userEdit {op : Operation} (h : ∀ code, op ≠ .userEdit code)
    (b : Bench) : op.touch b = b := by
  cases op with
  | userEdit code => exact absurd rfl (h code)
  | _ => rfl

namespace Session

variable (s : Session) (op : Operation) {t : Transition Result}

theorem after_cell_of_write {write : CellWrite}
    (h : t.effects.filterMap Effect.write? = [write]) :
    (s.after op t).seat.host.cell =
      (op.touch s.seat.host).cell.write write.code write.isFinal := by
  rw [after, Bench.cell_performAll, h]
  rfl

theorem after_cell_of_quiet (h : t.effects.filterMap Effect.write? = []) :
    (s.after op t).seat.host.cell = (op.touch s.seat.host).cell := by
  rw [after, Bench.cell_performAll, h]
  rfl

theorem after_frames :
    (s.after op t).seat.host.frames =
      s.seat.host.frames ++ t.effects.filterMap Effect.frame? := by
  rw [after, Bench.frames_performAll, (op.touch_writes s.seat.host).2]

end Session

/-! ## What is on display -/

/-- Among the frames that were shown since the start, the last one is the difference of the
open proposal; without an open proposal it is a clear one, or there is none. -/
def Displayed (bench : Bench) (now : Session) : Prop :=
  ∃ shown, now.seat.host.frames = bench.frames ++ shown ∧
    ∀ lines, shown.getLast? = some (some lines) ↔
      ∃ p, now.seat.state.proposal = some p ∧ p.diff.lines = lines

theorem displayed_start (bench : Bench) (settings : ChatSettings) :
    Displayed bench (Session.start bench settings) := by
  refine ⟨[], (List.append_nil _).symm, fun lines => ?_⟩
  simp [Session.start, State.start]

/-- Every move keeps the invariant. -/
theorem Displayed.move {bench : Bench} {now : Session} {op : Operation} {t : Transition Result}
    (h : Displayed bench now) (hmove : Move now op t) : Displayed bench (now.after op t) := by
  obtain ⟨shown, hframes, hlast⟩ := h
  obtain ⟨write, frame, hleaves, -, hframe⟩ := hmove.leaves
  refine ⟨shown ++ frame.toList, ?_, fun lines => ?_⟩
  · rw [Session.after_frames, hframe, hframes, List.append_assoc]
  · show _ ↔ ∃ p, t.state.proposal = some p ∧ p.diff.lines = lines
    generalize t.answer = result at hleaves
    cases hleaves with
    | proposed hcode hopen => simp [hopen]
    | accepted hopen hclosed => simp [hclosed]
    | rejected hopen hclosed => simp [hclosed]
    | applied hget hrole hcode hclosed => simp [hclosed]
    | silent hsilent hkept =>
      rw [Option.toList_none, List.append_nil, hkept]
      exact hlast lines

theorem displayed_run (bench : Bench) (settings : ChatSettings) (ops : List Operation) :
    Displayed bench ((Session.start bench settings).run ops) :=
  Session.run_induction (P := fun _ now => Displayed bench now) (displayed_start bench settings)
    (fun _ _ _ _ h => h.move) ops

/-! ## The cell and the frames follow the result -/

/-- **The cell, the frames and the open proposal move together.**  After any run, an operation
adds at most one write to the cell and at most one frame, and its result tells which by the
table.  A write is then what the cell holds; where nothing is written, the cell holds what it
held, unless it is the user who changed it.  Among the frames shown since the start the last
one is a difference exactly if a proposal is open, and it is the difference of that proposal. -/
theorem cell_and_frames_follow_result (bench : Bench) (settings : ChatSettings)
    (ops : List Operation) (op : Operation) :
    let now := (Session.start bench settings).run ops
    let later := now.step op
    (∃ write frame,
      Leaves settings.preview now.seat.state later.1.seat.state op later.2 write frame ∧
      later.1.seat.host.cell.writes = now.seat.host.cell.writes ++ write.toList ∧
      (∀ w, write = some w → later.1.seat.cell = some w.code) ∧
      (write = none → (∀ code, op ≠ .userEdit code) → later.1.seat.cell = now.seat.cell) ∧
      later.1.seat.host.frames = now.seat.host.frames ++ frame.toList) ∧
    ∃ shown, now.seat.host.frames = bench.frames ++ shown ∧
      ∀ lines, shown.getLast? = some (some lines) ↔
        ∃ p, now.seat.state.proposal = some p ∧ p.diff.lines = lines := by
  intro now later
  refine ⟨?_, displayed_run bench settings ops⟩
  have hsettings : now.seat.state.settings = settings :=
    (landed_run bench settings ops).settings_eq
  obtain ⟨t, hmove, hstep⟩ := now.exists_move op
  obtain ⟨write, frame, hleaves, hwrite, hframe⟩ := hmove.leaves
  rw [hsettings] at hleaves
  have hlater : later = (now.after op t, t.answer) := hstep
  rw [hlater]
  refine ⟨write, frame, hleaves, ?_, ?_, ?_, ?_⟩
  · cases write with
    | none =>
      rw [now.after_cell_of_quiet op hwrite, (op.touch_writes _).1]
      exact (List.append_nil _).symm
    | some w =>
      rw [now.after_cell_of_write op hwrite, ← (op.touch_writes now.seat.host).1]
      rfl
  · rintro w rfl
    show (now.after op t).seat.host.cell.code = _
    rw [now.after_cell_of_write op hwrite]
    rfl
  · rintro rfl hop
    show (now.after op t).seat.host.cell.code = _
    rw [now.after_cell_of_quiet op hwrite, op.touch_of_ne_userEdit hop]
    rfl
  · rw [Session.after_frames, hframe]

/-- A proposal is accepted although the user changed the cell: its difference was on display,
its code is written over the change, and the display is cleared. -/
theorem cell_and_frames_follow_result_accepted :
    let ops : List Operation :=
      [.send "double it", .resolve 0 (.ok (.ofText "```\nx = 2\n```")), .userEdit "x = 5"]
    let now := (Session.start (.start (some "x = 1") .proposed "a" ["a"]) .standard).run ops
    let later := now.step .accept
    (∃ p shown, now.seat.state.proposal = some p ∧ now.seat.host.frames = shown ∧
      shown.getLast? = some (some p.diff.lines)) ∧
    now.seat.cell = some "x = 5" ∧ later.1.seat.cell = some "x = 2" ∧
    later.1.seat.host.frames.getLast? = some none := by
  intro ops now later
  obtain ⟨⟨write, frame, hleaves, -, hcode, -, hframes⟩, shown, hshown, hlast⟩ :=
    cell_and_frames_follow_result (.start (some "x = 1") .proposed "a" ["a"]) .standard ops .accept
  obtain ⟨p, hopen, hproposed⟩ : ∃ p, now.seat.state.proposal = some p ∧ p.proposed = "x = 2" :=
    ⟨_, rfl, rfl⟩
  obtain ⟨drifted, hresult⟩ : ∃ drifted, later.2 = .decided (.accepted drifted) := ⟨_, rfl⟩
  refine ⟨⟨p, shown, hopen, hshown, (hlast _).2 ⟨p, hopen, rfl⟩⟩, rfl, ?_⟩
  change Leaves _ now.seat.state later.1.seat.state .accept later.2 write frame at hleaves
  rw [hresult] at hleaves
  cases hleaves with
  | accepted hopen' hclosed =>
    obtain rfl := Option.some.inj (hopen.symm.trans hopen')
    refine ⟨?_, ?_⟩
    · rw [← hproposed]
      exact hcode _ rfl
    · rw [hframes]
      exact List.getLast?_concat
  | silent hsilent hkept => exact absurd hsilent Bool.false_ne_true

end CellReview.Review
