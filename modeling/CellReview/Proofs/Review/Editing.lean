import CellReview.Proofs.Review.Prompts

/-!
# An edit is made as a whole or not at all

An edit of a turn of the user drops the turn and what follows it, puts the new turn there and
asks again.  An edit of anything else is refused before anything was done.

* `indexed_run` — every message of a review is at its index;
* `Chat.Indexed.displayView_truncate` — what the user sees of the messages before an index;
* `Session.issued_prefix_run` — no issued request is forgotten;
* `Edited` — everything that an edit changes, and what it leaves as it is;
* `edit_all_or_nothing` — **every edit is one of the two**.
-/

namespace CellReview

/-! ## Messages at their index -/

namespace Chat.Indexed

variable {prompt : String} {c : Conversation}

/-- The messages before an index are those whose index is smaller. -/
theorem take_messages (h : Indexed prompt c) (n : Nat) :
    c.messages.take n = c.messages.filter fun m => decide (m.index < n) := by
  have hbefore : ∀ m ∈ c.messages.take n, decide (m.index < n) = true := by
    intro m hm
    obtain ⟨i, hi⟩ := List.mem_iff_getElem?.1 hm
    rw [List.getElem?_take] at hi
    split at hi
    · rename_i hlt
      rw [h.index_eq hi]
      exact decide_eq_true hlt
    · exact absurd hi (by simp)
  have hbehind : ∀ m ∈ c.messages.drop n, ¬ decide (m.index < n) = true := by
    intro m hm
    obtain ⟨i, hi⟩ := List.mem_iff_getElem?.1 hm
    rw [List.getElem?_drop] at hi
    rw [h.index_eq hi, decide_eq_true_eq]
    omega
  have hsplit := congrArg (List.filter fun m => decide (m.index < n))
    (c.messages.take_append_drop n)
  rw [List.filter_append, List.filter_eq_self.2 hbefore, List.filter_eq_nil_iff.2 hbehind,
    List.append_nil] at hsplit
  exact hsplit

/-- The user sees of the messages before an index what he saw of them. -/
theorem displayView_truncate (h : Indexed prompt c) (n : Nat) :
    (c.truncate n).displayView = c.displayView.filter fun e => decide (e.index < n) := by
  rw [Conversation.displayView, Conversation.truncate, h.take_messages n,
    Conversation.displayView, List.filter_map, List.filter_filter, List.filter_filter]
  congr 1
  exact List.filter_congr fun m _ => Bool.and_comm _ _

/-- The turns of the user are the entries of the user that are shown. -/
theorem user_iff_displayed (h : Indexed prompt c) {index : Nat} :
    (∃ m, c.get? index = some m ∧ m.role = .user) ↔
      ∃ e ∈ c.displayView, e.index = index ∧ e.role = .user := by
  constructor
  · rintro ⟨m, hget, hrole⟩
    have hindex : m.index = index := h.index_eq hget
    refine ⟨m.toEntry, h.mem_displayView_iff.2 ⟨m, ?_, ?_, rfl⟩, hindex, hrole⟩
    · exact h.get?_of_mem (List.mem_of_getElem? hget)
    · simp [hrole]
  · rintro ⟨e, he, rfl, hrole⟩
    obtain ⟨m, hget, -, rfl⟩ := h.mem_displayView_iff.1 he
    exact ⟨m, hget, hrole⟩

end Chat.Indexed

namespace Review

open Chat (Conversation DisplayEntry Indexed)
open Completion (Answer)

variable {settings : ChatSettings} {past : List Moment} {now : Session} {op : Operation}
  {t : Transition Result}

/-- Every move keeps the messages at their index. -/
theorem Move.indexed (hlanded : Landed settings now)
    (h : Indexed settings.systemPrompt now.seat.state.log) (hmove : Move now op t) :
    Indexed settings.systemPrompt t.state.log := by
  have hfresh : Indexed settings.systemPrompt now.seat.state.freshLog := by
    rw [State.freshLog, hlanded.settings_eq]
    exact Chat.indexed_start _
  cases hmove.requestChange with
  | issue r _ _ _ _ _ _ hkept hlog =>
    rw [hlog]
    cases hkept with
    | log => exact h.concat rfl
    | fresh => exact hfresh.concat rfl
    | before hget hrole => exact (h.take (hlanded.turns.pos_of_user hget hrole)).concat rfl
  | giveUp _ _ _ _ _ hlog =>
    rw [hlog]
    exact hfresh
  | take _ _ _ _ _ _ _ hlog =>
    rw [hlog]
    exact h.concat rfl
  | keep _ _ _ _ _ hlog =>
    rw [hlog]
    exact h

/-- After every run every message is at its index. -/
theorem indexed_run (bench : Bench) (settings : ChatSettings) (ops : List Operation) :
    Indexed settings.systemPrompt ((Session.start bench settings).run ops).seat.state.log := by
  refine (Session.run_induction
    (P := fun past now => (Told past now ∧ Landed settings now) ∧
      Indexed settings.systemPrompt now.seat.state.log)
    ⟨⟨told_start bench settings, landed_start bench settings⟩, Chat.indexed_start _⟩ ?_ ops).2
  rintro past now op t ⟨⟨htold, hlanded⟩, h⟩ hmove
  exact ⟨⟨htold.move hmove, hlanded.move htold hmove⟩, hmove.indexed hlanded h⟩

/-! ## Issued requests -/

namespace Session

theorem issued_prefix_step (s : Session) (op : Operation) :
    s.issued <+: (s.step op).1.issued := by
  rw [step_eq_after]
  exact List.prefix_append _ _

/-- No issued request is forgotten. -/
theorem issued_prefix_run (s : Session) (ops : List Operation) :
    s.issued <+: (s.run ops).issued := by
  induction ops generalizing s with
  | nil => exact List.prefix_rfl
  | cons op ops ih => exact (s.issued_prefix_step op).trans (ih _)

end Session

/-- An answer to any request but the newest one is stale. -/
theorem Told.stale_of_lt (h : Told past now) {id : Nat} {r : Request} (answer : Answer)
    (hr : now.issued[id]? = some r) (hlt : id + 1 < now.issued.length) :
    (now.step (.resolve id answer)).2 = .resolved (.stale r.number now.seat.state.latest) := by
  have hlate : now.seat.state.inFlight ≠ some r.number := by
    intro hwait
    rw [h.number_eq hr, h.awaits id] at hwait
    have := hwait.newest
    omega
  rw [now.step_resolve answer hr, State.resolve_late hlate]

/-- Once another request was issued, every answer to an earlier one is stale, however the run
goes on. -/
theorem stale_after_issue (bench : Bench) (settings : ChatSettings) (ops : List Operation)
    (op : Operation) {q : Request} {id : Nat} {r : Request} (more : List Operation)
    (answer : Answer) :
    let now := (Session.start bench settings).run ops
    let later := (now.step op).1.run more
    (now.step op).2 = .issued q → now.issued[id]? = some r →
      (later.step (.resolve id answer)).2 =
        .resolved (.stale r.number later.seat.state.latest) := by
  intro now later hissues hr
  have hrun : later = (Session.start bench settings).run (ops ++ op :: more) := by
    simp [later, now, Session.run, List.foldl_append]
  have htold := told_run bench settings (ops ++ op :: more)
  rw [← hrun] at htold
  have hmore : now.issued ++ [q] <+: later.issued := by
    have hissued : (now.step op).1.issued = now.issued ++ [q] := by
      rw [Session.step_eq_after] at hissues ⊢
      exact congrArg (fun result => now.issued ++ Result.requests result) hissues
    rw [← hissued]
    exact (now.step op).1.issued_prefix_run more
  obtain ⟨hid, -⟩ := List.getElem?_eq_some_iff.1 hr
  have hlength := hmore.length_le
  rw [List.length_append, List.length_singleton] at hlength
  refine htold.stale_of_lt answer ?_ (by omega)
  obtain ⟨rest, hrest⟩ := hmore
  rw [← hrest, List.append_assoc, List.getElem?_append_left hid, hr]

/-! ## Edits -/

/-- The state after an edit of a turn of the user.  The messages before the turn stay, and behind
them stands the prompt for the new task, shown as it was typed in.  The next request is
outstanding; all else is as it was. -/
def State.edited (s : State) (cell : Option String) (index : Nat) (input : String) : State :=
  { s with
    log := ⟨s.log.messages.take index ++
      [⟨.user, s.taskPrompt cell input, some input, .normal, index⟩]⟩
    latest := s.latest + 1
    inFlight := some (s.latest + 1) }

/-- What an edit of a turn of the user leads to.  The user still sees what he saw of the messages
before the turn, and behind them what he typed in.  A request is issued about the edited
conversation; an answer to an earlier one is stale from then on.  The cell, the frames and the
notebook are left alone.  The number of dropped messages is recorded, and then the request. -/
structure Edited (now : Session) (index : Nat) (input : String) (later : Session × Result) :
    Prop where
  state : later.1.seat.state = now.seat.state.edited now.seat.cell index input
  displayView : later.1.seat.state.log.displayView =
    (now.seat.state.log.displayView.filter fun e => decide (e.index < index)) ++
      [⟨index, .user, input, .normal⟩]
  answer : later.2 = .issued ⟨now.seat.state.latest + 1, .applyCode, later.1.seat.state.log⟩
  issued : later.1.issued = now.issued ++
    [⟨now.seat.state.latest + 1, .applyCode, later.1.seat.state.log⟩]
  stale : ∀ more id r answer, now.issued[id]? = some r →
    ((later.1.run more).step (.resolve id answer)).2 =
      .resolved (.stale r.number (later.1.run more).seat.state.latest)
  cell : later.1.seat.host.cell = now.seat.host.cell
  frames : later.1.seat.host.frames = now.seat.host.frames
  notebook : later.1.seat.host.notebook = now.seat.host.notebook
  recorded : ∃ discarded, 0 < discarded ∧ index + discarded = now.seat.state.log.length ∧
    later.1.seat.host =
      (now.seat.host.perform (.record (.messageEdited index discarded))).perform
        (.record (.completionRequested (now.seat.state.latest + 1) (index + 1)))

/-- An edit of a turn of the user asks about the edited conversation, and records the number of
dropped messages and the request. -/
theorem Session.step_edit_of_user {s : Session} {index : Nat} {m : Chat.Message} (input : String)
    (hget : s.seat.state.log.get? index = some m) (hrole : m.role = .user) :
    let state := s.seat.state.edited s.seat.cell index input
    let r : Request := ⟨s.seat.state.latest + 1, .applyCode, state.log⟩
    s.step (.edit index input) =
      (s.after (.edit index input) ⟨state,
        [.record (.messageEdited index (s.seat.state.log.length - index)),
          .record (.completionRequested (s.seat.state.latest + 1) (index + 1))], .issued r⟩,
        .issued r) := by
  intro state r
  have htruncate : (s.seat.state.log.truncate index).length = index :=
    Conversation.length_truncate_of_get? hget
  have hlog : (s.seat.state.log.truncate index).addTurn (s.seat.state.taskPrompt s.seat.cell input)
      (some input) .normal = state.log := by
    rw [Conversation.addTurn, Conversation.push, htruncate]
    rfl
  have hlength : state.log.length = index + 1 := by
    rw [← htruncate, ← hlog]
    exact List.length_append
  rw [step_eq_after, transition, State.edit_of_user hget hrole]
  simp only [State.asking, State.issue, hlog, hlength]
  rfl

/-- After any run an edit of a turn of the user is made as a whole. -/
theorem edited_of_user (bench : Bench) (settings : ChatSettings) (ops : List Operation)
    {index : Nat} {m : Chat.Message} (input : String) :
    let now := (Session.start bench settings).run ops
    now.seat.state.log.get? index = some m → m.role = .user →
      Edited now index input (now.step (.edit index input)) := by
  intro now hget hrole
  have hstep := now.step_edit_of_user input hget hrole
  have hlt : index < now.seat.state.log.length := Conversation.lt_length_of_get? hget
  constructor
  case displayView =>
    have hindexed := indexed_run bench settings ops
    rw [hstep, ← hindexed.displayView_truncate]
    simp [Session.after, State.edited, Conversation.displayView, Conversation.truncate,
      Chat.Message.toEntry, Chat.Message.displayText, now]
  case stale =>
    intro more id r answer hr
    exact stale_after_issue bench settings ops _ more answer (congrArg Prod.snd hstep) hr
  case cell =>
    rw [hstep]
    exact Bench.cell_performAll _ _
  case frames =>
    rw [hstep]
    exact (Bench.frames_performAll _ _).trans (List.append_nil _)
  case notebook =>
    rw [hstep]
    exact Bench.notebook_performAll _ _
  case recorded =>
    refine ⟨now.seat.state.log.length - index, by omega, by omega, ?_⟩
    rw [hstep]
    rfl
  all_goals
    rw [hstep]
    rfl

/-- **An edit is made as a whole or not at all.**  After any run the turns of the user are the
entries of the user that are shown.  An edit at the index of one of them drops it with what
follows, puts the new turn there and asks again, and it touches neither an open proposal nor the
cell.  Any other edit is refused with its index and the length of the conversation and changes
nothing; an outstanding request is still outstanding, and an answer to it is taken. -/
theorem edit_all_or_nothing (bench : Bench) (settings : ChatSettings) (ops : List Operation)
    (index : Nat) (input : String) :
    let now := (Session.start bench settings).run ops
    let log := now.seat.state.log
    let later := now.step (.edit index input)
    ((∃ m, log.get? index = some m ∧ m.role = .user) ↔
      ∃ e ∈ log.displayView, e.index = index ∧ e.role = .user) ∧
    ((∃ m, log.get? index = some m ∧ m.role = .user) → Edited now index input later) ∧
    ((¬ ∃ m, log.get? index = some m ∧ m.role = .user) →
      later = (now, .refused ⟨index, log.length⟩) ∧
      ∀ id r answer, now.issued[id]? = some r → now.seat.state.inFlight = some r.number →
        (later.1.step (.resolve id answer)).2.isApplied = true) := by
  intro now log later
  refine ⟨(indexed_run bench settings ops).user_iff_displayed, ?_, ?_⟩
  · rintro ⟨m, hget, hrole⟩
    exact edited_of_user bench settings ops input hget hrole
  · intro hno
    have hrefused : later = (now, .refused ⟨index, log.length⟩) := Session.step_edit_refused hno
    refine ⟨hrefused, fun id r answer hr hwait => ?_⟩
    rw [hrefused, now.step_resolve answer hr]
    exact State.isApplied_resolve_iff.2 hwait

/-- A proposal is open and another request is outstanding: the first task is edited under them;
an edit of the reply, or far behind the end, is refused, and the request is still answered. -/
theorem edit_all_or_nothing_reviewed :
    let ops : List Operation :=
      [.send "double it", .resolve 0 (.ok (.ofText "```\nx = 2\n```")), .send "halve it"]
    let now := (Session.start (.start (some "x = 1") .unified "a" ["a"]) .standard).run ops
    let far := 18446744073709551615
    now.seat.state.proposal.isSome = true ∧
    Edited now 1 "treble it" (now.step (.edit 1 "treble it")) ∧
    now.step (.edit 2 "treble it") = (now, .refused ⟨2, 4⟩) ∧
    ((now.step (.edit far "treble it")).1.step (.resolve 1 (.error ⟨"down"⟩))).2.isApplied =
      true := by
  intro ops now far
  have edit := edit_all_or_nothing (.start (some "x = 1") .unified "a" ["a"]) .standard ops
  have hreply : ¬ ∃ m, now.seat.state.log.get? 2 = some m ∧ m.role = .user := by
    rintro ⟨m, hget, hrole⟩
    cases hget
    exact absurd hrole (by decide)
  have hbehind : ¬ ∃ m, now.seat.state.log.get? far = some m ∧ m.role = .user := by
    rintro ⟨m, hget, -⟩
    have hlt : far < now.seat.state.log.length := Conversation.lt_length_of_get? hget
    exact absurd hlt (by decide +kernel)
  refine ⟨by decide +kernel, ?_, ?_, ?_⟩
  · exact (edit 1 "treble it").2.1 ⟨_, rfl, rfl⟩
  · exact ((edit 2 "treble it").2.2 hreply).1
  · exact ((edit far "treble it").2.2 hbehind).2 1 _ _ rfl rfl

end Review

end CellReview
