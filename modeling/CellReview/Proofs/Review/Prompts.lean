import CellReview.Proofs.Chat.Addresses
import CellReview.Proofs.Review.Landing
import CellReview.Proofs.Review.Preview

/-!
# A prompt shows the proposal and not its preview

While a proposal is open, the cell holds a preview, which may show both sides of the
difference.  A model that is asked about the cell is shown the proposed code instead, unless
the user has changed the cell.

* `lastVariables`, `AskedAbout`, `Operation.turn?` — the variables, the code and the turn of a
  request, told by the history of a run;
* `askedAbout_promptCode` — the code that a model is shown is the one by that rule;
* `Session.step_turn`, `Session.step_edit_refused` — what an operation that asks does;
* `prompt_shows_proposal` — **the turn that every request ends in**.
-/

namespace CellReview.Review

open Chat (Conversation DisplayType Variable)

/-! ## The variables -/

/-- The variables after an operation. -/
def Operation.variables (before : List Variable) : Operation → List Variable
  | .setVariables vars => vars
  | _ => before

/-- The variables that were set last. -/
def lastVariables (past : List Moment) : List Variable :=
  past.foldl (fun vars m => m.op.variables vars) []

/-- An answer leaves the variables as they are. -/
theorem Move.vars_eq {s : Session} {id : Nat} {r : Request} {answer : Completion.Answer}
    {t : Transition Result} (h : Move s (.resolve id answer) t) (hr : s.issued[id]? = some r) :
    t.state.vars = s.seat.state.vars := by
  cases h with
  | rest result vars hop hresolve hidle =>
    exact absurd (hr.symm.trans (hresolve id answer rfl)) (by simp)
  | _ => rfl

/-- Only the user sets the variables. -/
theorem Session.vars_step (s : Session) (op : Operation) :
    (s.step op).1.seat.state.vars = op.variables s.seat.state.vars := by
  cases op with
  | edit index input =>
    cases h : s.seat.state.edit s.seat.cell index input with
    | error fault => rw [step, h]; rfl
    | ok t =>
      obtain ⟨-, rfl⟩ := State.edit_eq_ok h
      rw [step, h]
      rfl
  | resolve id answer =>
    cases hr : s.issued[id]? with
    | none => rw [step, hr]; rfl
    | some r =>
      rw [s.step_resolve answer hr]
      exact (s.move_resolve answer hr).vars_eq hr
  | accept =>
    cases hopen : s.seat.state.proposal with
    | none => rw [step_accept_of_closed hopen]; rfl
    | some p => rw [s.step_accept hopen]; rfl
  | reject =>
    cases hopen : s.seat.state.proposal with
    | none => rw [step_reject_of_closed hopen]; rfl
    | some p => rw [s.step_reject hopen]; rfl
  | applyReply index =>
    simp only [step, Seat.act, State.applyReply]
    cases s.seat.state.replyCode? index <;> rfl
  | _ => rfl

/-- The variables of a run are those that were set last. -/
theorem vars_run (bench : Bench) (settings : ChatSettings) (ops : List Operation) :
    ((Session.start bench settings).run ops).seat.state.vars =
      lastVariables ((Session.start bench settings).history ops) := by
  refine Session.run_step_induction
    (P := fun past now => now.seat.state.vars = lastVariables past) rfl ?_ ops
  intro past now op ih
  rw [now.vars_step op, ih, lastVariables, lastVariables, List.foldl_append]
  rfl

/-! ## The code -/

/-- The code that a model is asked about: the proposed one while the cell holds the preview that
was written last, and else what the cell holds; a cell that cannot be read counts as empty. -/
inductive AskedAbout (past : List Moment) (now : Session) : String → Prop where
  | proposal {p : Proposal} (hopen : now.seat.state.proposal = some p)
      (hheld : Previewed past (now.seat.cell.getD "")) : AskedAbout past now p.proposed
  | cell (hother : ∀ p, now.seat.state.proposal = some p →
      ¬ Previewed past (now.seat.cell.getD "")) : AskedAbout past now (now.seat.cell.getD "")

theorem AskedAbout.unique {past : List Moment} {now : Session} {a b : String}
    (ha : AskedAbout past now a) (hb : AskedAbout past now b) : a = b := by
  cases ha with
  | proposal hopen hheld =>
    cases hb with
    | proposal hopen' _ => rw [Option.some.inj (hopen.symm.trans hopen')]
    | cell hother => exact absurd hheld (hother _ hopen)
  | cell hother =>
    cases hb with
    | proposal hopen hheld => exact absurd hheld (hother _ hopen)
    | cell _ => rfl

/-- The preview of the open proposal was written last, and no other text was. -/
theorem Pictured.previewed_iff {mode : PreviewMode} {past : List Moment} {now : Session}
    {p : Proposal} (h : Pictured mode past now p) {text : String} :
    Previewed past text ↔ text = p.preview mode := by
  constructor
  · intro hheld
    exact hheld.unique h.written
  · rintro rfl
    exact h.written

/-- As long as hashes differ, the code that a model is shown is the one it is asked about. -/
theorem askedAbout_promptCode {mode : PreviewMode} {past : List Moment} {now : Session}
    (h : ∀ p, now.seat.state.proposal = some p → Pictured mode past now p)
    (hfree : CollisionFree past now) :
    AskedAbout past now (now.seat.state.promptCode now.seat.cell) := by
  unfold State.promptCode
  cases hopen : now.seat.state.proposal with
  | none => exact .cell fun p hp => absurd (hopen.symm.trans hp) (by simp)
  | some p =>
    have hpictured := h p hopen
    have hheld := (hpictured.print_eq_iff hfree).trans hpictured.previewed_iff.symm
    by_cases hprint : Digest.fingerprint (now.seat.cell.getD "") = p.previewPrint
    · simp only [if_pos hprint]
      exact .proposal hopen (hheld.1 hprint)
    · simp only [if_neg hprint]
      exact .cell fun _ _ hpreview => hprint (hheld.2 hpreview)

/-! ## The turn -/

/-- The turn that an operation adds to the conversation: its prompt about a code, and the text
that the user sees in place of it. -/
def Operation.turn? (vars : List Variable) (code language : String) :
    Operation → Option (String × String)
  | .send input | .edit _ input => some (Chat.basicPrompt vars code input language, input)
  | .debug error => some (Chat.debugPrompt vars code error language, error)
  | .explain => some (Chat.explainPrompt code language, State.explainLabel)
  | _ => none

/-- A request whose conversation is the given one and ends in a turn of the user. -/
structure Request.EndsIn (r : Request) (log : Conversation) (content shown : String) : Prop where
  snapshot_eq : r.snapshot = log
  sent : r.messages.getLast? = some ⟨.user, content⟩
  displayed : ∃ m, log.messages.getLast? = some m ∧ m.role = .user ∧ m.content = content ∧
    m.displayText = shown

/-- A request that is issued about a new turn ends in it. -/
theorem State.endsIn_issue (s : State) (kept : Conversation) (content shown : String)
    (type : DisplayType) (intent : Intent) (before : List Effect) :
    let t := issue { s with log := kept.addTurn content (some shown) type } intent before
    t.answer.EndsIn t.state.log content shown where
  snapshot_eq := rfl
  sent := by
    show ((kept.addTurn content (some shown) type).messages.map Chat.Message.toChat).getLast? = _
    rw [Conversation.addTurn, Conversation.push, List.map_append, List.map_singleton,
      List.getLast?_concat]
    rfl
  displayed := ⟨_, List.getLast?_concat, rfl, rfl, rfl⟩

namespace Session

variable {s : Session}

/-- An edit of anything but a turn of the user is refused. -/
theorem step_edit_refused {index : Nat} {input : String}
    (hno : ¬ ∃ m, s.seat.state.log.get? index = some m ∧ m.role = .user) :
    s.step (.edit index input) = (s, .refused ⟨index, s.seat.state.log.length⟩) := by
  rw [step, State.edit, Conversation.replaceTurn_of_not_user hno]

/-- An operation with a turn issues a request that ends in it, unless it edits anything but a
turn of the user. -/
theorem step_turn {op : Operation} {content shown : String}
    (hturn : op.turn? s.seat.state.vars (s.seat.state.promptCode s.seat.cell)
      s.seat.state.settings.codeLanguage = some (content, shown))
    (hedit : ∀ index input, op = .edit index input →
      ∃ m, s.seat.state.log.get? index = some m ∧ m.role = .user) :
    ∃ r, (s.step op).2 = .issued r ∧
      r.EndsIn (s.step op).1.seat.state.log content shown := by
  cases op with
  | send input =>
    cases hturn
    exact ⟨_, rfl, State.endsIn_issue ..⟩
  | edit index input =>
    cases hturn
    obtain ⟨m, hget, hrole⟩ := hedit index shown rfl
    rw [step, State.edit_of_user hget hrole]
    exact ⟨_, rfl, State.endsIn_issue ..⟩
  | debug error =>
    cases hturn
    exact ⟨_, rfl, State.endsIn_issue ..⟩
  | explain =>
    cases hturn
    exact ⟨_, rfl, State.endsIn_issue ..⟩
  | _ => exact absurd hturn (by simp [Operation.turn?])

/-- An operation without a turn issues no request. -/
theorem requests_of_no_turn {op : Operation} {vars : List Variable} {code language : String}
    (hturn : op.turn? vars code language = none) : (s.step op).2.requests = [] := by
  cases op with
  | resolve id answer =>
    cases hr : s.issued[id]? with
    | none => rw [step, hr]; rfl
    | some r => rw [s.step_resolve answer hr]; rfl
  | send input => exact absurd hturn (by simp [Operation.turn?])
  | edit index input => exact absurd hturn (by simp [Operation.turn?])
  | debug error => exact absurd hturn (by simp [Operation.turn?])
  | explain => exact absurd hturn (by simp [Operation.turn?])
  | _ => rfl

end Session

/-! ## Every request -/

/-- **A prompt shows the proposal and not its preview.**  After any run, as long as no two
different texts that the cell held during the run have the same hash, there is one code that a
model is asked about: the proposed code if a proposal is open and the cell holds the preview that
was written last, and else what the cell holds.  A task, new or in place of an earlier turn of the
user, a correction and an explanation issue a request about the conversation as they leave it.
What the request sends ends in a turn of the user: the prompt for this code, with the variables
that were set last and the configured language.  The user is shown what was typed in, or a label
for an explanation.  An edit of anything else is refused and changes nothing, and no other
operation issues a request. -/
theorem prompt_shows_proposal (bench : Bench) (settings : ChatSettings) (ops : List Operation) :
    let past := (Session.start bench settings).history ops
    let now := (Session.start bench settings).run ops
    let log := now.seat.state.log
    CollisionFree past now →
      ∃ code, (∀ other, AskedAbout past now other ↔ other = code) ∧
        (∀ op content shown,
          op.turn? (lastVariables past) code settings.codeLanguage = some (content, shown) →
          (∀ index input, op = .edit index input → ∃ m, log.get? index = some m ∧ m.role = .user) →
            ∃ r, (now.step op).2 = .issued r ∧
              r.EndsIn (now.step op).1.seat.state.log content shown) ∧
        (∀ index input, (¬ ∃ m, log.get? index = some m ∧ m.role = .user) →
          now.step (.edit index input) = (now, .refused ⟨index, log.length⟩)) ∧
        ∀ op, op.turn? (lastVariables past) code settings.codeLanguage = none →
          (now.step op).2.requests = [] := by
  intro past now log hfree
  have hasked : AskedAbout past now (now.seat.state.promptCode now.seat.cell) :=
    askedAbout_promptCode (fun _ => pictured_run bench settings ops) hfree
  have hvars : now.seat.state.vars = lastVariables past := vars_run bench settings ops
  have hsettings : now.seat.state.settings = settings := (landed_run bench settings ops).settings_eq
  refine ⟨now.seat.state.promptCode now.seat.cell, fun other => ?_,
    fun op content shown hturn => ?_, fun index input => Session.step_edit_refused,
    fun op => Session.requests_of_no_turn⟩
  · constructor
    · intro hother
      exact hother.unique hasked
    · rintro rfl
      exact hasked
  · rw [← hvars, ← hsettings] at hturn
    exact Session.step_turn hturn

/-- While the cell holds a preview with both sides of the difference, an explanation is asked of
the proposed code.  Where the user put back the code from before, the edited task is about it. -/
theorem prompt_shows_proposal_undone :
    let settings := { ChatSettings.standard with preview := .unified }
    let session := Session.start (.start (some "x = 1") .unified "a" ["a"]) settings
    let ops : List Operation := [.send "double it", .resolve 0 (.ok (.ofText "```\nx = 2\n```"))]
    let undone := ops ++ [.userEdit "x = 1"]
    (∃ r, ((session.run ops).step .explain).2 = .issued r ∧
      r.messages.getLast? = some ⟨.user, Chat.explainPrompt "x = 2" "python"⟩) ∧
    ∃ r, ((session.run undone).step (.edit 1 "halve it")).2 = .issued r ∧
      r.messages.getLast? = some ⟨.user, Chat.basicPrompt [] "x = 1" "halve it" "python"⟩ := by
  intro settings session ops undone
  constructor
  · obtain ⟨p, hopen, hp⟩ := Option.map_eq_some_iff.1
      (show (session.run ops).seat.state.proposal.map (fun p => (p.diff.text, p.proposed)) =
        some ("x = 1\nx = 2", "x = 2") by decide +kernel)
    obtain ⟨htext, hproposed⟩ := Prod.mk.inj hp
    have hcell : (session.run ops).seat.cell = some "x = 1\nx = 2" := by decide +kernel
    obtain ⟨code, hcode, hasks, -⟩ :=
      prompt_shows_proposal (.start (some "x = 1") .unified "a" ["a"]) settings ops
        (collisionFree_of_two digest_ne_unified (by decide +kernel))
    have hheld : Previewed (session.history ops) ((session.run ops).seat.cell.getD "") := by
      rw [hcell, Option.getD_some, ← htext]
      exact (pictured_run _ settings ops hopen).written
    obtain rfl : p.proposed = code := (hcode _).1 (.proposal hopen hheld)
    obtain ⟨r, hissued, hends⟩ := hasks .explain _ _ rfl (by simp)
    rw [hproposed] at hends
    exact ⟨r, hissued, hends.sent⟩
  · obtain ⟨p, hopen, htext⟩ := Option.map_eq_some_iff.1
      (show (session.run undone).seat.state.proposal.map (·.diff.text) = some "x = 1\nx = 2" by
        decide +kernel)
    have hcell : (session.run undone).seat.cell = some "x = 1" := by decide +kernel
    obtain ⟨code, hcode, hasks, -⟩ :=
      prompt_shows_proposal (.start (some "x = 1") .unified "a" ["a"]) settings undone
        (collisionFree_of_two digest_ne_unified (by decide +kernel))
    have hother : ¬ Previewed (session.history undone) ((session.run undone).seat.cell.getD "") := by
      intro hheld
      have hsame := hheld.unique (pictured_run _ settings undone hopen).written
      rw [hcell] at hsame
      exact absurd (hsame.trans htext) (by decide)
    obtain rfl : "x = 1" = code := by
      have hheld := (hcode _).1 (.cell fun _ _ => hother)
      rwa [hcell] at hheld
    obtain ⟨r, hissued, hends⟩ := hasks (.edit 1 "halve it") _ _ rfl fun index input h => by
      cases h
      exact ⟨_, rfl, rfl⟩
    exact ⟨r, hissued, hends.sent⟩

end CellReview.Review
