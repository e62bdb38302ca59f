import CellReview.Proofs.Chat.Turns
import CellReview.Proofs.Review.LastRequest

/-!
# A reply lands behind the turn it answers

While a request is outstanding, the conversation is the one that the request asks about.
So a reply that is taken stands directly behind the turn that was sent, whatever was
edited, cleared or asked again in between.

* `Landed` — the invariant: the conversation is in turns, and the outstanding request
  asks about it as it is;
* `reply_lands_behind_turn` — **every reply that is taken lands on the conversation it
  answers**.
-/

namespace CellReview.Review

open Chat (Conversation InTurns)
open Completion (Answer)

theorem Move.settings_eq {s : Session} {op : Operation} {t : Transition Result}
    (h : Move s op t) : t.state.settings = s.seat.state.settings := by
  cases h <;> rfl

/-- The conversation of a review and the one that its outstanding request asks about. -/
structure Landed (settings : ChatSettings) (now : Session) : Prop where
  settings_eq : now.seat.state.settings = settings
  turns : InTurns settings.systemPrompt now.seat.state.log
  asked : ∀ {n}, now.seat.state.inFlight = some n → ∃ r ∈ now.issued, r.number = n
  snapshot : ∀ {r}, r ∈ now.issued → now.seat.state.inFlight = some r.number →
    r.snapshot = now.seat.state.log ∧ now.seat.state.log.EndsInTurn

theorem landed_start (bench : Bench) (settings : ChatSettings) :
    Landed settings (Session.start bench settings) where
  settings_eq := rfl
  turns := Chat.inTurns_start _
  asked h := absurd h (by simp [Session.start, State.start])
  snapshot hr := absurd hr List.not_mem_nil

namespace Landed

variable {settings : ChatSettings} {past : List Moment} {now : Session} {op : Operation}
  {t : Transition Result}

/-- What a turn is added to is in turns. -/
theorem inTurns_kept (h : Landed settings now) {kept : Conversation}
    (hkept : Kept now.seat.state kept) : InTurns settings.systemPrompt kept := by
  cases hkept with
  | log => exact h.turns
  | fresh =>
    rw [State.freshLog, h.settings_eq]
    exact Chat.inTurns_start _
  | before hget hrole => exact h.turns.truncate (h.turns.pos_of_user hget hrole)

/-- Every move keeps the invariant. -/
theorem move (h : Landed settings now) (htold : Told past now) (hmove : Move now op t) :
    Landed settings (now.after op t) := by
  have hsettings : t.state.settings = settings := hmove.settings_eq.trans h.settings_eq
  cases hmove.requestChange with
  | issue r hop hanswer hnumber hlatest hflight hsnapshot hkept hlog =>
    have hissued : (now.after op t).issued = now.issued ++ [r] := by
      rw [Session.after, hanswer, Result.requests]
    refine ⟨hsettings, ?_, ?_, ?_⟩
    · show InTurns _ t.state.log
      rw [hlog]
      exact (h.inTurns_kept hkept).addTurn _ _ _
    · intro n hn
      refine ⟨r, hissued ▸ List.mem_append_right _ (List.mem_singleton_self r), ?_⟩
      exact Option.some.inj (hflight.symm.trans hn)
    · intro q hq hwait
      change r.snapshot = t.state.log at hsnapshot
      have hnumbers : r.number = q.number := Option.some.inj (hflight.symm.trans hwait)
      have hlast : t.state.log.EndsInTurn := hlog ▸ Conversation.endsInTurn_addTurn _ _ _ _
      rw [hissued] at hq
      rcases List.mem_append.1 hq with hq | hq
      · -- the numbers of older requests are smaller
        obtain ⟨i, hi⟩ := List.mem_iff_getElem?.1 hq
        have hsmall := htold.number_eq hi
        have hlength := (List.getElem?_eq_some_iff.1 hi).1
        rw [hnumber, htold.latest_eq] at hnumbers
        omega
      · rw [List.mem_singleton.1 hq]
        exact ⟨hsnapshot, hlast⟩
  | giveUp hop hquiet happlied hlatest hflight hlog =>
    refine ⟨hsettings, ?_, ?_, ?_⟩
    · show InTurns _ t.state.log
      rw [hlog]
      exact h.inTurns_kept .fresh
    · intro n hn
      exact absurd (hflight.symm.trans hn) (by simp)
    · intro q hq hwait
      exact absurd (hflight.symm.trans hwait) (by simp)
  | take hop hr hwait hquiet happlied hlatest hflight hlog =>
    refine ⟨hsettings, ?_, ?_, ?_⟩
    · show InTurns _ t.state.log
      rw [hlog]
      exact h.turns.addAssistant (h.snapshot (List.mem_of_getElem? hr) hwait).2 _ _
    · intro n hn
      exact absurd (hflight.symm.trans hn) (by simp)
    · intro q hq hwait
      exact absurd (hflight.symm.trans hwait) (by simp)
  | keep hop hquiet happlied hlatest hflight hlog =>
    have hissued := now.after_issued_of_quiet op hquiet
    refine ⟨hsettings, ?_, ?_, ?_⟩
    · show InTurns _ t.state.log
      rw [hlog]
      exact h.turns
    · intro n hn
      rw [hissued]
      exact h.asked (hflight.symm.trans hn)
    · intro q hq hwait
      rw [hissued] at hq
      show q.snapshot = t.state.log ∧ t.state.log.EndsInTurn
      rw [hlog]
      exact h.snapshot hq (hflight.symm.trans hwait)

end Landed

/-- The invariant holds after every run. -/
theorem landed_run (bench : Bench) (settings : ChatSettings) (ops : List Operation) :
    Landed settings ((Session.start bench settings).run ops) := by
  refine (Session.run_induction (P := fun past now => Told past now ∧ Landed settings now)
    ⟨told_start bench settings, landed_start bench settings⟩ ?_ ops).2
  rintro past now op t ⟨htold, hlanded⟩ hmove
  exact ⟨htold.move hmove, hlanded.move htold hmove⟩

/-! ## Landing -/

/-- An answer that is taken is added to the conversation that its request asks about. -/
theorem Landed.log_resolve {settings : ChatSettings} {now : Session} (h : Landed settings now)
    {id : Nat} {r : Request} {answer : Answer} (hr : now.issued[id]? = some r)
    (happlied : (now.step (.resolve id answer)).2.isApplied = true) :
    (now.step (.resolve id answer)).1.seat.state.log =
        r.snapshot.addAssistant (answerText answer) (answerFailed answer) ∧
      r.snapshot.EndsInTurn := by
  obtain ⟨t, hmove, hstep⟩ := now.exists_move (.resolve id answer)
  rw [hstep] at happlied ⊢
  change t.answer.isApplied = true at happlied
  cases hmove.requestChange with
  | issue q hop hanswer =>
    rw [hanswer] at happlied
    exact absurd happlied (by simp [Result.isApplied])
  | giveUp hop => exact absurd hop (by simp)
  | take hop hr' hwait hquiet _ hlatest hflight hlog =>
    cases hop
    cases hr.symm.trans hr'
    obtain ⟨hsnapshot, hturn⟩ := h.snapshot (List.mem_of_getElem? hr) hwait
    rw [hsnapshot]
    exact ⟨hlog, hturn⟩
  | keep hop hquiet hnot =>
    rw [hnot] at happlied
    exact absurd happlied (by simp)

/-- **A reply always lands on the conversation it answers.**  After any run the conversation
begins with the system message for the configured prompt, which is its only one, and every
reply directly follows a user message.  An outstanding request is one of the issued ones; it
asks about the conversation as it is, and that ends in a user message.  So an answer that is
taken adds exactly one message, a reply, to the conversation that its request asks about,
directly behind the turn that was sent. -/
theorem reply_lands_behind_turn (bench : Bench) (settings : ChatSettings)
    (ops : List Operation) :
    let now := (Session.start bench settings).run ops
    let log := now.seat.state.log
    log.get? 0 = some ⟨.system, settings.systemPrompt, none, .normal, 0⟩ ∧
    (∀ i m, log.get? i = some m → m.role = .system → i = 0) ∧
    (∀ i m, log.get? i = some m → m.role = .assistant →
      ∃ j u, i = j + 1 ∧ log.get? j = some u ∧ u.role = .user) ∧
    (∀ n, now.seat.state.inFlight = some n → ∃ r ∈ now.issued, r.number = n) ∧
    (∀ r ∈ now.issued, now.seat.state.inFlight = some r.number →
      r.snapshot = log ∧ ∃ u, log.messages.getLast? = some u ∧ u.role = .user) ∧
    ∀ id r answer, now.issued[id]? = some r →
      (now.step (.resolve id answer)).2.isApplied = true →
        (now.step (.resolve id answer)).1.seat.state.log.messages = r.snapshot.messages ++
          [⟨.assistant, answerText answer, none,
            if answerFailed answer then .connectionError else .normal, r.snapshot.length⟩] ∧
        ∃ u, r.snapshot.messages.getLast? = some u ∧ u.role = .user := by
  intro now log
  have h : Landed settings now := landed_run bench settings ops
  refine ⟨h.turns.first, fun i m => h.turns.system_first, fun i m => h.turns.follows,
    fun n => h.asked, fun r hr hwait => h.snapshot hr hwait, ?_⟩
  intro id r answer hr happlied
  obtain ⟨hlog, hturn⟩ := h.log_resolve hr happlied
  exact ⟨congrArg Conversation.messages hlog, hturn⟩

/-- A task is answered, edited away and asked anew; a failure then lands behind the new turn. -/
theorem reply_lands_behind_turn_edited :
    let ops : List Operation :=
      [.send "double it", .resolve 0 (.ok (.ofText "Which cell?")), .send "the first",
        .edit 1 "double x"]
    let now := (Session.start (.start (some "x = 1") .proposed "a" ["a"]) .standard).run ops
    ∃ r, now.issued[2]? = some r ∧ r.snapshot.length = 2 ∧
      (now.step (.resolve 2 (.error ⟨"down"⟩))).2.isApplied = true ∧
      (now.step (.resolve 2 (.error ⟨"down"⟩))).1.seat.state.log.get? 2 =
        some ⟨.assistant, "down", none, .connectionError, 2⟩ := by
  intro ops now
  have happlied : (now.step (.resolve 2 (.error ⟨"down"⟩))).2.isApplied = true := rfl
  refine ⟨_, rfl, rfl, happlied, ?_⟩
  obtain ⟨-, -, -, -, -, h⟩ :=
    reply_lands_behind_turn (.start (some "x = 1") .proposed "a" ["a"]) .standard ops
  obtain ⟨hmessages, -⟩ := h 2 _ (.error ⟨"down"⟩) rfl happlied
  exact congrArg (fun messages : List Chat.Message => messages[2]?) hmessages

end CellReview.Review
