import CellReview.Proofs.Review.History

/-!
# The last request wins

An answer counts when it belongs to the newest request, the conversation was not cleared
since that request was issued, and no answer was taken for it before.  Every other answer
is discarded without a trace but for one event.

* `RequestChange` — what a move does to the conversation and the outstanding request;
* `Outstanding` — the rule above, told by the history of a run;
* `Told` — the invariant that ties the outstanding request to the history;
* `resolve_isApplied_iff` — **an answer is taken exactly by that rule**.
-/

namespace CellReview.Review

open Chat (Conversation DisplayType Message)
open Completion (Answer)

/-! ## The outstanding request -/

/-- The text that an answer adds to the conversation. -/
def answerText : Answer → String
  | .error e => e.message
  | .ok reply => reply.text

/-- Whether an answer is a failure. -/
def answerFailed : Answer → Bool
  | .error _ => true
  | .ok _ => false

/-- What a turn is added to: the conversation, a fresh one, or what stands before one of the
user's messages. -/
inductive Kept (s : State) : Conversation → Prop where
  | log : Kept s s.log
  | fresh : Kept s s.freshLog
  | before {index : Nat} {m : Message} (hget : s.log.get? index = some m)
      (hrole : m.role = .user) : Kept s (s.log.truncate index)

/-- What a move does to the conversation and the outstanding request. -/
inductive RequestChange (s : Session) (op : Operation) (t : Transition Result) : Prop where
  /-- A turn is added, and the request about it becomes the outstanding one. -/
  | issue (r : Request) {kept : Conversation} {content shown : String} {type : DisplayType}
      (hop : op ≠ .clear) (hanswer : t.answer = .issued r)
      (hnumber : r.number = s.seat.state.latest + 1) (hlatest : t.state.latest = r.number)
      (hflight : t.state.inFlight = some r.number) (hsnapshot : r.snapshot = t.state.log)
      (hkept : Kept s.seat.state kept)
      (hlog : t.state.log = kept.addTurn content (some shown) type)
  /-- The outstanding request is given up. -/
  | giveUp (hop : op = .clear) (hquiet : t.answer.requests = [])
      (happlied : t.answer.isApplied = false) (hlatest : t.state.latest = s.seat.state.latest)
      (hflight : t.state.inFlight = none) (hlog : t.state.log = s.seat.state.freshLog)
  /-- An answer to the outstanding request is taken. -/
  | take {id : Nat} {answer : Answer} {r : Request} (hop : op = .resolve id answer)
      (hr : s.issued[id]? = some r) (hwait : s.seat.state.inFlight = some r.number)
      (hquiet : t.answer.requests = []) (happlied : t.answer.isApplied = true)
      (hlatest : t.state.latest = s.seat.state.latest) (hflight : t.state.inFlight = none)
      (hlog : t.state.log =
        s.seat.state.log.addAssistant (answerText answer) (answerFailed answer))
  /-- The outstanding request, if there is one, stays so. -/
  | keep (hop : op ≠ .clear) (hquiet : t.answer.requests = [])
      (happlied : t.answer.isApplied = false) (hlatest : t.state.latest = s.seat.state.latest)
      (hflight : t.state.inFlight = s.seat.state.inFlight)
      (hlog : t.state.log = s.seat.state.log)

theorem Move.requestChange {s : Session} {op : Operation} {t : Transition Result}
    (h : Move s op t) : RequestChange s op t := by
  cases h with
  | ask content shown type intent hop hkept =>
    refine .issue _ ?_ rfl rfl rfl rfl rfl ?_ rfl
    · rintro rfl
      simp at hop
    · rcases hkept with rfl | rfl
      · exact .log
      · exact .fresh
  | edit input hget hrole =>
    exact .issue _ (by simp) rfl rfl rfl rfl rfl (.before hget hrole) rfl
  | clear => exact .giveUp rfl rfl rfl rfl rfl rfl
  | discard answer hr hlate => exact .keep (by simp) rfl rfl rfl rfl rfl
  | fail e hr hwait => exact .take rfl hr hwait rfl rfl rfl rfl rfl
  | explained reply hr hwait hintent => exact .take rfl hr hwait rfl rfl rfl rfl rfl
  | noCode reply hr hwait hintent hcode => exact .take rfl hr hwait rfl rfl rfl rfl rfl
  | propose reply hr hwait hintent hcode => exact .take rfl hr hwait rfl rfl rfl rfl rfl
  | accept hopen => exact .keep (by simp) rfl rfl rfl rfl rfl
  | reject hopen => exact .keep (by simp) rfl rfl rfl rfl rfl
  | apply hcode => exact .keep (by simp) rfl rfl rfl rfl rfl
  | rest result vars hop hresolve hidle =>
    exact .keep hop (Result.requests_of_isIdle hidle) (Result.isApplied_of_isIdle hidle) rfl rfl rfl

/-- Request `id` is the newest one, the conversation was not cleared since it was issued,
and no answer was taken for it. -/
structure Outstanding (past : List Moment) (now : Session) (id : Nat) : Prop where
  newest : id + 1 = now.issued.length
  kept : ∀ m ∈ past, m.op = .clear → m.before.issued.length ≤ id
  unanswered : ∀ m ∈ past, m.applies id = false

theorem Outstanding.countP_applies {past : List Moment} {now : Session} {id : Nat}
    (h : Outstanding past now id) : past.countP (Moment.applies id) = 0 := by
  rw [List.countP_eq_zero]
  intro m hm
  rw [h.unanswered m hm]
  exact Bool.false_ne_true

/-- What the fields of a review say about the history of the run. -/
structure Told (past : List Moment) (now : Session) : Prop where
  latest_eq : now.seat.state.latest = now.issued.length
  number_eq : ∀ {i r}, now.issued[i]? = some r → r.number = i + 1
  grown : ∀ m ∈ past, m.before.issued.length ≤ now.issued.length
  known : ∀ m ∈ past, ∀ id, m.applies id = true → id < m.before.issued.length
  once : ∀ id, past.countP (Moment.applies id) ≤ 1
  awaits : ∀ id, now.seat.state.inFlight = some (id + 1) ↔ Outstanding past now id

theorem told_start (bench : Bench) (settings : ChatSettings) :
    Told [] (Session.start bench settings) where
  latest_eq := rfl
  number_eq h := by simp [Session.start] at h
  grown m hm := absurd hm List.not_mem_nil
  known m hm := absurd hm List.not_mem_nil
  once id := by simp
  awaits id := by
    constructor
    · intro h
      simp [Session.start, State.start] at h
    · rintro ⟨newest, -, -⟩
      simp [Session.start] at newest

/-! ## The invariant -/

section Step

variable {past : List Moment} {now : Session} {op : Operation} {t : Transition Result}

/-- An answer that is taken belongs to the outstanding request. -/
theorem RequestChange.wait_of_applies (h : RequestChange now op t) {id : Nat}
    (happlies : (⟨now, op, t.answer⟩ : Moment).applies id = true) :
    ∃ r, now.issued[id]? = some r ∧ now.seat.state.inFlight = some r.number := by
  obtain ⟨⟨answer, hop⟩, hresult⟩ := Moment.applies_iff.1 happlies
  cases h with
  | issue r _ hanswer => simp [hanswer, Result.isApplied] at hresult
  | giveUp _ _ happlied => simp [happlied] at hresult
  | take hop' hr hwait =>
    cases hop.symm.trans hop'
    exact ⟨_, hr, hwait⟩
  | keep _ _ happlied => simp [happlied] at hresult

/-- The outstanding request is the newest one. -/
theorem Told.outstanding_of_applies (h : Told past now) (hmove : RequestChange now op t) {id : Nat}
    (happlies : (⟨now, op, t.answer⟩ : Moment).applies id = true) : Outstanding past now id := by
  obtain ⟨r, hr, hwait⟩ := hmove.wait_of_applies happlies
  rw [h.number_eq hr] at hwait
  exact (h.awaits id).1 hwait

theorem Told.known_concat (h : Told past now) (hmove : RequestChange now op t) :
    ∀ m ∈ past ++ [(⟨now, op, t.answer⟩ : Moment)], ∀ id, m.applies id = true →
      id < m.before.issued.length := by
  intro m hm id happlies
  rcases List.mem_append.1 hm with hm | hm
  · exact h.known m hm id happlies
  · obtain rfl := List.mem_singleton.1 hm
    have := (h.outstanding_of_applies hmove happlies).newest
    exact Nat.lt_of_succ_le (Nat.le_of_eq this)

theorem Told.once_concat (h : Told past now) (hmove : RequestChange now op t) (id : Nat) :
    List.countP (Moment.applies id) (past ++ [⟨now, op, t.answer⟩]) ≤ 1 := by
  rw [List.countP_append, List.countP_singleton]
  by_cases happlies : (⟨now, op, t.answer⟩ : Moment).applies id = true
  · have hnone := (h.outstanding_of_applies hmove happlies).countP_applies
    rw [if_pos happlies]
    omega
  · rw [if_neg happlies]
    exact h.once id

/-- A newly issued request is outstanding, and no other one is. -/
theorem Told.awaits_issue (h : Told past now) {r : Request} (hop : op ≠ .clear)
    (hanswer : t.answer = .issued r) (hnumber : r.number = now.seat.state.latest + 1) (id : Nat) :
    some r.number = some (id + 1) ↔
      Outstanding (past ++ [⟨now, op, t.answer⟩]) (now.after op t) id := by
  rw [hnumber, h.latest_eq, Option.some.injEq, Nat.add_right_cancel_iff]
  have hlength : (now.after op t).issued.length = now.issued.length + 1 := by
    simp [Session.after, hanswer, Result.requests]
  constructor
  · rintro rfl
    refine ⟨hlength.symm, ?_, ?_⟩
    · intro m hm hclear
      rcases List.mem_append.1 hm with hm | hm
      · exact h.grown m hm
      · rw [List.mem_singleton.1 hm] at hclear
        exact absurd hclear hop
    · intro m hm
      rcases List.mem_append.1 hm with hm | hm
      · -- an answer was taken for older requests only
        by_contra happlies
        have := h.known m hm _ (by simpa using happlies)
        exact absurd (h.grown m hm) (Nat.not_le_of_lt this)
      · rw [List.mem_singleton.1 hm]
        exact Moment.applies_eq_false (by rw [hanswer]; rfl)
  · intro ho
    have := ho.newest
    omega

/-- Where no request is issued, one is outstanding afterwards if it was so before, the
conversation is not cleared and no answer is taken for it. -/
theorem outstanding_concat_iff (hquiet : t.answer.requests = []) (id : Nat) :
    Outstanding (past ++ [⟨now, op, t.answer⟩]) (now.after op t) id ↔
      Outstanding past now id ∧ op ≠ .clear ∧
        (⟨now, op, t.answer⟩ : Moment).applies id = false := by
  have hissued := Session.after_issued_of_quiet now op hquiet
  constructor
  · rintro ⟨newest, kept, unanswered⟩
    rw [hissued] at newest
    refine ⟨⟨newest, fun m hm => kept m (List.mem_append_left _ hm),
      fun m hm => unanswered m (List.mem_append_left _ hm)⟩, ?_, ?_⟩
    · intro hop
      have := kept _ (List.mem_append_right _ (List.mem_singleton_self _)) hop
      simp only at this
      omega
    · exact unanswered _ (List.mem_append_right _ (List.mem_singleton_self _))
  · rintro ⟨⟨newest, kept, unanswered⟩, hop, happlies⟩
    refine ⟨by rw [hissued]; exact newest, ?_, ?_⟩
    · intro m hm hclear
      rcases List.mem_append.1 hm with hm | hm
      · exact kept m hm hclear
      · rw [List.mem_singleton.1 hm] at hclear
        exact absurd hclear hop
    · intro m hm
      rcases List.mem_append.1 hm with hm | hm
      · exact unanswered m hm
      · rw [List.mem_singleton.1 hm]
        exact happlies

theorem Told.awaits_concat (h : Told past now) (hmove : RequestChange now op t) (id : Nat) :
    t.state.inFlight = some (id + 1) ↔
      Outstanding (past ++ [⟨now, op, t.answer⟩]) (now.after op t) id := by
  cases hmove with
  | issue r hop hanswer hnumber _ hflight =>
    rw [hflight]
    exact h.awaits_issue hop hanswer hnumber id
  | giveUp hop hquiet _ _ hflight =>
    rw [hflight, outstanding_concat_iff hquiet]
    simp [hop]
  | @take k answer r hop hr hwait hquiet happlied _ hflight =>
    rw [hflight, outstanding_concat_iff hquiet, ← h.awaits id, hwait, h.number_eq hr]
    constructor
    · intro hnone
      exact absurd hnone (by simp)
    · rintro ⟨hid, -, happlies⟩
      obtain rfl : k = id := by simpa using hid
      rw [Moment.applies_iff.2 ⟨⟨answer, hop⟩, happlied⟩] at happlies
      exact absurd happlies (by simp)
  | keep hop hquiet happlied _ hflight =>
    rw [hflight, outstanding_concat_iff hquiet, h.awaits id]
    have happlies : (⟨now, op, t.answer⟩ : Moment).applies id = false :=
      Moment.applies_eq_false happlied
    simp [hop, happlies]

/-- Every move keeps the invariant. -/
theorem Told.move (h : Told past now) (hmove : Move now op t) :
    Told (past ++ [⟨now, op, t.answer⟩]) (now.after op t) where
  latest_eq := by
    have hlatest := h.latest_eq
    cases hmove.requestChange <;> simp_all [Session.after, Result.requests]
  number_eq := by
    intro i r hr
    cases hmove.requestChange with
    | issue r' _ hanswer hnumber =>
      rw [Session.after, hanswer, Result.requests, List.getElem?_append] at hr
      split at hr
      · exact h.number_eq hr
      · have hi : i = now.issued.length ∧ r' = r := by
          rw [List.getElem?_singleton] at hr
          split at hr
          · exact ⟨by omega, by simpa using hr⟩
          · exact absurd hr (by simp)
        obtain ⟨rfl, rfl⟩ := hi
        rw [hnumber, h.latest_eq]
    | giveUp _ hquiet => exact h.number_eq (now.after_issued_of_quiet op hquiet ▸ hr)
    | take _ _ _ hquiet => exact h.number_eq (now.after_issued_of_quiet op hquiet ▸ hr)
    | keep _ hquiet => exact h.number_eq (now.after_issued_of_quiet op hquiet ▸ hr)
  grown := by
    intro m hm
    rcases List.mem_append.1 hm with hm | hm
    · refine Nat.le_trans (h.grown m hm) ?_
      simp [Session.after]
    · rw [List.mem_singleton.1 hm]
      simp [Session.after]
  known := h.known_concat hmove.requestChange
  once := h.once_concat hmove.requestChange
  awaits := h.awaits_concat hmove.requestChange

end Step

/-- The fields of a review agree with the history of every run. -/
theorem told_run (bench : Bench) (settings : ChatSettings) (ops : List Operation) :
    Told ((Session.start bench settings).history ops) ((Session.start bench settings).run ops) :=
  Session.run_induction (told_start bench settings) (fun _ _ _ _ h => h.move) ops

/-! ## The last request wins -/

/-- **The last request wins, exactly once.**  After any run, an answer to an issued request
is taken exactly if the request is outstanding by the history of the run: it is the newest
one, the conversation was not cleared since, and no answer was taken for it.  For no request
are two answers taken.  Every other answer is reported as stale, with the number of its
request and that of the newest one, and leaves the review, the cell with its writes, the
frames, the notebook and the issued requests as they were; it is recorded as discarded. -/
theorem resolve_isApplied_iff (bench : Bench) (settings : ChatSettings) (ops : List Operation)
    (id : Nat) (r : Request) (answer : Answer)
    (hr : ((Session.start bench settings).run ops).issued[id]? = some r) :
    let past := (Session.start bench settings).history ops
    let now := (Session.start bench settings).run ops
    let later := now.step (.resolve id answer)
    (later.2.isApplied = true ↔ Outstanding past now id) ∧
    past.countP (Moment.applies id) ≤ 1 ∧
    (later.2.isApplied = false →
      later.2 = .resolved (.stale r.number now.seat.state.latest) ∧
      r.number = id + 1 ∧ now.seat.state.latest = now.issued.length ∧
      later.1.seat.state = now.seat.state ∧ later.1.issued = now.issued ∧
      later.1.seat.host.cell = now.seat.host.cell ∧
      later.1.seat.host.frames = now.seat.host.frames ∧
      later.1.seat.host.notebook = now.seat.host.notebook ∧
      later.1.seat.host =
        now.seat.host.perform
          (.record (.completionDiscarded r.number now.seat.state.latest))) := by
  intro past now later
  have htold : Told past now := told_run bench settings ops
  have hnumber : r.number = id + 1 := htold.number_eq hr
  have hlater : later =
      (now.after (.resolve id answer)
          ((now.seat.state.resolve now.seat.cell r answer).map .resolved),
        .resolved (now.seat.state.resolve now.seat.cell r answer).answer) :=
    now.step_resolve answer hr
  have htaken : later.2.isApplied = true ↔ now.seat.state.inFlight = some r.number := by
    rw [hlater]
    exact State.isApplied_resolve_iff
  refine ⟨?_, htold.once id, ?_⟩
  · rw [htaken, hnumber]
    exact htold.awaits id
  · intro hstale
    have hlate : now.seat.state.inFlight ≠ some r.number := by
      intro hwait
      rw [htaken.2 hwait] at hstale
      exact absurd hstale (by simp)
    rw [State.resolve_late hlate] at hlater
    rw [hlater]
    refine ⟨rfl, hnumber, htold.latest_eq, rfl, List.append_nil _, ?_, ?_, ?_, rfl⟩
    · rw [Session.after, Bench.cell_performAll]
      rfl
    · rw [Session.after, Bench.frames_performAll]
      exact List.append_nil _
    · rw [Session.after, Bench.notebook_performAll]
      rfl

/-- Two tasks are sent and the second request fails: a late answer to the first one is stale,
and the failure is the only answer that was taken for the second one. -/
theorem resolve_isApplied_iff_two_tasks :
    let ops : List Operation := [.send "double it", .send "halve it", .resolve 1 (.error ⟨"down"⟩)]
    let session := Session.start (.start (some "x = 1") .proposed "a" ["a"]) .standard
    let now := session.run ops
    (∃ r, now.issued[0]? = some r) ∧
    (now.step (.resolve 0 (.ok (.ofText "x = 2")))).2 = .resolved (.stale 1 2) ∧
    (now.step (.resolve 1 (.ok (.ofText "x = 0.5")))).2 = .resolved (.stale 2 2) ∧
    (session.history ops).countP (Moment.applies 1) = 1 := by
  intro ops session now
  have first := resolve_isApplied_iff (.start (some "x = 1") .proposed "a" ["a"]) .standard ops 0
    _ (.ok (.ofText "x = 2")) rfl
  have second := resolve_isApplied_iff (.start (some "x = 1") .proposed "a" ["a"]) .standard ops 1
    _ (.ok (.ofText "x = 0.5")) rfl
  have applied : (session.history ops).countP (Moment.applies 1) = 1 := rfl
  refine ⟨⟨_, rfl⟩, (first.2.2 ?_).1, (second.2.2 ?_).1, applied⟩
  · rw [Bool.eq_false_iff, Ne, first.1]
    intro outstanding
    exact absurd outstanding.newest (by decide)
  · rw [Bool.eq_false_iff, Ne, second.1]
    intro outstanding
    exact absurd (applied.symm.trans outstanding.countP_applies) (by decide)

end CellReview.Review
