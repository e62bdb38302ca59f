import CellReview.Completion.Client
import CellReview.Proofs.Text.Blank

/-!
# What an exchange amounts to

A conversation is sent once if there is a key for it and not at all without one.  What comes
back is a reply if the backend welcomes the request and its body offers a text; everything else
is a failure in words.

* `Metered` — a transport with what it carried;
* `Keyed`, `Replies`, `Brought` — when there is a key, and when an exchange brings a reply;
* `isSome_apiKey?_iff` — a key is found exactly if there is one;
* `answerOf_eq_ok_iff`, `answerOf_error_ne_empty` — **an exchange brings a reply, or a failure
  with a message**;
* `complete_of_keyed`, `complete_of_not_keyed` — a conversation with a key, and without one;
* `complete_carries` — **what is carried for a conversation, and its answer**.
-/

namespace CellReview.Completion

open Chat (ChatMessage)

/-! ## What is carried -/

/-- A transport that keeps each request that it carries with what came of it. -/
structure Metered (τ : Type) where
  transport : τ
  carried : List (Post × Exchange)

instance {τ : Type} [Transport τ] : Transport (Metered τ) where
  send m p :=
    let (transport, exchange) := Transport.send m.transport p
    (⟨transport, m.carried ++ [(p, exchange)]⟩, exchange)

/-! ## The key -/

/-- Whether the settings, or the variable that they name, hold a key that is not blank. -/
def Keyed (s : LlmSettings) (env : Environment) : Prop :=
  (∃ key, s.apiKey = some key ∧ ∃ c ∈ key.toList, isBlank c = false) ∨
    ∃ key, env.get? s.apiKeyEnv = some key ∧ ∃ c ∈ key.toList, isBlank c = false

theorem isSome_nonBlank?_iff {s : String} :
    (nonBlank? s).isSome = true ↔ ∃ c ∈ s.toList, isBlank c = false := by
  have hblank : (Text.trim s).isEmpty = true ↔ ∀ c ∈ s.toList, isBlank c = true := by
    rw [String.isEmpty_iff, ← Chars.trim_eq_nil_iff, Text.trim, ← String.toList_inj,
      String.toList_ofList]
    rfl
  rw [nonBlank?]
  by_cases h : (Text.trim s).isEmpty = true
  · simpa [h] using hblank.1 h
  · simpa [h] using mt hblank.2 h

theorem isSome_bind_nonBlank?_iff {key : Option String} :
    (key.bind nonBlank?).isSome = true ↔
      ∃ s, key = some s ∧ ∃ c ∈ s.toList, isBlank c = false := by
  cases key with
  | none => simp
  | some s => simp only [Option.bind_some, isSome_nonBlank?_iff, Option.some.injEq, exists_eq_left']

/-- A key is found exactly if there is one. -/
theorem isSome_apiKey?_iff {s : LlmSettings} {env : Environment} :
    (s.apiKey? env).isSome = true ↔ Keyed s env := by
  rw [Keyed, ← isSome_bind_nonBlank?_iff, ← isSome_bind_nonBlank?_iff, LlmSettings.apiKey?]
  cases s.apiKey.bind nonBlank? <;> simp

/-! ## Replies and failures -/

/-- Whether an exchange brings a reply: the backend welcomes the request, and the body of its
response is JSON whose first choice holds a message with the given content. -/
inductive Replies (content : String) : Exchange → Prop where
  | mk {status : Nat} {body : String} {v first message : Json} {rest : List Json}
      (hstatus : 200 ≤ status ∧ status ≤ 299) (hbody : Json.parse? body = some v)
      (hchoices : v.get? "choices" = some (.array (first :: rest)))
      (hmessage : first.get? "message" = some message)
      (hcontent : message.get? "content" = some (.string content)) :
      Replies content (.ok ⟨status, .ok body⟩)

/-- What is carried brings a reply. -/
def Brought (content : String) (carried : List (Post × Exchange)) : Prop :=
  ∃ p x, carried = [(p, x)] ∧ Replies content x

theorem text?_eq_some_iff {v : Json} {s : String} : v.text? = some s ↔ v = .string s := by
  cases v <;> simp [Json.text?]

theorem firstChoice?_eq_some_iff {v first : Json} :
    firstChoice? v = some first ↔ ∃ rest, v.get? "choices" = some (.array (first :: rest)) := by
  rw [firstChoice?]
  constructor
  · intro h
    obtain ⟨items, hitems, hhead⟩ := Option.bind_eq_some_iff.1 h
    obtain ⟨choices, hchoices, hitems⟩ := Option.bind_eq_some_iff.1 hitems
    obtain ⟨rest, rfl⟩ := List.head?_eq_some_iff.1 hhead
    cases choices <;> simp [Json.items?] at hitems
    exact ⟨rest, by rw [hchoices, hitems]⟩
  · rintro ⟨rest, h⟩
    simp [h, Json.items?]

theorem content?_eq_some_iff {choice : Json} {content : String} :
    ((choice.get? "message").bind (Json.get? · "content")).bind Json.text? = some content ↔
      ∃ message, choice.get? "message" = some message ∧
        message.get? "content" = some (.string content) := by
  simp only [Option.bind_eq_some_iff, text?_eq_some_iff]
  constructor
  · rintro ⟨v, ⟨message, hmessage, hv⟩, rfl⟩
    exact ⟨message, hmessage, hv⟩
  · rintro ⟨message, hmessage, hcontent⟩
    exact ⟨_, ⟨message, hmessage, hcontent⟩, rfl⟩

/-- A welcome response brings a reply exactly if its body offers one. -/
theorem replyOf_eq_ok_iff {status : Nat} {body content : String}
    (hstatus : 200 ≤ status ∧ status ≤ 299) :
    (∃ reason, replyOf body = .ok ⟨content, reason⟩) ↔
      Replies content (.ok ⟨status, .ok body⟩) := by
  constructor
  · rintro ⟨reason, h⟩
    unfold replyOf at h
    split at h
    · exact absurd h (by simp)
    · rename_i v hbody
      split at h
      · exact absurd h (by simp)
      · rename_i first hfirst
        split at h
        · exact absurd h (by simp)
        · rename_i text htext
          obtain ⟨rest, hchoices⟩ := firstChoice?_eq_some_iff.1 hfirst
          obtain ⟨message, hmessage, hcontent⟩ := content?_eq_some_iff.1 htext
          obtain ⟨rfl, -⟩ := Reply.mk.inj (Except.ok.inj h)
          exact .mk hstatus hbody hchoices hmessage hcontent
  · intro h
    cases h with
    | mk _ hbody hchoices hmessage hcontent =>
      have hfirst := firstChoice?_eq_some_iff.2 ⟨_, hchoices⟩
      have htext := content?_eq_some_iff.2 ⟨_, hmessage, hcontent⟩
      simp only [replyOf, hbody, hfirst, htext]
      exact ⟨_, rfl⟩

/-- An exchange amounts to a reply exactly if it brings one. -/
theorem answerOf_eq_ok_iff {x : Exchange} {content : String} :
    (∃ reason, answerOf x = .ok ⟨content, reason⟩) ↔ Replies content x := by
  match x with
  | .error f =>
    constructor
    · rintro ⟨reason, h⟩
      exact absurd h (by simp [answerOf])
    · intro h
      cases h
  | .ok ⟨status, .error f⟩ =>
    constructor
    · rintro ⟨reason, h⟩
      exact absurd h (by simp [answerOf])
    · intro h
      cases h
  | .ok ⟨status, .ok body⟩ =>
    by_cases hstatus : 200 ≤ status ∧ status ≤ 299
    · rw [← replyOf_eq_ok_iff hstatus]
      simp only [answerOf, if_pos hstatus]
    · constructor
      · rintro ⟨reason, h⟩
        simp only [answerOf, if_neg hstatus] at h
        exact absurd h (by simp)
      · rintro ⟨hwelcome⟩
        exact absurd hwelcome hstatus

theorem append_ne_empty {s : String} (t : String) (h : s ≠ "") : s ++ t ≠ "" := by
  intro hst
  exact h (String.append_eq_empty_iff.1 hst).1

theorem Failure.wording_ne_empty (f : Failure) : f.wording ≠ "" := by
  unfold wording
  split
  · decide
  split
  · decide
  split
  · decide
  · exact append_ne_empty _ (by decide)

theorem statusWording_ne_empty (status : Nat) (body : String) : statusWording status body ≠ "" := by
  unfold statusWording
  split
  · decide
  split
  · exact append_ne_empty _ (by decide)
  split
  · exact append_ne_empty _ (append_ne_empty _ (append_ne_empty _ (by decide)))
  · exact append_ne_empty _ (append_ne_empty _ (append_ne_empty _ (by decide)))

theorem replyOf_error_ne_empty {body : String} {e : TransportError}
    (h : replyOf body = .error e) : e.message ≠ "" := by
  unfold replyOf at h
  split at h
  · cases h
    decide
  split at h
  · cases h
    decide
  split at h
  · cases h
    decide
  · exact absurd h (by simp)

/-- A failure has a message. -/
theorem answerOf_error_ne_empty {x : Exchange} {e : TransportError}
    (h : answerOf x = .error e) : e.message ≠ "" := by
  match x with
  | .error f =>
    cases h
    exact f.wording_ne_empty
  | .ok ⟨status, .error f⟩ =>
    cases h
    exact f.wording_ne_empty
  | .ok ⟨status, .ok body⟩ =>
    by_cases hstatus : 200 ≤ status ∧ status ≤ 299
    · simp only [answerOf, if_pos hstatus] at h
      exact replyOf_error_ne_empty h
    · simp only [answerOf, if_neg hstatus] at h
      cases h
      exact statusWording_ne_empty status body

theorem missingKey_ne_empty (s : LlmSettings) : (missingKey s).message ≠ "" := by
  intro h
  exact absurd (String.append_eq_empty_iff.1 h).2 (by decide)

/-! ## Sending a conversation -/

section Complete

variable {τ : Type} [Transport τ] {m : Metered τ} {s : LlmSettings} {env : Environment}

/-- Without a key nothing is carried. -/
theorem complete_of_not_keyed (h : ¬ Keyed s env) (messages : List ChatMessage) :
    complete m s env messages = (m, .error (missingKey s)) := by
  have hnone : s.apiKey? env = none := by
    rw [← Option.not_isSome_iff_eq_none, isSome_apiKey?_iff]
    exact h
  simp only [complete, post?, hnone, Option.map_none]

/-- With a key one request is carried, and what comes of it is the answer. -/
theorem complete_of_keyed (h : Keyed s env) (messages : List ChatMessage) :
    ∃ p x, (complete m s env messages).1.carried = m.carried ++ [(p, x)] ∧
      (complete m s env messages).2 = answerOf x := by
  obtain ⟨key, hkey⟩ := Option.isSome_iff_exists.1 (isSome_apiKey?_iff.2 h)
  simp only [complete, post?, hkey, Option.map_some]
  exact ⟨_, _, rfl, rfl⟩

/-- A conversation is carried at most once, and not at all exactly if there is no key.  Its answer
is the reply that was brought, or a failure with a message. -/
theorem complete_carries (m : Metered τ) (s : LlmSettings) (env : Environment)
    (messages : List ChatMessage) :
    ∃ carried, (complete m s env messages).1.carried = m.carried ++ carried ∧
      carried.length ≤ 1 ∧ (carried = [] ↔ ¬ Keyed s env) ∧
      (∀ content, Brought content carried →
        ∃ reason, (complete m s env messages).2 = .ok ⟨content, reason⟩) ∧
      ((∀ content, ¬ Brought content carried) →
        ∃ e, (complete m s env messages).2 = .error e ∧ e.message ≠ "") := by
  by_cases hkeyed : Keyed s env
  · obtain ⟨p, x, hcarried, hx⟩ := complete_of_keyed (m := m) hkeyed messages
    refine ⟨[(p, x)], hcarried, Nat.le_refl 1, by simp [hkeyed], ?_, fun hnone => ?_⟩
    · rintro content ⟨_, _, hone, hreplies⟩
      obtain ⟨rfl, rfl⟩ := Prod.mk.inj (List.singleton_inj.1 hone)
      rw [hx]
      exact answerOf_eq_ok_iff.2 hreplies
    · cases hanswer : answerOf x with
      | ok reply =>
        exact absurd ⟨p, x, rfl, answerOf_eq_ok_iff.1 ⟨_, hanswer⟩⟩ (hnone reply.text)
      | error e => exact ⟨e, hx.trans hanswer, answerOf_error_ne_empty hanswer⟩
  · rw [complete_of_not_keyed hkeyed]
    refine ⟨[], (List.append_nil _).symm, Nat.zero_le 1, by simp [hkeyed], ?_, fun _ => ?_⟩
    · rintro content ⟨_, _, hone, -⟩
      exact absurd hone (by simp)
    · exact ⟨_, rfl, missingKey_ne_empty s⟩

end Complete

end CellReview.Completion
