import CellReview.Chat.Conversation
import Mathlib.Tactic.ByContra

/-!
# Conversations in turns

A conversation is in turns when it begins with its only system message and every reply
directly follows a user message.

* `Conversation.get?_push`, `Conversation.get?_truncate` — the messages of a longer and of
  a shorter conversation;
* `InTurns` — the shape;
* `InTurns.addTurn`, `InTurns.addAssistant`, `InTurns.truncate` — **it survives a turn, a
  reply to a turn, and a cut behind the system message**.
-/

namespace CellReview.Chat

namespace Conversation

theorem get?_push (c : Conversation) (role : Role) (content : String) (display : Option String)
    (type : DisplayType) (i : Nat) :
    (c.push role content display type).get? i =
      if i = c.length then some ⟨role, content, display, type, c.length⟩ else c.get? i := by
  rw [get?, push, List.getElem?_append]
  by_cases hlt : i < c.messages.length
  · rw [if_pos hlt, if_neg (fun heq : i = c.length => Nat.ne_of_lt hlt heq)]
    rfl
  · by_cases heq : i = c.length
    · rw [if_neg hlt, if_pos heq, heq, length, Nat.sub_self]
      rfl
    · have hgt : c.messages.length < i := Nat.lt_of_le_of_ne (Nat.not_lt.1 hlt) (Ne.symm heq)
      rw [if_neg hlt, if_neg heq, get?, List.getElem?_eq_none (Nat.le_of_lt hgt),
        List.getElem?_eq_none]
      exact Nat.sub_pos_of_lt hgt

theorem get?_start (prompt : String) (i : Nat) :
    (start prompt).get? i = if i = 0 then some ⟨.system, prompt, none, .normal, 0⟩ else none :=
  get?_push ⟨[]⟩ .system prompt none .normal i

theorem get?_truncate (c : Conversation) (n i : Nat) :
    (c.truncate n).get? i = if i < n then c.get? i else none := by
  rw [get?, truncate, List.getElem?_take]
  rfl

theorem get?_eq_none_of_length_le {c : Conversation} {i : Nat} (h : c.length ≤ i) :
    c.get? i = none :=
  List.getElem?_eq_none h

theorem lt_length_of_get? {c : Conversation} {i : Nat} {m : Message} (h : c.get? i = some m) :
    i < c.length :=
  (List.getElem?_eq_some_iff.1 h).1

/-- A user message stands behind a system message that is the first one. -/
theorem pos_of_user {c : Conversation} {first : Message} (hfirst : c.get? 0 = some first)
    (hsystem : first.role = .system) {i : Nat} {m : Message} (hm : c.get? i = some m)
    (hrole : m.role = .user) : 0 < i := by
  rcases Nat.eq_zero_or_pos i with rfl | hi
  · cases hm.symm.trans hfirst
    exact absurd (hsystem.symm.trans hrole) (by simp)
  · exact hi

/-- The last message is a user message. -/
def EndsInTurn (c : Conversation) : Prop :=
  ∃ m, c.messages.getLast? = some m ∧ m.role = .user

theorem endsInTurn_addTurn (c : Conversation) (content : String) (display : Option String)
    (type : DisplayType) : (c.addTurn content display type).EndsInTurn :=
  ⟨⟨.user, content, display, type, c.length⟩, List.getLast?_concat, rfl⟩

end Conversation

/-- A conversation under a system prompt, in turns of a user message and a reply to it. -/
structure InTurns (prompt : String) (c : Conversation) : Prop where
  first : c.get? 0 = some ⟨.system, prompt, none, .normal, 0⟩
  system_first : ∀ {i m}, c.get? i = some m → m.role = .system → i = 0
  follows : ∀ {i m}, c.get? i = some m → m.role = .assistant →
    ∃ j u, i = j + 1 ∧ c.get? j = some u ∧ u.role = .user

theorem inTurns_start (prompt : String) : InTurns prompt (.start prompt) where
  first := rfl
  system_first := by
    intro i m hm _
    by_contra hi
    rw [Conversation.get?_start, if_neg hi] at hm
    exact absurd hm (by simp)
  follows := by
    intro i m hm hrole
    rw [Conversation.get?_start] at hm
    split at hm
    · cases hm
      exact absurd hrole (by simp)
    · exact absurd hm (by simp)

namespace InTurns

variable {prompt : String} {c : Conversation}

theorem length_pos (h : InTurns prompt c) : 0 < c.length :=
  Conversation.lt_length_of_get? h.first

/-- A message that is not a system message may be pushed, a reply only behind a turn. -/
theorem push (h : InTurns prompt c) {role : Role} (content : String) (display : Option String)
    (type : DisplayType) (hrole : role ≠ .system)
    (hturn : role = .assistant → c.EndsInTurn) :
    InTurns prompt (c.push role content display type) where
  first := by
    rw [Conversation.get?_push, if_neg (Nat.ne_of_lt h.length_pos)]
    exact h.first
  system_first := by
    intro i m hm hsystem
    rw [Conversation.get?_push] at hm
    split at hm
    · cases hm
      exact absurd hsystem hrole
    · exact h.system_first hm hsystem
  follows := by
    intro i m hm hassistant
    rw [Conversation.get?_push] at hm
    split at hm
    · rename_i hi
      cases hm
      obtain ⟨u, hlast, huser⟩ := hturn hassistant
      obtain ⟨j, hj⟩ := Nat.exists_eq_add_of_lt h.length_pos
      refine ⟨j, u, by omega, ?_, huser⟩
      rw [Conversation.get?_push, if_neg (by omega), ← hlast, List.getLast?_eq_getElem?]
      exact congrArg (c.messages[·]?) (by simp only [Conversation.length] at hj; omega)
    · obtain ⟨j, u, hij, hu, huser⟩ := h.follows hm hassistant
      refine ⟨j, u, hij, ?_, huser⟩
      rw [Conversation.get?_push, if_neg, hu]
      rintro rfl
      rw [Conversation.get?_eq_none_of_length_le (Nat.le_refl _)] at hu
      exact absurd hu (by simp)

theorem addTurn (h : InTurns prompt c) (content : String) (display : Option String)
    (type : DisplayType) : InTurns prompt (c.addTurn content display type) :=
  h.push content display type (by simp) (by simp)

theorem addAssistant (h : InTurns prompt c) (hturn : c.EndsInTurn) (text : String)
    (failed : Bool) : InTurns prompt (c.addAssistant text failed) :=
  h.push text none _ (by simp) fun _ => hturn

theorem truncate (h : InTurns prompt c) {n : Nat} (hn : 0 < n) : InTurns prompt (c.truncate n) where
  first := by
    rw [Conversation.get?_truncate, if_pos hn]
    exact h.first
  system_first := by
    intro i m hm hsystem
    rw [Conversation.get?_truncate] at hm
    split at hm
    · exact h.system_first hm hsystem
    · exact absurd hm (by simp)
  follows := by
    intro i m hm hassistant
    rw [Conversation.get?_truncate] at hm
    split at hm
    · rename_i hi
      obtain ⟨j, u, hij, hu, huser⟩ := h.follows hm hassistant
      refine ⟨j, u, hij, ?_, huser⟩
      rw [Conversation.get?_truncate, if_pos (by omega)]
      exact hu
    · exact absurd hm (by simp)

/-- A user message stands behind the system message. -/
theorem pos_of_user (h : InTurns prompt c) {i : Nat} {m : Message} (hm : c.get? i = some m)
    (hrole : m.role = .user) : 0 < i :=
  Conversation.pos_of_user h.first rfl hm hrole

end InTurns

end CellReview.Chat
