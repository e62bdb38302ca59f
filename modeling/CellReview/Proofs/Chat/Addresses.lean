import CellReview.Chat.Change
import CellReview.Proofs.Chat.Turns

/-!
# Messages are found at their index

A message carries the index at which it was put, and no change moves it.  So the index in an
entry of the view for the user leads back to its message, in the conversation and in the view
for the backend, after any changes.

* `Change.target?`, `Change.message` — the message that a change puts at the end, and whose
  place it takes;
* `Conversation.change_of_append`, `Conversation.change_of_user`,
  `Conversation.change_of_not_user` — **a change adds, replaces or is refused**;
* `Indexed` — the invariant: the first message is the given one, and every message is at its
  index;
* `indexed_changeAll` — every change keeps it;
* `changeAll_indexed_views` — **the views, the latest reply and the answers to changes, after
  any changes**.
-/

namespace CellReview.Chat

/-! ## What a change does -/

namespace Change

/-- The index of the message whose place the new one takes. -/
def target? : Change → Option Nat
  | .replace index _ | .replaceTurn index _ _ _ => some index
  | _ => none

/-- The message that a change puts at an index. -/
def message (index : Nat) : Change → Message
  | .system text => ⟨.system, text, none, .normal, index⟩
  | .user text type => ⟨.user, text, none, type, index⟩
  | .turn content display type => ⟨.user, content, display, type, index⟩
  | .assistant text failed =>
    ⟨.assistant, text, none, if failed then .connectionError else .normal, index⟩
  | .replace _ text => ⟨.user, text, none, .normal, index⟩
  | .replaceTurn _ content display type => ⟨.user, content, display, type, index⟩

@[simp] theorem index_message (change : Change) (index : Nat) :
    (change.message index).index = index := by
  cases change <;> rfl

end Change

namespace Conversation

variable {c : Conversation} {change : Change}

/-- A change that takes no message's place adds a message. -/
theorem change_of_append (h : change.target? = none) :
    c.change change = (⟨c.messages ++ [change.message c.length]⟩, .ok c.length) := by
  cases change with
  | replace index text => exact absurd h (by simp [Change.target?])
  | replaceTurn index content display type => exact absurd h (by simp [Change.target?])
  | _ => rfl

theorem length_truncate_of_get? {index : Nat} {m : Message} (h : c.get? index = some m) :
    (c.truncate index).length = index := by
  have := lt_length_of_get? h
  simp only [length, truncate, List.length_take] at this ⊢
  omega

theorem replaceTurn_of_user {index : Nat} {m : Message} (hget : c.get? index = some m)
    (hrole : m.role = .user) (content : String) (display : Option String) (type : DisplayType) :
    c.replaceTurn index content display type =
      .ok ⟨c.messages.take index ++ [⟨.user, content, display, type, index⟩]⟩ := by
  rw [replaceTurn, hget]
  simp only [hrole, if_true, addTurn, push, length_truncate_of_get? hget]
  rfl

theorem replaceTurn_of_not_user {index : Nat} (hno : ¬ ∃ m, c.get? index = some m ∧ m.role = .user)
    (content : String) (display : Option String) (type : DisplayType) :
    c.replaceTurn index content display type = .error ⟨index, c.length⟩ := by
  rw [replaceTurn]
  cases hget : c.get? index with
  | none => rfl
  | some m =>
    have hrole : m.role ≠ .user := fun hrole => hno ⟨m, hget, hrole⟩
    simp only [hrole, if_false]

/-- An edit of a user message keeps what stands before it and puts the new message behind. -/
theorem change_of_user {index : Nat} {m : Message} (h : change.target? = some index)
    (hget : c.get? index = some m) (hrole : m.role = .user) :
    c.change change = (⟨c.messages.take index ++ [change.message index]⟩, .ok index) := by
  cases change with
  | replace i text =>
    obtain rfl : i = index := by simpa [Change.target?] using h
    rw [Conversation.change, replaceUser, replaceTurn_of_user hget hrole, replaced,
      length_truncate_of_get? hget]
    rfl
  | replaceTurn i content display type =>
    obtain rfl : i = index := by simpa [Change.target?] using h
    rw [Conversation.change, replaceTurn_of_user hget hrole, replaced,
      length_truncate_of_get? hget]
    rfl
  | _ => exact absurd h (by simp [Change.target?])

/-- An edit of anything else is refused. -/
theorem change_of_not_user {index : Nat} (h : change.target? = some index)
    (hno : ¬ ∃ m, c.get? index = some m ∧ m.role = .user) :
    c.change change = (c, .error ⟨index, c.length⟩) := by
  cases change with
  | replace i text =>
    obtain rfl : i = index := by simpa [Change.target?] using h
    rw [Conversation.change, replaceUser, replaceTurn_of_not_user hno, replaced]
  | replaceTurn i content display type =>
    obtain rfl : i = index := by simpa [Change.target?] using h
    rw [Conversation.change, replaceTurn_of_not_user hno, replaced]
  | _ => exact absurd h (by simp [Change.target?])

end Conversation

/-! ## The invariant -/

/-- The first message is the system message for a prompt, and every message is at its index. -/
structure Indexed (prompt : String) (c : Conversation) : Prop where
  first : c.get? 0 = some ⟨.system, prompt, none, .normal, 0⟩
  index_eq : ∀ {i m}, c.get? i = some m → m.index = i

theorem indexed_start (prompt : String) : Indexed prompt (.start prompt) where
  first := rfl
  index_eq := by
    intro i m hm
    rw [Conversation.get?_start] at hm
    split at hm
    · rename_i hi
      cases hm
      exact hi.symm
    · exact absurd hm (by simp)

namespace Indexed

variable {prompt : String} {c : Conversation}

theorem length_pos (h : Indexed prompt c) : 0 < c.length :=
  Conversation.lt_length_of_get? h.first

/-- A message with the next index may be added. -/
theorem concat (h : Indexed prompt c) {m : Message} (hm : m.index = c.length) :
    Indexed prompt ⟨c.messages ++ [m]⟩ where
  first := by
    have hpos : 0 < c.messages.length := h.length_pos
    rw [Conversation.get?, List.getElem?_append_left hpos]
    exact h.first
  index_eq := by
    intro i n hn
    rw [Conversation.get?, List.getElem?_append] at hn
    split at hn
    · exact h.index_eq hn
    · rename_i hi
      rw [List.getElem?_singleton] at hn
      split at hn
      · cases hn
        simp only [Conversation.length] at hm
        omega
      · exact absurd hn (by simp)

/-- What stands before a message keeps the invariant. -/
theorem take (h : Indexed prompt c) {n : Nat} (hn : 0 < n) : Indexed prompt (c.truncate n) where
  first := by
    rw [Conversation.get?_truncate, if_pos hn]
    exact h.first
  index_eq := by
    intro i m hm
    rw [Conversation.get?_truncate] at hm
    split at hm
    · exact h.index_eq hm
    · exact absurd hm (by simp)

/-- Every change keeps the invariant. -/
theorem change (h : Indexed prompt c) (change : Change) :
    Indexed prompt (c.change change).1 := by
  cases htarget : change.target? with
  | none =>
    rw [Conversation.change_of_append htarget]
    exact h.concat (change.index_message _)
  | some index =>
    by_cases huser : ∃ m, c.get? index = some m ∧ m.role = .user
    · obtain ⟨m, hget, hrole⟩ := huser
      rw [Conversation.change_of_user htarget hget hrole]
      have hpos : 0 < index := Conversation.pos_of_user h.first rfl hget hrole
      refine (h.take hpos).concat ?_
      rw [Conversation.length_truncate_of_get? hget, change.index_message]
    · rw [Conversation.change_of_not_user htarget huser]
      exact h

end Indexed

/-- Every conversation that changes lead to keeps the invariant. -/
theorem indexed_changeAll (prompt : String) (changes : List Change) :
    Indexed prompt ((Conversation.start prompt).changeAll changes) := by
  have hall : ∀ c, Indexed prompt c → Indexed prompt (c.changeAll changes) := by
    induction changes with
    | nil => exact fun c h => h
    | cons change changes ih => exact fun c h => ih _ (h.change change)
  exact hall _ (indexed_start prompt)

/-! ## Views -/

namespace Indexed

variable {prompt : String} {c : Conversation}

theorem get?_of_mem (h : Indexed prompt c) {m : Message} (hm : m ∈ c.messages) :
    c.get? m.index = some m := by
  obtain ⟨i, hi⟩ := List.mem_iff_getElem?.1 hm
  have hindex : m.index = i := h.index_eq hi
  rw [hindex]
  exact hi

/-- The indices of the messages ascend. -/
theorem pairwise_messages (h : Indexed prompt c) :
    c.messages.Pairwise fun m n => m.index < n.index := by
  rw [List.pairwise_iff_getElem]
  intro i j hi hj hij
  have hm : c.messages[i].index = i := h.index_eq (List.getElem?_eq_getElem hi)
  have hn : c.messages[j].index = j := h.index_eq (List.getElem?_eq_getElem hj)
  rw [hm, hn]
  exact hij

/-- The indices of the shown messages ascend. -/
theorem pairwise_displayView (h : Indexed prompt c) :
    c.displayView.Pairwise fun d e => d.index < e.index :=
  List.pairwise_map.2 (h.pairwise_messages.filter _)

/-- The entries of the view are the messages that are not the system's, found at their index. -/
theorem mem_displayView_iff (h : Indexed prompt c) {e : DisplayEntry} :
    e ∈ c.displayView ↔
      ∃ m, c.get? e.index = some m ∧ m.role ≠ .system ∧ e = m.toEntry := by
  simp only [Conversation.displayView, List.mem_map, List.mem_filter, bne_iff_ne]
  constructor
  · rintro ⟨m, ⟨hm, hrole⟩, rfl⟩
    exact ⟨m, h.get?_of_mem hm, hrole, rfl⟩
  · rintro ⟨m, hget, hrole, rfl⟩
    exact ⟨m, ⟨List.mem_of_getElem? hget, hrole⟩, rfl⟩

/-- The latest reply is a reply, and no reply stands behind it. -/
theorem lastAssistant?_eq_some (h : Indexed prompt c) {m : Message}
    (hm : c.lastAssistant? = some m) :
    c.get? m.index = some m ∧ m.role = .assistant ∧
      ∀ {j n}, c.get? j = some n → n.role = .assistant → j ≤ m.index := by
  obtain ⟨hrole, later, earlier, hsplit, hlater⟩ := List.find?_eq_some_iff_append.1 hm
  have hmessages : c.messages = earlier.reverse ++ m :: later.reverse := by
    rw [← List.reverse_reverse c.messages, hsplit]
    simp
  have hascend := h.pairwise_messages
  rw [hmessages, List.pairwise_append] at hascend
  refine ⟨h.get?_of_mem (by simp [hmessages]), by simpa using hrole, fun {j n} hn hassistant => ?_⟩
  have hj : n.index = j := h.index_eq hn
  have hmem : n ∈ earlier.reverse ++ m :: later.reverse := hmessages ▸ List.mem_of_getElem? hn
  rw [← hj]
  rcases List.mem_append.1 hmem with hbefore | hbehind
  · exact Nat.le_of_lt (hascend.2.2 n hbefore m List.mem_cons_self)
  · rcases List.mem_cons.1 hbehind with rfl | hbehind
    · exact Nat.le_refl _
    · have := hlater n (List.mem_reverse.1 hbehind)
      exact absurd hassistant (by simpa using this)

theorem exists_lastAssistant? {i : Nat} {m : Message} (hm : c.get? i = some m)
    (hrole : m.role = .assistant) : ∃ n, c.lastAssistant? = some n := by
  rw [← Option.isSome_iff_exists, Conversation.lastAssistant?, List.find?_isSome]
  exact ⟨m, List.mem_reverse.2 (List.mem_of_getElem? hm), by simp [hrole]⟩

/-- The index of the latest reply is the greatest one of a reply. -/
theorem lastAssistantIndex?_eq_some_iff (h : Indexed prompt c) {i : Nat} :
    c.lastAssistantIndex? = some i ↔
      (∃ m, c.get? i = some m ∧ m.role = .assistant) ∧
        ∀ j m, c.get? j = some m → m.role = .assistant → j ≤ i := by
  rw [Conversation.lastAssistantIndex?, Option.map_eq_some_iff]
  constructor
  · rintro ⟨m, hm, rfl⟩
    obtain ⟨hget, hrole, hlast⟩ := h.lastAssistant?_eq_some hm
    exact ⟨⟨m, hget, hrole⟩, fun j n => hlast⟩
  · rintro ⟨⟨m, hget, hrole⟩, hgreatest⟩
    obtain ⟨n, hn⟩ := exists_lastAssistant? hget hrole
    obtain ⟨hget', hrole', hlast⟩ := h.lastAssistant?_eq_some hn
    exact ⟨n, hn, Nat.le_antisymm (hgreatest _ n hget' hrole') (hlast hget hrole)⟩

theorem lastAssistantIndex?_eq_none_iff (h : Indexed prompt c) :
    c.lastAssistantIndex? = none ↔ ∀ i m, c.get? i = some m → m.role ≠ .assistant := by
  rw [Conversation.lastAssistantIndex?, Option.map_eq_none_iff]
  constructor
  · intro hnone i m hm hrole
    obtain ⟨n, hn⟩ := exists_lastAssistant? hm hrole
    exact absurd (hnone.symm.trans hn) (by simp)
  · intro hno
    cases hlast : c.lastAssistant? with
    | none => rfl
    | some m =>
      obtain ⟨hget, hrole, -⟩ := h.lastAssistant?_eq_some hlast
      exact absurd hrole (hno _ m hget)

end Indexed

/-! ## The answers to changes -/

namespace Conversation

variable {c : Conversation} {change : Change}

theorem answer_eq_ok_iff {index : Nat} (h : change.target? = some index) :
    (∃ i, (c.change change).2 = .ok i) ↔ ∃ m, c.get? index = some m ∧ m.role = .user := by
  by_cases huser : ∃ m, c.get? index = some m ∧ m.role = .user
  · obtain ⟨m, hget, hrole⟩ := huser
    rw [change_of_user h hget hrole]
    exact ⟨fun _ => ⟨m, hget, hrole⟩, fun _ => ⟨index, rfl⟩⟩
  · rw [change_of_not_user h huser]
    refine ⟨?_, fun h => absurd h huser⟩
    rintro ⟨i, hi⟩
    exact absurd hi (by simp)

/-- A change that is not refused answers with the last index. -/
theorem eq_of_answer_ok {i : Nat} (h : (c.change change).2 = .ok i) :
    i = (c.change change).1.length - 1 := by
  cases htarget : change.target? with
  | none =>
    rw [change_of_append htarget] at h ⊢
    cases h
    simp [length]
  | some index =>
    obtain ⟨m, hget, hrole⟩ := (answer_eq_ok_iff htarget).1 ⟨i, h⟩
    have hlt : index < c.messages.length := lt_length_of_get? hget
    rw [change_of_user htarget hget hrole] at h ⊢
    cases h
    simp only [length, List.length_append, List.length_take, List.length_singleton]
    omega

end Conversation

/-- **Messages stay at their index, and the views lead back to them.**  After any changes the
conversation is not empty, the first message is the system message it was begun with, and every
message carries its position.  The view for the user shows the messages that are not the
system's, each once and in order; the index of an entry leads to its message in the conversation
and to the same message in the view for the backend.  The latest reply is the one at the greatest
index.  A change that adds a message, and an edit of a user message, answer with the last index;
an edit keeps what stands before the edited message and ends in the new one.  Every other edit is
refused with its index and the length, and changes nothing. -/
theorem changeAll_indexed_views (prompt : String) (changes : List Change) :
    let c := (Conversation.start prompt).changeAll changes
    (0 < c.length ∧ c.get? 0 = some ⟨.system, prompt, none, .normal, 0⟩ ∧
      ∀ i m, c.get? i = some m → m.index = i) ∧
    (c.displayView.Pairwise (fun d e => d.index < e.index) ∧
      (∀ e ∈ c.displayView, ∃ m, c.get? e.index = some m ∧ m.role ≠ .system ∧ m.role = e.role ∧
        m.displayText = e.text ∧ c.modelView[e.index]? = some ⟨e.role, m.content⟩) ∧
      ∀ i m, c.get? i = some m → m.role ≠ .system → ∃ e ∈ c.displayView, e.index = i) ∧
    ((∀ i, c.lastAssistantIndex? = some i ↔
        (∃ m, c.get? i = some m ∧ m.role = .assistant) ∧
          ∀ j m, c.get? j = some m → m.role = .assistant → j ≤ i) ∧
      (c.lastAssistantIndex? = none ↔ ∀ i m, c.get? i = some m → m.role ≠ .assistant)) ∧
    ∀ change : Change,
      let later := (c.change change).1
      let answer := (c.change change).2
      (∀ i, answer = .ok i → i = later.length - 1) ∧
      (change.target? = none →
        answer = .ok c.length ∧ later.messages = c.messages ++ [change.message c.length]) ∧
      ∀ index, change.target? = some index →
        ((∃ i, answer = .ok i) ↔ ∃ m, c.get? index = some m ∧ m.role = .user) ∧
        ((∃ i, answer = .ok i) →
          (∀ i < index, later.get? i = c.get? i) ∧ later.length = index + 1 ∧
            later.messages.getLast? = some (change.message index)) ∧
        ((¬ ∃ i, answer = .ok i) → answer = .error ⟨index, c.length⟩ ∧ later = c) := by
  intro c
  have h : Indexed prompt c := indexed_changeAll prompt changes
  refine ⟨⟨h.length_pos, h.first, fun i m => h.index_eq⟩, ⟨h.pairwise_displayView, ?_, ?_⟩,
    ⟨fun i => h.lastAssistantIndex?_eq_some_iff, h.lastAssistantIndex?_eq_none_iff⟩, ?_⟩
  · intro e he
    obtain ⟨m, hget, hrole, rfl⟩ := h.mem_displayView_iff.1 he
    refine ⟨m, hget, hrole, rfl, rfl, ?_⟩
    rw [Conversation.modelView, List.getElem?_map]
    exact congrArg (Option.map Message.toChat) hget
  · intro i m hget hrole
    have hindex : m.index = i := h.index_eq hget
    refine ⟨m.toEntry, h.mem_displayView_iff.2 ⟨m, ?_, hrole, rfl⟩, hindex⟩
    exact h.get?_of_mem (List.mem_of_getElem? hget)
  · intro change later answer
    refine ⟨fun i => Conversation.eq_of_answer_ok, fun htarget => ?_, fun index htarget =>
      ⟨Conversation.answer_eq_ok_iff htarget, fun hok => ?_, fun hrefused => ?_⟩⟩
    · have hchange : (later, answer) = _ := Conversation.change_of_append htarget
      obtain ⟨hlater, hanswer⟩ := Prod.mk.inj hchange
      exact ⟨hanswer, congrArg Conversation.messages hlater⟩
    · obtain ⟨m, hget, hrole⟩ := (Conversation.answer_eq_ok_iff htarget).1 hok
      have hlater : later = ⟨c.messages.take index ++ [change.message index]⟩ :=
        congrArg Prod.fst (Conversation.change_of_user htarget hget hrole)
      have hlt : index < c.messages.length := Conversation.lt_length_of_get? hget
      rw [hlater]
      refine ⟨fun i hi => ?_, ?_, List.getLast?_concat⟩
      · have hi' : i < (c.messages.take index).length := by
          rw [List.length_take]
          omega
        rw [Conversation.get?, List.getElem?_append_left hi', List.getElem?_take_of_lt hi]
        rfl
      · simp only [Conversation.length, List.length_append, List.length_take,
          List.length_singleton]
        omega
    · have huser := fun h => hrefused ((Conversation.answer_eq_ok_iff htarget).2 h)
      have hchange : (later, answer) = _ := Conversation.change_of_not_user htarget huser
      obtain ⟨hlater, hanswer⟩ := Prod.mk.inj hchange
      exact ⟨hanswer, hlater⟩

/-- A second system message and a refused edit stand between the turns: the entry of the first
turn leads to it, an edit of it drops what followed, and an edit far behind the end is refused. -/
theorem changeAll_indexed_views_refused :
    let c := (Conversation.start "Be brief.").changeAll
      [.system "Use loops.", .turn "Task: print i" (some "print i") .normal,
        .assistant "Which i?" false, .replace 3 "the first", .user "the first" .normal]
    let far := 18446744073709551615
    (∃ m, c.get? 2 = some m ∧ m.role = .user ∧ m.displayText = "print i") ∧
    (c.change (.replace 2 "print j")).1.length = 3 ∧
    (c.change (.replace far "print j")).2 = .error ⟨far, 5⟩ ∧
    ∀ j m, c.get? j = some m → m.role = .assistant → j ≤ 3 := by
  intro c far
  obtain ⟨-, ⟨-, hentry, -⟩, ⟨hlast, -⟩, hchange⟩ := changeAll_indexed_views "Be brief."
    [.system "Use loops.", .turn "Task: print i" (some "print i") .normal,
      .assistant "Which i?" false, .replace 3 "the first", .user "the first" .normal]
  obtain ⟨-, -, hedit⟩ := hchange (.replace 2 "print j")
  obtain ⟨-, -, hfar⟩ := hchange (.replace far "print j")
  obtain ⟨hok, hkept, -⟩ := hedit 2 rfl
  obtain ⟨hok', -, hrefused⟩ := hfar far rfl
  refine ⟨?_, (hkept (hok.2 ⟨_, rfl, rfl⟩)).2.1, (hrefused ?_).1, ((hlast 3).1 rfl).2⟩
  · obtain ⟨m, hget, -, hrole, htext, -⟩ := hentry ⟨2, .user, "print i", .normal⟩ (by decide)
    exact ⟨m, hget, hrole, htext⟩
  · intro h
    obtain ⟨m, hget, -⟩ := hok'.1 h
    have hnone : c.get? far = none := Conversation.get?_eq_none_of_length_le (by decide)
    exact absurd (hnone.symm.trans hget) (by simp)

end CellReview.Chat
