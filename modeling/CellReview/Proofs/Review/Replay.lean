import CellReview.Proofs.Chat.Addresses
import CellReview.Proofs.Review.History
import Mathlib.Data.List.Basic

/-!
# The events of a run tell how its conversation stands

Whoever reads the recorded events of a review knows how long its conversation is, which number
the latest request has and whether an answer is awaited.  An event that does not fit to the ones
before it is never recorded.

* `Bench.attempts`, `Moment.recorded` — the events of an operation with what the disk said to
  them, and those that were recorded;
* `Replay`, `Replay.step`, `Replay.run` — what a reader knows, and how an event changes it;
* `Move.replay` — the events of a move lead from what holds before it to what holds after it;
* `events_determine_conversation` — **the recorded events of every run**.
-/

namespace CellReview.Review

open Chat (Conversation DisplayType Role)
open Observe (Event Observer)

/-! ## Recording -/

/-- The event that an effect asks to record. -/
def Effect.event? : Effect → Option Event
  | .record event => some event
  | _ => none

namespace Bench

/-- What an observer is told by an effect, with what went wrong when it was recorded. -/
def attempt (b : Bench) (e : Effect) : List (Event × Option DiskFault) :=
  match b.observer, e.event? with
  | some o, some event => [(event, (o.record b.disk b.now event).2.fault)]
  | _, _ => []

/-- What an observer is told by some effects, each on the disk that those before it left. -/
def attempts (b : Bench) : List Effect → List (Event × Option DiskFault)
  | [] => []
  | e :: effects => b.attempt e ++ (b.perform e).attempts effects

/-- An observer counts what it is told. -/
theorem observer_perform (b : Bench) (e : Effect) :
    (b.perform e).observer =
      b.observer.map fun o => { o with next := o.next + (b.attempt e).length } := by
  cases h : b.observer with
  | none => cases e <;> simp [perform, observe, h]
  | some o => cases e <;> simp [perform, observe, h, attempt, Effect.event?, Observer.record]

theorem observer_performAll (b : Bench) (effects : List Effect) :
    (b.performAll effects).observer =
      b.observer.map fun o => { o with next := o.next + (b.attempts effects).length } := by
  induction effects generalizing b with
  | nil => simp [attempts]
  | cons e effects ih =>
    rw [performAll_cons, ih, observer_perform, Option.map_map, attempts, List.length_append]
    simp only [Function.comp_def, Nat.add_assoc]

/-- An observer is told of every event. -/
theorem attempts_fst {b : Bench} (hobserved : b.observer.isSome = true) (effects : List Effect) :
    (b.attempts effects).map Prod.fst = effects.filterMap Effect.event? := by
  induction effects generalizing b with
  | nil => rfl
  | cons e effects ih =>
    have hlater : (b.perform e).observer.isSome = true := by
      rw [observer_perform, Option.isSome_map, hobserved]
    obtain ⟨o, ho⟩ := Option.isSome_iff_exists.1 hobserved
    rw [attempts, List.map_append, ih hlater, attempt, ho]
    cases e <;> simp [Effect.event?, List.filterMap_cons]

end Bench

theorem Operation.observer_touch (op : Operation) (b : Bench) :
    (op.touch b).observer = b.observer := by
  cases op <;> rfl

namespace Moment

/-- What the observer was told at a moment. -/
def attempts (m : Moment) : List (Event × Option DiskFault) :=
  (m.op.touch m.before.seat.host).attempts (m.before.transition m.op).effects

/-- The events that were recorded at a moment. -/
def recorded (m : Moment) : List Event :=
  m.attempts.filterMap fun (event, fault) => if fault = none then some event else none

/-- While nothing goes wrong, every event is recorded. -/
theorem recorded_eq {m : Moment} (hobserved : m.before.seat.host.observer.isSome = true)
    (happended : ∀ a ∈ m.attempts, a.2 = none) :
    m.recorded = (m.before.transition m.op).effects.filterMap Effect.event? := by
  have hall : m.recorded = m.attempts.map Prod.fst :=
    List.filterMap_eq_map_iff_forall_eq_some.2 fun a ha => if_pos (happended a ha)
  rw [hall, attempts, Bench.attempts_fst]
  rw [Operation.observer_touch, hobserved]

end Moment

/-! ## Reading the events -/

/-- What a reader of events knows of a conversation. -/
structure Replay where
  length : Nat
  /-- The number of the latest request. -/
  latest : Nat
  /-- Whether an answer is awaited. -/
  awaiting : Bool
  deriving DecidableEq, Repr

namespace Replay

/-- What is known before the first event. -/
def start : Replay := ⟨1, 0, false⟩

/-- What is known after one more event, if that fits to what was known. -/
def step (k : Replay) : Event → Option Replay
  | .messageAppended index role _ =>
    some { k with length := index + 1, awaiting := k.awaiting && role != .assistant }
  | .messageEdited index discarded =>
    if discarded = k.length - index ∧ 1 ≤ discarded then some { k with length := index + 1 }
    else none
  | .historyCleared => some { k with length := 1, awaiting := false }
  | .completionRequested request messages =>
    if request = k.latest + 1 ∧ messages = k.length then
      some { k with latest := request, awaiting := true }
    else none
  | _ => some k

/-- What is known after some events, if they fit together. -/
def run (k : Replay) (events : List Event) : Option Replay :=
  events.foldlM step k

theorem run_of_step {k later : Replay} {event : Event} (h : k.step event = some later)
    (events : List Event) : k.run (event :: events) = later.run events := by
  rw [run, List.foldlM_cons, h]
  rfl

theorem run_append (k : Replay) (first second : List Event) :
    k.run (first ++ second) = (k.run first).bind fun k => k.run second :=
  List.foldlM_append

end Replay

/-! ## Moves and their events -/

/-- What a reader of the events should know of a review. -/
def State.toReplay (s : State) : Replay :=
  ⟨s.log.length, s.latest, s.inFlight.isSome⟩

/-- After the event of a new turn, the event of its request fits. -/
theorem State.replay_asking (s : State) (kept : Conversation) (content shown : String)
    (type : DisplayType) (intent : Intent) {note : Event} {awaiting : Bool}
    (hnote : s.toReplay.step note = some ⟨kept.length + 1, s.latest, awaiting⟩) :
    let t := s.asking kept content shown type intent note
    s.toReplay.run (t.effects.filterMap Effect.event?) = some t.state.toReplay := by
  have hlog : (kept.addTurn content (some shown) type).length = kept.length + 1 := by
    simp [Conversation.addTurn, Conversation.push, Conversation.length]
  show s.toReplay.run [note, .completionRequested (s.latest + 1) _] =
    some (Replay.mk (kept.addTurn content (some shown) type).length (s.latest + 1) true)
  rw [Replay.run_of_step hnote, hlog]
  simp [Replay.run, Replay.step]

/-- After the event of a reply no answer is awaited, and the events behind it tell of other
things. -/
theorem State.replay_addReply (s : State) (text : String) (failed : Bool) (type : DisplayType) :
    s.toReplay.step (.messageAppended s.log.length .assistant type) =
      some (s.addReply text failed).toReplay := by
  simp [Replay.step, toReplay, addReply, Conversation.addAssistant, Conversation.push,
    Conversation.length]

/-- The events of a move lead from what holds before it to what holds after it. -/
theorem Move.replay {s : Session} {op : Operation} {t : Transition Result} (h : Move s op t) :
    s.seat.state.toReplay.run (t.effects.filterMap Effect.event?) = some t.state.toReplay := by
  cases h with
  | ask content shown type intent hop hkept =>
    exact s.seat.state.replay_asking _ content shown type intent rfl
  | @edit index m input hget hrole =>
    have hlength := Conversation.length_truncate_of_get? hget
    have hnote : s.seat.state.toReplay.step
        (.messageEdited index (s.seat.state.log.length - index)) =
        some ⟨(s.seat.state.log.truncate index).length + 1, s.seat.state.latest,
          s.seat.state.inFlight.isSome⟩ := by
      rw [hlength]
      exact if_pos ⟨rfl, Nat.sub_pos_of_lt (Conversation.lt_length_of_get? hget)⟩
    exact s.seat.state.replay_asking _ _ input .normal .applyCode hnote
  | clear => rfl
  | discard answer hr hlate => rfl
  | fail e hr hwait =>
    exact Replay.run_of_step (s.seat.state.replay_addReply e.message true _) [_]
  | explained reply hr hwait hintent =>
    exact Replay.run_of_step (s.seat.state.replay_addReply reply.text false _) []
  | noCode reply hr hwait hintent hcode =>
    exact Replay.run_of_step (s.seat.state.replay_addReply reply.text false _) [_]
  | propose reply hr hwait hintent hcode =>
    exact Replay.run_of_step (s.seat.state.replay_addReply reply.text false _) [_]
  | accept hopen =>
    simp only [State.driftWarning]
    split <;> rfl
  | reject hopen => rfl
  | apply hcode => rfl
  | rest result vars hop hresolve hidle => rfl

/-! ## Runs -/

/-- What the events recorded so far say about a session, and how many the observer counted. -/
structure Replayed (bench : Bench) (past : List Moment) (now : Session) : Prop where
  known : Replay.start.run (past.flatMap Moment.recorded) = some now.seat.state.toReplay
  counted : now.seat.host.observer = bench.observer.map fun o =>
    { o with next := o.next + (past.flatMap Moment.recorded).length }

/-- A step of which every event is recorded keeps the invariant. -/
theorem Replayed.step {bench : Bench} {past : List Moment} {now : Session}
    (h : Replayed bench past now) (hobserved : bench.observer.isSome = true) (op : Operation)
    (happended : ∀ a ∈ (Moment.mk now op (now.step op).2).attempts, a.2 = none) :
    Replayed bench (past ++ [⟨now, op, (now.step op).2⟩]) (now.step op).1 := by
  let m : Moment := ⟨now, op, (now.step op).2⟩
  have hnow : now.seat.host.observer.isSome = true := by
    rw [h.counted, Option.isSome_map, hobserved]
  have hrecorded : (past ++ [m]).flatMap Moment.recorded =
      past.flatMap Moment.recorded ++ m.recorded := by simp
  have hfst : m.attempts.map Prod.fst = m.recorded :=
    (Bench.attempts_fst ((op.observer_touch _).symm ▸ hnow) _).trans
      (Moment.recorded_eq hnow happended).symm
  refine ⟨?_, ?_⟩
  · rw [hrecorded, Replay.run_append, h.known, now.step_eq_after, Option.bind_some,
      Moment.recorded_eq hnow happended]
    exact (now.move_transition op).replay
  · rw [hrecorded, List.length_append, ← hfst, List.length_map, now.step_eq_after]
    show ((op.touch now.seat.host).performAll (now.transition op).effects).observer = _
    rw [Bench.observer_performAll, Operation.observer_touch, h.counted, Option.map_map]
    simp only [Function.comp_def, Nat.add_assoc]
    rfl

/-- **The events of a run tell how its conversation stands.**  Let an observer be there from the
start and let nothing go wrong while the events of a run are recorded.  Then, after any number of
its operations, every recorded event fits to those before it, and a reader of them knows the
length of the conversation, the number of the latest request and whether a request is
outstanding; and the observer has numbered exactly these events. -/
theorem events_determine_conversation (bench : Bench) (settings : ChatSettings)
    (ops : List Operation) (hobserved : bench.observer.isSome = true)
    (happended : ∀ m ∈ (Session.start bench settings).history ops, ∀ a ∈ m.attempts, a.2 = none)
    (n : Nat) :
    let now := (Session.start bench settings).run (ops.take n)
    let events := ((Session.start bench settings).history (ops.take n)).flatMap Moment.recorded
    Replay.start.run events =
      some ⟨now.seat.state.log.length, now.seat.state.latest, now.seat.state.inFlight.isSome⟩ ∧
    now.seat.host.observer =
      bench.observer.map fun o => { o with next := o.next + events.length } := by
  intro now events
  have hdone : ∀ m ∈ (Session.start bench settings).history (ops.take n), ∀ a ∈ m.attempts,
      a.2 = none := by
    intro m hm
    refine happended m ?_
    rw [← List.take_append_drop n ops, Session.history_append]
    exact List.mem_append_left _ hm
  have h : Replayed bench ((Session.start bench settings).history (ops.take n)) now := by
    refine Session.run_step_induction
      (P := fun past now => (∀ m ∈ past, ∀ a ∈ m.attempts, a.2 = none) → Replayed bench past now)
      (fun _ => ⟨rfl, by simp [Session.start]⟩) (fun past now op ih hall => ?_) (ops.take n) hdone
    have hpast : ∀ m ∈ past, ∀ a ∈ m.attempts, a.2 = none :=
      fun m hm => hall m (List.mem_append_left _ hm)
    refine (ih hpast).step hobserved op (hall _ ?_)
    exact List.mem_append_right _ (List.mem_singleton_self _)
  exact ⟨h.known, h.counted⟩

/-- A task is asked, edited while it is outstanding, answered late and in time, and then an
explanation is asked for.  After four operations a reader of the events knows that three messages
stand and no answer is awaited, and after the nine events of all five that two messages stand and
the answer to the third request is awaited. -/
theorem events_determine_conversation_edited :
    let bench : Bench :=
      { Bench.start (some "x = 1") .proposed "a" ["a"] with
        observer := some ⟨"observe.log", default, 1, none, false⟩ }
    let ops : List Operation :=
      [.send "double it", .edit 1 "halve it", .resolve 0 (.error ⟨"down"⟩),
        .resolve 1 (.ok (.ofText "Which cell?")), .explain]
    let events (n : Nat) :=
      ((Session.start bench .standard).history (ops.take n)).flatMap Moment.recorded
    Replay.start.run (events 4) = some ⟨3, 2, false⟩ ∧ (events 5).length = 9 ∧
    Replay.start.run (events 5) = some ⟨2, 3, true⟩ := by
  intro bench ops events
  have happended : ∀ m ∈ (Session.start bench .standard).history ops, ∀ a ∈ m.attempts,
      a.2 = none := by decide +kernel
  have hknown := events_determine_conversation bench .standard ops rfl happended
  exact ⟨(hknown 4).1, by decide +kernel, (hknown 5).1⟩

end CellReview.Review
