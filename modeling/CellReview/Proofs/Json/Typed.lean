import CellReview.Completion.Reply
import CellReview.Diff.Unified
import CellReview.Observe.Event
import CellReview.Proofs.Json.Reread
import CellReview.Report.Report

/-!
# Messages, differences, events, replies and reports read back

Every value that is written as JSON for another program reads back from its text, as long as its
counts have 64 bits.

* `Entry.rereads`, `UnifiedDiff.rereads` — differences;
* `EventKind.ofTag_tag`, `Event.Countable`, `Event.rereads` — events of every kind;
* `ChatMessage.rereads`, `Reply.rereads`, `Report.rereads` — the other values;
* `typed_values_reread` — **what was written reads back**.
-/

namespace CellReview

/-! ## Differences -/

namespace Diff

theorem LineKind.ofName_name (k : LineKind) : LineKind.ofName k.name = some k := by
  cases k <;> rfl

/-- Whether the line numbers of a listed line have 64 bits. -/
def Entry.Countable (e : Entry) : Prop :=
  (∀ n ∈ e.oldLine, n < countLimit) ∧ ∀ n ∈ e.newLine, n < countLimit

/-- An optional count is stored if it is there, and left alone if it is not. -/
theorem Entry.stores_countMember {σ : Type} {fields : List (Field σ)} {name : String}
    (put : Option Nat → σ → σ) {s : σ} {n : Option Nat} (hn : ∀ k ∈ n, k < countLimit)
    (hfind : (fields.find? fun f => f.name == name) =
      some (.of name .defaulted (Reader.option (Reader.natBelow countLimit)) put))
    (hnone : put none s = s) : Stores fields 0 (countMember name n) s (put n s) := by
  cases n with
  | none =>
    rw [hnone]
    exact .nil s
  | some k =>
    have hcount : Rereads 0 (Reader.natBelow countLimit) (.ofNat k) k :=
      rereads_nat 0 (hn k rfl) (le_refl _)
    exact .cons hfind (hcount.some (by simp [Json.ofNat])).store (.nil _)

theorem Entry.rereads {e : Entry} (h : e.Countable) : Rereads 1 Entry.read e.toJson e := by
  obtain ⟨hold, hnew⟩ := h
  obtain ⟨content, kind, oldLine, newLine⟩ := e
  have hnames : ∀ name n, (countMember name n).map Prod.fst = (n.map fun _ => name).toList := by
    intro name n
    cases n <;> rfl
  refine Stores.rereads_record
    (.append (t := ⟨content, kind, oldLine, none⟩)
      (.append (t := ⟨content, kind, none, none⟩) ?_ ?_) ?_)
    (["line_content", "kind"] ++ (oldLine.map fun _ => "old_line").toList ++
      (newLine.map fun _ => "new_line").toList) ?_ ?_ ?_
  · exact .cons rfl (rereads_string 0 content).store <|
      .cons rfl (rereads_enum 0 kind.ofName_name).store (.nil _)
  · exact stores_countMember (fun n (e : Entry) => { e with oldLine := n }) hold rfl rfl
  · exact stores_countMember (fun n (e : Entry) => { e with newLine := n }) hnew rfl rfl
  · simp only [List.map_append, hnames]
    rfl
  · cases oldLine <;> cases newLine <;> simp
  · exact fun name hname => List.mem_append_left _ (List.mem_append_left _ hname)

theorem UnifiedDiff.rereads {d : UnifiedDiff} (h : ∀ e ∈ d.lines, e.Countable) :
    Rereads 3 UnifiedDiff.read d.toJson d := by
  obtain ⟨text, lines⟩ := d
  have hlines : Rereads 2 (Reader.list Entry.read) (.array (lines.map Entry.toJson)) lines :=
    rereads_list fun e he => Entry.rereads (h e he)
  refine Stores.rereads_record ?_ ["unified_text", "lines"] rfl (by decide) (by decide)
  exact .cons rfl (rereads_string 2 text).store <| .cons rfl hlines.store (.nil _)

end Diff

/-! ## Messages, replies and reports -/

namespace Chat

theorem Role.ofName_name (role : Role) : Role.ofName role.name = some role := by
  cases role <;> rfl

theorem DisplayType.ofName_name (t : DisplayType) : DisplayType.ofName t.name = some t := by
  cases t <;> rfl

theorem ChatMessage.rereads (m : ChatMessage) : Rereads 2 ChatMessage.read m.toJson m := by
  obtain ⟨role, content⟩ := m
  refine rereads_tagged role.ofName_name
    (List.forall_mem_singleton.2 ⟨show "content" ≠ "role" by decide, content, rfl⟩) ?_
  refine Stores.rereads_record ?_ ["content"] rfl (by decide) (by decide)
  exact .cons rfl (rereads_string 0 content).store (.nil _)

end Chat

namespace Completion

theorem Reply.rereads (a : Reply) : Rereads 1 Reply.read a.toJson a := by
  refine Stores.rereads_record ?_ ["text", "finish_reason"] rfl (by decide) (by decide)
  exact .cons rfl (rereads_string 0 a.text).store <|
    .cons rfl (rereads_string 0 a.finishReason).store (.nil _)

end Completion

namespace Report

theorem Kind.ofName_name (k : Kind) : Kind.ofName k.name = some k := by
  cases k <;> rfl

theorem rereads (r : Report) : Rereads 2 Report.read r.toJson r := by
  have hsuggestions : Rereads 1 (Reader.list Reader.string)
      (.array (r.suggestions.map .string)) r.suggestions :=
    rereads_list fun s _ => rereads_string 0 s
  have hcontext : Rereads 1 (Reader.option Reader.string) (.ofOption .string r.context)
      r.context := by
    cases r.context with
    | none => exact rereads_none 1 _
    | some s => exact (rereads_string 1 s).some (by simp)
  refine Stores.rereads_record ?_
    ["title", "message", "suggestions", "error_type", "context"] rfl (by decide) (by decide)
  exact .cons rfl (rereads_string 1 r.title).store <|
    .cons rfl (rereads_string 1 r.message).store <|
    .cons rfl hsuggestions.store <|
    .cons rfl (rereads_enum 1 r.kind.ofName_name).store <|
    .cons rfl hcontext.store (.nil _)

end Report

/-! ## Events -/

namespace Observe

theorem EventKind.ofTag_tag (k : EventKind) : EventKind.ofTag k.tag = some k := by
  cases k <;> rfl

namespace Event

/-- Whether the counts of an event have 64 bits. -/
def Countable : Event → Prop
  | messageAppended index _ _ => index < limit
  | messageEdited index discarded => index < limit ∧ discarded < limit
  | completionRequested request messages => request < limit ∧ messages < limit
  | completionDiscarded request latest => request < limit ∧ latest < limit
  | completionFailed request _ => request < limit
  | diffProposed request inserted deleted _ =>
    request < limit ∧ inserted < limit ∧ deleted < limit
  | noCodeBlock request => request < limit
  | diffAccepted _ => True
  | historyCleared => True
  | diffRejected => True

theorem rereads_count {n : Nat} (h : n < limit) :
    Rereads 0 (Reader.natBelow limit) (.ofNat n) n :=
  rereads_nat 0 h (le_refl _)

/-- What an event says is read by its kind, whether or not there is something to say. -/
theorem rereads_content {e : Event} (h : e.Countable) (hbare : bare e.kind = none) :
    Rereads 1 (readContent e.kind) (.object e.content) e := by
  cases e with
  | messageAppended index role displayType =>
    refine Rereads.bind (Stores.rereads_named (t := (index, role, displayType)) ?_
      ["index", "role", "display_type"] rfl (by decide) (by decide)) rfl
    exact .cons rfl (rereads_count h).store <|
      .cons rfl (rereads_enum 0 role.ofName_name).store <|
      .cons rfl (rereads_enum 0 displayType.ofName_name).store (.nil _)
  | messageEdited index discarded =>
    refine Rereads.bind (Stores.rereads_named (t := (index, discarded)) ?_
      ["index", "discarded"] rfl (by decide) (by decide)) rfl
    exact .cons rfl (rereads_count h.1).store <|
      .cons rfl (rereads_count h.2).store (.nil _)
  | completionRequested request messages =>
    refine Rereads.bind (Stores.rereads_named (t := (request, messages)) ?_
      ["request_seq", "message_count"] rfl (by decide) (by decide)) rfl
    exact .cons rfl (rereads_count h.1).store <|
      .cons rfl (rereads_count h.2).store (.nil _)
  | completionDiscarded request latest =>
    refine Rereads.bind (Stores.rereads_named (t := (request, latest)) ?_
      ["request_seq", "latest_seq"] rfl (by decide) (by decide)) rfl
    exact .cons rfl (rereads_count h.1).store <|
      .cons rfl (rereads_count h.2).store (.nil _)
  | completionFailed request message =>
    refine Rereads.bind (Stores.rereads_named (t := (request, message)) ?_
      ["request_seq", "message"] rfl (by decide) (by decide)) rfl
    exact .cons rfl (rereads_count h).store <|
      .cons rfl (rereads_string 0 message).store (.nil _)
  | diffProposed request inserted deleted superseded =>
    refine Rereads.bind (Stores.rereads_named (t := (request, inserted, deleted, superseded)) ?_
      ["request_seq", "inserted", "deleted", "superseded"] rfl (by decide) (by decide)) rfl
    exact .cons rfl (rereads_count h.1).store <|
      .cons rfl (rereads_count h.2.1).store <|
      .cons rfl (rereads_count h.2.2).store <|
      .cons rfl (rereads_bool 0 superseded).store (.nil _)
  | diffAccepted drifted =>
    refine Rereads.bind (Stores.rereads_named (t := drifted) ?_
      ["drifted"] rfl (by decide) (by decide)) rfl
    exact .cons rfl (rereads_bool 0 drifted).store (.nil _)
  | noCodeBlock request =>
    refine Rereads.bind (Stores.rereads_named (t := request) ?_
      ["request_seq"] rfl (by decide) (by decide)) rfl
    exact .cons rfl (rereads_count h).store (.nil _)
  | historyCleared => nomatch hbare
  | diffRejected => nomatch hbare

/-- An event reads back, with its content if it has any. -/
theorem rereads {e : Event} (h : e.Countable) : Rereads 2 Event.read e.toJson e := by
  have hbeside (hbare : bare e.kind = none)
      (hcontent : e.toJson =
        .object [("type", .string e.kind.tag), ("payload", .object e.content)]) :
      Rereads 2 Event.read e.toJson e := by
    rw [hcontent]
    exact rereads_beside (by decide) e.kind.ofTag_tag (rereads_content h hbare)
  have halone (hbare : bare e.kind = some e)
      (hcontent : e.toJson = .object [("type", .string e.kind.tag)]) :
      Rereads 2 Event.read e.toJson e := by
    rw [hcontent]
    exact (rereads_beside_bare e.kind.ofTag_tag hbare).mono (Nat.le_succ 1)
  cases e with
  | historyCleared => exact halone rfl rfl
  | diffRejected => exact halone rfl rfl
  | _ => exact hbeside rfl rfl

end Event

end Observe

/-! ## Every typed value -/

open Chat (ChatMessage)
open Completion (Reply)
open Diff (Entry UnifiedDiff)
open Observe (Event)

/-- **What was written reads back**: a message, a listed line, a difference, an event, a reply
or a report is the value that is read from its text.  So a difference that was read has the
sides and the counts of the one that was written. -/
theorem typed_values_reread :
    (∀ m : ChatMessage, Reader.ofText ChatMessage.read m.toJson.compact = .ok m) ∧
    (∀ e : Entry, e.Countable → Reader.ofText Entry.read e.toJson.compact = .ok e) ∧
    (∀ d : UnifiedDiff, (∀ e ∈ d.lines, e.Countable) →
      ∃ read, Reader.ofText UnifiedDiff.read d.toJson.compact = .ok read ∧ read = d ∧
        read.beforeText = d.beforeText ∧ read.afterText = d.afterText ∧
        read.insertedCount = d.insertedCount ∧ read.deletedCount = d.deletedCount) ∧
    (∀ e : Event, e.Countable → Reader.ofText Event.read e.toJson.compact = .ok e) ∧
    (∀ a : Reply, Reader.ofText Reply.read a.toJson.compact = .ok a) ∧
    ∀ r : Report, Reader.ofText Report.read r.toJson.compact = .ok r := by
  have hnest : 3 < Doc.nesting := by decide
  refine ⟨fun m => ?_, fun e he => ?_, fun d hd => ?_, fun e he => ?_, fun a => ?_, fun r => ?_⟩
  · exact m.rereads.ofText_compact (by omega)
  · exact (Entry.rereads he).ofText_compact (by omega)
  · exact ⟨d, (UnifiedDiff.rereads hd).ofText_compact hnest, rfl, rfl, rfl, rfl, rfl⟩
  · exact (Event.rereads he).ofText_compact (by omega)
  · exact a.rereads.ofText_compact (by omega)
  · exact r.rereads.ofText_compact (by omega)

/-- A changed line with the greatest count, and a failure whose message spans lines. -/
theorem typed_values_reread_edges :
    let last : Entry := ⟨"x = \"é\"", .inserted, none, some 18446744073709551615⟩
    Reader.ofText UnifiedDiff.read (UnifiedDiff.ofLines [last]).toJson.compact =
      .ok (UnifiedDiff.ofLines [last]) ∧
    Reader.ofText Event.read (Event.completionFailed 7 "first\nsecond").toJson.compact =
      .ok (Event.completionFailed 7 "first\nsecond") := by
  intro last
  have hlines : ∀ e ∈ [last], e.Countable := by
    simp [last, Entry.Countable, Diff.countLimit]
  obtain ⟨-, -, hdiff, hevent, -, -⟩ := typed_values_reread
  obtain ⟨read, hread, rfl, -⟩ := hdiff (UnifiedDiff.ofLines [last]) hlines
  exact ⟨hread, hevent (.completionFailed 7 "first\nsecond") (show 7 < _ by decide)⟩

end CellReview
