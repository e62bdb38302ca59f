import CellReview.Proofs.Review.Marks

/-!
# The text of a difference, cut into lines again

The text of a difference is the contents of its lines with a line feed between neighbours.  Cut
at the line feeds it is these contents again.  As a text with line endings it is not always:
an empty last line is lost, and a carriage return at the end of a line goes with its ending.

* `Recut` — a place whose content is a line of the text;
* `lines_text_compute` — **which entries of a difference are lines of its text**;
* `text_compute_loses_line` — an entry that is none.
-/

namespace CellReview.Review

open Diff (Entry)
open Diff.UnifiedDiff (compute)

/-- The content at a place is cut out of the joined contents as it is: the last one is not
empty, and any other one does not end in a carriage return. -/
def Recut (contents : List String) (k : Nat) (s : String) : Prop :=
  if k + 1 = contents.length then s ≠ "" else s.toList.getLast? ≠ some '\r'

/-- **An entry of a difference is the line of the text at its place if and only if** its content
is cut out of the text as it is, and the lines of the text are the entries if that is so of all
of them.  Between the line feeds of the text there are always the contents of the entries. -/
theorem lines_text_compute (before after : String) :
    let contents := (compute before after).lines.map Entry.content
    let text := (compute before after).text
    (∀ k s, contents[k]? = some s → ((Text.lines text)[k]? = some s ↔ Recut contents k s)) ∧
      (Text.lines text = contents ↔
        (∀ s ∈ contents.dropLast, s.toList.getLast? ≠ some '\r') ∧
          contents.getLast? ≠ some "") ∧
      (contents ≠ [] → text.toList.splitOn '\n' = contents.map String.toList) := by
  intro contents text
  have htext : text = Text.joinLines contents := (Diff.lossless_compute before after).text
  have hfeed : ∀ s ∈ contents, '\n' ∉ s.toList := by
    intro s hs
    obtain ⟨e, he, rfl⟩ := List.mem_map.1 hs
    exact not_mem_content_compute before after he
  rw [htext]
  refine ⟨fun k s hk => ?_, Text.lines_joinLines_eq_iff hfeed, fun hne => ?_⟩
  · exact Text.getElem?_lines_joinLines hfeed hk
  · exact Text.splitOn_joinLines hne hfeed

/-- Behind an inserted empty last line the text of the difference has one line, and the
difference has two entries. -/
theorem text_compute_loses_line :
    (compute "x = 1" "x = 1\n\n").lines.map Entry.content = ["x = 1", ""] ∧
      Text.lines (compute "x = 1" "x = 1\n\n").text = ["x = 1"] := by
  decide +kernel

end CellReview.Review
