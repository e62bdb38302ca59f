import CellReview.Proofs.Diff.Lossless
import CellReview.Proofs.Text.Line
import CellReview.Review.Deciding
import CellReview.Review.Notebook
import Mathlib.Data.List.Forall2

/-!
# Stripes mark the lines of a preview

The stripes of a difference are counted while its lines are listed, and the preview is a text
of its own.  Both agree: a stripe stands at the line of the preview that it is about, and a
deleted line that the preview does not show is marked behind the lines that stay before it.

* `changedLines` — the changed lines of a difference with their places;
* `stripes_eq` — the stripes by the places of the changed lines;
* `Marks` — a stripe that is right about its line;
* `stripes_marks` — **every stripe of a difference is right about the preview**;
* `stripes_ascend` — **the stripes are in the order of the preview**.
-/

namespace CellReview.Review

open Diff (Entry LineKind UnifiedDiff)
open Diff.UnifiedDiff (compute)

variable {mode : PreviewMode} {lines before rest : List Entry} {e : Entry} {x : Entry × Nat}

/-! ## The stripes by their places -/

/-- The changed lines of a difference with their places, counted from zero. -/
def changedLines (lines : List Entry) : List (Entry × Nat) :=
  lines.zipIdx.filter fun x => x.1.kind ≠ .unchanged

/-- The stripes of what follows some lines. -/
theorem stripesFrom_eq (mode : PreviewMode) (before rest : List Entry) :
    stripesFrom mode (before.countP (isShown mode)) rest =
      ((rest.zipIdx before.length).filter fun x => x.1.kind ≠ .unchanged).map fun x =>
        ⟨((before ++ rest).take (x.2 + 1)).countP (isShown mode), x.1.kind⟩ := by
  induction rest generalizing before with
  | nil => rfl
  | cons e rest ih =>
    have hcount : (if isShown mode e then before.countP (isShown mode) + 1
        else before.countP (isShown mode)) = (before ++ [e]).countP (isShown mode) := by
      rw [List.countP_append, List.countP_singleton]
      split <;> rfl
    have htail := ih (before ++ [e])
    rw [List.length_append, List.length_singleton, ← List.append_cons] at htail
    rw [stripesFrom, hcount, htail, List.zipIdx_cons, List.filter_cons]
    by_cases hkind : e.kind = .unchanged
    · simp [hkind]
    · have htake : (before ++ e :: rest).take (before.length + 1) = before ++ [e] := by
        rw [List.append_cons, List.take_left' (by simp)]
      simp [hkind, htake]

/-- A stripe stands behind the lines of the preview up to its own. -/
theorem stripes_eq (mode : PreviewMode) (lines : List Entry) :
    stripes mode lines = (changedLines lines).map fun x =>
      ⟨(lines.take (x.2 + 1)).countP (isShown mode), x.1.kind⟩ :=
  stripesFrom_eq mode [] lines

theorem getElem?_of_mem_changedLines (h : x ∈ changedLines lines) : lines[x.2]? = some x.1 :=
  List.mem_zipIdx_iff_getElem?.1 (List.mem_of_mem_filter h)

theorem take_succ_of_getElem? {t : Nat} (h : lines[t]? = some e) :
    lines.take (t + 1) = lines.take t ++ [e] := by
  rw [List.take_add_one, h, Option.toList_some]

/-- In the whole difference every line is shown. -/
theorem countP_isShown_unified {t : Nat} (h : lines[t]? = some e) :
    (lines.take (t + 1)).countP (isShown .unified) = t + 1 := by
  obtain ⟨hlt, -⟩ := List.getElem?_eq_some_iff.1 h
  have hshown : ∀ e ∈ lines.take (t + 1), isShown .unified e = true := fun _ _ => rfl
  rw [List.countP_eq_length.2 hshown, List.length_take_of_le hlt]

theorem pairwise_changedLines (lines : List Entry) :
    (changedLines lines).Pairwise fun x y => x.2 < y.2 := by
  refine List.Pairwise.filter _ ?_
  rw [← List.pairwise_map, List.zipIdx_map_snd]
  exact List.pairwise_lt_range'

/-! ## Right stripes -/

/-- A stripe is right about a changed line of a difference, with its place, and the text of
the preview.  In a whole difference it stands at the line itself.  In the proposed code an
inserted line stands where its number says, and a deleted one, which is not there, is marked
behind as many lines as are listed before it. -/
structure Marks (mode : PreviewMode) (preview : String) (lines : List Entry) (stripe : Stripe)
    (x : Entry × Nat) : Prop where
  kind : stripe.kind = x.1.kind
  unified : mode = .unified → stripe.line = x.2 + 1 ∧
    (preview.toList.splitOn '\n')[stripe.line - 1]? = some x.1.content.toList
  inserted : mode = .proposed → x.1.kind = .inserted →
    0 < stripe.line ∧ x.1.newLine = some stripe.line ∧
      (Text.lines preview)[stripe.line - 1]? = some x.1.content
  deleted : mode = .proposed → x.1.kind = .deleted →
    stripe.line = (lines.take x.2).countP (fun e => e.newLine.isSome) ∧
      stripe.line ≤ (Text.lines preview).length

/-- What a line is mapped to stands behind what the lines before it are mapped to. -/
theorem getElem?_filterMap {α : Type} (f : Entry → Option α) {t : Nat} {y : α}
    (h : lines[t]? = some e) (hy : f e = some y) :
    (lines.filterMap f)[(lines.take t).countP fun e => (f e).isSome]? = some y := by
  have hsplit : lines.filterMap f = (lines.take t).filterMap f ++ y ::
      (lines.drop (t + 1)).filterMap f := by
    rw [← List.filterMap_cons_some hy, ← Diff.drop_eq_cons_of_getElem? h, ← List.filterMap_append,
      List.take_append_drop]
  rw [hsplit, ← List.length_filterMap_eq_countP, List.getElem?_append_right (Nat.le_refl _),
    Nat.sub_self]
  rfl

section Compute

variable (before after : String)

/-- Every listed line is a line of one of the texts. -/
theorem content_mem_of_mem_compute (h : e ∈ (compute before after).lines) :
    e.content ∈ Text.lines before ∨ e.content ∈ Text.lines after := by
  have hside : ∀ {f : Entry → Option (String × Nat)} {n : Nat} {side : List String},
      f e = some (e.content, n) →
      (compute before after).lines.filterMap f = side.zipIdx 1 → e.content ∈ side := by
    intro f n side hf hfilter
    have hmem : (e.content, n) ∈ side.zipIdx 1 := by
      rw [← hfilter]
      exact List.mem_filterMap.2 ⟨e, h, hf⟩
    exact List.fst_mem_of_mem_zipIdx hmem
  have hcarries := (Diff.lossless_compute before after).carries e h
  by_cases hkind : e.kind = .inserted
  · obtain ⟨n, hn⟩ := hcarries.exists_newLine (by simp [hkind])
    exact .inr (hside (by rw [Entry.onNew, hn]; rfl) (Diff.lossless_compute before after).onNew)
  · obtain ⟨n, hn⟩ := hcarries.exists_oldLine hkind
    exact .inl (hside (by rw [Entry.onOld, hn]; rfl) (Diff.lossless_compute before after).onOld)

theorem not_mem_content_compute (h : e ∈ (compute before after).lines) :
    '\n' ∉ e.content.toList :=
  (content_mem_of_mem_compute before after h).elim Text.not_mem_of_mem_lines
    Text.not_mem_of_mem_lines

/-- In the proposed code a line is shown if it has a number there. -/
theorem countP_isShown_compute (t : Nat) :
    ((compute before after).lines.take t).countP (isShown .proposed) =
      ((compute before after).lines.take t).countP fun e => e.newLine.isSome := by
  refine List.countP_congr fun e he => ?_
  have hcarries := (Diff.lossless_compute before after).carries e (List.mem_of_mem_take he)
  rw [hcarries.isSome_newLine, isShown]
  cases e.kind <;> simp

/-- The number of a line on the new side counts the lines there up to it. -/
theorem newLine_compute {t n : Nat} (h : (compute before after).lines[t]? = some e)
    (hn : e.newLine = some n) :
    n = ((compute before after).lines.take t).countP (fun e => e.newLine.isSome) + 1 ∧
      (Text.lines after)[n - 1]? = some e.content := by
  have hside := getElem?_filterMap Entry.onNew h (y := (e.content, n))
    (by rw [Entry.onNew, hn]; rfl)
  simp only [(Diff.lossless_compute before after).onNew, Entry.onNew, Option.isSome_map,
    List.getElem?_zipIdx] at hside
  obtain ⟨content, hcontent, heq⟩ := Option.map_eq_some_iff.1 hside
  rw [Prod.mk.injEq] at heq
  obtain ⟨rfl, rfl⟩ := heq
  rw [Nat.add_comm 1, Nat.add_sub_cancel]
  exact ⟨rfl, hcontent⟩

/-- No more lines than the new text has are listed with a number there. -/
theorem countP_newLine_compute_le (t : Nat) :
    ((compute before after).lines.take t).countP (fun e => e.newLine.isSome) ≤
      (Text.lines after).length := by
  have hlength := congrArg List.length (Diff.lossless_compute before after).onNew
  rw [List.length_filterMap_eq_countP, List.length_zipIdx] at hlength
  simp only [Entry.onNew, Option.isSome_map] at hlength
  rw [← hlength]
  exact (List.take_sublist t _).countP_le

/-- The pieces of the whole difference between line feeds are the contents of its lines. -/
theorem splitOn_text_compute (h : e ∈ (compute before after).lines) :
    (compute before after).text.toList.splitOn '\n' =
      ((compute before after).lines.map Entry.content).map String.toList := by
  rw [(Diff.lossless_compute before after).text]
  refine Text.splitOn_joinLines (List.ne_nil_of_mem (List.mem_map_of_mem h))
    fun content hcontent => ?_
  obtain ⟨e, he, rfl⟩ := List.mem_map.1 hcontent
  exact not_mem_content_compute before after he

/-! ## Every stripe is right -/

/-- **Every stripe of a difference is right about the preview.** -/
theorem stripes_marks (mode : PreviewMode) :
    List.Forall₂
      (Marks mode (State.previewText mode after (compute before after))
        (compute before after).lines)
      (stripes mode (compute before after).lines)
      (changedLines (compute before after).lines) := by
  rw [stripes_eq, List.forall₂_map_left_iff, List.forall₂_same]
  intro x hx
  have hplace := getElem?_of_mem_changedLines hx
  have hmem := List.mem_of_getElem? hplace
  have hcarries := (Diff.lossless_compute before after).carries x.1 hmem
  have htake := take_succ_of_getElem? hplace
  refine ⟨rfl, ?_, ?_, ?_⟩
  · rintro rfl
    dsimp only
    rw [State.previewText, splitOn_text_compute before after hmem, countP_isShown_unified hplace,
      Nat.add_sub_cancel, List.getElem?_map, List.getElem?_map, hplace]
    exact ⟨rfl, rfl⟩
  · rintro rfl hkind
    obtain ⟨n, hn⟩ := hcarries.exists_newLine (by simp [hkind])
    obtain ⟨hcount, hline⟩ := newLine_compute before after hplace hn
    have hstripe :
        ((compute before after).lines.take (x.2 + 1)).countP (isShown .proposed) = n := by
      rw [countP_isShown_compute, htake, List.countP_append, List.countP_singleton, hn, hcount]
      rfl
    dsimp only
    rw [hstripe]
    exact ⟨by omega, hn, hline⟩
  · rintro rfl hkind
    have hnone : x.1.newLine.isSome = false := by
      rw [hcarries.isSome_newLine, hkind]
      rfl
    have hstripe : ((compute before after).lines.take (x.2 + 1)).countP (isShown .proposed) =
        ((compute before after).lines.take x.2).countP fun e => e.newLine.isSome := by
      rw [countP_isShown_compute, htake, List.countP_append, List.countP_singleton, hnone]
      rfl
    dsimp only
    rw [hstripe]
    exact ⟨rfl, countP_newLine_compute_le before after x.2⟩

end Compute

/-- **The stripes of a difference are in the order of the preview.**  In the whole difference
no two of them share a line. -/
theorem stripes_ascend (mode : PreviewMode) (lines : List Entry) :
    (stripes mode lines).Pairwise (fun s s' => s.line ≤ s'.line) ∧
      (mode = .unified → (stripes mode lines).Pairwise fun s s' => s.line < s'.line) := by
  rw [stripes_eq, List.pairwise_map, List.pairwise_map]
  refine ⟨(pairwise_changedLines lines).imp fun {x y} hlt => ?_, ?_⟩
  · exact (List.take_sublist_take_left (Nat.succ_le_succ (Nat.le_of_lt hlt))).countP_le
  · rintro rfl
    refine (pairwise_changedLines lines).imp_of_mem fun {x y} hx hy hlt => ?_
    dsimp only
    rw [countP_isShown_unified (getElem?_of_mem_changedLines hx),
      countP_isShown_unified (getElem?_of_mem_changedLines hy)]
    exact Nat.succ_lt_succ hlt

end CellReview.Review
