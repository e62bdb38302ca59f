import CellReview.Proofs.Text.Blank

/-!
# The words of a text

* `Chars.IsWord`, `Chars.isWord_of_mem_words` — a word has no blank and is not empty;
* `Chars.words_append_cons`, `Chars.words_intercalate` — **words with single spaces between them
  are told apart again**;
* `Chars.words_eq_nil_iff` — a text without words has nothing but blanks;
* `Chars.lower_lower`, `Chars.IsWord.lower` — words in lower case.
-/

namespace CellReview.Chars

/-! ## Words -/

/-- A part of a text between blanks. -/
def IsWord (w : List Char) : Prop :=
  w ≠ [] ∧ Solid w

theorem splitWhere_cons (p : Char → Bool) (c : Char) (s : List Char) :
    splitWhere p (c :: s) =
      if p c then [] :: splitWhere p s else consFirst c (splitWhere p s) := rfl

/-- A character in front of the first part is in no part but that. -/
theorem mem_consFirst {c : Char} {part : List Char} {parts : List (List Char)}
    (h : part ∈ consFirst c parts) :
    part ∈ parts ∨ part = [c] ∨ ∃ first ∈ parts, part = c :: first := by
  cases parts with
  | nil => exact .inr (.inl (List.mem_singleton.1 h))
  | cons first rest =>
    rcases List.mem_cons.1 h with rfl | h
    · exact .inr (.inr ⟨first, List.mem_cons_self, rfl⟩)
    · exact .inl (List.mem_cons_of_mem _ h)

/-- No part of a cut text holds a character at which it was cut. -/
theorem not_of_mem_splitWhere {p : Char → Bool} {s part : List Char} (h : part ∈ splitWhere p s) :
    ∀ c ∈ part, p c = false := by
  induction s generalizing part with
  | nil =>
    rw [List.mem_singleton.1 h]
    exact List.forall_mem_nil _
  | cons d s ih =>
    rw [splitWhere_cons] at h
    by_cases hd : p d = true
    · rw [if_pos hd] at h
      rcases List.mem_cons.1 h with rfl | h
      · exact List.forall_mem_nil _
      · exact ih h
    · have hd' : p d = false := by simpa using hd
      rw [if_neg hd] at h
      rcases mem_consFirst h with h | rfl | ⟨first, hfirst, rfl⟩
      · exact ih h
      · exact List.forall_mem_singleton.2 hd'
      · exact List.forall_mem_cons.2 ⟨hd', ih hfirst⟩

theorem isWord_of_mem_words {s w : List Char} (h : w ∈ words s) : IsWord w := by
  obtain ⟨hmem, hne⟩ := List.mem_filter.1 h
  exact ⟨by simpa using hne, not_of_mem_splitWhere hmem⟩

theorem splitWhere_of_solid {w : List Char} (h : Solid w) : splitWhere isBlank w = [w] := by
  rw [splitWhere_eq_splitOnP]
  exact List.splitOnP_eq_singleton h

theorem words_of_isWord {w : List Char} (h : IsWord w) : words w = [w] := by
  rw [words, splitWhere_of_solid h.2]
  simp [h.1]

theorem words_cons_blank {c : Char} (hc : isBlank c = true) (s : List Char) :
    words (c :: s) = words s := by
  rw [words, splitWhere_cons, if_pos hc]
  rfl

/-- Behind a blank the words go on. -/
theorem words_append_cons {w : List Char} {c : Char} (hw : IsWord w) (hc : isBlank c = true)
    (s : List Char) : words (w ++ c :: s) = w :: words s := by
  have hsplit : splitWhere isBlank (w ++ c :: s) = w :: splitWhere isBlank s := by
    obtain ⟨-, hsolid⟩ := hw
    induction w with
    | nil => rw [List.nil_append, splitWhere_cons, if_pos hc]
    | cons d w ih =>
      obtain ⟨hd, hsolid⟩ := List.forall_mem_cons.1 hsolid
      rw [List.cons_append, splitWhere_cons, if_neg (by simp [hd]), ih hsolid]
      rfl
  rw [words, hsplit, List.filter_cons_of_pos (by simp [hw.1])]
  rfl

/-- Words with single spaces between them are told apart again. -/
theorem words_intercalate {ws : List (List Char)} (h : ∀ w ∈ ws, IsWord w) :
    words ([' '].intercalate ws) = ws := by
  induction ws with
  | nil => rfl
  | cons w ws ih =>
    obtain ⟨hw, hws⟩ := List.forall_mem_cons.1 h
    cases ws with
    | nil =>
      rw [List.intercalate_singleton]
      exact words_of_isWord hw
    | cons v ws =>
      rw [List.intercalate_cons_cons, List.append_assoc, List.singleton_append,
        words_append_cons hw (by decide), ih hws]

theorem words_eq_nil_iff {s : List Char} : words s = [] ↔ Blanks s := by
  induction s with
  | nil => exact ⟨fun _ => List.forall_mem_nil _, fun _ => rfl⟩
  | cons c s ih =>
    by_cases hc : isBlank c = true
    · rw [words_cons_blank hc, ih, Blanks, Blanks, List.forall_mem_cons]
      exact ⟨fun h => ⟨hc, h⟩, fun h => h.2⟩
    · have hne : words (c :: s) ≠ [] := by
        rw [words, splitWhere_cons, if_neg hc]
        cases splitWhere isBlank s <;> simp [consFirst]
      exact ⟨fun h => absurd h hne, fun h => absurd (h c List.mem_cons_self) hc⟩

/-! ## Lower case -/

/-- A capital letter, and what it is in lower case. -/
theorem toLower_cases (c : Char) :
    c.toLower = c ∨ (65 ≤ c.toNat ∧ c.toNat ≤ 90 ∧ c.toLower.toNat = c.toNat + 32) := by
  unfold Char.toLower
  split
  · rename_i h
    have hlow : 65 ≤ c.toNat := h.1
    have hhigh : c.toNat ≤ 90 := h.2
    refine .inr ⟨hlow, hhigh, ?_⟩
    show (c.val + 32).toNat = c.toNat + 32
    rw [UInt32.toNat_add]
    exact Nat.mod_eq_of_lt (by show c.toNat + 32 < 2 ^ 32; omega)
  · exact .inl rfl

theorem isBlank_toLower (c : Char) : isBlank c.toLower = isBlank c := by
  rcases toLower_cases c with h | ⟨hlow, hhigh, h⟩
  · rw [h]
  · have hletter : ∀ d : Char, 65 ≤ d.toNat → d.toNat ≤ 122 → isBlank d = false := by
      intro d hlow hhigh
      simp only [isBlank, Bool.or_eq_false_iff, Bool.and_eq_false_iff, decide_eq_false_iff_not,
        beq_eq_false_iff_ne]
      omega
    rw [hletter c hlow (by omega), hletter _ (by omega) (by omega)]

theorem toLower_toLower (c : Char) : c.toLower.toLower = c.toLower := by
  rcases toLower_cases c with h | ⟨hlow, -, h⟩
  · rw [h, h]
  · rcases toLower_cases c.toLower with h' | ⟨-, hhigh, -⟩
    · exact h'
    · omega

theorem lower_lower (s : List Char) : lower (lower s) = lower s := by
  rw [lower, lower, List.map_map]
  exact List.map_congr_left fun c _ => toLower_toLower c

theorem IsWord.lower {w : List Char} (h : IsWord w) : IsWord (lower w) := by
  refine ⟨by simpa [Chars.lower] using h.1, fun c hc => ?_⟩
  obtain ⟨d, hd, rfl⟩ := List.mem_map.1 hc
  rw [isBlank_toLower]
  exact h.2 d hd

end CellReview.Chars
