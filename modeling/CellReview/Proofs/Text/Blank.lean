import CellReview.Text.Blank
import Mathlib.Data.List.TakeWhile

/-!
# Texts of blanks and texts in parts

* `Chars.trim_eq_nil_iff` — nothing is left of a text without its outer blanks exactly if it has
  nothing but blanks;
* `Chars.Blanks`, `Chars.Solid`, `Chars.Trimmed` — texts of blanks only, without blanks, and
  without outer blanks;
* `Chars.trimmed_trim`, `Chars.exists_blanks`, `Chars.Trimmed.trim_between` — **what is left of a
  text without its outer blanks**, and which texts leave it;
* `Chars.cutAtBlank_append`, `Chars.cutAtBlank_eq_none`, `Chars.solid_or_exists_blank` — the
  first blank;
* `Chars.splitWhere_eq_splitOnP`, `Chars.splitWhere_intercalate` — parts that are joined are told
  apart again.
-/

namespace CellReview.Chars

variable {s t : List Char}

theorem trim_eq_nil_iff {s : List Char} : trim s = [] ↔ ∀ c ∈ s, isBlank c = true := by
  rw [trim, trimEnd, List.reverse_eq_nil_iff, List.dropWhile_eq_nil_iff]
  constructor
  · intro h c hc
    rw [← List.takeWhile_append_dropWhile (p := isBlank) (l := s)] at hc
    rcases List.mem_append.1 hc with hc | hc
    · exact List.mem_takeWhile_imp hc
    · exact h c (List.mem_reverse.2 hc)
  · intro h c hc
    exact h c ((List.dropWhile_sublist _).subset (List.mem_reverse.1 hc))

/-! ## Outer blanks -/

/-- A text of blanks only. -/
def Blanks (s : List Char) : Prop :=
  ∀ c ∈ s, isBlank c = true

/-- A text without blanks. -/
def Solid (s : List Char) : Prop :=
  ∀ c ∈ s, isBlank c = false

/-- A text without outer blanks. -/
structure Trimmed (s : List Char) : Prop where
  first : ∀ c ∈ s.head?, isBlank c = false
  last : ∀ c ∈ s.getLast?, isBlank c = false

instance (s : List Char) : Decidable (Blanks s) :=
  decidable_of_iff (s.all isBlank = true) List.all_eq_true

instance (s : List Char) : Decidable (Solid s) :=
  decidable_of_iff (s.all (!isBlank ·) = true) (by simp [Solid])

instance (s : List Char) : Decidable (Trimmed s) :=
  decidable_of_iff (s.head?.all (!isBlank ·) = true ∧ s.getLast?.all (!isBlank ·) = true)
    ⟨fun h => ⟨by simpa [Option.all_eq_true] using h.1, by simpa [Option.all_eq_true] using h.2⟩,
      fun h => ⟨by simpa [Option.all_eq_true] using h.first,
        by simpa [Option.all_eq_true] using h.last⟩⟩

theorem Solid.trimmed (h : Solid s) : Trimmed s where
  first c hc := h c (List.mem_of_mem_head? hc)
  last c hc := h c (List.mem_of_mem_getLast? hc)

/-- Two texts without outer blanks, one behind the other, with anything between them. -/
theorem Trimmed.append (hs : Trimmed s) (ht : Trimmed t) (hsne : s ≠ []) (htne : t ≠ [])
    (gap : List Char) : Trimmed (s ++ gap ++ t) where
  first c hc := by
    obtain ⟨d, rest, rfl⟩ := List.exists_cons_of_ne_nil hsne
    exact hs.first c hc
  last c hc := by
    rw [List.getLast?_append, List.getLast?_eq_some_getLast htne, Option.some_or] at hc
    exact ht.last c ((List.getLast?_eq_some_getLast htne).trans hc)

theorem trimStart_append (hs : Blanks s) (t : List Char) : trimStart (s ++ t) = trimStart t :=
  List.dropWhile_append_of_pos hs

theorem trimStart_of_first (h : ∀ c ∈ s.head?, isBlank c = false) : trimStart s = s := by
  cases s with
  | nil => rfl
  | cons c s => rw [trimStart, List.dropWhile_cons_of_neg (by simp [h c rfl])]

theorem trimEnd_eq_reverse (s : List Char) : trimEnd s = (trimStart s.reverse).reverse := rfl

theorem trimEnd_append (s : List Char) (ht : Blanks t) : trimEnd (s ++ t) = trimEnd s := by
  have hblanks : Blanks t.reverse := fun c hc => ht c (List.mem_reverse.1 hc)
  rw [trimEnd_eq_reverse, List.reverse_append, trimStart_append hblanks, ← trimEnd_eq_reverse]

theorem trimEnd_of_last (h : ∀ c ∈ s.getLast?, isBlank c = false) : trimEnd s = s := by
  rw [trimEnd_eq_reverse, trimStart_of_first, List.reverse_reverse]
  rwa [List.head?_reverse]

/-- Between blanks, a text without outer blanks is what is left. -/
theorem Trimmed.trim_between {before after : List Char} (h : Trimmed s) (hbefore : Blanks before)
    (hafter : Blanks after) : trim (before ++ s ++ after) = s := by
  rw [trim, List.append_assoc, trimStart_append hbefore]
  cases s with
  | nil =>
    have hnothing : trimStart after = [] := List.dropWhile_eq_nil_iff.2 hafter
    rw [List.nil_append, hnothing]
    rfl
  | cons c s =>
    have hfirst : trimStart (c :: s ++ after) = c :: s ++ after := trimStart_of_first h.first
    rw [hfirst, trimEnd_append _ hafter, trimEnd_of_last h.last]

theorem Trimmed.trim_eq (h : Trimmed s) : trim s = s := by
  have hnone : Blanks [] := by simp [Blanks]
  simpa using h.trim_between hnone hnone

theorem exists_blanks_trimStart (s : List Char) :
    ∃ before, Blanks before ∧ s = before ++ trimStart s :=
  ⟨s.takeWhile isBlank, fun _ hc => List.mem_takeWhile_imp hc, List.takeWhile_append_dropWhile.symm⟩

theorem exists_blanks_trimEnd (s : List Char) :
    ∃ after, Blanks after ∧ s = trimEnd s ++ after := by
  obtain ⟨after, hafter, heq⟩ := exists_blanks_trimStart s.reverse
  refine ⟨after.reverse, fun c hc => hafter c (List.mem_reverse.1 hc), ?_⟩
  rw [trimEnd_eq_reverse, ← List.reverse_append, ← heq, List.reverse_reverse]

/-- A text is what is left of it between blanks. -/
theorem exists_blanks (s : List Char) :
    ∃ before after, Blanks before ∧ Blanks after ∧ s = before ++ trim s ++ after := by
  obtain ⟨before, hbefore, hstart⟩ := exists_blanks_trimStart s
  obtain ⟨after, hafter, hend⟩ := exists_blanks_trimEnd (trimStart s)
  refine ⟨before, after, hbefore, hafter, ?_⟩
  rw [List.append_assoc, trim, ← hend, ← hstart]

theorem first_trimStart (s : List Char) : ∀ c ∈ (trimStart s).head?, isBlank c = false := by
  intro c hc
  have hfirst := List.head?_dropWhile_not isBlank s
  rw [show (s.dropWhile isBlank).head? = some c from hc] at hfirst
  exact hfirst

/-- What is left of a text has no outer blanks. -/
theorem trimmed_trim (s : List Char) : Trimmed (trim s) where
  first c hc := by
    obtain ⟨after, -, hend⟩ := exists_blanks_trimEnd (trimStart s)
    refine first_trimStart s c ?_
    rw [hend, List.head?_append]
    exact Option.or_eq_some_iff.2 (.inl hc)
  last c hc := by
    rw [trim, trimEnd_eq_reverse, List.getLast?_reverse] at hc
    exact first_trimStart _ c hc

/-! ## The first blank -/

theorem cutAtBlank_append {c : Char} (hs : Solid s) (hc : isBlank c = true) (rest : List Char) :
    cutAtBlank (s ++ c :: rest) = some (s, rest) := by
  induction s with
  | nil => rw [List.nil_append, cutAtBlank, if_pos hc]
  | cons d s ih =>
    obtain ⟨hd, hs⟩ := List.forall_mem_cons.1 hs
    rw [List.cons_append, cutAtBlank, if_neg (by simp [hd]), ih hs]
    rfl

/-- Behind the first blanks, what goes on is what is left of the rest. -/
theorem exists_cutAtBlank_gap {gap : List Char} (hs : Solid s) (hne : gap ≠ []) (hgap : Blanks gap)
    (ht : Trimmed t) : ∃ rest, cutAtBlank (s ++ (gap ++ t)) = some (s, rest) ∧ trim rest = t := by
  obtain ⟨c, gap, rfl⟩ := List.exists_cons_of_ne_nil hne
  obtain ⟨hc, hgap⟩ := List.forall_mem_cons.1 hgap
  refine ⟨gap ++ t, cutAtBlank_append hs hc (gap ++ t), ?_⟩
  rw [trim, trimStart_append hgap]
  exact ht.trim_eq

theorem cutAtBlank_eq_none (hs : Solid s) : cutAtBlank s = none := by
  induction s with
  | nil => rfl
  | cons d s ih =>
    obtain ⟨hd, hs⟩ := List.forall_mem_cons.1 hs
    rw [cutAtBlank, if_neg (by simp [hd]), ih hs]
    rfl

/-- A text has no blank, or it has a first one. -/
theorem solid_or_exists_blank (s : List Char) :
    Solid s ∨ ∃ head c rest, Solid head ∧ isBlank c = true ∧ s = head ++ c :: rest := by
  induction s with
  | nil => exact .inl (List.forall_mem_nil _)
  | cons d s ih =>
    by_cases hd : isBlank d = true
    · exact .inr ⟨[], d, s, List.forall_mem_nil _, hd, rfl⟩
    · have hd : isBlank d = false := by simpa using hd
      rcases ih with hs | ⟨head, c, rest, hhead, hc, rfl⟩
      · exact .inl (List.forall_mem_cons.2 ⟨hd, hs⟩)
      · exact .inr ⟨d :: head, c, rest, List.forall_mem_cons.2 ⟨hd, hhead⟩, hc, rfl⟩

/-- Nothing blank stands at the end of a text that ends in no blank. -/
theorem eq_nil_of_last (ht : Blanks t) (h : ∀ c ∈ (s ++ t).getLast?, isBlank c = false) :
    t = [] := by
  rcases List.eq_nil_or_concat t with rfl | ⟨t, c, rfl⟩
  · rfl
  · have hblank : isBlank c = true := ht c (by simp)
    have hsolid : isBlank c = false := h c (by simp [List.getLast?_append])
    rw [hblank] at hsolid
    cases hsolid

/-- A text that ends in no blank has no blank, or it goes on behind its first blanks. -/
theorem solid_or_exists_gap (h : ∀ c ∈ s.getLast?, isBlank c = false) :
    Solid s ∨ ∃ head gap tail, Solid head ∧ gap ≠ [] ∧ Blanks gap ∧ tail ≠ [] ∧ Trimmed tail ∧
      s = head ++ (gap ++ tail) := by
  rcases solid_or_exists_blank s with hs | ⟨head, c, rest, hhead, hc, rfl⟩
  · exact .inl hs
  obtain ⟨before, after, hbefore, hafter, hrest⟩ := exists_blanks rest
  have htail := trimmed_trim rest
  generalize trim rest = tail at hrest htail
  subst hrest
  have hgap : Blanks (c :: before) := List.forall_mem_cons.2 ⟨hc, hbefore⟩
  have hsplit : head ++ c :: (before ++ tail ++ after) =
      head ++ (c :: before ++ tail) ++ after := by simp
  rw [hsplit] at h ⊢
  obtain rfl : after = [] := eq_nil_of_last hafter h
  rw [List.append_nil] at h ⊢
  refine .inr ⟨head, c :: before, tail, hhead, List.cons_ne_nil c before, hgap, ?_, htail, rfl⟩
  rintro rfl
  rw [List.append_nil] at h
  exact List.cons_ne_nil c before (eq_nil_of_last hgap h)

/-! ## Parts -/

/-- Cutting a text here is what the library calls splitting it. -/
theorem splitWhere_eq_splitOnP (p : Char → Bool) (s : List Char) :
    splitWhere p s = s.splitOnP p := by
  induction s with
  | nil => rfl
  | cons c s ih =>
    have hcons : consFirst c (s.splitOnP p) = (s.splitOnP p).modifyHead (List.cons c) := by
      obtain ⟨part, rest, hparts⟩ := List.exists_cons_of_ne_nil (List.splitOnP_ne_nil p s)
      rw [hparts]
      rfl
    rw [List.splitOnP_cons_eq_if_modifyHead, ← hcons, ← ih]
    rfl

/-- Parts that are joined by a mark none of them holds are told apart again. -/
theorem splitWhere_intercalate {mark : Char} {parts : List (List Char)} (hne : parts ≠ [])
    (h : ∀ part ∈ parts, mark ∉ part) : splitWhere (· == mark) ([mark].intercalate parts) = parts :=
  (splitWhere_eq_splitOnP _ _).trans (List.splitOn_intercalate mark h hne)

end CellReview.Chars
