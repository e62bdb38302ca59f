import CellReview.Text.Line

/-!
# Texts and their lines

No line of a text holds a line feed, so lines that were joined can be told apart again.
Cutting a text into pieces loses nothing, and behind a line feed it begins anew.

* `Chars.not_mem_of_mem_lines`, `Text.not_mem_of_mem_lines` — **no line holds a line feed**;
* `Text.splitOn_joinLines` — joined lines, cut at the line feeds;
* `Chars.flatten_pieces` — **the pieces of a text are the text**;
* `Chars.Closed`, `Chars.pieces_append` — behind closed lines a text is cut as if it stood
  alone;
* `Chars.Chomped` — a text and what is left of it without its last line ending;
* `Text.lines_joinLines_eq_iff` — **when joined lines are the lines of their text**.
-/

namespace CellReview

namespace Chars

/-- A piece holds no line feed but one at its end. -/
def Piece (p : List Char) : Prop :=
  '\n' ∉ p ∨ ∃ q, p = q ++ ['\n'] ∧ '\n' ∉ q

theorem Piece.cons {c : Char} {p : List Char} (hc : c ≠ '\n') (h : Piece p) : Piece (c :: p) := by
  rcases h with h | ⟨q, rfl, hq⟩
  · exact .inl (List.not_mem_cons_of_ne_of_not_mem hc.symm h)
  · exact .inr ⟨c :: q, rfl, List.not_mem_cons_of_ne_of_not_mem hc.symm hq⟩

theorem pieces_cons (c : Char) (s : List Char) :
    pieces (c :: s) = if c = '\n' then ['\n'] :: pieces s else consFirst c (pieces s) := rfl

theorem piece_of_mem_pieces {s p : List Char} (h : p ∈ pieces s) : Piece p := by
  induction s generalizing p with
  | nil => cases h
  | cons c s ih =>
    rw [pieces_cons] at h
    split at h
    · rcases List.mem_cons.1 h with rfl | h
      · exact .inr ⟨[], rfl, List.not_mem_nil⟩
      · exact ih h
    · rename_i hc
      cases hparts : pieces s with
      | nil =>
        rw [hparts, consFirst, List.mem_singleton] at h
        rw [h]
        exact Piece.cons hc (.inl List.not_mem_nil)
      | cons first rest =>
        rw [hparts] at ih
        rw [hparts, consFirst] at h
        rcases List.mem_cons.1 h with rfl | h
        · exact (ih List.mem_cons_self).cons hc
        · exact ih (List.mem_cons_of_mem first h)

theorem mem_of_mem_dropReturn {s : List Char} {c : Char} (h : c ∈ dropReturn s) : c ∈ s := by
  rw [dropReturn] at h
  split at h
  · exact (List.dropLast_sublist s).subset h
  · exact h

theorem Piece.not_mem_chomp {p : List Char} (h : Piece p) : '\n' ∉ chomp p := by
  intro hmem
  rw [chomp] at hmem
  rcases h with h | ⟨q, rfl, hq⟩
  · rw [if_neg fun hlast => h (List.mem_of_getLast? hlast)] at hmem
    exact h hmem
  · rw [if_pos List.getLast?_concat, List.dropLast_concat] at hmem
    exact hq (mem_of_mem_dropReturn hmem)

/-- No line holds a line feed. -/
theorem not_mem_of_mem_lines {s l : List Char} (h : l ∈ lines s) : '\n' ∉ l := by
  obtain ⟨p, hp, rfl⟩ := List.mem_map.1 h
  exact (piece_of_mem_pieces hp).not_mem_chomp

/-! ## Pieces and the text they come from -/

theorem consFirst_append (c : Char) {parts : List (List Char)} (h : parts ≠ [])
    (rest : List (List Char)) : consFirst c (parts ++ rest) = consFirst c parts ++ rest := by
  cases parts with
  | nil => exact absurd rfl h
  | cons first parts => rfl

theorem flatten_consFirst (c : Char) (parts : List (List Char)) :
    (consFirst c parts).flatten = c :: parts.flatten := by
  cases parts <;> rfl

/-- Cutting loses nothing. -/
theorem flatten_pieces (s : List Char) : (pieces s).flatten = s := by
  induction s with
  | nil => rfl
  | cons c s ih =>
    rw [pieces_cons]
    split
    · rename_i hc
      simp [ih, hc]
    · rw [flatten_consFirst, ih]

theorem pieces_ne_nil {s : List Char} (h : s ≠ []) : pieces s ≠ [] := by
  intro hnil
  have := flatten_pieces s
  rw [hnil] at this
  exact h this.symm

/-- No line of the text is left open. -/
def Closed (s : List Char) : Prop :=
  s = [] ∨ ∃ q, s = q ++ ['\n']

/-- Behind closed lines a text is cut as if it stood alone. -/
theorem pieces_append {s : List Char} (h : Closed s) (t : List Char) :
    pieces (s ++ t) = pieces s ++ pieces t := by
  rcases h with rfl | ⟨q, rfl⟩
  · rfl
  · induction q with
    | nil => rfl
    | cons c q ih =>
      have hne : pieces (q ++ ['\n']) ≠ [] := pieces_ne_nil (by simp)
      simp only [List.cons_append, pieces_cons, ih]
      split
      · rfl
      · exact consFirst_append c hne (pieces t)

/-- Characters without a line feed stay together. -/
theorem exists_pieces_eq_cons {l : List Char} (hne : l ≠ []) (h : '\n' ∉ l) (t : List Char) :
    ∃ first rest, pieces (l ++ t) = (l ++ first) :: rest := by
  induction l with
  | nil => exact absurd rfl hne
  | cons c l ih =>
    simp only [List.mem_cons, not_or] at h
    obtain ⟨hc, hl⟩ := h
    rw [List.cons_append, pieces_cons, if_neg (Ne.symm hc)]
    by_cases hnil : l = []
    · subst hnil
      rw [List.nil_append]
      cases pieces t with
      | nil => exact ⟨[], [], rfl⟩
      | cons first rest => exact ⟨first, rest, rfl⟩
    · obtain ⟨first, rest, heq⟩ := ih hnil hl
      exact ⟨first, rest, by rw [heq]; rfl⟩

/-- A line with its line feed is one piece. -/
theorem pieces_line {l : List Char} (h : '\n' ∉ l) : pieces (l ++ ['\n']) = [l ++ ['\n']] := by
  induction l with
  | nil => rfl
  | cons c l ih =>
    simp only [List.mem_cons, not_or] at h
    obtain ⟨hc, hl⟩ := h
    rw [List.cons_append, pieces_cons, if_neg (Ne.symm hc), ih hl]
    rfl

/-- An open line is one piece. -/
theorem pieces_of_not_mem {l : List Char} (hne : l ≠ []) (h : '\n' ∉ l) : pieces l = [l] := by
  induction l with
  | nil => exact absurd rfl hne
  | cons c l ih =>
    simp only [List.mem_cons, not_or] at h
    obtain ⟨hc, hl⟩ := h
    rw [pieces_cons, if_neg (Ne.symm hc)]
    by_cases hnil : l = []
    · rw [hnil]
      rfl
    · rw [ih hnil hl]
      rfl

/-- Every piece but the last one ends in a line feed. -/
theorem exists_flatten_eq_of_pieces {s first p : List Char} {front back : List (List Char)}
    (h : pieces s = first :: front ++ p :: back) :
    ∃ q, (first :: front).flatten = q ++ ['\n'] := by
  induction s generalizing first front with
  | nil => exact absurd h (by simp [pieces])
  | cons c s ih =>
    rw [pieces_cons] at h
    split at h
    · obtain ⟨rfl, hrest⟩ := List.cons.inj h
      cases front with
      | nil => exact ⟨[], rfl⟩
      | cons second front =>
        obtain ⟨q, hq⟩ := ih hrest
        exact ⟨'\n' :: q, by rw [List.flatten_cons, hq]; rfl⟩
    · cases hparts : pieces s with
      | nil =>
        rw [hparts] at h
        exact absurd h (by simp [consFirst])
      | cons part rest =>
        rw [hparts] at h
        obtain ⟨rfl, hrest⟩ := List.cons.inj h
        have hpieces : pieces s = part :: front ++ p :: back := by
          rw [hparts, hrest]
          rfl
        obtain ⟨q, hq⟩ := ih hpieces
        exact ⟨c :: q, by rw [List.flatten_cons, List.cons_append, ← List.flatten_cons, hq]; rfl⟩

/-- Before a piece all lines are closed. -/
theorem exists_closed_of_mem_pieces {s p : List Char} (h : p ∈ pieces s) :
    ∃ before after, s = before ++ (p ++ after) ∧ Closed before := by
  obtain ⟨front, back, hparts⟩ := List.append_of_mem h
  refine ⟨front.flatten, back.flatten, ?_, ?_⟩
  · rw [← List.flatten_cons, ← List.flatten_append, ← hparts, flatten_pieces]
  · cases front with
    | nil => exact .inl rfl
    | cons first front => exact .inr (exists_flatten_eq_of_pieces hparts)

/-! ## Line endings -/

theorem dropReturn_concat (s : List Char) : dropReturn (s ++ ['\r']) = s := by
  rw [dropReturn, if_pos List.getLast?_concat, List.dropLast_concat]

theorem dropReturn_of_ne {s : List Char} (h : s.getLast? ≠ some '\r') : dropReturn s = s :=
  if_neg h

theorem dropReturn_eq_self_iff {s : List Char} :
    dropReturn s = s ↔ s.getLast? ≠ some '\r' := by
  refine ⟨fun heq hlast => ?_, dropReturn_of_ne⟩
  obtain ⟨q, rfl⟩ := List.getLast?_eq_some_iff.1 hlast
  rw [dropReturn_concat] at heq
  simpa using congrArg List.length heq

theorem chomp_concat (s : List Char) : chomp (s ++ ['\n']) = dropReturn s := by
  rw [chomp, if_pos List.getLast?_concat, List.dropLast_concat]

/-- The first text is the second one with at most one line ending behind it, `\n` or `\r\n`. -/
inductive Chomped : List Char → List Char → Prop
  | feed {s : List Char} (h : s.getLast? ≠ some '\r') : Chomped (s ++ ['\n']) s
  | returnFeed (s : List Char) : Chomped (s ++ ['\r', '\n']) s
  | unended {s : List Char} (h : s.getLast? ≠ some '\n') : Chomped s s

theorem Chomped.length_le {s t : List Char} (h : Chomped s t) : t.length ≤ s.length := by
  cases h with
  | feed _ => simp
  | returnFeed _ => simp
  | unended _ => exact Nat.le_refl _

theorem chomped_chomp (s : List Char) : Chomped s (chomp s) := by
  by_cases hfeed : s.getLast? = some '\n'
  · obtain ⟨q, rfl⟩ := List.getLast?_eq_some_iff.1 hfeed
    rw [chomp_concat]
    by_cases hreturn : q.getLast? = some '\r'
    · obtain ⟨q, rfl⟩ := List.getLast?_eq_some_iff.1 hreturn
      rw [dropReturn_concat, List.append_assoc]
      exact .returnFeed q
    · rw [dropReturn_of_ne hreturn]
      exact .feed hreturn
  · rw [chomp, if_neg hfeed]
    exact .unended hfeed

/-! ## Lines, one by one -/

/-- A closed line is cut off without its ending. -/
theorem lines_line {l : List Char} (h : '\n' ∉ l) (t : List Char) :
    lines (l ++ '\n' :: t) = dropReturn l :: lines t := by
  have hclosed : Closed (l ++ ['\n']) := .inr ⟨l, rfl⟩
  rw [List.append_cons, lines, pieces_append hclosed, pieces_line h, List.map_append,
    List.map_singleton, chomp_concat]
  rfl

/-- An open line stays as it is. -/
theorem lines_of_not_mem {l : List Char} (hne : l ≠ []) (h : '\n' ∉ l) : lines l = [l] := by
  have hlast : l.getLast? ≠ some '\n' := fun hlast => h (List.mem_of_getLast? hlast)
  rw [lines, pieces_of_not_mem hne h, List.map_singleton, chomp, if_neg hlast]

end Chars

namespace Text

/-- **No line of a text holds a line feed.** -/
theorem not_mem_of_mem_lines {s l : String} (h : l ∈ lines s) : '\n' ∉ l.toList := by
  obtain ⟨chars, hchars, rfl⟩ := List.mem_map.1 h
  rw [String.toList_ofList]
  exact Chars.not_mem_of_mem_lines hchars

/-- Joined lines without a line feed are what lies between the line feeds. -/
theorem splitOn_joinLines {lines : List String} (hne : lines ≠ [])
    (h : ∀ l ∈ lines, '\n' ∉ l.toList) :
    (joinLines lines).toList.splitOn '\n' = lines.map String.toList := by
  rw [joinLines, String.toList_intercalate]
  refine List.splitOn_intercalate '\n' (fun chars hchars => ?_) (by simpa using hne)
  obtain ⟨l, hl, rfl⟩ := List.mem_map.1 hchars
  exact h l hl

/-! ## Joined lines, cut again -/

variable {l m : String} {ls : List String}

theorem lines_eq_singleton_iff (h : '\n' ∉ l.toList) : lines l = [l] ↔ l ≠ "" := by
  constructor
  · rintro heq rfl
    cases heq
  · intro hne
    have hchars : l.toList ≠ [] := by simpa using hne
    rw [lines, Chars.lines_of_not_mem hchars h, List.map_singleton, String.ofList_toList]

theorem ofList_dropReturn_eq_iff :
    String.ofList (Chars.dropReturn l.toList) = l ↔ l.toList.getLast? ≠ some '\r' := by
  rw [← Chars.dropReturn_eq_self_iff, ← String.toList_inj, String.toList_ofList]

theorem lines_joinLines_cons (h : '\n' ∉ l.toList) :
    lines (joinLines (l :: m :: ls)) =
      String.ofList (Chars.dropReturn l.toList) :: lines (joinLines (m :: ls)) := by
  have htext : (joinLines (l :: m :: ls)).toList =
      l.toList ++ '\n' :: (joinLines (m :: ls)).toList := by
    simp [joinLines, String.toList_intercalate, List.intercalate]
  rw [lines, htext, Chars.lines_line h, List.map_cons]
  rfl

/-- **Joined lines are the lines of their text if and only if** the last one is not empty and no
other one ends in a carriage return, which would be taken for a part of its line ending. -/
theorem lines_joinLines_eq_iff (h : ∀ l ∈ ls, '\n' ∉ l.toList) :
    lines (joinLines ls) = ls ↔
      (∀ l ∈ ls.dropLast, l.toList.getLast? ≠ some '\r') ∧ ls.getLast? ≠ some "" := by
  induction ls with
  | nil => simp [joinLines, lines, Chars.lines, Chars.pieces]
  | cons l ls ih =>
    cases ls with
    | nil =>
      have hl : '\n' ∉ l.toList := h l List.mem_cons_self
      have hjoin : joinLines [l] = l := by simp [joinLines]
      rw [hjoin, lines_eq_singleton_iff hl]
      simp
    | cons m ls =>
      have hl : '\n' ∉ l.toList := h l List.mem_cons_self
      have hrest := ih fun l hl => h l (List.mem_cons_of_mem _ hl)
      rw [lines_joinLines_cons hl, List.cons.injEq, ofList_dropReturn_eq_iff, hrest,
        List.getLast?_cons_cons, List.dropLast_cons_cons, List.forall_mem_cons, and_assoc]

/-- A joined line stands at its place again if it is the last one and not empty, or another one
and does not end in a carriage return. -/
theorem getElem?_lines_joinLines (h : ∀ l ∈ ls, '\n' ∉ l.toList) {k : Nat}
    (hk : ls[k]? = some l) :
    (lines (joinLines ls))[k]? = some l ↔
      if k + 1 = ls.length then l ≠ "" else l.toList.getLast? ≠ some '\r' := by
  induction ls generalizing k with
  | nil => simp at hk
  | cons first ls ih =>
    have hfirst : '\n' ∉ first.toList := h first List.mem_cons_self
    have hrest : ∀ l ∈ ls, '\n' ∉ l.toList := fun l hl => h l (List.mem_cons_of_mem _ hl)
    cases ls with
    | nil =>
      obtain ⟨rfl, rfl⟩ : k = 0 ∧ first = l := by cases k <;> simp_all
      by_cases hempty : first = ""
      · subst hempty
        simp [joinLines, lines, Chars.lines, Chars.pieces]
      · have hlines := (lines_eq_singleton_iff hfirst).2 hempty
        have hjoin : joinLines [first] = first := by simp [joinLines]
        rw [hjoin, hlines]
        simp [hempty]
    | cons m ls =>
      rw [lines_joinLines_cons hfirst]
      cases k with
      | zero =>
        obtain rfl : first = l := by simpa using hk
        simp [ofList_dropReturn_eq_iff]
      | succ k =>
        rw [List.getElem?_cons_succ] at hk ⊢
        simpa using ih hrest hk

end Text

end CellReview
