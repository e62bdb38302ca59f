import CellReview.Proofs.Json.Written

/-!
# An indented value reads back

Line breaks and blanks between the tokens of a text are skipped.  So the indented text of a value
is read as the same tree as its text on one line.

* `Scan.skip_newLine` — a line break and its indentation are skipped;
* `exists_prettyChars_cons` — an indented value begins like one on one line;
* `Doc.scan_prettyChars` — a value is scanned at any level;
* `Doc.ofText_pretty` — **an indented value reads back**.
-/

namespace CellReview

open Scan Json

theorem Scan.skip_newLine (level : Nat) (rest : List Char) :
    skip (newLine level ++ rest) = skip rest := by
  have hblanks : ∀ n, skip (List.replicate n ' ' ++ rest) = skip rest := by
    intro n
    induction n with
    | zero => rfl
    | succ n ih => rw [List.replicate_succ, List.cons_append, skip, if_pos (.inl rfl), ih]
  rw [newLine, List.cons_append, skip, if_pos (.inr (.inl rfl)), hblanks]

theorem stops_newLine (level : Nat) (rest : List Char) : Stops (newLine level ++ rest) :=
  stops_cons (by decide)

/-- An indented value begins with none of the characters that end one. -/
theorem exists_prettyChars_cons {v : Json} (h : v.Each Number.Legible) (level : Nat) :
    ∃ c tail, prettyChars level v = c :: tail ∧ Opens c := by
  have hflat : prettyChars level v = chars v →
      ∃ c tail, prettyChars level v = c :: tail ∧ Opens c := by
    intro heq
    rw [heq]
    exact exists_chars_cons h
  cases v with
  | null => exact hflat rfl
  | bool b => exact hflat rfl
  | number n => exact hflat rfl
  | string s => exact hflat rfl
  | array items => cases items <;> exact ⟨_, _, rfl, by simp [Opens]⟩
  | object members => cases members <;> exact ⟨_, _, rfl, by simp [Opens]⟩

theorem skip_prettyChars {v : Json} (h : v.Each Number.Legible) (level : Nat) (rest : List Char) :
    skip (prettyChars level v ++ rest) = prettyChars level v ++ rest := by
  obtain ⟨c, tail, heq, hopens⟩ := exists_prettyChars_cons h level
  rw [heq]
  exact skip_of_opens hopens _

theorem skip_prettyItems {v : Json} (h : v.Each Number.Legible) (items : List Json) (level : Nat)
    (rest : List Char) :
    ∃ c tail, skip (prettyItems level (v :: items) ++ rest) = c :: tail ∧ c ≠ ']' := by
  obtain ⟨c, tail, heq, hopens⟩ := exists_prettyChars_cons h level
  cases items with
  | nil =>
    refine ⟨c, tail ++ rest, ?_, hopens.2.2.2.2.1⟩
    rw [prettyItems, List.append_assoc, skip_newLine, heq]
    exact skip_of_opens hopens _
  | cons w items =>
    refine ⟨c, tail ++ (',' :: prettyItems level (w :: items) ++ rest), ?_, hopens.2.2.2.2.1⟩
    rw [prettyItems, List.append_assoc, List.append_assoc, skip_newLine, heq]
    exact skip_of_opens hopens _

theorem skip_prettyMember (k : String) (v : Json) (level : Nat) (rest : List Char) :
    skip (newLine level ++ quoted k ++ ':' :: ' ' :: prettyChars level v ++ rest) =
      quoted k ++ ':' :: ' ' :: (prettyChars level v ++ rest) := by
  rw [List.append_assoc, List.append_assoc, skip_newLine, skip_quoted]
  rfl

theorem exists_skip_prettyMembers (k : String) (v : Json) (members : List (String × Json))
    (level : Nat) (rest : List Char) :
    ∃ text, skip (prettyMembers level ((k, v) :: members) ++ rest) = quoted k ++ text := by
  cases members with
  | nil => exact ⟨_, skip_prettyMember k v level rest⟩
  | cons m members =>
    rw [prettyMembers, List.append_assoc]
    exact ⟨_, skip_prettyMember k v level _⟩

namespace Doc

theorem scan_blank (cs : List Char) (fuel : Nat) :
    Doc.scan fuel (' ' :: cs) = Doc.scan fuel cs := by
  have hskip : skip (' ' :: cs) = skip cs := rfl
  cases fuel with
  | zero => rw [Doc.scan, Doc.scan]
  | succ fuel => rw [Doc.scan, Doc.scan, hskip]

mutual

/-- An indented value is scanned as its tree, by induction on the value as it is on one line. -/
theorem scan_prettyChars : ∀ {v : Json} (level fuel : Nat) (rest : List Char),
    v.Each Number.Legible → 2 * (prettyChars level v).length ≤ fuel → Stops rest →
    Doc.scan fuel (prettyChars level v ++ rest) = (v.written, rest)
  | .null, level, fuel, rest, h, hfuel, hrest => scan_chars fuel rest h hfuel hrest
  | .bool b, level, fuel, rest, h, hfuel, hrest => scan_chars fuel rest h hfuel hrest
  | .number n, level, fuel, rest, h, hfuel, hrest => scan_chars fuel rest h hfuel hrest
  | .string s, level, fuel, rest, h, hfuel, hrest => scan_chars fuel rest h hfuel hrest
  | .array [], level, fuel, rest, h, hfuel, hrest => scan_chars fuel rest h hfuel hrest
  | .object [], level, fuel, rest, h, hfuel, hrest => scan_chars fuel rest h hfuel hrest
  | .array (v :: items), level, 0, rest, h, hfuel, _ => by
    exact absurd hfuel (by simp [prettyChars])
  | .object (m :: members), level, 0, rest, h, hfuel, _ => by
    exact absurd hfuel (by simp [prettyChars])
  | .array (v :: items), level, fuel + 1, rest, .array h, hfuel, _ => by
    simp only [prettyChars, List.length_append, List.length_cons, List.length_nil] at hfuel
    have hitems := scanItems_prettyItems (level + 1) fuel (newLine level ++ ']' :: rest) rest h
      (by omega) (stops_newLine _ _) (skip_newLine level _)
    obtain ⟨c, tail, hskip, hc⟩ := skip_prettyItems (h v List.mem_cons_self) items (level + 1)
      (newLine level ++ ']' :: rest)
    have hchars : prettyChars level (.array (v :: items)) ++ rest =
        '[' :: (prettyItems (level + 1) (v :: items) ++ (newLine level ++ ']' :: rest)) := by
      simp [prettyChars]
    rw [hskip] at hitems
    rw [hchars]
    exact scan_array hskip hc hitems
  | .object ((k, v) :: members), level, fuel + 1, rest, .object h, hfuel, _ => by
    simp only [prettyChars, List.length_append, List.length_cons, List.length_nil] at hfuel
    obtain ⟨text, hskip⟩ :=
      exists_skip_prettyMembers k v members (level + 1) (newLine level ++ '}' :: rest)
    have hentries := scanEntries_prettyMembers (level + 1) fuel (newLine level ++ '}' :: rest) rest
      h (by omega) (stops_newLine _ _) (skip_newLine level _) (quoted k ++ text)
      (by rw [skip_quoted, hskip])
    have hchars : prettyChars level (.object ((k, v) :: members)) ++ rest = '{' ::
        (prettyMembers (level + 1) ((k, v) :: members) ++ (newLine level ++ '}' :: rest)) := by
      simp [prettyChars]
    rw [hchars]
    exact scan_object hskip hentries

theorem scanItems_prettyItems : ∀ {v : Json} {items : List Json} (level fuel : Nat)
    (left rest : List Char), (∀ w ∈ v :: items, w.Each Number.Legible) →
    2 * (prettyItems level (v :: items)).length + 1 ≤ fuel → Stops left →
    skip left = ']' :: rest →
    Doc.scanItems fuel (skip (prettyItems level (v :: items) ++ left)) =
      (writtenItems (v :: items), true, rest)
  | v, [], level, fuel + 1, left, rest, h, hfuel, hstops, hleft => by
    have hv : v.Each Number.Legible := h v List.mem_cons_self
    simp only [prettyItems, List.length_append] at hfuel
    have hscan := scan_prettyChars level fuel left hv (by omega) hstops
    rw [prettyItems, List.append_assoc, skip_newLine, skip_prettyChars hv]
    exact scanItems_last (sound_written v) hscan hleft
  | v, w :: items, level, fuel + 1, left, rest, h, hfuel, hstops, hleft => by
    obtain ⟨hv, hitems⟩ := List.forall_mem_cons.1 h
    simp only [prettyItems, List.length_append, List.length_cons] at hfuel
    have hmore := scanItems_prettyItems level fuel left rest hitems (by omega) hstops hleft
    obtain ⟨c, tail, hskip, hc⟩ := skip_prettyItems (hitems w List.mem_cons_self) items level left
    have hscan := scan_prettyChars level fuel (',' :: (prettyItems level (w :: items) ++ left)) hv
      (by omega) (stops_comma _)
    rw [hskip] at hmore
    rw [prettyItems, List.append_assoc, List.append_assoc, skip_newLine, skip_prettyChars hv]
    exact scanItems_more (sound_written v) hscan rfl hskip hc hmore

theorem scanEntries_prettyMembers : ∀ {k : String} {v : Json} {members : List (String × Json)}
    (level fuel : Nat) (left rest : List Char),
    (∀ m ∈ (k, v) :: members, m.2.Each Number.Legible) →
    2 * (prettyMembers level ((k, v) :: members)).length + 1 ≤ fuel → Stops left →
    skip left = '}' :: rest →
    ∀ cs, skip cs = skip (prettyMembers level ((k, v) :: members) ++ left) →
    Doc.scanEntries fuel cs = (writtenMembers ((k, v) :: members), true, rest)
  | k, v, [], level, fuel + 1, left, rest, h, hfuel, hstops, hleft, cs, hcs => by
    have hv : v.Each Number.Legible := h (k, v) List.mem_cons_self
    simp only [prettyMembers, List.length_append, List.length_cons] at hfuel
    have hscan := scan_prettyChars level fuel left hv (by omega) hstops
    rw [prettyMembers, skip_prettyMember] at hcs
    exact scanEntries_last hcs (sound_written v) ((scan_blank _ fuel).trans hscan) hleft
  | k, v, (l, w) :: members, level, fuel + 1, left, rest, h, hfuel, hstops, hleft, cs, hcs => by
    have hv : v.Each Number.Legible := h (k, v) List.mem_cons_self
    have hmembers := (List.forall_mem_cons.1 h).2
    simp only [prettyMembers, List.length_append, List.length_cons] at hfuel
    have hmore := scanEntries_prettyMembers level fuel left rest hmembers (by omega) hstops hleft
      _ rfl
    have hscan := scan_prettyChars level fuel
      (',' :: (prettyMembers level ((l, w) :: members) ++ left)) hv (by omega) (stops_comma _)
    rw [prettyMembers, List.append_assoc, skip_prettyMember, List.cons_append] at hcs
    exact scanEntries_more hcs (sound_written v) ((scan_blank _ fuel).trans hscan) rfl hmore

end

/-- **An indented value reads back.** -/
theorem ofText_pretty {v : Json} (h : v.Each Number.Legible) :
    Doc.ofText v.pretty = (v.written, true) := by
  have hscan := scan_prettyChars 0 (Doc.fuel (prettyChars 0 v)) [] h
    (by rw [Doc.fuel]; omega) stops_nil
  rw [List.append_nil] at hscan
  simp [Doc.ofText, pretty, hscan, skip]

end Doc

end CellReview
