import CellReview.Console.Input
import CellReview.Proofs.Number.Decimal
import CellReview.Proofs.Text.Blank

/-!
# Which lines say what

What can be asked for is told here by the parts of which a line consists, with blanks between
them and around them.  A line means what its parts spell, and when no parts spell it, it is
invalid.

* `Numeral` — the spellings of an index; `index?_eq_some_iff` — they are what is read as one;
* `Input.Canonical`, `Input.parts` — the inputs that have a printed form, and its parts;
* `Spelled` — everything that can be typed for an input;
* `Behind`, `Said` — a line that consists of given parts;
* `ofLine_of_said`, `spelled_ofLine` — a line means what it spells, and else nothing;
* `lines_mean_what_they_spell` — **every line**.
-/

namespace CellReview.Console

open Review (Command)
open Chars (Blanks Solid Trimmed)

/-! ## Parts of a line -/

/-- A text with something in it and no outer blanks. -/
structure Clean (text : String) : Prop where
  solid : text.toList ≠ []
  trimmed : Trimmed text.toList

/-- The spellings of an index: its digits, with zeros and a plus sign before them or without. -/
def Numeral (n : Nat) (part : List Char) : Prop :=
  n < indexLimit ∧
    ∃ zeros, part = List.replicate zeros '0' ++ decimal n ∨
      part = '+' :: (List.replicate zeros '0' ++ decimal n)

/-- The first part of a line that names a command. -/
def slash (name : String) : List Char :=
  '/' :: name.toList

/-- The names that need no argument, with what they ask for. -/
def bareNames : List (String × Input) :=
  [("accept", .command .acceptLatest none), ("reject", .command .rejectLatest none),
   ("explain", .command .sendExplainCode none), ("clear", .command .clearHistory none),
   ("history", .history), ("help", .help), ("quit", .quit), ("exit", .quit)]

/-- The inputs that have a printed form. -/
def Input.Canonical : Input → Prop
  | .nothing => True
  | .command .sendMessage text => ∃ t, text = some t ∧ Clean t ∧ t.toList.head? ≠ some '/'
  | .command .sendDebugError text => ∀ t ∈ text, Clean t
  | .command _ text => text = none
  | .edit index text => index < indexLimit ∧ Clean text
  | .apply index => index < indexLimit
  | .key keystroke => Trimmed keystroke.toList
  | .history => True
  | .help => True
  | .quit => True
  | .invalid _ => False

/-- The parts of the printed form. -/
def Input.parts : Input → List (List Char)
  | .nothing => []
  | .command .sendMessage text => (text.map String.toList).toList
  | .command .sendDebugError text => slash "debug" :: (text.map String.toList).toList
  | .command .acceptLatest _ => [slash "accept"]
  | .command .rejectLatest _ => [slash "reject"]
  | .command .sendExplainCode _ => [slash "explain"]
  | .command .clearHistory _ => [slash "clear"]
  | .edit index text => [slash "edit", decimal index, text.toList]
  | .apply index => [slash "apply", decimal index]
  | .key keystroke =>
    slash "key" :: (if keystroke.toList = [] then [] else [keystroke.toList])
  | .history => [slash "history"]
  | .help => [slash "help"]
  | .quit => [slash "quit"]
  | .invalid _ => []

/-- The parts that can be typed for an input. -/
inductive Spelled : Input → List (List Char) → Prop where
  | nothing : Spelled .nothing []
  | message {text : String} (h : Clean text) (hslash : text.toList.head? ≠ some '/') :
      Spelled (.command .sendMessage (some text)) [text.toList]
  | bare {name : String} {x : Input} (h : (name, x) ∈ bareNames) : Spelled x [slash name]
  | trailing {name text : String} {x : Input} (h : (name, x) ∈ bareNames) (htext : Clean text) :
      Spelled x [slash name, text.toList]
  | debug : Spelled (.command .sendDebugError none) [slash "debug"]
  | debugText {text : String} (h : Clean text) :
      Spelled (.command .sendDebugError (some text)) [slash "debug", text.toList]
  | key : Spelled (.key "") [slash "key"]
  | keyText {text : String} (h : Clean text) : Spelled (.key text) [slash "key", text.toList]
  | apply {n : Nat} {part : List Char} (h : Numeral n part) :
      Spelled (.apply n) [slash "apply", part]
  | edit {n : Nat} {part : List Char} {text : String} (h : Numeral n part) (htext : Clean text) :
      Spelled (.edit n text) [slash "edit", part, text.toList]

/-- A text that consists of parts with blanks before each of them. -/
def Behind : List (List Char) → List Char → Prop
  | [], text => text = []
  | part :: parts, text =>
    ∃ gap rest, gap ≠ [] ∧ Blanks gap ∧ Behind parts rest ∧ text = gap ++ part ++ rest

/-- A line that consists of parts with blanks between them, and maybe around them. -/
def Said (parts : List (List Char)) (line : String) : Prop :=
  match parts with
  | [] => Blanks line.toList
  | part :: parts =>
    ∃ before rest after, Blanks before ∧ Behind parts rest ∧ Blanks after ∧
      line.toList = before ++ (part ++ rest) ++ after

/-! ## Indices -/

theorem unsigned_of_digits {ds : List Char} (h : ∀ c ∈ ds, isDigit c = true) :
    unsigned ds = ds := by
  cases ds with
  | nil => rfl
  | cons c ds =>
    have hc : c ≠ '+' := fun hc => absurd (h c List.mem_cons_self) (by rw [hc]; decide)
    unfold unsigned
    split
    · next heq => exact absurd (List.cons.inj heq).1 hc
    · rfl

theorem unsigned_cases (part : List Char) : part = unsigned part ∨ part = '+' :: unsigned part := by
  unfold unsigned
  split
  · exact .inr rfl
  · exact .inl rfl

theorem index?_eq_some_iff {part : List Char} {n : Nat} :
    index? part = some n ↔ Numeral n part := by
  have hread : index? part = some n ↔
      unsigned part ≠ [] ∧ (∀ c ∈ unsigned part, isDigit c = true) ∧ n < indexLimit ∧
        ofDigits ((unsigned part).map digitValue) = n := by
    simp only [index?, Bool.or_eq_true, List.isEmpty_iff, Bool.not_eq_true', List.all_eq_false]
    grind
  rw [hread]
  constructor
  · rintro ⟨hne, hdigits, hlt, rfl⟩
    obtain ⟨zeros, heq⟩ := exists_zeros_decimal hne hdigits
    refine ⟨hlt, zeros, ?_⟩
    rw [← heq]
    exact unsigned_cases part
  · rintro ⟨hlt, zeros, hpart⟩
    have hdigits : ∀ c ∈ List.replicate zeros '0' ++ decimal n, isDigit c = true :=
      List.forall_mem_append.2 ⟨all_isDigit_zeros zeros, all_isDigit_decimal n⟩
    have hunsigned : unsigned part = List.replicate zeros '0' ++ decimal n := by
      rcases hpart with rfl | rfl
      · exact unsigned_of_digits hdigits
      · rfl
    obtain ⟨c, cs, hcons, -⟩ := exists_decimal_cons n
    rw [hunsigned]
    exact ⟨by simp [hcons], hdigits, hlt, ofDigits_zeros_decimal zeros n⟩

theorem Numeral.solid {part : List Char} {n : Nat} (h : Numeral n part) : Solid part := by
  obtain ⟨-, zeros, hpart⟩ := h
  have hdigits : Solid (List.replicate zeros '0' ++ decimal n) :=
    List.forall_mem_append.2 ⟨fun c hc => isBlank_of_isDigit (all_isDigit_zeros zeros c hc),
      fun c hc => isBlank_of_isDigit (all_isDigit_decimal n c hc)⟩
  rcases hpart with rfl | rfl
  · exact hdigits
  · exact List.forall_mem_cons.2 ⟨by decide, hdigits⟩

theorem Numeral.ne_nil {part : List Char} {n : Nat} (h : Numeral n part) : part ≠ [] := by
  obtain ⟨-, zeros, rfl | rfl⟩ := h
  · obtain ⟨c, cs, hcons, -⟩ := exists_decimal_cons n
    simp [hcons]
  · exact List.cons_ne_nil _ _

/-! ## Names and arguments -/

theorem nameAndArgument_of_solid {name : List Char} (hname : Solid name) :
    nameAndArgument name = (name, []) := by
  rw [nameAndArgument, Chars.cutAtBlank_eq_none hname]

theorem nameAndArgument_append {name gap argument : List Char} (hname : Solid name)
    (hne : gap ≠ []) (hgap : Blanks gap) (hargument : Trimmed argument) :
    nameAndArgument (name ++ (gap ++ argument)) = (name, argument) := by
  obtain ⟨rest, hcut, htrim⟩ := Chars.exists_cutAtBlank_gap hname hne hgap hargument
  rw [nameAndArgument, hcut]
  exact congrArg (Prod.mk name) htrim

theorem text?_of_clean {text : String} (h : Clean text) : text? text.toList = some text := by
  rw [text?, if_neg (by simpa using h.solid), String.ofList_toList]

/-- An edit is read as what stands in front of its first blanks, and behind them. -/
theorem edit?_append {index gap : List Char} {text : String} (hindex : Solid index)
    (hne : gap ≠ []) (hgap : Blanks gap) (htext : Clean text) :
    edit? (index ++ (gap ++ text.toList)) = (index? index).map (Input.edit · text) := by
  obtain ⟨rest, hcut, htrim⟩ := Chars.exists_cutAtBlank_gap hindex hne hgap htext.trimmed
  rw [edit?, hcut]
  cases h : index? index <;> simp [h, htrim, text?_of_clean htext]

theorem edit?_of_solid {argument : List Char} (h : Solid argument) : edit? argument = none := by
  rw [edit?, Chars.cutAtBlank_eq_none h]
  rfl

theorem ofCommand_bare : ∀ e ∈ bareNames, ∀ argument, Input.ofCommand e.1 argument = e.2 := by
  simp only [bareNames, List.forall_mem_cons]
  exact ⟨fun _ => rfl, fun _ => rfl, fun _ => rfl, fun _ => rfl, fun _ => rfl, fun _ => rfl,
    fun _ => rfl, fun _ => rfl, List.forall_mem_nil _⟩

/-- The meaning of a name and an argument, as the line has them. -/
theorem ofTrimmed_slash {name : String} {cs argument : List Char}
    (h : nameAndArgument cs = (name.toList, argument)) :
    Input.ofTrimmed ('/' :: cs) = Input.ofCommand name argument := by
  rw [Input.ofTrimmed, h]
  exact congrArg (Input.ofCommand · argument) String.ofList_toList

theorem ofTrimmed_message {text : String} (h : Clean text) (hslash : text.toList.head? ≠ some '/') :
    Input.ofTrimmed text.toList = .command .sendMessage (some text) := by
  obtain ⟨c, cs, hcons⟩ := List.exists_cons_of_ne_nil h.solid
  have hc : c ≠ '/' := by simpa [hcons] using hslash
  rw [← String.ofList_toList (s := text), String.toList_ofList, hcons]
  unfold Input.ofTrimmed
  split
  · next heq => cases heq
  · next heq => exact absurd (List.cons.inj heq).1 hc
  · rfl

/-! ## A line means what it spells -/

theorem solid_of_mem_bareNames : ∀ e ∈ bareNames, Solid e.1.toList := by
  decide

theorem trimmed_slash {name : String} (h : Solid name.toList) : Trimmed (slash name) :=
  Solid.trimmed (List.forall_mem_cons.2 ⟨by decide, h⟩)

/-- Every part has something in it and no outer blanks. -/
theorem Spelled.parts_trimmed {x : Input} {parts : List (List Char)} (h : Spelled x parts) :
    ∀ part ∈ parts, part ≠ [] ∧ Trimmed part := by
  have hslash : ∀ name : String, Solid name.toList → slash name ≠ [] ∧ Trimmed (slash name) :=
    fun name hname => ⟨List.cons_ne_nil _ _, trimmed_slash hname⟩
  cases h with
  | nothing => exact List.forall_mem_nil _
  | message htext _ => exact List.forall_mem_singleton.2 ⟨htext.solid, htext.trimmed⟩
  | bare hmem => exact List.forall_mem_singleton.2 (hslash _ (solid_of_mem_bareNames _ hmem))
  | trailing hmem htext =>
    exact List.forall_mem_cons.2 ⟨hslash _ (solid_of_mem_bareNames _ hmem),
      List.forall_mem_singleton.2 ⟨htext.solid, htext.trimmed⟩⟩
  | debug => exact List.forall_mem_singleton.2 (hslash _ (by decide))
  | debugText htext =>
    exact List.forall_mem_cons.2 ⟨hslash _ (by decide),
      List.forall_mem_singleton.2 ⟨htext.solid, htext.trimmed⟩⟩
  | key => exact List.forall_mem_singleton.2 (hslash _ (by decide))
  | keyText htext =>
    exact List.forall_mem_cons.2 ⟨hslash _ (by decide),
      List.forall_mem_singleton.2 ⟨htext.solid, htext.trimmed⟩⟩
  | apply hn =>
    exact List.forall_mem_cons.2 ⟨hslash _ (by decide),
      List.forall_mem_singleton.2 ⟨hn.ne_nil, hn.solid.trimmed⟩⟩
  | edit hn htext =>
    exact List.forall_mem_cons.2 ⟨hslash _ (by decide), List.forall_mem_cons.2
      ⟨⟨hn.ne_nil, hn.solid.trimmed⟩, List.forall_mem_singleton.2 ⟨htext.solid, htext.trimmed⟩⟩⟩

/-- With parts behind it a text still has no outer blanks. -/
theorem trimmed_append_of_behind {parts : List (List Char)} {s rest : List Char}
    (hparts : ∀ part ∈ parts, part ≠ [] ∧ Trimmed part) (h : Behind parts rest) (hne : s ≠ [])
    (hs : Trimmed s) : Trimmed (s ++ rest) := by
  induction parts generalizing s rest with
  | nil =>
    obtain rfl : rest = [] := h
    rwa [List.append_nil]
  | cons part parts ih =>
    obtain ⟨gap, rest, -, -, hbehind, rfl⟩ := h
    obtain ⟨⟨hpart, htrimmed⟩, hparts⟩ := List.forall_mem_cons.1 hparts
    have happend : Trimmed (s ++ gap ++ part) := hs.append htrimmed hne hpart gap
    have := ih hparts hbehind (by simp [hpart]) happend
    rwa [List.append_assoc, List.append_assoc, ← List.append_assoc gap] at this

/-- What is left of a line are its parts. -/
theorem trim_of_said {x : Input} {part : List Char} {parts : List (List Char)} {line : String}
    (h : Spelled x (part :: parts)) (hsaid : Said (part :: parts) line) :
    ∃ rest, Behind parts rest ∧ Chars.trim line.toList = part ++ rest := by
  obtain ⟨before, rest, after, hbefore, hbehind, hafter, hline⟩ := hsaid
  obtain ⟨⟨hne, hpart⟩, hparts⟩ := List.forall_mem_cons.1 h.parts_trimmed
  refine ⟨rest, hbehind, ?_⟩
  rw [hline]
  exact (trimmed_append_of_behind hparts hbehind hne hpart).trim_between hbefore hafter

theorem behind_singleton_iff {part rest : List Char} :
    Behind [part] rest ↔ ∃ gap, gap ≠ [] ∧ Blanks gap ∧ rest = gap ++ part := by
  simp [Behind]

/-- A name alone. -/
theorem ofTrimmed_of_behind_nil {name : String} {rest : List Char} (hname : Solid name.toList)
    (h : Behind [] rest) : Input.ofTrimmed (slash name ++ rest) = Input.ofCommand name [] := by
  obtain rfl : rest = [] := h
  rw [List.append_nil]
  exact ofTrimmed_slash (nameAndArgument_of_solid hname)

/-- A name and one part. -/
theorem ofTrimmed_of_behind_singleton {name : String} {part rest : List Char}
    (hname : Solid name.toList) (hpart : Trimmed part) (h : Behind [part] rest) :
    Input.ofTrimmed (slash name ++ rest) = Input.ofCommand name part := by
  obtain ⟨gap, hne, hgap, rfl⟩ := behind_singleton_iff.1 h
  exact ofTrimmed_slash (nameAndArgument_append hname hne hgap hpart)

/-- A line means what it spells. -/
theorem ofLine_of_said {x : Input} {parts : List (List Char)} {line : String} (h : Spelled x parts)
    (hsaid : Said parts line) : Input.ofLine line = x := by
  rw [Input.ofLine]
  cases h with
  | nothing =>
    rw [Chars.trim_eq_nil_iff.2 hsaid]
    rfl
  | message htext hslash =>
    obtain ⟨rest, hbehind, htrim⟩ := trim_of_said (.message htext hslash) hsaid
    obtain rfl : rest = [] := hbehind
    rw [htrim, List.append_nil, ofTrimmed_message htext hslash]
  | bare hmem =>
    obtain ⟨rest, hbehind, htrim⟩ := trim_of_said (.bare hmem) hsaid
    rw [htrim, ofTrimmed_of_behind_nil (solid_of_mem_bareNames _ hmem) hbehind]
    exact ofCommand_bare _ hmem []
  | trailing hmem htext =>
    obtain ⟨rest, hbehind, htrim⟩ := trim_of_said (.trailing hmem htext) hsaid
    rw [htrim, ofTrimmed_of_behind_singleton (solid_of_mem_bareNames _ hmem) htext.trimmed hbehind]
    exact ofCommand_bare _ hmem _
  | debug =>
    obtain ⟨rest, hbehind, htrim⟩ := trim_of_said .debug hsaid
    rw [htrim, ofTrimmed_of_behind_nil (by decide) hbehind]
    rfl
  | debugText htext =>
    obtain ⟨rest, hbehind, htrim⟩ := trim_of_said (.debugText htext) hsaid
    rw [htrim, ofTrimmed_of_behind_singleton (by decide) htext.trimmed hbehind]
    exact congrArg (Input.command .sendDebugError) (text?_of_clean htext)
  | key =>
    obtain ⟨rest, hbehind, htrim⟩ := trim_of_said .key hsaid
    rw [htrim, ofTrimmed_of_behind_nil (by decide) hbehind]
    rfl
  | keyText htext =>
    obtain ⟨rest, hbehind, htrim⟩ := trim_of_said (.keyText htext) hsaid
    rw [htrim, ofTrimmed_of_behind_singleton (by decide) htext.trimmed hbehind]
    exact congrArg Input.key String.ofList_toList
  | apply hn =>
    obtain ⟨rest, hbehind, htrim⟩ := trim_of_said (.apply hn) hsaid
    rw [htrim, ofTrimmed_of_behind_singleton (by decide) hn.solid.trimmed hbehind]
    simp only [Input.ofCommand, index?_eq_some_iff.2 hn]
  | @edit n part text hn htext =>
    obtain ⟨rest, hbehind, htrim⟩ := trim_of_said (.edit hn htext) hsaid
    obtain ⟨gap, behind, hne, hgap, hbehind, rfl⟩ := hbehind
    obtain ⟨gap', hne', hgap', rfl⟩ := behind_singleton_iff.1 hbehind
    have hargument : Trimmed (part ++ (gap' ++ text.toList)) := by
      rw [← List.append_assoc]
      exact hn.solid.trimmed.append htext.trimmed hn.ne_nil htext.solid gap'
    have hname : nameAndArgument ("edit".toList ++ (gap ++ (part ++ (gap' ++ text.toList)))) =
        ("edit".toList, part ++ (gap' ++ text.toList)) :=
      nameAndArgument_append (by decide) hne hgap hargument
    rw [htrim, List.append_assoc gap]
    refine (ofTrimmed_slash hname).trans ?_
    rw [Input.ofCommand, edit?_append hn.solid hne' hgap' htext, index?_eq_some_iff.2 hn]
    rfl

/-! ## A line that spells nothing is invalid -/

/-- What a name alone spells. -/
theorem spelled_ofCommand_nil (name : String) :
    (∃ m, Input.ofCommand name [] = .invalid m) ∨
      Spelled (Input.ofCommand name []) [slash name] := by
  unfold Input.ofCommand
  split
  case h_1 | h_2 | h_4 | h_5 | h_6 | h_7 | h_8 | h_9 => exact .inr (.bare (by decide))
  case h_3 => exact .inr .debug
  case h_10 => exact .inr .key
  case h_11 | h_12 | h_13 => exact .inl ⟨_, rfl⟩

/-- What a name and an argument spell. -/
theorem spelled_ofCommand (name : String) {argument : String} (h : Clean argument) :
    (∃ m, Input.ofCommand name argument.toList = .invalid m) ∨
      ∃ parts, Spelled (Input.ofCommand name argument.toList) (slash name :: parts) ∧
        ∀ gap, gap ≠ [] → Blanks gap → Behind parts (gap ++ argument.toList) := by
  have hbehind : ∀ gap, gap ≠ [] → Blanks gap →
      Behind [argument.toList] (gap ++ argument.toList) :=
    fun gap hne hgap => behind_singleton_iff.2 ⟨gap, hne, hgap, rfl⟩
  unfold Input.ofCommand
  split
  case h_1 | h_2 | h_4 | h_5 | h_6 | h_7 | h_8 | h_9 =>
    exact .inr ⟨_, .trailing (by decide) h, hbehind⟩
  case h_3 =>
    rw [text?_of_clean h]
    exact .inr ⟨_, .debugText h, hbehind⟩
  case h_10 =>
    rw [String.ofList_toList]
    exact .inr ⟨_, .keyText h, hbehind⟩
  case h_11 =>
    cases hn : index? argument.toList with
    | none => exact .inl ⟨_, rfl⟩
    | some n => exact .inr ⟨_, .apply (index?_eq_some_iff.1 hn), hbehind⟩
  case h_12 =>
    rcases Chars.solid_or_exists_gap h.trimmed.last with
      hs | ⟨index, gap', text, hindex, hne', hgap', htextne, htext, heq⟩
    · rw [edit?_of_solid hs]
      exact .inl ⟨_, rfl⟩
    have hclean : Clean (String.ofList text) := ⟨by simpa using htextne, by simpa using htext⟩
    have hedit := edit?_append hindex hne' hgap' hclean
    rw [String.toList_ofList, ← heq] at hedit
    rw [hedit]
    cases hn : index? index with
    | none => exact .inl ⟨_, rfl⟩
    | some n =>
      refine .inr ⟨_, .edit (index?_eq_some_iff.1 hn) hclean, fun gap hne hgap => ?_⟩
      rw [heq, String.toList_ofList, ← List.append_assoc]
      exact ⟨gap, gap' ++ text, hne, hgap, behind_singleton_iff.2 ⟨gap', hne', hgap', rfl⟩, rfl⟩
  case h_13 => exact .inl ⟨_, rfl⟩

/-- What a slash and a text behind it spell. -/
theorem spelled_ofTrimmed_slash {cs : List Char} (h : Trimmed ('/' :: cs)) :
    (∃ m, Input.ofTrimmed ('/' :: cs) = .invalid m) ∨
      ∃ part parts rest, Spelled (Input.ofTrimmed ('/' :: cs)) (part :: parts) ∧
        Behind parts rest ∧ '/' :: cs = part ++ rest := by
  have hlast : ∀ c ∈ cs.getLast?, isBlank c = false := by
    intro c hc
    refine h.last c ?_
    rw [← List.singleton_append, List.getLast?_append, hc]
    rfl
  rcases Chars.solid_or_exists_gap hlast with
    hs | ⟨name, gap, argument, hname, hne, hgap, hargne, hargument, rfl⟩
  · have hmeans : Input.ofTrimmed ('/' :: cs) = Input.ofCommand (String.ofList cs) [] :=
      ofTrimmed_slash (by rw [nameAndArgument_of_solid hs, String.toList_ofList])
    rw [hmeans]
    refine (spelled_ofCommand_nil _).imp_right fun hspelled => ⟨_, [], [], hspelled, rfl, ?_⟩
    rw [slash, String.toList_ofList, List.append_nil]
  · have hclean : Clean (String.ofList argument) :=
      ⟨by simpa using hargne, by simpa using hargument⟩
    have hmeans : Input.ofTrimmed ('/' :: (name ++ (gap ++ argument))) =
        Input.ofCommand (String.ofList name) (String.ofList argument).toList :=
      ofTrimmed_slash (by
        rw [nameAndArgument_append hname hne hgap hargument, String.toList_ofList,
          String.toList_ofList])
    rw [hmeans]
    refine (spelled_ofCommand _ hclean).imp_right fun ⟨parts, hspelled, hbehind⟩ =>
      ⟨_, parts, gap ++ argument, hspelled, ?_, ?_⟩
    · simpa using hbehind gap hne hgap
    · rw [slash, String.toList_ofList]
      rfl

/-- A line spells what it means, unless it is invalid. -/
theorem spelled_ofLine (line : String) :
    (∃ m, Input.ofLine line = .invalid m) ∨
      ∃ parts, Spelled (Input.ofLine line) parts ∧ Said parts line := by
  obtain ⟨before, after, hbefore, hafter, hline⟩ := Chars.exists_blanks line.toList
  have htrimmed := Chars.trimmed_trim line.toList
  rw [Input.ofLine]
  cases htrim : Chars.trim line.toList with
  | nil => exact .inr ⟨[], .nothing, Chars.trim_eq_nil_iff.1 htrim⟩
  | cons c cs =>
    rw [htrim] at hline htrimmed
    by_cases hc : c = '/'
    · subst hc
      refine (spelled_ofTrimmed_slash htrimmed).imp_right ?_
      rintro ⟨part, parts, rest, hspelled, hbehind, hsplit⟩
      exact ⟨_, hspelled, before, rest, after, hbefore, hbehind, hafter, by rw [hline, hsplit]⟩
    · have hclean : Clean (String.ofList (c :: cs)) := ⟨by simp, by simpa using htrimmed⟩
      have hslash : (String.ofList (c :: cs)).toList.head? ≠ some '/' := by simpa using hc
      have hmeans := ofTrimmed_message hclean hslash
      rw [String.toList_ofList] at hmeans
      rw [hmeans]
      refine .inr ⟨_, .message hclean hslash, before, [], after, hbefore, rfl, hafter, ?_⟩
      rw [hline, String.toList_ofList, List.append_nil]

/-! ## Canonical inputs -/

theorem canonical_of_mem_bareNames : ∀ e ∈ bareNames, e.2.Canonical := by
  simp [bareNames, Input.Canonical]

/-- What is spelled has a printed form. -/
theorem Spelled.canonical {x : Input} {parts : List (List Char)} (h : Spelled x parts) :
    x.Canonical := by
  cases h with
  | nothing | debug => simp [Input.Canonical]
  | message htext hslash => exact ⟨_, rfl, htext, hslash⟩
  | bare hmem | trailing hmem _ => exact canonical_of_mem_bareNames _ hmem
  | debugText htext => simpa [Input.Canonical] using htext
  | key => exact ⟨nofun, nofun⟩
  | keyText htext => exact htext.trimmed
  | apply hn => exact hn.1
  | edit hn htext => exact ⟨hn.1, htext⟩

theorem numeral_decimal {n : Nat} (h : n < indexLimit) : Numeral n (decimal n) :=
  ⟨h, 0, .inl rfl⟩

/-- The printed form of an input spells it. -/
theorem Input.Canonical.spelled {x : Input} (h : x.Canonical) : Spelled x x.parts := by
  cases x with
  | nothing => exact .nothing
  | command c text =>
    cases c with
    | sendMessage =>
      obtain ⟨t, rfl, htext, hslash⟩ := h
      exact .message htext hslash
    | sendDebugError =>
      cases text with
      | none => exact .debug
      | some t => exact .debugText (h t rfl)
    | acceptLatest | rejectLatest | sendExplainCode | clearHistory =>
      obtain rfl : text = none := h
      exact .bare (by decide)
  | edit index text => exact .edit (numeral_decimal h.1) h.2
  | apply index => exact .apply (numeral_decimal h)
  | key keystroke =>
    by_cases hne : keystroke.toList = []
    · obtain rfl : keystroke = "" := String.toList_eq_nil_iff.1 hne
      exact .key
    · rw [Input.parts, if_neg hne]
      exact .keyText ⟨hne, h⟩
  | history | help | quit => exact .bare (by decide)
  | invalid m => exact h.elim

/-! ## Every line -/

/-- The meaning of every line has a printed form, unless the line is invalid; every printed form,
with blanks between its parts and around them, means what it is the form of; so does everything
else that spells it; and what spells nothing is invalid. -/
theorem lines_mean_what_they_spell (line : String) :
    ((Input.ofLine line).Canonical ∨ ∃ m, Input.ofLine line = .invalid m) ∧
    (∀ x : Input, x.Canonical → Said x.parts line → Input.ofLine line = x) ∧
    (∀ x parts, Spelled x parts → Said parts line → Input.ofLine line = x) ∧
    ((∀ x parts, Spelled x parts → ¬ Said parts line) → ∃ m, Input.ofLine line = .invalid m) := by
  refine ⟨?canonical, fun x hx => ofLine_of_said hx.spelled, fun x parts => ofLine_of_said,
    fun hnone => ?invalid⟩
  case canonical =>
    rcases spelled_ofLine line with hinvalid | ⟨parts, hspelled, -⟩
    · exact .inr hinvalid
    · exact .inl hspelled.canonical
  case invalid =>
    rcases spelled_ofLine line with hinvalid | ⟨parts, hspelled, hsaid⟩
    · exact hinvalid
    · exact absurd hsaid (hnone _ parts hspelled)

/-- An edit with a sign, a zero and blanks of several kinds; the printed form of a keystroke; and a
name that nothing is asked for by. -/
theorem lines_mean_what_they_spell_edit :
    Input.ofLine " /edit\u3000+07\t\tuse a while loop\n" = .edit 7 "use a while loop" ∧
    Input.ofLine "/key Accel Y" = .key "Accel Y" ∧
    ∃ m, Input.ofLine "/bogus 3" = .invalid m := by
  refine ⟨?edit, ?key, ?bogus⟩
  case edit =>
    have hindex : Numeral 7 "+07".toList := ⟨by decide, 1, .inr (by decide +kernel)⟩
    exact (lines_mean_what_they_spell _).2.2.1 _ _ (.edit hindex ⟨by decide, by decide⟩)
      ⟨[' '], _, ['\n'], by decide,
        ⟨['\u3000'], _, by decide, by decide,
          ⟨['\t', '\t'], [], by decide, by decide, rfl, rfl⟩, rfl⟩, by decide, by decide⟩
  case key =>
    exact (lines_mean_what_they_spell _).2.1 (.key "Accel Y")
      (show Trimmed "Accel Y".toList by decide)
      ⟨[], _, [], by decide, ⟨[' '], [], by decide, by decide, rfl, rfl⟩, by decide, by decide⟩
  case bogus =>
    refine (lines_mean_what_they_spell _).2.2.2 fun x parts hspelled hsaid => ?_
    have hmeans := ofLine_of_said hspelled hsaid
    subst hmeans
    exact hspelled.canonical

end CellReview.Console
