import CellReview.Json.Doc
import CellReview.Json.Text
import CellReview.Proofs.Json.Ordered
import CellReview.Proofs.Number.Decimal

/-!
# A value on one line reads back

The text of a value is read as the tree of that value, with nothing left over, and it is one
line.  A number reads back as far as its own text is a literal; integers always are one.

* `string?_quoted` — a quoted string is read up to its closing quote;
* `Number.reread`, `Number.Legible`, `legible_int` — what the text of a number is read as;
* `Json.Each`, `Json.Whole` — a condition on all numbers of a value; values whose numbers are
  integers;
* `Json.written` — the tree that is read;
* `Doc.ofText_compact`, `Json.Whole.newline_not_mem_compact` — **a value on one line reads back**.
-/

namespace CellReview

open Scan

/-! ## Strings -/

theorem hexValue?_digitChar : ∀ n < 16, hexValue? (Nat.digitChar n) = some n := by
  decide

namespace Scan

/-- A hexadecimal escape stands for the character that was escaped. -/
theorem hex4?_escape {c : Char} (h : c.toNat < 32) :
    hex4? '0' '0' (Nat.digitChar (c.toNat / 16)) (Nat.digitChar (c.toNat % 16)) =
      some c.toNat := by
  have hzero : hexValue? '0' = some 0 := rfl
  have hhigh := hexValue?_digitChar (c.toNat / 16) (by omega)
  have hlow := hexValue?_digitChar (c.toNat % 16) (by omega)
  simp only [hex4?, hzero, hhigh, hlow, Option.bind_eq_bind, Option.bind_some]
  congr 1
  omega

/-- The escape of a character is read as that character. -/
theorem stringBody_escape (acc : List Char) (c : Char) (rest : List Char) :
    stringBody none (some acc) (Json.escape c ++ rest) =
      stringBody none (some (c :: acc)) rest := by
  unfold Json.escape
  split
  · subst c
    simp [stringBody, escaped?]
  split
  · subst c
    simp [stringBody, escaped?]
  split
  · subst c
    simp [stringBody, escaped?]
  split
  · subst c
    simp [stringBody, escaped?]
  split
  · subst c
    simp [stringBody, escaped?]
  split
  · rename_i hcode
    obtain rfl : c = Char.ofNat 8 := by rw [← hcode, Char.ofNat_toNat]
    simp [stringBody, escaped?]
  split
  · rename_i hcode
    obtain rfl : c = Char.ofNat 12 := by rw [← hcode, Char.ofNat_toNat]
    simp [stringBody, escaped?]
  split
  · rename_i hcontrol
    have hhigh : isHigh c.toNat = false := by
      simp only [isHigh, Bool.and_eq_false_imp, decide_eq_true_eq, decide_eq_false_iff_not]
      omega
    have hlow : isLow c.toNat = false := by
      simp only [isLow, Bool.and_eq_false_imp, decide_eq_true_eq, decide_eq_false_iff_not]
      omega
    simp only [Json.hexEscape, List.cons_append, List.nil_append]
    rw [stringBody, hex4?_escape hcontrol]
    simp [hhigh, hlow]
  · rename_i hquote hbackslash _ _ _ _ _ hcontrol
    rw [List.singleton_append, stringBody]
    · simp [hquote, hbackslash, hcontrol]
    · exact fun _ _ _ _ _ hc => absurd hc hbackslash
    · exact fun _ _ hc => absurd hc hbackslash

theorem stringBody_escapes (acc s rest : List Char) :
    stringBody none (some acc) (s.flatMap Json.escape ++ '"' :: rest) =
      some (some (s.reverse ++ acc), rest) := by
  induction s generalizing acc with
  | nil => simp [stringBody]
  | cons c s ih =>
    rw [List.flatMap_cons, List.append_assoc, stringBody_escape, ih, List.reverse_cons,
      List.append_assoc, List.singleton_append]

/-- A quoted string is read up to its closing quote. -/
theorem string?_quoted (s : String) (rest : List Char) :
    string? (s.toList.flatMap Json.escape ++ '"' :: rest) = some (some s, rest) := by
  rw [string?, stringBody_escapes]
  simp

end Scan

/-! ## Numbers -/

/-- Whether no number goes on with a text. -/
def Stops (rest : List Char) : Prop :=
  ∀ c ∈ rest.head?, isDigit c = false ∧ c ≠ '.' ∧ c ≠ 'e' ∧ c ≠ 'E'

theorem stops_nil : Stops [] :=
  fun _ hc => absurd hc (by simp)

theorem stops_cons {c : Char} {rest : List Char}
    (h : isDigit c = false ∧ c ≠ '.' ∧ c ≠ 'e' ∧ c ≠ 'E') : Stops (c :: rest) :=
  fun _ hc => Option.some.inj hc ▸ h

namespace Scan

variable {cs rest : List Char}

theorem digits_append (hcs : ∀ c ∈ cs, isDigit c = true) (hrest : Stops rest) :
    digits (cs ++ rest) = (cs.map digitValue, rest) := by
  have hnone : rest.takeWhile isDigit = [] ∧ rest.dropWhile isDigit = rest := by
    cases rest with
    | nil => exact ⟨rfl, rfl⟩
    | cons c rest =>
      have hc := (hrest c rfl).1
      exact ⟨by simp [hc], by simp [hc]⟩
  rw [digits, List.takeWhile_append_of_pos hcs, List.dropWhile_append_of_pos hcs, hnone.1,
    hnone.2, List.append_nil]

theorem whole?_decimal (n : Nat) (hrest : Stops rest) :
    whole? (decimal n ++ rest) = some ((decimal n).map digitValue, rest) := by
  have hdigits := digits_append (all_isDigit_decimal n) hrest
  rcases Nat.eq_zero_or_pos n with rfl | hpos
  · have hzero : decimal 0 = [digit 0] := by rw [decimal, if_pos (by decide)]
    rw [whole?, hdigits, hzero, List.map_singleton, digitValue_digit 0 (by decide)]
    rfl
  · obtain ⟨d, cs, hd, hlt, heq⟩ := decimal_eq_cons hpos
    rw [whole?, hdigits, heq, List.map_cons, digitValue_digit d hlt]
    obtain ⟨e, rfl⟩ := Nat.exists_eq_succ_of_ne_zero hd.ne'
    rfl

theorem fraction?_of_stops (hrest : Stops rest) : fraction? rest = some (none, rest) := by
  unfold fraction?
  split
  · exact absurd rfl (hrest '.' rfl).2.1
  · rfl

theorem exponent?_of_stops (hrest : Stops rest) : exponent? rest = some (none, rest) := by
  unfold exponent?
  split
  · exact absurd rfl (hrest 'e' rfl).2.2.1
  · exact absurd rfl (hrest 'E' rfl).2.2.2
  · rfl

/-- The literal of an integer is read back. -/
theorem literal?_intText (n : Int) (hrest : Stops rest) :
    literal? ((intText n).toList ++ rest) =
      some (⟨decide (n < 0), (decimal n.natAbs).map digitValue, none, none⟩, rest) := by
  have hwhole := whole?_decimal n.natAbs hrest
  by_cases hneg : n < 0
  · have htext : (intText n).toList = '-' :: decimal n.natAbs := by
      rw [intText, if_pos hneg, natText, String.toList_append]
      exact congrArg ('-' :: ·) String.toList_ofList
    simp [htext, literal?, hwhole, fraction?_of_stops hrest, exponent?_of_stops hrest, hneg]
  · have htext : (intText n).toList = decimal n.natAbs := by
      rw [intText, if_neg hneg, natText, String.toList_ofList]
    obtain ⟨c, cs, hdecimal, hdigit⟩ := exists_decimal_cons n.natAbs
    have hsign : c ≠ '-' := fun hc => absurd (hc ▸ hdigit) (by decide)
    rw [hdecimal, List.cons_append] at hwhole
    simp [htext, hdecimal, literal?, hsign, hwhole, fraction?_of_stops hrest,
      exponent?_of_stops hrest, hneg]

end Scan

/-- What the text of a number is read as, if it is a literal. -/
def Number.reread (n : Number) : Option Number :=
  (literal? (Json.numberChars n)).bind fun found => numberOf? found.1

/-- Whether the text of a number is a literal, whatever follows it. -/
def Number.Legible (n : Number) : Prop :=
  ∃ l, ∀ rest, Stops rest → literal? (Json.numberChars n ++ rest) = some (l, rest)

theorem legible_int (n : Int) : (Number.int n).Legible :=
  ⟨_, fun _ hrest => literal?_intText n hrest⟩

/-- Whether a number is an integer. -/
def Number.IsInt (n : Number) : Prop :=
  ∃ i, n = .int i

/-- Whether a character can begin a value. -/
def Opens (c : Char) : Prop :=
  c ≠ ' ' ∧ c ≠ '\n' ∧ c ≠ '\r' ∧ c ≠ '\t' ∧ c ≠ ']' ∧ c ≠ '}'

theorem Scan.skip_of_opens {c : Char} (h : Opens c) (rest : List Char) :
    skip (c :: rest) = c :: rest := by
  obtain ⟨hspace, hline, hreturn, htab, -⟩ := h
  rw [skip, if_neg (by simp [hspace, hline, hreturn, htab])]

/-- A literal begins with a digit or with the sign. -/
theorem Scan.exists_cons_of_literal? {cs rest : List Char} {l : Literal}
    (h : literal? cs = some (l, rest)) :
    ∃ c tail, cs = c :: tail ∧ (c = '-' ∨ isDigit c = true) := by
  cases cs with
  | nil => exact absurd h (by simp [literal?, whole?, digits])
  | cons c tail =>
    refine ⟨c, tail, rfl, or_iff_not_imp_left.2 fun hsign => ?_⟩
    by_contra hdigit
    simp [literal?, hsign, whole?, digits, hdigit] at h

theorem opens_of_sign_or_digit {c : Char} (h : c = '-' ∨ isDigit c = true) : Opens c := by
  refine ⟨?_, ?_, ?_, ?_, ?_, ?_⟩ <;> (rintro rfl; exact absurd h (by decide))

/-- A literal is scanned as its number. -/
theorem Doc.scan_of_literal? {cs rest : List Char} {l : Literal}
    (h : literal? cs = some (l, rest)) (fuel : Nat) :
    Doc.scan (fuel + 1) cs = (.number (numberOf? l), rest) := by
  obtain ⟨c, tail, rfl, hc⟩ := exists_cons_of_literal? h
  rw [Doc.scan, skip_of_opens (opens_of_sign_or_digit hc)]
  split
  case h_7 => rw [h]
  all_goals
    rename_i heq
    obtain ⟨rfl, -⟩ := List.cons.inj heq
    exact absurd hc (by decide)

/-! ## Values -/

namespace Json

/-- A condition on all numbers of a value. -/
inductive Each (p : Number → Prop) : Json → Prop where
  | null : Each p .null
  | bool (b : Bool) : Each p (.bool b)
  | number {n : Number} (h : p n) : Each p (.number n)
  | string (s : String) : Each p (.string s)
  | array {items : List Json} (hitems : ∀ v ∈ items, Each p v) : Each p (.array items)
  | object {members : List (String × Json)} (hmembers : ∀ m ∈ members, Each p m.2) :
      Each p (.object members)

mutual

/-- The tree that the text of a value is read as. -/
def written : Json → Doc
  | .null => .null
  | .bool b => .bool b
  | .number n => .number n.reread
  | .string s => .string (some s)
  | .array items => .array (writtenItems items) true
  | .object members => .object (writtenMembers members) true

/-- The trees of the items of an array. -/
def writtenItems : List Json → List Doc
  | [] => []
  | v :: rest => v.written :: writtenItems rest

/-- The entries of an object. -/
def writtenMembers : List (String × Json) → List (Option String × Doc)
  | [] => []
  | (k, v) :: rest => (some k, v.written) :: writtenMembers rest

end

theorem sound_written (v : Json) : v.written.sound = true := by
  cases v <;> rfl

/-- The text of a value begins with none of the characters that end one. -/
theorem exists_chars_cons {v : Json} (h : v.Each Number.Legible) :
    ∃ c tail, chars v = c :: tail ∧ Opens c := by
  cases h with
  | null => exact ⟨_, _, rfl, by simp [Opens]⟩
  | bool b => cases b <;> exact ⟨_, _, rfl, by simp [Opens]⟩
  | number hn =>
    obtain ⟨l, hl⟩ := hn
    obtain ⟨c, tail, heq, hc⟩ := exists_cons_of_literal? (hl [] stops_nil)
    rw [List.append_nil] at heq
    exact ⟨c, tail, heq, opens_of_sign_or_digit hc⟩
  | string s => exact ⟨_, _, rfl, by simp [Opens]⟩
  | array hitems => exact ⟨_, _, rfl, by simp [Opens]⟩
  | object hmembers => exact ⟨_, _, rfl, by simp [Opens]⟩

end Json

open Json

theorem Json.quoted_append (s : String) (rest : List Char) :
    quoted s ++ rest = '"' :: (s.toList.flatMap escape ++ '"' :: rest) := by
  simp [quoted]

theorem Scan.skip_quoted (s : String) (rest : List Char) :
    skip (quoted s ++ rest) = quoted s ++ rest := by
  rw [quoted_append]
  exact skip_of_opens (by simp [Opens]) _

namespace Doc

variable {fuel : Nat} {cs rest : List Char} {d : Doc}

theorem scan_numberChars {n : Number} (h : n.Legible) (hrest : Stops rest) :
    Doc.scan (fuel + 1) (numberChars n ++ rest) = (.number n.reread, rest) := by
  obtain ⟨l, hl⟩ := h
  have hreread : n.reread = numberOf? l := by
    rw [Number.reread, ← List.append_nil (numberChars n), hl [] stops_nil, Option.bind_some]
  rw [scan_of_literal? (hl rest hrest) fuel, hreread]

theorem scan_quoted (s : String) :
    Doc.scan (fuel + 1) (quoted s ++ rest) = (.string (some s), rest) := by
  rw [quoted_append, Doc.scan, skip_of_opens (by simp [Opens])]
  simp only [string?_quoted]

/-- An array is scanned by its items, behind what is skipped in front of them. -/
theorem scan_array {c : Char} {tail : List Char} (hskip : skip cs = c :: tail) (hc : c ≠ ']')
    {docs : List Doc} {closed : Bool}
    (hitems : Doc.scanItems fuel (c :: tail) = (docs, closed, rest)) :
    Doc.scan (fuel + 1) ('[' :: cs) = (.array docs closed, rest) := by
  rw [Doc.scan, skip_of_opens (by simp [Opens])]
  simp only [hskip]
  split
  · rename_i hend
    exact absurd (List.cons.inj hend).1 hc
  · rw [hitems]

/-- An object is scanned by its entries, behind what is skipped in front of them. -/
theorem scan_object {k : String} {text : List Char} (hskip : skip cs = quoted k ++ text)
    {entries : List (Option String × Doc)} {closed : Bool}
    (hentries : Doc.scanEntries fuel (quoted k ++ text) = (entries, closed, rest)) :
    Doc.scan (fuel + 1) ('{' :: cs) = (.object entries closed, rest) := by
  rw [quoted_append] at hskip hentries
  rw [Doc.scan, skip_of_opens (by simp [Opens])]
  simp only [hskip, hentries]

variable {left text : List Char}

theorem scanItems_last (hsound : d.sound = true) (h : Doc.scan fuel cs = (d, left))
    (hleft : skip left = ']' :: rest) : Doc.scanItems (fuel + 1) cs = ([d], true, rest) := by
  simp [Doc.scanItems, h, hsound, hleft]

theorem scanItems_more (hsound : d.sound = true) (h : Doc.scan fuel cs = (d, left))
    (hleft : skip left = ',' :: text) {c : Char} {tail : List Char}
    (hskip : skip text = c :: tail) (hc : c ≠ ']') {docs : List Doc} {closed : Bool}
    (hitems : Doc.scanItems fuel (c :: tail) = (docs, closed, rest)) :
    Doc.scanItems (fuel + 1) cs = (d :: docs, closed, rest) := by
  simp [Doc.scanItems, h, hsound, hleft, hskip, hc, hitems]

theorem scanEntries_last {k : String} (hskip : skip cs = quoted k ++ ':' :: text)
    (hsound : d.sound = true) (h : Doc.scan fuel text = (d, left))
    (hleft : skip left = '}' :: rest) :
    Doc.scanEntries (fuel + 1) cs = ([(some k, d)], true, rest) := by
  have hcolon : skip (':' :: text) = ':' :: text := skip_of_opens (by simp [Opens]) text
  rw [quoted_append] at hskip
  simp [Doc.scanEntries, hskip, string?_quoted, hcolon, h, hsound, hleft]

theorem scanEntries_more {k : String} (hskip : skip cs = quoted k ++ ':' :: text)
    (hsound : d.sound = true) (h : Doc.scan fuel text = (d, left)) {more : List Char}
    (hleft : skip left = ',' :: more) {entries : List (Option String × Doc)} {closed : Bool}
    (hentries : Doc.scanEntries fuel more = (entries, closed, rest)) :
    Doc.scanEntries (fuel + 1) cs = ((some k, d) :: entries, closed, rest) := by
  have hcolon : skip (':' :: text) = ':' :: text := skip_of_opens (by simp [Opens]) text
  rw [quoted_append] at hskip
  simp [Doc.scanEntries, hskip, string?_quoted, hcolon, h, hsound, hleft, hentries]

/-! ### The scan of a whole value -/

theorem stops_comma (rest : List Char) : Stops (',' :: rest) :=
  stops_cons (by decide)

/-- Items begin with a character that ends no array. -/
theorem exists_itemChars_cons {v : Json} (h : v.Each Number.Legible) (items : List Json)
    (rest : List Char) : ∃ c tail, itemChars (v :: items) ++ rest = c :: tail ∧ Opens c := by
  obtain ⟨c, tail, heq, hopens⟩ := exists_chars_cons h
  cases items with
  | nil => exact ⟨c, _, by rw [itemChars, heq, List.cons_append], hopens⟩
  | cons w items =>
    exact ⟨c, _, by rw [itemChars, heq, List.append_assoc, List.cons_append], hopens⟩

theorem exists_memberChars_append (k : String) (v : Json) (members : List (String × Json))
    (rest : List Char) : ∃ text, memberChars ((k, v) :: members) ++ rest = quoted k ++ text := by
  cases members with
  | nil => exact ⟨_, by rw [memberChars, List.append_assoc]⟩
  | cons m members => exact ⟨_, by rw [memberChars, List.append_assoc, List.append_assoc]⟩

mutual

/-- A value is scanned as its tree, by induction on the value.  Two units of fuel a character are
enough: a nesting takes one for its bracket, and an item one for its comma. -/
theorem scan_chars : ∀ {v : Json} (fuel : Nat) (rest : List Char), v.Each Number.Legible →
    2 * (chars v).length ≤ fuel → Stops rest →
    Doc.scan fuel (chars v ++ rest) = (v.written, rest)
  | .null, fuel + 1, rest, _, _, _ => by simp [chars, Doc.scan, skip, word?, scan.named, written]
  | .bool true, fuel + 1, rest, _, _, _ => by
    simp [chars, Doc.scan, skip, word?, scan.named, written]
  | .bool false, fuel + 1, rest, _, _, _ => by
    simp [chars, Doc.scan, skip, word?, scan.named, written]
  | .number n, fuel + 1, rest, .number h, _, hrest => scan_numberChars h hrest
  | .string s, fuel + 1, rest, _, _, _ => scan_quoted s
  | .array [], fuel + 1, rest, _, _, _ => by
    simp [chars, itemChars, Doc.scan, skip, written, writtenItems]
  | .array (v :: items), fuel + 1, rest, .array h, hfuel, _ => by
    have hlength : 2 * (itemChars (v :: items)).length + 1 ≤ fuel := by
      simp only [chars, List.length_append, List.length_cons, List.length_nil] at hfuel
      omega
    have hitems := scanItems_itemChars fuel rest h hlength
    obtain ⟨c, tail, heq, hopens⟩ :=
      exists_itemChars_cons (h v List.mem_cons_self) items (']' :: rest)
    have hchars : chars (.array (v :: items)) ++ rest =
        '[' :: (itemChars (v :: items) ++ ']' :: rest) := by simp [chars]
    rw [heq] at hitems
    rw [hchars, heq]
    exact scan_array (skip_of_opens hopens tail) hopens.2.2.2.2.1 hitems
  | .object [], fuel + 1, rest, _, _, _ => by
    simp [chars, memberChars, Doc.scan, skip, written, writtenMembers]
  | .object ((k, v) :: members), fuel + 1, rest, .object h, hfuel, _ => by
    have hlength : 2 * (memberChars ((k, v) :: members)).length + 1 ≤ fuel := by
      simp only [chars, List.length_append, List.length_cons, List.length_nil] at hfuel
      omega
    have hentries := scanEntries_memberChars fuel rest h hlength
    obtain ⟨text, htext⟩ := exists_memberChars_append k v members ('}' :: rest)
    have hchars : chars (.object ((k, v) :: members)) ++ rest =
        '{' :: (memberChars ((k, v) :: members) ++ '}' :: rest) := by simp [chars]
    rw [hchars, htext]
    rw [htext] at hentries
    exact scan_object (skip_quoted k text) hentries
  | v, 0, rest, h, hfuel, _ => by
    obtain ⟨c, tail, heq, -⟩ := exists_chars_cons h
    rw [heq] at hfuel
    exact absurd hfuel (by simp)

theorem scanItems_itemChars : ∀ {v : Json} {items : List Json} (fuel : Nat) (rest : List Char),
    (∀ w ∈ v :: items, w.Each Number.Legible) →
    2 * (itemChars (v :: items)).length + 1 ≤ fuel →
    Doc.scanItems fuel (itemChars (v :: items) ++ ']' :: rest) =
      (writtenItems (v :: items), true, rest)
  | v, [], fuel + 1, rest, h, hfuel => by
    have hv := scan_chars fuel (']' :: rest) (h v List.mem_cons_self)
      (by simpa [itemChars] using hfuel) (stops_cons (by decide))
    exact scanItems_last (sound_written v) hv rfl
  | v, w :: items, fuel + 1, rest, h, hfuel => by
    obtain ⟨hv, hitems⟩ := List.forall_mem_cons.1 h
    simp only [itemChars, List.length_append, List.length_cons] at hfuel
    have hmore := scanItems_itemChars fuel rest hitems (by omega)
    obtain ⟨c, tail, heq, hopens⟩ :=
      exists_itemChars_cons (hitems w List.mem_cons_self) items (']' :: rest)
    rw [heq] at hmore
    rw [itemChars, List.append_assoc, List.cons_append, heq]
    exact scanItems_more (sound_written v) (scan_chars fuel _ hv (by omega) (stops_comma _)) rfl
      (skip_of_opens hopens tail) hopens.2.2.2.2.1 hmore

theorem scanEntries_memberChars : ∀ {k : String} {v : Json} {members : List (String × Json)}
    (fuel : Nat) (rest : List Char),
    (∀ m ∈ (k, v) :: members, m.2.Each Number.Legible) →
    2 * (memberChars ((k, v) :: members)).length + 1 ≤ fuel →
    Doc.scanEntries fuel (memberChars ((k, v) :: members) ++ '}' :: rest) =
      (writtenMembers ((k, v) :: members), true, rest)
  | k, v, [], fuel + 1, rest, h, hfuel => by
    simp only [memberChars, List.length_append, List.length_cons] at hfuel
    rw [memberChars, List.append_assoc, List.cons_append]
    have hlast : v.Each Number.Legible := h (k, v) List.mem_cons_self
    have hv := scan_chars fuel ('}' :: rest) hlast (by omega) (stops_cons (by decide))
    exact scanEntries_last (skip_quoted k _) (sound_written v) hv rfl
  | k, v, (l, w) :: members, fuel + 1, rest, h, hfuel => by
    obtain ⟨hv, hmembers⟩ := List.forall_mem_cons.1 h
    simp only [memberChars, List.length_append, List.length_cons] at hfuel
    have hmore := scanEntries_memberChars fuel rest hmembers (by omega)
    rw [memberChars, List.append_assoc, List.append_assoc, List.cons_append, List.cons_append]
    exact scanEntries_more (skip_quoted k _) (sound_written v)
      (scan_chars fuel _ hv (by omega) (stops_comma _)) rfl hmore

end

/-- **A value on one line reads back.** -/
theorem ofText_compact {v : Json} (h : v.Each Number.Legible) :
    Doc.ofText v.compact = (v.written, true) := by
  have hscan := scan_chars (Doc.fuel (chars v)) [] h
    (by rw [Doc.fuel]; omega) stops_nil
  rw [List.append_nil] at hscan
  simp [Doc.ofText, compact, hscan, skip]

end Doc

/-! ## Values whose numbers are integers -/

namespace Json

variable {p q : Number → Prop}

theorem Each.mono (hpq : ∀ n, p n → q n) {v : Json} (h : v.Each p) : v.Each q := by
  induction h with
  | null => exact .null
  | bool b => exact .bool b
  | number hn => exact .number (hpq _ hn)
  | string s => exact .string s
  | array hitems ih => exact .array ih
  | object hmembers ih => exact .object ih

mutual

/-- The numbers of a normal form are those of the value in normal form. -/
theorem Each.normal (hp : ∀ n, p n → (ofNumber n).Each p) :
    ∀ {v : Json}, v.Each p → v.normal.Each p
  | .null, _ => .null
  | .bool b, _ => .bool b
  | .number n, .number h => hp n h
  | .string s, _ => .string s
  | .array _, .array h => .array (Each.normalItems hp h)
  | .object _, .object h =>
    .object fun m hm => Each.normalMembers hp h m (mem_of_mem_ofMembers hm)

theorem Each.normalItems (hp : ∀ n, p n → (ofNumber n).Each p) :
    ∀ {items : List Json}, (∀ v ∈ items, v.Each p) → ∀ v ∈ normalItems items, v.Each p
  | [], _ => fun _ hv => absurd hv List.not_mem_nil
  | _ :: _, h =>
    have ⟨hv, hitems⟩ := List.forall_mem_cons.1 h
    List.forall_mem_cons.2 ⟨Each.normal hp hv, Each.normalItems hp hitems⟩

theorem Each.normalMembers (hp : ∀ n, p n → (ofNumber n).Each p) :
    ∀ {members : List (String × Json)}, (∀ m ∈ members, m.2.Each p) →
      ∀ m ∈ normalMembers members, m.2.Each p
  | [], _ => fun _ hm => absurd hm List.not_mem_nil
  | (_, _) :: _, h =>
    have ⟨hv, hmembers⟩ := List.forall_mem_cons.1 h
    List.forall_mem_cons.2 ⟨Each.normal hp hv, Each.normalMembers hp hmembers⟩

end

/-- Whether all numbers of a value are integers. -/
def Whole (v : Json) : Prop :=
  v.Each Number.IsInt

namespace Whole

variable {v : Json}

theorem ofNat (n : Nat) : (Json.ofNat n).Whole :=
  .number ⟨n, rfl⟩

theorem array_map {α : Type} {f : α → Json} (h : ∀ a, (f a).Whole) (items : List α) :
    (Json.array (items.map f)).Whole :=
  .array (List.forall_mem_map.2 fun a _ => h a)

theorem normal (h : v.Whole) : v.normal.Whole :=
  Each.normal (fun _ hn => hn.elim fun i heq => heq ▸ .number ⟨i, rfl⟩) h

theorem legible (h : v.Whole) : v.Each Number.Legible :=
  h.mono fun _ hn => hn.elim fun i heq => heq ▸ legible_int i

end Whole

/-! ### One line -/

theorem printed_of_all {cs : List Char} (h : cs.all (32 ≤ ·.toNat) = true) :
    ∀ x ∈ cs, 32 ≤ x.toNat := by
  simpa using h

theorem all_printed_escape (c : Char) : ∀ x ∈ escape c, 32 ≤ x.toNat := by
  have hdigit : ∀ n < 16, 32 ≤ (Nat.digitChar n).toNat := by decide
  unfold escape
  split
  · exact printed_of_all rfl
  split
  · exact printed_of_all rfl
  split
  · exact printed_of_all rfl
  split
  · exact printed_of_all rfl
  split
  · exact printed_of_all rfl
  split
  · exact printed_of_all rfl
  split
  · exact printed_of_all rfl
  split
  · rename_i hcontrol
    simp only [hexEscape, List.forall_mem_cons]
    exact ⟨by decide, by decide, by decide, by decide, hdigit _ (by omega), hdigit _ (by omega),
      fun _ hx => absurd hx List.not_mem_nil⟩
  · rename_i hcontrol
    rw [List.forall_mem_singleton]
    omega

theorem all_printed_quoted (s : String) : ∀ x ∈ quoted s, 32 ≤ x.toNat := by
  rw [quoted, List.cons_append, List.forall_mem_cons, List.forall_mem_append,
    List.forall_mem_singleton]
  refine ⟨by decide, fun x hx => ?_, by decide⟩
  obtain ⟨c, -, hc⟩ := List.mem_flatMap.1 hx
  exact all_printed_escape c x hc

theorem all_printed_decimal (n : Nat) : ∀ x ∈ decimal n, 32 ≤ x.toNat := by
  intro x hx
  have hdigit := all_isDigit_decimal n x hx
  rw [isDigit, Bool.and_eq_true, decide_eq_true_eq] at hdigit
  have : '0'.toNat ≤ x.toNat := hdigit.1
  exact le_trans (by decide) this

theorem all_printed_int (n : Int) : ∀ x ∈ numberChars (.int n), 32 ≤ x.toNat := by
  rw [numberChars, intText, natText]
  split
  · simp only [String.toList_append, String.toList_ofList, List.forall_mem_append]
    exact ⟨printed_of_all rfl, all_printed_decimal _⟩
  · rw [String.toList_ofList]
    exact all_printed_decimal _

mutual

/-- The text of a value is printed: it has no control characters. -/
theorem all_printed_chars : ∀ {v : Json}, v.Whole → ∀ x ∈ chars v, 32 ≤ x.toNat
  | .null, _ => printed_of_all rfl
  | .bool true, _ => printed_of_all rfl
  | .bool false, _ => printed_of_all rfl
  | .number _, .number ⟨i, hi⟩ => hi ▸ all_printed_int i
  | .string s, _ => all_printed_quoted s
  | .array _, .array h => by
    rw [chars, List.cons_append, List.forall_mem_cons, List.forall_mem_append,
      List.forall_mem_singleton]
    exact ⟨by decide, all_printed_itemChars h, by decide⟩
  | .object _, .object h => by
    rw [chars, List.cons_append, List.forall_mem_cons, List.forall_mem_append,
      List.forall_mem_singleton]
    exact ⟨by decide, all_printed_memberChars h, by decide⟩

theorem all_printed_itemChars : ∀ {items : List Json}, (∀ v ∈ items, v.Whole) →
    ∀ x ∈ itemChars items, 32 ≤ x.toNat
  | [], _ => fun _ hx => absurd hx List.not_mem_nil
  | [_], h => all_printed_chars (h _ List.mem_cons_self)
  | _ :: _ :: _, h => by
    have ⟨hv, hitems⟩ := List.forall_mem_cons.1 h
    rw [itemChars, List.forall_mem_append, List.forall_mem_cons]
    exact ⟨all_printed_chars hv, by decide, all_printed_itemChars hitems⟩

theorem all_printed_memberChars : ∀ {members : List (String × Json)},
    (∀ m ∈ members, m.2.Whole) → ∀ x ∈ memberChars members, 32 ≤ x.toNat
  | [], _ => fun _ hx => absurd hx List.not_mem_nil
  | [(k, _)], h => by
    rw [memberChars, List.forall_mem_append, List.forall_mem_cons]
    exact ⟨all_printed_quoted k, by decide, all_printed_chars (h _ List.mem_cons_self)⟩
  | (k, _) :: _ :: _, h => by
    have ⟨hv, hmembers⟩ := List.forall_mem_cons.1 h
    rw [memberChars, List.append_assoc, List.forall_mem_append, List.cons_append,
      List.forall_mem_cons, List.forall_mem_append, List.forall_mem_cons]
    exact ⟨all_printed_quoted k, by decide, all_printed_chars hv, by decide,
      all_printed_memberChars hmembers⟩

end

/-- **A value is written on one line.** -/
theorem Whole.newline_not_mem_compact {v : Json} (h : v.Whole) : '\n' ∉ v.compact.toList := by
  rw [compact, String.toList_ofList]
  intro hmem
  exact absurd (all_printed_chars h _ hmem) (by decide)

end Json

end CellReview
