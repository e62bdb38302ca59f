import CellReview.Proofs.Number.Decimal
import CellReview.Proofs.Time.Calendar
import CellReview.Time.Instant
import Mathlib.Data.List.TakeWhile

/-!
# Written instants

The date and the time of an instant are numbers with marks between them, so they are read back one
after the other.

* `ofDigits_padded`, `length_padded` — numbers of a fixed width;
* `Instant.number?_append`, `Instant.mark?_cons` — a number and a mark in front of a text;
* `Instant.date?_append`, `Instant.fraction?_append`, `Instant.time?_append` — a date and a time;
* `Instant.not_isBlank_text` — the text of an instant is one word;
* `Instant.Valid` — the instants that are counted, leap seconds included;
* `Instant.parse?_text` — **an instant is read back from its text**.
-/

namespace CellReview.Time

/-! ## Digits -/

theorem all_isDigit_padded (width n : Nat) : ∀ c ∈ padded width n, isDigit c = true := by
  rw [padded, List.forall_mem_append]
  exact ⟨fun c hc => List.eq_of_mem_replicate hc ▸ rfl, all_isDigit_decimal n⟩

theorem padded_ne_nil (width n : Nat) : padded width n ≠ [] := by
  obtain ⟨c, cs, hcons, -⟩ := exists_decimal_cons n
  simp [padded, hcons]

/-- Zeros in front do not count. -/
theorem ofDigits_padded (width n : Nat) : ofDigits ((padded width n).map digitValue) = n := by
  have hzeros : ∀ (k : Nat) (ds : List Nat), ofDigits (List.replicate k 0 ++ ds) = ofDigits ds := by
    intro k ds
    induction k with
    | zero => rfl
    | succ k ih => exact ih
  rw [padded, List.map_append, List.map_replicate]
  exact (hzeros _ _).trans (ofDigits_decimal n)

theorem length_padded {width n : Nat} (hwidth : 0 < width) (h : n < 10 ^ width) :
    (padded width n).length = width := by
  have hlength := (length_decimal_le_iff hwidth).2 h
  rw [padded, List.length_append, List.length_replicate]
  omega

namespace Instant

/-! ## Numbers and marks -/

/-- Whether a text does not begin with a digit. -/
def Ends (rest : List Char) : Prop :=
  ∀ c ∈ rest.head?, isDigit c = false

theorem ends_cons {c : Char} (h : isDigit c = false) (rest : List Char) : Ends (c :: rest) :=
  fun _ hc => Option.some.inj hc ▸ h

variable {ds rest : List Char}

theorem takeWhile_digits (hds : ∀ c ∈ ds, isDigit c = true) (hrest : Ends rest) :
    (ds ++ rest).takeWhile isDigit = ds ∧ (ds ++ rest).dropWhile isDigit = rest := by
  rw [List.takeWhile_append_of_pos hds, List.dropWhile_append_of_pos hds]
  cases rest with
  | nil => simp
  | cons c rest =>
    have hc := hrest c rfl
    simp [hc]

theorem trimStart_digits (hds : ∀ c ∈ ds, isDigit c = true) (hne : ds ≠ []) :
    Chars.trimStart (ds ++ rest) = ds ++ rest := by
  obtain ⟨c, cs, rfl⟩ := List.exists_cons_of_ne_nil hne
  have hc := isBlank_of_isDigit (hds c List.mem_cons_self)
  simp [Chars.trimStart, hc]

/-- A number is read up to what is no digit. -/
theorem number?_append {most : Nat} (hds : ∀ c ∈ ds, isDigit c = true) (hne : ds ≠ [])
    (hmost : ds.length ≤ most) (hrest : Ends rest) :
    number? most (ds ++ rest) = some (ofDigits (ds.map digitValue), rest) := by
  rw [number?, trimStart_digits hds hne, (takeWhile_digits hds hrest).1,
    List.take_of_length_le hmost]
  obtain ⟨c, cs, rfl⟩ := List.exists_cons_of_ne_nil hne
  simp

theorem number?_padded {width n : Nat} (hwidth : 0 < width) (h : n < 10 ^ width)
    (hrest : Ends rest) : number? width (padded width n ++ rest) = some (n, rest) := by
  rw [number?_append (all_isDigit_padded width n) (padded_ne_nil width n)
    (length_padded hwidth h).le hrest, ofDigits_padded]

theorem mark?_cons {c : Char} (h : isBlank c = false) (rest : List Char) :
    mark? c (c :: rest) = some rest := by
  simp [mark?, Chars.trimStart, h]

/-! ## Dates -/

theorem ends_dash (rest : List Char) : Ends ('-' :: rest) :=
  ends_cons rfl rest

theorem ends_colon (rest : List Char) : Ends (':' :: rest) :=
  ends_cons rfl rest

/-- Behind a sign a year may have any number of digits. -/
theorem year?_signed (n : Nat) (hrest : Ends rest) :
    year? ('-' :: (padded 4 n ++ rest)) = some (-(n : Int), rest) ∧
      year? ('+' :: (padded 4 n ++ rest)) = some ((n : Int), rest) := by
  have hvalue := ofDigits_padded 4 n
  have htake := (takeWhile_digits (all_isDigit_padded 4 n) hrest).1
  have hdrop : (padded 4 n ++ rest).drop (padded 4 n).length = rest := List.drop_left
  obtain ⟨c, cs, hcons⟩ := List.exists_cons_of_ne_nil (padded_ne_nil 4 n)
  generalize padded 4 n ++ rest = text at *
  rw [hcons] at hvalue htake hdrop
  rw [List.length_cons] at hdrop
  rw [List.map_cons] at hvalue
  simp [year?, Chars.trimStart, isBlank, htake, hvalue, hdrop]

/-- A year is read back, with its sign if it has one. -/
theorem year?_yearChars (year : Int) (hrest : Ends rest) :
    year? (yearChars year ++ rest) = some (year, rest) := by
  rw [yearChars]
  split_ifs with hshort hnegative
  · have hall := all_isDigit_padded 4 year.toNat
    have hnumber : number? 4 (padded 4 year.toNat ++ rest) = some (year.toNat, rest) :=
      number?_padded (by decide) (by omega) hrest
    have htrim : Chars.trimStart (padded 4 year.toNat ++ rest) = padded 4 year.toNat ++ rest :=
      trimStart_digits hall (padded_ne_nil 4 _)
    obtain ⟨c, cs, hcons⟩ := List.exists_cons_of_ne_nil (padded_ne_nil 4 year.toNat)
    have hc : isDigit c = true := hall c (hcons ▸ List.mem_cons_self)
    rw [hcons] at hnumber htrim ⊢
    simp only [year?, htrim]
    split
    · rename_i heq
      rw [(List.cons.inj heq).1] at hc
      exact absurd hc (by decide)
    · rename_i heq
      rw [(List.cons.inj heq).1] at hc
      exact absurd hc (by decide)
    · rw [hnumber]
      simp
      omega
  · have hyear : -(year.natAbs : Int) = year := by omega
    rw [List.cons_append, (year?_signed year.natAbs hrest).1, hyear]
  · have hyear : (year.natAbs : Int) = year := by omega
    rw [List.cons_append, (year?_signed year.natAbs hrest).2, hyear]

theorem date?_append {d : Date} (hvalid : d.isValid = true)
    (hyear : -262143 ≤ d.year ∧ d.year ≤ 262142) (hrest : Ends rest) :
    date? (yearChars d.year ++ '-' :: (padded 2 d.month ++ '-' :: (padded 2 d.day ++ rest))) =
      some (d, rest) := by
  have hbounds : d.month ≤ 12 ∧ d.day ≤ 31 := by
    simp only [Date.isValid, Bool.and_eq_true, decide_eq_true_eq] at hvalid
    obtain ⟨⟨⟨-, hmonth⟩, -⟩, hday⟩ := hvalid
    refine ⟨hmonth, le_trans hday ?_⟩
    unfold daysIn
    split_ifs <;> decide
  have hmonth : ∀ rest, number? 2 (padded 2 d.month ++ '-' :: rest) = some (d.month, '-' :: rest) :=
    fun rest => number?_padded (by decide) (by omega) (ends_dash rest)
  have hday : number? 2 (padded 2 d.day ++ rest) = some (d.day, rest) :=
    number?_padded (by decide) (by omega) hrest
  have hdash : ∀ rest, mark? '-' ('-' :: rest) = some rest := mark?_cons rfl
  simp [date?, year?_yearChars, ends_dash, hdash, hmonth, hday, hvalid, hyear]

/-! ## Times of day -/

/-- A fraction of a second is read back, however many digits it has. -/
theorem fraction?_append {nanos : Nat} (h : nanos < billion) (hrest : Ends rest)
    (hpoint : ∀ c ∈ rest.head?, c ≠ '.') :
    fraction? (fractionChars nanos ++ rest) = some (nanos, rest) := by
  have hdigits : ∀ width n, 0 < width → width ≤ 9 → n < 10 ^ width →
      fraction? ('.' :: padded width n ++ rest) = some (n * Nat.pow 10 (9 - width), rest) := by
    intro width n hpos hwidth hn
    have hlength := length_padded hpos hn
    obtain ⟨htake, hdrop⟩ := takeWhile_digits (all_isDigit_padded width n) hrest
    have hvalue := ofDigits_padded width n
    rw [List.cons_append, fraction?, htake, hdrop, List.take_of_length_le (by omega)]
    obtain ⟨c, cs, hcons⟩ := List.exists_cons_of_ne_nil (padded_ne_nil width n)
    rw [hcons] at hlength hvalue ⊢
    simp only [hvalue, hlength]
  have hbillion : billion = 1000000000 := rfl
  rw [fractionChars]
  split_ifs with hzero hmillis hmicros
  · subst hzero
    rw [List.nil_append, fraction?]
    rintro more rfl
    exact hpoint '.' rfl rfl
  · rw [hdigits 3 _ (by decide) (by decide) (by omega)]
    simp
    omega
  · rw [hdigits 6 _ (by decide) (by decide) (by omega)]
    simp
    omega
  · rw [hdigits 9 _ (by decide) (by decide) (by omega)]
    simp

theorem ends_fraction (nanos : Nat) (hrest : Ends rest) : Ends (fractionChars nanos ++ rest) := by
  rw [fractionChars]
  split_ifs
  · exact hrest
  · exact ends_cons rfl _
  · exact ends_cons rfl _
  · exact ends_cons rfl _

/-- A time of day is read back; its sixtieth second is a second of its fraction. -/
theorem time?_append {hour minute second nanos : Nat} (hhour : hour ≤ 23) (hminute : minute ≤ 59)
    (hsecond : second ≤ 60) (hnanos : nanos < billion) (hrest : Ends rest)
    (hpoint : ∀ c ∈ rest.head?, c ≠ '.') :
    time? (padded 2 hour ++ ':' :: (padded 2 minute ++ ':' ::
        (padded 2 second ++ (fractionChars nanos ++ rest)))) =
      some ((hour * 3600 + minute * 60 + second - second / 60,
        nanos + second / 60 * billion), rest) := by
  have hnumber : ∀ n rest, n < 100 → Ends rest →
      number? 2 (padded 2 n ++ rest) = some (n, rest) :=
    fun n rest hn hrest => number?_padded (by decide) (by omega) hrest
  have hcolon : ∀ rest, mark? ':' (':' :: rest) = some rest := mark?_cons rfl
  have hhours := fun rest => hnumber hour (':' :: rest) (by omega) (ends_colon rest)
  have hminutes := fun rest => hnumber minute (':' :: rest) (by omega) (ends_colon rest)
  have hseconds := hnumber second _ (by omega) (ends_fraction nanos hrest)
  simp [time?, hhours, hminutes, hseconds, hcolon, fraction?_append hnanos hrest hpoint, hhour,
    hminute, hsecond]

/-! ## Instants -/

/-- No blank stands in the text of an instant. -/
theorem not_isBlank_text (t : Instant) {suffix : String}
    (h : ∀ c ∈ suffix.toList, isBlank c = false) :
    ∀ c ∈ (t.text suffix).toList, isBlank c = false := by
  have hpadded : ∀ width n, ∀ c ∈ padded width n, isBlank c = false :=
    fun width n c hc => isBlank_of_isDigit (all_isDigit_padded width n c hc)
  have hyear : ∀ year, ∀ c ∈ yearChars year, isBlank c = false := by
    intro year
    rw [yearChars]
    split_ifs
    · exact hpadded 4 _
    · exact List.forall_mem_cons.2 ⟨rfl, hpadded 4 _⟩
    · exact List.forall_mem_cons.2 ⟨rfl, hpadded 4 _⟩
  have hfraction : ∀ nanos, ∀ c ∈ fractionChars nanos, isBlank c = false := by
    intro nanos
    rw [fractionChars]
    split_ifs
    · exact fun _ hc => absurd hc List.not_mem_nil
    · exact List.forall_mem_cons.2 ⟨rfl, hpadded 3 _⟩
    · exact List.forall_mem_cons.2 ⟨rfl, hpadded 6 _⟩
    · exact List.forall_mem_cons.2 ⟨rfl, hpadded 9 _⟩
  simp only [text, String.toList_ofList, List.forall_mem_append, List.forall_mem_cons]
  exact ⟨⟨⟨⟨⟨⟨⟨hyear _, rfl, hpadded 2 _⟩, rfl, hpadded 2 _⟩, rfl, hpadded 2 _⟩, rfl, hpadded 2 _⟩,
    rfl, hpadded 2 _⟩, hfraction _⟩, h⟩

/-- The instants that are counted: a fraction of a second or more is that of a leap second, which
is the last one of its minute. -/
structure Valid (t : Instant) : Prop where
  first_le : first ≤ t.seconds
  lt_past : t.seconds < past
  fraction : t.nanos < billion ∨ t.nanos < 2 * billion ∧ t.seconds % 60 = 59

/-- The second of a minute is the sixtieth exactly if it is a leap second. -/
theorem Valid.second {seconds : Int} {nanos s : Nat} (h : Valid ⟨seconds, nanos⟩)
    (hs : s % 60 = seconds % 60) :
    s % 60 + nanos / billion ≤ 60 ∧ (s % 60 + nanos / billion) / 60 = nanos / billion := by
  have hfraction : nanos < billion ∨ nanos < 2 * billion ∧ seconds % 60 = 59 := h.fraction
  rw [billion] at hfraction ⊢
  omega

/-- **An instant is read back from its text** in universal time. -/
theorem parse?_text {t : Instant} (h : t.Valid) : parse? (t.text "Z") = some t := by
  obtain ⟨seconds, nanos⟩ := t
  have hfirst : -96465292 * 86400 ≤ seconds := h.first_le
  have hpast : seconds < 95026237 * 86400 := h.lt_past
  generalize hday : seconds / 86400 = days
  generalize hclock : (seconds % 86400).toNat = s
  have hs : s < 86400 ∧ days * 86400 + s = seconds := by omega
  have hyear : -262143 ≤ (Date.ofDays days).year ∧ (Date.ofDays days).year ≤ 262142 := by
    apply Date.year_ofDays_mem
    · show -96465292 ≤ days
      omega
    · show days < 95026237
      omega
  -- A leap second is written as the sixtieth second, and reading takes it back by one.
  obtain ⟨hsecond, hleap⟩ := h.second (s := s) (by omega)
  have hfraction : nanos % billion < billion := Nat.mod_lt _ (by decide)
  have hends : Ends ['Z'] := ends_cons rfl []
  have hdate := fun rest => date?_append (Date.isValid_ofDays days) hyear
    (ends_cons (c := 'T') rfl rest)
  have htime := time?_append (by omega : s / 3600 ≤ 23) (by omega : s / 60 % 60 ≤ 59) hsecond
    hfraction hends (by simp)
  have hseconds : s / 3600 * 3600 + s / 60 % 60 * 60 + (s % 60 + nanos / billion) -
      nanos / billion = s := by
    omega
  have hnanos : nanos % billion + nanos / billion * billion = nanos := by
    rw [Nat.mul_comm, Nat.mod_add_div]
  rw [hleap, hseconds, hnanos] at htime
  have hoffset : offset? (Chars.trimStart ['Z']) = some (0, []) := by decide
  have hsuffix : "Z".toList = ['Z'] := rfl
  have htotal : first ≤ seconds ∧ seconds < past := ⟨h.first_le, h.lt_past⟩
  simp only [parse?, text, hday, hclock, String.toList_ofList, hsuffix, List.append_assoc,
    List.cons_append]
  rw [hdate]
  simp only [htime, hoffset, Date.toDays_ofDays, hs.2, Int.sub_zero, Option.bind_eq_bind,
    Option.bind_some, Char.reduceEq, or_false, if_true]
  exact if_pos ⟨rfl, htotal⟩

end Instant

end CellReview.Time
