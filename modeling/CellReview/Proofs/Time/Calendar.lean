import CellReview.Time.Calendar
import Mathlib.Tactic.IntervalCases

/-!
# Days and their dates

Four hundred years are an era of 146097 days.  The year of a day is found by taking off the days
that leap years add; within the year, counted from March on, the months follow one linear rule.

* `daysBefore`, `yearOf_spec` — the days of an era before a year of it, and the year of a day;
* `Date.ofMarch`, `Date.exists_ofMarch` — the date of a day of a year that starts in March;
* `Date.isValid_ofDays`, `Date.toDays_ofDays` — **every day has a date, and the date has that
  day**;
* `Date.year_ofDays_mem` — the years of a range of days.
-/

namespace CellReview.Time

/-! ## Years of an era -/

/-- The days of an era before a year of it. -/
def daysBefore (year : Nat) : Nat :=
  365 * year + year / 4 - year / 100

/-- The days of an era up to one of them, without those that leap years add. -/
def plainDays (day : Nat) : Nat :=
  day - day / 1460 + day / 36524 - day / 146096

theorem plainDays_mono {m n : Nat} (h : m ≤ n) : plainDays m ≤ plainDays n := by
  unfold plainDays
  omega

theorem plainDays_daysBefore : ∀ year < 400, 365 * year ≤ plainDays (daysBefore year) := by
  decide +kernel

theorem plainDays_pred_daysBefore :
    ∀ year < 400, 0 < year → plainDays (daysBefore year - 1) < 365 * year := by
  decide +kernel

/-- The year of a day of an era begins at or before that day, and the next one does not. -/
theorem yearOf_spec {day : Nat} (h : day < 146097) :
    plainDays day / 365 < 400 ∧ daysBefore (plainDays day / 365) ≤ day ∧
      (plainDays day / 365 < 399 → day < daysBefore (plainDays day / 365 + 1)) := by
  generalize hyear : plainDays day / 365 = year
  have hlast : plainDays day ≤ plainDays 146096 := plainDays_mono (by omega)
  have hlt : year < 400 := by
    have : plainDays 146096 = 145999 := by decide
    omega
  refine ⟨hlt, ?_, ?_⟩
  · by_contra hbefore
    have hpos : 0 < year := by
      rcases Nat.eq_zero_or_pos year with rfl | hpos
      · exact absurd (Nat.zero_le day) hbefore
      · exact hpos
    have hpred := plainDays_pred_daysBefore year hlt hpos
    have hmono : plainDays day ≤ plainDays (daysBefore year - 1) := plainDays_mono (by omega)
    omega
  · intro hnext
    by_contra hafter
    have hstart := plainDays_daysBefore (year + 1) (by omega)
    have hmono : plainDays (daysBefore (year + 1)) ≤ plainDays day := plainDays_mono (by omega)
    omega

/-! ## Days of a year -/

namespace Date

/-- The date of a day of a year that starts in March. -/
def ofMarch (year : Int) (day : Nat) : Date :=
  let month := (5 * day + 2) / 153
  ⟨if (if month < 10 then month + 3 else month - 9) ≤ 2 then year + 1 else year,
    if month < 10 then month + 3 else month - 9, day - (153 * month + 2) / 5 + 1⟩

/-- A day of a year: the last one needs a leap year. -/
structure InYear (year : Int) (day : Nat) : Prop where
  le : day ≤ 365
  leap : day = 365 → isLeap (year + 1) = true

/-- Every day is a day of a year of an era. -/
theorem exists_ofMarch (days : Int) :
    ∃ (era : Int) (year day : Nat), year < 400 ∧ InYear (era * 400 + year) day ∧
      days + 719468 = 146097 * era + daysBefore year + day ∧
      ofDays days = ofMarch (era * 400 + year) day := by
  obtain ⟨hlt, hstart, hnext⟩ :=
    yearOf_spec (show ((days + 719468) % 146097).toNat < 146097 by omega)
  refine ⟨(days + 719468) / 146097, plainDays ((days + 719468) % 146097).toNat / 365,
    ((days + 719468) % 146097).toNat -
      daysBefore (plainDays ((days + 719468) % 146097).toNat / 365), hlt, ⟨?_, ?_⟩, ?_, ?_⟩
  · generalize plainDays ((days + 719468) % 146097).toNat / 365 = year at *
    unfold daysBefore at *
    omega
  · intro hlast
    generalize plainDays ((days + 719468) % 146097).toNat / 365 = year at *
    unfold daysBefore at *
    simp only [isLeap, Bool.and_eq_true, Bool.or_eq_true, decide_eq_true_eq]
    omega
  · omega
  · rw [ofDays, ofMarch, Int.add_comm (_ * 400)]
    rfl

variable {year : Int} {day : Nat}

/-- The month of a day, counted from March on, and the days that bound it. -/
theorem exists_month (h : day ≤ 365) :
    ∃ month ≤ 11, (5 * day + 2) / 153 = month ∧ 153 * month ≤ 5 * day + 2 ∧
      5 * day + 2 < 153 * month + 153 :=
  ⟨(5 * day + 2) / 153, by omega, rfl, by omega, by omega⟩

theorem isValid_ofMarch (h : InYear year day) : (ofMarch year day).isValid = true := by
  obtain ⟨hle, hleap⟩ := h
  obtain ⟨month, hmonth, heq, hfirst, hlast⟩ := exists_month hle
  simp only [ofMarch, heq, isValid, Bool.and_eq_true, decide_eq_true_eq]
  by_cases hfebruary : month = 11
  · subst hfebruary
    rcases Nat.lt_or_eq_of_le hle with hlt | rfl
    · have hdays : 28 ≤ daysIn (year + 1) 2 := by
        rw [daysIn, if_pos rfl]
        split <;> omega
      refine ⟨⟨⟨by decide, by decide⟩, by omega⟩, le_trans ?_ hdays⟩
      omega
    · refine ⟨⟨⟨by decide, by decide⟩, by decide⟩, ?_⟩
      simp [daysIn, hleap rfl]
  · interval_cases month <;> simp [daysIn] at * <;> omega

theorem toDays_ofMarch (h : day ≤ 365) :
    (ofMarch year day).toDays =
      365 * year + year / 4 - year / 100 + year / 400 + day - 719468 := by
  obtain ⟨month, hmonth, heq, hfirst, hlast⟩ := exists_month h
  simp only [toDays, ofMarch, dayOfYear, heq]
  generalize hcivil : (if month < 10 then month + 3 else month - 9) = civil
  have hmarch : (civil + 9) % 12 = month := by
    rw [← hcivil]
    split_ifs <;> omega
  have hyear : (if civil ≤ 2 then (if civil ≤ 2 then year + 1 else year) - 1
      else if civil ≤ 2 then year + 1 else year) = year := by
    split_ifs <;> omega
  rw [hmarch, hyear]
  omega

/-- Every day has a date. -/
theorem isValid_ofDays (days : Int) : (ofDays days).isValid = true := by
  obtain ⟨era, year, day, -, hday, -, hdate⟩ := exists_ofMarch days
  rw [hdate]
  exact isValid_ofMarch hday

/-- The date of a day has that day. -/
theorem toDays_ofDays (days : Int) : (ofDays days).toDays = days := by
  obtain ⟨era, year, day, hyear, hday, hdays, hdate⟩ := exists_ofMarch days
  rw [hdate, toDays_ofMarch hday.le]
  unfold daysBefore at hdays
  omega

/-- The years of the days from the first of January of one year to that of a later one. -/
theorem year_ofDays_mem {days : Int} (hfirst : (Date.mk (-262143) 1 1).toDays ≤ days)
    (hpast : days < (Date.mk 262143 1 1).toDays) :
    -262143 ≤ (ofDays days).year ∧ (ofDays days).year ≤ 262142 := by
  have hbounds : -96465292 ≤ days ∧ days < 95026237 :=
    ⟨le_trans (by decide) hfirst, lt_of_lt_of_le hpast (by decide)⟩
  obtain ⟨era, year, day, hyear, hday, hdays, hdate⟩ := exists_ofMarch days
  have hle := hday.le
  simp only [hdate, ofMarch]
  unfold daysBefore at hdays
  have hera : era ≤ 655 := by omega
  rcases lt_or_eq_of_le hera with hearlier | rfl
  · split_ifs <;> omega
  · split_ifs <;> omega

end Date

end CellReview.Time
