import Mathlib.Algebra.Group.Nat.Defs
import Mathlib.Data.List.Basic
import Mathlib.Order.Monotone.Basic
import ScriptCore.Instant

/-!
# The text of an instant says which instant it is

The date and the time of day are read off from both sides of the `T`, and each of their parts has a
fixed width but the year and the decimal places (`Instant.eq_of_text_eq`).

That a date belongs to one day only (`CivilDate.ofDays_injective`) is seen from the days on which
the years of a cycle begin: a day lies in the year that is computed for it, because that year does
not decrease from day to day and is right on the first and on the last day of each year.

Days are counted from a first of March and split into cycles of 400 years, so that a leap day is the
last day of its year.  `CivilDate.ofDays_eq` names the parts into which a day is split, and
`CivilDate.ofParts_inj` says that no two choices of parts have one date.

Numbers are written with zeros in front.  Those do not change what the digits read as
(`Instant.ofDigitChars_padded`), and they fix the width, so what stands before or behind such a
number is known too.  For the year there is a sign, and for the decimal places their number tells
the unit (`Instant.readFraction`).
-/

namespace ScriptCore

namespace CivilDate

/-! ## Days of a cycle of 400 years -/

/-- The day of a cycle on which a year begins. -/
def yearStart (year : Nat) : Nat :=
  365 * year + year / 4 - year / 100 + year / 400

/-- The days of a cycle, less its leap days. -/
def commonDays (day : Nat) : Nat :=
  day - day / 1460 + day / 36524 - day / 146096

theorem yearStart_succ_le (year : Nat) : yearStart (year + 1) ≤ yearStart year + 366 := by
  have hcycles : ∀ y : Nat, y / 400 = y / 100 / 4 := fun y => (Nat.div_div_eq_div_mul y 100 4).symm
  unfold yearStart
  rw [hcycles, hcycles]
  omega

theorem commonDays_mono : Monotone commonDays := by
  refine monotone_nat_of_le_succ fun day => ?_
  unfold commonDays
  omega

theorem commonDays_yearStart : ∀ year < 400,
    365 * year ≤ commonDays (yearStart year) ∧
      commonDays (yearStart (year + 1) - 1) < 365 * (year + 1) := by
  decide +kernel

/-- A day lies in the year that is computed for it. -/
theorem yearStart_le_of_year {day : Nat} (hday : day < 146097) :
    commonDays day / 365 < 400 ∧ yearStart (commonDays day / 365) ≤ day ∧
      day < yearStart (commonDays day / 365 + 1) := by
  have hyear : commonDays day / 365 < 400 := by
    have hlast : commonDays day ≤ commonDays 146096 := commonDays_mono (by omega)
    have hvalue : commonDays 146096 = 145999 := rfl
    omega
  generalize hquotient : commonDays day / 365 = year at hyear ⊢
  refine ⟨hyear, ?_, ?_⟩
  · -- Otherwise the day is one of the year before or earlier, whose last day is computed right.
    by_contra hbefore
    obtain ⟨before, rfl⟩ : ∃ before, year = before + 1 := by
      refine Nat.exists_eq_succ_of_ne_zero fun hzero => hbefore ?_
      rw [hzero]
      exact Nat.zero_le day
    have hle := commonDays_mono (show day ≤ yearStart (before + 1) - 1 by omega)
    have hlast := (commonDays_yearStart before (by omega)).2
    omega
  · -- Otherwise the first day of the next year would be computed into this one.
    by_contra hafter
    have hnext : year + 1 < 400 := by
      by_contra hlast
      obtain rfl : year = 399 := by omega
      exact hafter hday
    have hle := commonDays_mono (not_lt.1 hafter)
    have hfirst := (commonDays_yearStart (year + 1) hnext).1
    omega

/-- The date of a day that is given by its cycle, by the year in the cycle and by the day in the
year, both counted from March. -/
def ofParts (cycle : Int) (year dayOfYear : Nat) : CivilDate :=
  let marchMonth := (5 * dayOfYear + 2) / 153
  let month := if marchMonth < 10 then marchMonth + 3 else marchMonth - 9
  { year := year + cycle * 400 + if month ≤ 2 then 1 else 0
    month
    day := dayOfYear - (153 * marchMonth + 2) / 5 + 1 }

/-- A date is that of one day of one year of one cycle. -/
theorem ofParts_inj {cycle cycle' : Int} {year year' dayOfYear dayOfYear' : Nat}
    (hyear : year < 400) (hyear' : year' < 400) (hday : dayOfYear < 366) (hday' : dayOfYear' < 366)
    (heq : ofParts cycle year dayOfYear = ofParts cycle' year' dayOfYear') :
    cycle = cycle' ∧ year = year' ∧ dayOfYear = dayOfYear' := by
  simp only [ofParts, CivilDate.mk.injEq] at heq
  obtain ⟨hyears, hmonths, hdays⟩ := heq
  -- Months of a year that begins in March are in another order, but each of them once.
  have hmarch : (5 * dayOfYear + 2) / 153 = (5 * dayOfYear' + 2) / 153 := by
    split_ifs at hmonths <;> omega
  have hdayOfYear : dayOfYear = dayOfYear' := by
    rw [hmarch] at hdays
    omega
  rw [hmonths] at hyears
  exact ⟨by omega, by omega, hdayOfYear⟩

theorem ofDays_eq (days : Int) :
    ∃ (cycle : Int) (year dayOfYear : Nat), year < 400 ∧ dayOfYear < 366 ∧
      days + 719468 = cycle * 146097 + yearStart year + dayOfYear ∧
      ofDays days = ofParts cycle year dayOfYear := by
  have hday : ((days + 719468) % 146097).toNat < 146097 := by omega
  have hsplit : days + 719468 =
      (days + 719468) / 146097 * 146097 + ((days + 719468) % 146097).toNat := by
    omega
  obtain ⟨hyear, hstart, hend⟩ := yearStart_le_of_year hday
  have hofDays : ofDays days = ofParts ((days + 719468) / 146097)
      (commonDays ((days + 719468) % 146097).toNat / 365)
      (((days + 719468) % 146097).toNat -
        yearStart (commonDays ((days + 719468) % 146097).toNat / 365)) := by
    -- The year is one of a cycle, so no leap day of full cycles is to be counted for its start.
    have hnoCycle : commonDays ((days + 719468) % 146097).toNat / 365 / 400 = 0 := by omega
    rw [yearStart, hnoCycle]
    rfl
  generalize ((days + 719468) % 146097).toNat = day at hsplit hyear hstart hend hofDays
  refine ⟨_, _, _, hyear, ?_, ?_, hofDays⟩
  · have hlength := yearStart_succ_le (commonDays day / 365)
    omega
  · omega

theorem ofDays_lt (days : Int) : (ofDays days).month < 10 ^ 2 ∧ (ofDays days).day < 10 ^ 2 := by
  obtain ⟨cycle, year, dayOfYear, -, hday, -, hdate⟩ := ofDays_eq days
  rw [hdate, ofParts]
  dsimp only
  constructor
  · split_ifs <;> omega
  · omega

theorem ofDays_injective : Function.Injective ofDays := by
  intro days days' heq
  obtain ⟨cycle, year, dayOfYear, hyear, hday, hdays, hdate⟩ := ofDays_eq days
  obtain ⟨cycle', year', dayOfYear', hyear', hday', hdays', hdate'⟩ := ofDays_eq days'
  rw [hdate, hdate'] at heq
  obtain ⟨rfl, rfl, rfl⟩ := ofParts_inj hyear hyear' hday hday' heq
  omega

end CivilDate

namespace Instant

/-! ## Numbers of a fixed width -/

theorem toList_padded (width value : Nat) :
    (padded width value).toList =
      List.replicate (width - (Nat.toDigits 10 value).length) '0' ++ Nat.toDigits 10 value := by
  rw [padded, String.toList_append, String.toList_ofList, Nat.toList_repr, ← String.length_toList,
    Nat.toList_repr]

theorem ofDigitChars_padded (width value : Nat) :
    Nat.ofDigitChars 10 (padded width value).toList 0 = value := by
  rw [toList_padded, Nat.ofDigitChars_append, Nat.ofDigitChars_replicate_zero,
    Nat.mul_zero, Nat.ofDigitChars_ten_toDigits]

theorem length_padded {width value : Nat} (hwidth : 0 < width) (hlt : value < 10 ^ width) :
    (padded width value).toList.length = width := by
  have hle := (Nat.length_toDigits_le_iff (by decide) hwidth).2 hlt
  rw [toList_padded, List.length_append, List.length_replicate]
  omega

theorem isDigit_of_mem_padded {width value : Nat} {c : Char}
    (hc : c ∈ (padded width value).toList) : c.isDigit = true := by
  rw [toList_padded, List.mem_append] at hc
  rcases hc with hzero | hdigit
  · rw [List.eq_of_mem_replicate hzero]
    rfl
  · exact Nat.isDigit_of_mem_toDigits (by decide) (by decide) hdigit

theorem padded_injective (width : Nat) : Function.Injective (padded width) := by
  intro value value' heq
  rw [← ofDigitChars_padded width value, heq, ofDigitChars_padded]

/-- A number of a fixed width in front of a text can be told from it. -/
theorem padded_append_inj {width value value' : Nat} {rest rest' : String} (hwidth : 0 < width)
    (hlt : value < 10 ^ width) (hlt' : value' < 10 ^ width)
    (heq : padded width value ++ rest = padded width value' ++ rest') :
    value = value' ∧ rest = rest' := by
  have hlists := congrArg String.toList heq
  rw [String.toList_append, String.toList_append] at hlists
  obtain ⟨hnumbers, hrests⟩ := List.append_inj hlists
    ((length_padded hwidth hlt).trans (length_padded hwidth hlt').symm)
  exact ⟨padded_injective width (String.toList_inj.1 hnumbers), String.toList_inj.1 hrests⟩

/-- A number of a fixed width behind a text can be told from it. -/
theorem append_padded_inj {width value value' : Nat} {front front' : String} (hwidth : 0 < width)
    (hlt : value < 10 ^ width) (hlt' : value' < 10 ^ width)
    (heq : front ++ padded width value = front' ++ padded width value') :
    front = front' ∧ value = value' := by
  have hlists := congrArg String.toList heq
  rw [String.toList_append, String.toList_append] at hlists
  obtain ⟨hfronts, hnumbers⟩ := List.append_inj' hlists
    ((length_padded hwidth hlt).trans (length_padded hwidth hlt').symm)
  exact ⟨String.toList_inj.1 hfronts, padded_injective width (String.toList_inj.1 hnumbers)⟩

/-! ## Years and decimal places -/

/-- The year that a text says. -/
def readYear : List Char → Int
  | '-' :: digits => -Nat.ofDigitChars 10 digits 0
  | '+' :: digits => Nat.ofDigitChars 10 digits 0
  | digits => Nat.ofDigitChars 10 digits 0

theorem readYear_yearText (year : Int) : readYear (yearText year).toList = year := by
  unfold yearText
  split_ifs with hneg hlarge
  · rw [String.toList_append]
    change -(Nat.ofDigitChars 10 (padded 4 year.natAbs).toList 0 : Int) = year
    rw [ofDigitChars_padded]
    omega
  · rw [String.toList_append]
    change (Nat.ofDigitChars 10 (padded 4 year.natAbs).toList 0 : Int) = year
    rw [ofDigitChars_padded]
    omega
  · -- Without a sign the text starts with a digit.
    have hdigits : ∀ c ∈ (padded 4 year.natAbs).toList, c.isDigit = true := fun c =>
      isDigit_of_mem_padded
    have hvalue := ofDigitChars_padded 4 year.natAbs
    unfold readYear
    split
    · simp_all
    · simp_all
    · rw [hvalue]
      omega

theorem yearText_injective : Function.Injective yearText := by
  intro year year' heq
  rw [← readYear_yearText year, heq, readYear_yearText]

/-- The nanoseconds that decimal places say. -/
def readFraction : List Char → Nat
  | [] => 0
  | _ :: digits => Nat.ofDigitChars 10 digits 0 * 10 ^ (9 - digits.length)

theorem readFraction_padded {width value : Nat} (hwidth : 0 < width) (hlt : value < 10 ^ width) :
    readFraction ("." ++ padded width value).toList = value * 10 ^ (9 - width) := by
  rw [String.toList_append]
  change Nat.ofDigitChars 10 (padded width value).toList 0 *
    10 ^ (9 - (padded width value).toList.length) = _
  rw [ofDigitChars_padded, length_padded hwidth hlt]

theorem readFraction_fractionText {nanoseconds : Nat} (hlt : nanoseconds < 10 ^ 9) :
    readFraction (fractionText nanoseconds).toList = nanoseconds := by
  unfold fractionText
  split_ifs with hzero hmillis hmicros
  · rw [hzero]
    rfl
  · rw [readFraction_padded (by decide) (by omega)]
    omega
  · rw [readFraction_padded (by decide) (by omega)]
    omega
  · rw [readFraction_padded (by decide) (by omega)]
    omega

theorem fractionText_inj {nanoseconds nanoseconds' : Nat} (hlt : nanoseconds < 10 ^ 9)
    (hlt' : nanoseconds' < 10 ^ 9) (heq : fractionText nanoseconds = fractionText nanoseconds') :
    nanoseconds = nanoseconds' := by
  rw [← readFraction_fractionText hlt, heq, readFraction_fractionText hlt']

/-! ## Instants -/

/-- The instants of the calendar: less than a second is left over, or less than another one in the
last second of a minute. -/
def Proper (t : Instant) : Prop :=
  t.nanoseconds < 10 ^ 9 ∨ t.seconds % 60 = 59 ∧ t.nanoseconds < 2 * 10 ^ 9

/-- The date of an instant. -/
def dateText (t : Instant) : String :=
  let date := CivilDate.ofDays (t.seconds / 86400)
  yearText date.year ++ "-" ++ padded 2 date.month ++ "-" ++ padded 2 date.day

/-- The time of day of an instant. -/
def timeText (t : Instant) : String :=
  let secondOfDay := (t.seconds % 86400).toNat
  padded 2 (secondOfDay / 3600) ++ (":" ++ (padded 2 (secondOfDay / 60 % 60) ++ (":" ++
    (padded 2 (secondOfDay % 60 + t.nanoseconds / 1000000000) ++
      (fractionText (t.nanoseconds % 1000000000) ++ "Z")))))

theorem toList_text (t : Instant) :
    t.text.toList = t.dateText.toList ++ 'T' :: t.timeText.toList := by
  have htext : t.text = t.dateText ++ ("T" ++ t.timeText) := by
    simp only [text, dateText, timeText, String.append_assoc]
  rw [htext, String.toList_append, String.toList_append]
  rfl

theorem days_eq_of_dateText_eq {s t : Instant} (heq : s.dateText = t.dateText) :
    s.seconds / 86400 = t.seconds / 86400 := by
  obtain ⟨hmonth, hday⟩ := CivilDate.ofDays_lt (s.seconds / 86400)
  obtain ⟨hmonth', hday'⟩ := CivilDate.ofDays_lt (t.seconds / 86400)
  obtain ⟨hfront, hdays⟩ := append_padded_inj (by decide) hday hday' heq
  obtain ⟨hyears, hmonths⟩ := append_padded_inj (by decide) hmonth hmonth'
    ((String.append_left_inj _).1 hfront)
  have hyears' := yearText_injective ((String.append_left_inj _).1 hyears)
  apply CivilDate.ofDays_injective
  generalize CivilDate.ofDays (s.seconds / 86400) = date at *
  generalize CivilDate.ofDays (t.seconds / 86400) = date' at *
  cases date
  cases date'
  simp_all

theorem eq_of_timeText_eq {s t : Instant} (hs : s.Proper) (ht : t.Proper)
    (heq : s.timeText = t.timeText) :
    s.seconds % 86400 = t.seconds % 86400 ∧ s.nanoseconds = t.nanoseconds := by
  unfold Proper at hs ht
  obtain ⟨hhours, heq⟩ := padded_append_inj (by decide) (by omega) (by omega) heq
  obtain ⟨hminutes, heq⟩ := padded_append_inj (by decide) (by omega) (by omega)
    ((String.append_right_inj _).1 heq)
  obtain ⟨hseconds, heq⟩ := padded_append_inj (by decide) (by omega) (by omega)
    ((String.append_right_inj _).1 heq)
  have hfractions := fractionText_inj (by omega) (by omega) ((String.append_left_inj _).1 heq)
  -- Only the last second of a minute is longer than a second, so it shows which one is meant.
  omega

theorem notMem_padded (width value : Nat) : 'T' ∉ (padded width value).toList := by
  intro hmem
  simpa using isDigit_of_mem_padded hmem

theorem notMem_dateText (t : Instant) : 'T' ∉ t.dateText.toList := by
  unfold dateText yearText
  dsimp only
  split_ifs <;> simp [notMem_padded]

theorem notMem_timeText (t : Instant) : 'T' ∉ t.timeText.toList := by
  unfold timeText fractionText
  dsimp only
  split_ifs <;> simp [notMem_padded]

/-- The instants of the calendar are told apart by their texts. -/
theorem eq_of_text_eq {s t : Instant} (hs : s.Proper) (ht : t.Proper) (heq : s.text = t.text) :
    s = t := by
  have hlists := congrArg String.toList heq
  rw [toList_text, toList_text] at hlists
  obtain ⟨hdates, -, htimes⟩ :=
    (List.append_cons_inj_of_notMem s.notMem_dateText s.notMem_timeText).1 hlists
  have hdays := days_eq_of_dateText_eq (String.toList_inj.1 hdates)
  obtain ⟨hseconds, hnanoseconds⟩ := eq_of_timeText_eq hs ht (String.toList_inj.1 htimes)
  cases s
  cases t
  simp_all
  omega

end Instant

end ScriptCore
