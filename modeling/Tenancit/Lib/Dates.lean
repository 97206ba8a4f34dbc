import Tenancit.Lib.Calendar

/-!
Days as text, `2006-01-02`. The civil date of a day is one of its calendar and determines
the day, so that the text of a day in a year of four digits reads back as the day.
-/
namespace Encoding

/-- Whether a year of the proleptic Gregorian calendar has a 29 February. -/
def IsLeap (year : Int) : Prop := year % 4 = 0 ∧ (year % 100 ≠ 0 ∨ year % 400 = 0)

instance (year : Int) : Decidable (IsLeap year) := inferInstanceAs (Decidable (_ ∧ _))

def daysIn (month : Nat) (year : Int) : Nat :=
  if month = 2 then (if IsLeap year then 29 else 28) else 30 + (month + month / 8) % 2

/-- `time.Time.Format("2006-01-02")` -/
def dateText (day : Int) : String :=
  let (year, month, d) := civil day
  (if year < 0 then "-" else "") ++ padded 4 year.natAbs ++ "-" ++
    padded 2 month ++ "-" ++ padded 2 d

/-- `time.Parse("2006-01-02", ...)` -/
def parseDate (s : String) : Option Int :=
  match s.toList with
  | [y₁, y₂, y₃, y₄, '-', m₁, m₂, '-', d₁, d₂] =>
    let year := Nat.ofDigitChars 10 [y₁, y₂, y₃, y₄] 0
    let month := Nat.ofDigitChars 10 [m₁, m₂] 0
    let day := Nat.ofDigitChars 10 [d₁, d₂] 0
    if ([y₁, y₂, y₃, y₄, m₁, m₂, d₁, d₂].all Char.isDigit ∧ 1 ≤ month ∧ month ≤ 12) ∧ 1 ≤ day ∧
      day ≤ daysIn month year then
      some (daysFromCivil year month day)
    else none
  | _ => none

example : parseDate "2024-02-29" = some 19782 ∧ parseDate "2025-02-29" = none ∧
    dateText 19782 = "2024-02-29" := by
  decide +kernel

section era

/-- The days of an era of four hundred years before one of its years, which begin in March. -/
def yearStart (yoe : Nat) : Nat := 365 * yoe + yoe / 4 - yoe / 100

/-- A day of an era, less the leap days before it. -/
def lessLeapDays (doe : Nat) : Nat := doe - doe / 1460 + doe / 36524 - doe / 146096

/-- The year of an era that a day is in. -/
def yearOfEra (doe : Nat) : Nat := lessLeapDays doe / 365

variable {a b doe : Nat}

theorem lessLeapDays_mono (hb : b < 146097) (h : a ≤ b) : lessLeapDays a ≤ lessLeapDays b := by
  have hleap : a - a / 1460 ≤ b - b / 1460 := by omega
  have hcentury : a / 36524 ≤ b / 36524 := Nat.div_le_div_right h
  unfold lessLeapDays
  rcases Nat.lt_or_ge a 146096 with hlt | hge
  · have hzero : a / 146096 = 0 := Nat.div_eq_of_lt hlt
    rcases Nat.lt_or_ge b 146096 with hlt' | hge'
    · have hzero' : b / 146096 = 0 := Nat.div_eq_of_lt hlt'
      omega
    · obtain rfl : b = 146096 := by omega
      have hthird : a / 36524 ≤ 3 := by omega
      omega
  · obtain rfl : a = b := by omega
    exact le_rfl

theorem lessLeapDays_yearStart : ∀ y < 400, 365 * y ≤ lessLeapDays (yearStart y) ∧
    (y = 0 ∨ lessLeapDays (yearStart y - 1) < 365 * y) := by
  decide +kernel

theorem yearOfEra_lt (h : doe < 146097) : yearOfEra doe < 400 := by
  have hle := lessLeapDays_mono (by decide : 146096 < 146097) (Nat.le_of_lt_succ h)
  have hlast : lessLeapDays 146096 = 145999 := by decide
  unfold yearOfEra
  omega

/-- A day is in its year: not before the year begins. -/
theorem yearStart_le (h : doe < 146097) : yearStart (yearOfEra doe) ≤ doe := by
  have hlast := yearOfEra_lt h
  by_contra hlt
  obtain ⟨-, hzero | hbefore⟩ := lessLeapDays_yearStart _ hlast
  · rw [hzero] at hlt
    exact hlt (Nat.zero_le _)
  · have hle : lessLeapDays doe ≤ lessLeapDays (yearStart (yearOfEra doe) - 1) := by
      refine lessLeapDays_mono ?_ (by omega)
      unfold yearStart
      omega
    unfold yearOfEra at hle hbefore
    omega

/-- A day is in its year: before the next one begins. -/
theorem lt_yearStart (h : doe < 146097) (hne : yearOfEra doe ≠ 399) :
    doe < yearStart (yearOfEra doe + 1) := by
  have hlast := yearOfEra_lt h
  by_contra hge
  have hnext := (lessLeapDays_yearStart (yearOfEra doe + 1) (by omega)).1
  have hle := lessLeapDays_mono h (not_lt.mp hge)
  unfold yearOfEra at hle hnext
  omega

theorem yearStart_succ :
    ∀ y < 399, yearStart (y + 1) = yearStart y + if IsLeap (y + 1 : Nat) then 366 else 365 := by
  decide +kernel

/-- The day of the year, counted from 1 March; the last one is there in leap years only. -/
theorem dayOfYear_le (h : doe < 146097) : doe - yearStart (yearOfEra doe) ≤ 365 ∧
    (doe - yearStart (yearOfEra doe) = 365 → IsLeap (yearOfEra doe + 1 : Nat)) := by
  have hlast := yearOfEra_lt h
  have hstart := yearStart_le h
  by_cases heq : yearOfEra doe = 399
  · have hyear : yearStart 399 = 145731 := by decide
    have hleap : IsLeap (399 + 1 : Nat) := by decide
    rw [heq, hyear]
    exact ⟨by omega, fun _ => hleap⟩
  · have hend := lt_yearStart h heq
    rw [yearStart_succ _ (by omega)] at hend
    by_cases hleap : IsLeap (yearOfEra doe + 1 : Nat)
    · rw [if_pos hleap] at hend
      exact ⟨by omega, fun _ => hleap⟩
    · rw [if_neg hleap] at hend
      exact ⟨by omega, fun hday => by omega⟩

end era

section civil

variable (day : Int)

theorem civil_eq (day : Int) : ∃ era : Int, ∃ doe :
    Nat, doe < 146097 ∧ day = era * 146097 + doe - 719468 ∧
    ∃ doy mp month : Nat, doy = doe - yearStart (yearOfEra doe) ∧ mp = (5 * doy + 2) / 153 ∧
      month = (if mp < 10 then mp + 3 else mp - 9) ∧
      civil day = (yearOfEra doe + era * 400 + (if month ≤ 2 then 1 else 0), month,
        doy - (153 * mp + 2) / 5 + 1) :=
  ⟨(day + 719468) / 146097, ((day + 719468) % 146097).toNat, by omega, by omega, _, _,
   _, rfl, rfl, rfl, rfl⟩

theorem daysFromCivil_civil :
    daysFromCivil (civil day).1 (civil day).2.1 (civil day).2.2 = day := by
  obtain ⟨era, doe, hdoe, hday, doy, mp, month, hdoy, hmp, hmonth, heq⟩ := civil_eq day
  have hlast := yearOfEra_lt hdoe
  have hstart := yearStart_le hdoe
  obtain ⟨hle, -⟩ := dayOfYear_le hdoe
  have hmarch : (if month ≤ 2 then month + 9 else month - 3) = mp := by
    split at hmonth <;> split <;> omega
  have hyear : ∀ y : Int, (if month ≤ 2 then y + (if month ≤ 2 then 1 else 0) - 1 else y +
      if month ≤ 2 then 1 else 0) = y :=
    fun y => by split <;> omega
  have hera : (yearOfEra doe + era * 400) / 400 = era := by omega
  have hyoe : ((yearOfEra doe + era * 400) % 400).toNat = yearOfEra doe := by omega
  have hbefore : (153 * mp + 2) / 5 ≤ doy := by omega
  rw [heq, daysFromCivil]
  simp only [hmarch, hyear, hera, hyoe]
  unfold yearStart at *
  omega

/-- The civil date of a day is one of the calendar. -/
theorem civil_valid : 1 ≤ (civil day).2.1 ∧ (civil day).2.1 ≤ 12 ∧ 1 ≤ (civil day).2.2 ∧
    (civil day).2.2 ≤ daysIn (civil day).2.1 (civil day).1 := by
  obtain ⟨era, doe, hdoe, -, doy, mp, month, hdoy, hmp, hmonth, heq⟩ := civil_eq day
  obtain ⟨hle, hleap⟩ := dayOfYear_le hdoe
  have hshift : IsLeap (yearOfEra doe + 1 : Nat) → IsLeap (yearOfEra doe + era * 400 + 1) := by
    unfold IsLeap
    omega
  rw [← hdoy] at hle hleap
  rw [heq]
  dsimp only
  refine ⟨by split at hmonth <;> omega, by split at hmonth <;> omega, by omega, ?_⟩
  unfold daysIn
  by_cases hfebruary : month = 2
  · rw [if_pos hfebruary, if_pos hfebruary.le]
    split
    · split at hmonth <;> omega
    next hyear =>
      have hshort : doy ≠ 365 := fun h => hyear (hshift (hleap h))
      split at hmonth <;> omega
  · rw [if_neg hfebruary]
    have hmp : mp < 12 := by omega
    interval_cases mp <;> simp only [Nat.reduceLT, if_true, if_false] at hmonth <;> omega

/-- Days of the years 0000 to 9999. -/
def FourDigitYear (day : Int) : Prop := 0 ≤ (civil day).1 ∧ (civil day).1 ≤ 9999

instance : Decidable (FourDigitYear day) := inferInstanceAs (Decidable (_ ∧ _))

/-- A day in a year of four digits reads back from its text. -/
theorem parseDate_dateText (h : FourDigitYear day) : parseDate (dateText day) = some day := by
  obtain ⟨hmonth, hmonth', hday, hday'⟩ := civil_valid day
  have hback := daysFromCivil_civil day
  obtain ⟨hsign, hlong⟩ := h
  obtain ⟨year, hyear⟩ := Int.eq_ofNat_of_zero_le hsign
  have hdays : (civil day).2.2 < 10 ^ 2 := by
    unfold daysIn at hday'
    split at hday'
    · split at hday' <;> omega
    · omega
  obtain ⟨y₁, y₂, y₃, y₄, hy⟩ :=
    List.length_eq_four.mp ((padded_length_iff (by decide)).mpr (by omega : year < 10 ^ 4))
  obtain ⟨m₁, m₂, hm⟩ :=
    List.length_eq_two.mp
      ((padded_length_iff (by decide)).mpr (by omega : (civil day).2.1 < 10 ^ 2))
  obtain ⟨d₁, d₂, hd⟩ := List.length_eq_two.mp ((padded_length_iff (by decide)).mpr hdays)
  have htext : (dateText day).toList = [y₁, y₂, y₃, y₄, '-', m₁, m₂, '-', d₁, d₂] := by
    have hsign : ¬(year : Int) < 0 := by omega
    simp [dateText, hyear, hsign, hy, hm, hd]
  have hvalues : Nat.ofDigitChars 10 [y₁, y₂, y₃, y₄] 0 = year ∧
    Nat.ofDigitChars 10 [m₁, m₂] 0 = (civil day).2.1 ∧
      Nat.ofDigitChars 10 [d₁, d₂] 0 = (civil day).2.2 := by
    rw [← hy, ← hm, ← hd]
    exact ⟨padded_value _ _, padded_value _ _, padded_value _ _⟩
  have hdigits : [y₁, y₂, y₃, y₄, m₁, m₂, d₁, d₂].all Char.isDigit = true := by
    change ([y₁, y₂, y₃, y₄] ++ ([m₁, m₂] ++ [d₁, d₂])).all Char.isDigit = true
    have hall : ∀ width n, (padded width n).toList.all Char.isDigit = true :=
      fun _ _ => List.all_eq_true.mpr padded_isDigit
    rw [← hy, ← hm, ← hd, List.all_append, List.all_append, hall, hall, hall]
    rfl
  rw [hyear] at hday' hback
  simp only [parseDate, htext, hvalues, hdigits]
  rw [if_pos ⟨⟨trivial, hmonth, hmonth'⟩, hday, hday'⟩, hback]

theorem length_of_parseDate {s : String} {d : Int} (h : parseDate s = some d) :
    s.toList.length = 10 := by
  unfold parseDate at h
  split at h
  next heq => simp [heq]
  next => cases h

/-- The text of any other day does not parse: its year has five digits or a sign. -/
theorem parseDate_dateText_iff {d : Int} :
    parseDate (dateText day) = some d ↔ day = d ∧ FourDigitYear day := by
  constructor
  · intro h
    have hlength := length_of_parseDate h
    have hyear : FourDigitYear day := by
      have hfour : 4 ≤ (padded 4 (civil day).1.natAbs).toList.length := width_le_padded_length
      have hmonths : 2 ≤ (padded 2 (civil day).2.1).toList.length := width_le_padded_length
      have hdays : 2 ≤ (padded 2 (civil day).2.2).toList.length := width_le_padded_length
      have hdigits : (padded 4 (civil day).1.natAbs).toList.length = 4 ↔
          (civil day).1.natAbs < 10 ^ 4 :=
        padded_length_iff (by decide)
      have htext : (dateText day).toList.length = (if (civil day).1 < 0 then 1 else 0) +
          (padded 4 (civil day).1.natAbs).toList.length + 1 +
            (padded 2 (civil day).2.1).toList.length + 1 +
            (padded 2 (civil day).2.2).toList.length := by
        simp only [dateText, String.toList_append, List.length_append]
        split <;> rfl
      unfold FourDigitYear
      split at htext <;> omega
    rw [parseDate_dateText day hyear] at h
    exact ⟨Option.some.inj h, hyear⟩
  · rintro ⟨rfl, hyear⟩
    exact parseDate_dateText day hyear

end civil

end Encoding
