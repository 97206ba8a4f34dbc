import Mathlib.Order.Interval.Set.Basic
import Tenancit.Lib.Dates

/-!
Months of the civil calendar, counted from January of the year 0: a day is one of its month,
and the months follow each other without a gap.
-/
namespace Encoding

/-- The month that a day is in. -/
def monthOf (day : Int) : Int := (civil day).1 * 12 + ((civil day).2.1 - 1)

/-- The day of its month that a day is. -/
def dayOfMonth (day : Int) : Nat := (civil day).2.2

/-- The first day of a month. -/
def monthStart (month : Int) : Int := daysFromCivil (month / 12) ((month % 12).toNat + 1) 1

def monthLength (month : Int) : Nat := daysIn ((month % 12).toNat + 1) (month / 12)

theorem daysFromCivil_add (year : Int) (month : Nat) (d k : Nat) (hd : 1 ≤ d) :
    daysFromCivil year month (d + k) = daysFromCivil year month d + k := by
  unfold daysFromCivil
  dsimp only
  push_cast
  omega

theorem daysIn_bounds (month : Nat) (year : Int) :
    28 ≤ daysIn month year ∧ daysIn month year ≤ 31 := by
  unfold daysIn
  split
  · split <;> omega
  · omega

theorem monthLength_bounds (month : Int) : 28 ≤ monthLength month ∧ monthLength month ≤ 31 :=
  daysIn_bounds _ _

/-- From one March to the next there is a day more where the February between them is longer. -/
theorem march_succ (year : Int) : (year / 400 * 146097 + yearStart (year % 400).toNat : Int) =
    (year - 1) / 400 * 146097 + yearStart ((year - 1) % 400).toNat + if IsLeap year
      then 366 else 365 := by
  by_cases hleap : IsLeap year
  · rw [if_pos hleap]
    unfold IsLeap at hleap
    unfold yearStart
    omega
  · rw [if_neg hleap]
    unfold IsLeap at hleap
    unfold yearStart
    omega

/-- A date by its year from March on, and the days of that year before it. -/
theorem daysFromCivil_eq (year : Int) (month d : Nat) : daysFromCivil year month d =
    let y := if month ≤ 2 then year - 1 else year
    y / 400 * 146097 + yearStart (y % 400).toNat +
      ((153 * (if month ≤ 2 then month + 9 else month - 3) + 2) / 5 + d - 1 : Nat) - 719468 := by
  unfold daysFromCivil yearStart
  dsimp only
  omega

/-- The months follow each other without a gap. -/
theorem monthStart_succ (month : Int) :
    monthStart (month + 1) = monthStart month + monthLength month := by
  obtain ⟨year, r, hr, rfl⟩ : ∃ (year : Int) (r : Nat), r < 12 ∧ month = year * 12 + r :=
    ⟨month / 12, (month % 12).toNat, by omega, by omega⟩
  have hmarch := march_succ year
  have hdiv : (year * 12 + r) / 12 = year := by omega
  have hmod : ((year * 12 + r) % 12).toNat = r := by omega
  have hnext : (year * 12 + r + 1) / 12 = if r = 11 then year + 1 else year := by split <;> omega
  have hnext' : ((year * 12 + r + 1) % 12).toNat = if r = 11 then 0 else r + 1 := by split <;> omega
  rw [monthStart, monthStart, monthLength, hdiv, hmod, hnext, hnext', daysFromCivil_eq,
    daysFromCivil_eq, daysIn]
  by_cases hleap : IsLeap year
  · rw [if_pos hleap] at hmarch
    interval_cases r <;> simp [hleap] <;> omega
  · rw [if_neg hleap] at hmarch
    interval_cases r <;> simp [hleap] <;> omega

theorem monthStart_mono {a b : Int} (h : a ≤ b) : monthStart a ≤ monthStart b := by
  induction b, h using Int.leInduction with
  | base => exact le_rfl
  | succ b _ ih =>
    have hlength := (monthLength_bounds b).1
    rw [monthStart_succ]
    omega

/-- A month ends before any later one begins. -/
theorem monthStart_add_le {a b : Int} (h : a < b) :
    monthStart a + monthLength a ≤ monthStart b := by
  rw [← monthStart_succ]
  exact monthStart_mono h

variable (day : Int)

/-- A day is one of its month. -/
theorem dayOfMonth_valid : 1 ≤ dayOfMonth day ∧ dayOfMonth day ≤ monthLength (monthOf day) := by
  obtain ⟨hmonth, hmonth', hday, hday'⟩ := civil_valid day
  have hdiv : monthOf day / 12 = (civil day).1 := by unfold monthOf; omega
  have hmod : (monthOf day % 12).toNat + 1 = (civil day).2.1 := by unfold monthOf; omega
  rw [monthLength, hdiv, hmod]
  exact ⟨hday, hday'⟩

theorem monthStart_monthOf : monthStart (monthOf day) + dayOfMonth day - 1 = day := by
  obtain ⟨hmonth, hmonth', hday, -⟩ := civil_valid day
  have hdiv : monthOf day / 12 = (civil day).1 := by unfold monthOf; omega
  have hmod : (monthOf day % 12).toNat + 1 = (civil day).2.1 := by unfold monthOf; omega
  have hcivil := daysFromCivil_civil day
  obtain ⟨k, hk⟩ := Nat.exists_eq_add_of_le hday
  rw [hk, daysFromCivil_add _ _ _ _ le_rfl] at hcivil
  rw [monthStart, hdiv, hmod, dayOfMonth, hk]
  push_cast
  omega

/-- The order of days is that of their months, and within one that of the days. -/
theorem monthOf_mono {a b : Int} (h : a ≤ b) :
    monthOf a < monthOf b ∨ (monthOf a = monthOf b ∧ dayOfMonth a ≤ dayOfMonth b) := by
  have ha := monthStart_monthOf a
  have hb := monthStart_monthOf b
  obtain ⟨hfirst, -⟩ := dayOfMonth_valid a
  obtain ⟨-, hlast⟩ := dayOfMonth_valid b
  rcases lt_trichotomy (monthOf a) (monthOf b) with hlt | heq | hgt
  · exact .inl hlt
  · rw [heq] at ha
    exact .inr ⟨heq, by omega⟩
  · have hbefore := monthStart_add_le hgt
    omega

/-- The days of a month are those from its first on that are before the next month. -/
theorem monthOf_eq_iff {month : Int} :
    monthOf day = month ↔ monthStart month ≤ day ∧ day < monthStart (month + 1) := by
  have hday := monthStart_monthOf day
  obtain ⟨hfirst, hlast⟩ := dayOfMonth_valid day
  constructor
  · rintro rfl
    rw [monthStart_succ]
    omega
  · rintro ⟨hlo, hhi⟩
    rcases lt_trichotomy (monthOf day) month with hlt | heq | hgt
    · have hbefore := monthStart_add_le hlt
      omega
    · exact heq
    · have hafter := monthStart_mono (show month + 1 ≤ monthOf day by omega)
      omega

theorem monthOf_monthStart (month : Int) : monthOf (monthStart month) = month := by
  have hlength := (monthLength_bounds month).1
  rw [monthOf_eq_iff, monthStart_succ]
  omega

/-- A day by how far it is into its month. -/
theorem monthOf_add (month : Int) {k : Nat} (hk : k < monthLength month) :
    monthOf (monthStart month + k) = month ∧ dayOfMonth (monthStart month + k) = k + 1 := by
  have hmonth : monthOf (monthStart month + k) = month := by
    rw [monthOf_eq_iff, monthStart_succ]
    omega
  have hday := monthStart_monthOf (monthStart month + k)
  rw [hmonth] at hday
  exact ⟨hmonth, by omega⟩

end Encoding
