import Tenancit.Lib.Months
import Tenancit.Usage.Collector

/-!
`usage/retention.go`: how far back the daily usage is kept. Going back by months keeps the day
of the month, and where the month reached is shorter the days that it lacks run over into the
next one: rows of the first days of that month are then deleted early, and the cutoff of the
days that follow is before theirs.
-/
namespace Tenancit.Usage

open Encoding Store

/-- The nanoseconds of a day. -/
def dayTime : Int := 86400000000000

/-- The UTC day of an instant. -/
def utcDay (now : Int) : Int := now / dayTime

/-- `time.Date` of a date at midnight in UTC: a month beyond the year is carried over into the
years, and a day beyond the month into the months. -/
def date (year month : Int) (day : Nat) : Int :=
  daysFromCivil (year + (month - 1) / 12) (((month - 1) % 12).toNat + 1) day * dayTime

/-- `AddDate(0, months, 0)` of a time in UTC -/
def addDate (t : Int) (months : Int) : Int :=
  let (year, month, day) := civil (utcDay t)
  date year (month + months) day + t % dayTime

def retentionCutoffMonths (now : Int) (months : Int) : Int :=
  let cutoff := addDate now (-months)
  let (year, month, day) := civil (utcDay cutoff)
  date year month day

/-- `DeleteExpiredAPIClientUsage` -/
def deleteExpiredAPIClientUsage (cutoffDay : Int) (s : UsageTables) : UsageTables :=
  { s with daily := Table.delete (fun row => row.key.day < cutoffDay) s.daily }

/-- `run` of `RunRetention`: without a policy six months are kept, and where it cannot be read, or
has no positive number, nothing is deleted. -/
def runRetention (policy : Option (Option Int)) (now : Int) (s : UsageTables) : UsageTables :=
  match policy with
  | none => deleteExpiredAPIClientUsage (utcDay (retentionCutoffMonths now 6)) s
  | some none => s
  | some (some configured) =>
    if configured ≤ 0 then s
      else deleteExpiredAPIClientUsage (utcDay (retentionCutoffMonths now configured)) s

/-- The day so many months before, or the last one of its month where that is shorter. -/
def clampedDay (now : Int) (months : Int) : Int :=
  let month := monthOf (utcDay now) - months
  monthStart month + min (dayOfMonth (utcDay now)) (monthLength month) - 1

/-- No row is deleted whose day is on or after the clamped one. -/
def KeepsRecent (now : Int) (months : Int) : Prop :=
  ∀ (s : UsageTables) (row : DailyUsage), row ∈ s.daily → clampedDay now months ≤ row.key.day →
    row ∈ (runRetention (some (some months)) now s).daily

variable {now months : Int}

theorem utcDay_mul (day : Int) : utcDay (day * dayTime) = day := Int.mul_ediv_cancel _ (by decide)

theorem utcDay_mono {a b : Int} (h : a ≤ b) : utcDay a ≤ utcDay b := Int.ediv_le_ediv (by decide) h

theorem utcDay_add {day rest : Int} (h0 : 0 ≤ rest) (h : rest < dayTime) :
    utcDay (day * dayTime + rest) = day := by
  unfold utcDay
  unfold dayTime at *
  omega

theorem date_eq (year month : Int) {day : Nat} (hday : 1 ≤ day) :
    date year month day = (monthStart (year * 12 + (month - 1)) + day - 1) * dayTime := by
  have hdiv : (year * 12 + (month - 1)) / 12 = year + (month - 1) / 12 := by omega
  have hmod : (year * 12 + (month - 1)) % 12 = (month - 1) % 12 := by omega
  obtain ⟨k, rfl⟩ := Nat.exists_eq_add_of_le hday
  rw [date, monthStart, hdiv, hmod, daysFromCivil_add _ _ _ _ le_rfl]
  congr 1
  push_cast
  omega

/-- The cutoff is the start of the day that is reached. -/
theorem retentionCutoffMonths_eq (now months : Int) :
    retentionCutoffMonths now months = utcDay (addDate now (-months)) * dayTime := by
  simp only [retentionCutoffMonths]
  rw [date_eq _ _ (civil_valid (utcDay (addDate now (-months)))).2.2.1]
  exact congrArg (· * dayTime) (monthStart_monthOf _)

/-- The day of the cutoff: so many days into the month reached as the day is into its own. -/
theorem utcDay_cutoff (now months : Int) : utcDay (retentionCutoffMonths now months) =
    monthStart (monthOf (utcDay now) - months) + dayOfMonth (utcDay now) - 1 := by
  have hmonth : (civil (utcDay now)).1 * 12 + ((civil (utcDay now)).2.1 + -months - 1) =
      monthOf (utcDay now) - months := by
    unfold monthOf
    omega
  rw [retentionCutoffMonths_eq, utcDay_mul]
  simp only [addDate]
  rw [date_eq _ _ (civil_valid (utcDay now)).2.2.1, hmonth]
  exact utcDay_add (Int.emod_nonneg _ (by decide)) (Int.emod_lt_of_pos _ (by decide))

/-- The cutoff is the clamped day, or as many days after it as the month reached lacks. -/
theorem cutoff_eq_clampedDay (now months : Int) : utcDay (retentionCutoffMonths now months) =
    clampedDay now months +
      (dayOfMonth (utcDay now) - monthLength (monthOf (utcDay now) - months) : Nat) := by
  rw [utcDay_cutoff, clampedDay]
  omega

theorem runRetention_configured (hmonths : 1 ≤ months) (now : Int) (s : UsageTables) :
    runRetention (some (some months)) now s =
    deleteExpiredAPIClientUsage (utcDay (retentionCutoffMonths now months)) s := if_neg (by omega)

/-- No recent row is deleted if and only if the month reached has the day of the month that `now`
has. -/
theorem keepsRecent_iff (hmonths : 1 ≤ months) (now : Int) :
    KeepsRecent now months ↔ dayOfMonth (utcDay now) ≤
      monthLength (monthOf (utcDay now) - months) := by
  have hcutoff := cutoff_eq_clampedDay now months
  constructor
  · intro hkeeps
    by_contra hlacks
    -- a row of the clamped day itself
    have hrow :=
      hkeeps { daily := [⟨⟨clampedDay now months, default, "resolve", 2⟩, ⟨1, 0⟩⟩] } _
        (.head _) le_rfl
    rw [runRetention_configured hmonths] at hrow
    simp only [deleteExpiredAPIClientUsage, Table.delete, List.mem_filter, List.mem_singleton,
      true_and, Bool.not_eq_true',
      decide_eq_false_iff_not] at hrow
    omega
  · intro hlong s row hrow hrecent
    rw [runRetention_configured hmonths]
    refine List.mem_filter.mpr ⟨hrow, ?_⟩
    simp only [Bool.not_eq_true', decide_eq_false_iff_not]
    omega

/-- The cutoff of the later instant is the earlier one if and only if it falls among the days that
the overflow of the other one has run over. -/
theorem cutoff_le_iff {earlier later : Int} (h : earlier < later) (months : Int) :
    retentionCutoffMonths earlier months ≤ retentionCutoffMonths later months ↔
      ¬(monthOf (utcDay later) = monthOf (utcDay earlier) + 1 ∧
        dayOfMonth (utcDay later) + monthLength (monthOf (utcDay earlier) - months) <
          dayOfMonth (utcDay earlier)) := by
  have hday : ∀ now, retentionCutoffMonths now months =
      utcDay (retentionCutoffMonths now months) * dayTime := by
    intro now
    rw [retentionCutoffMonths_eq, utcDay_mul]
  have hdays : retentionCutoffMonths earlier months ≤ retentionCutoffMonths later months ↔
      utcDay (retentionCutoffMonths earlier months) ≤
        utcDay (retentionCutoffMonths later months) := by
    rw [hday earlier, hday later, utcDay_mul, utcDay_mul]
    exact Int.mul_le_mul_iff_of_pos_right (by decide)
  rw [hdays, utcDay_cutoff, utcDay_cutoff]
  obtain ⟨-, hearlier⟩ := dayOfMonth_valid (utcDay earlier)
  obtain ⟨hlater, -⟩ := dayOfMonth_valid (utcDay later)
  obtain ⟨-, hlength⟩ := monthLength_bounds (monthOf (utcDay earlier))
  rcases monthOf_mono (utcDay_mono h.le) with hnext | ⟨hsame, hle⟩
  · by_cases hone : monthOf (utcDay later) = monthOf (utcDay earlier) + 1
    · have hstart := monthStart_succ (monthOf (utcDay earlier) - months)
      have hmonth : monthOf (utcDay earlier) - months +
        1 = monthOf (utcDay later) - months := by omega
      rw [hmonth] at hstart
      omega
    · -- a month lies between the two
      have hfirst :=
        monthStart_add_le (show monthOf (utcDay earlier) - months <
          monthOf (utcDay earlier) - months + 1 by omega)
      have hsecond := monthStart_add_le
        (show monthOf (utcDay earlier) - months + 1 < monthOf (utcDay later) - months by omega)
      obtain ⟨hfirst_length, -⟩ := monthLength_bounds (monthOf (utcDay earlier) - months)
      obtain ⟨hsecond_length, -⟩ := monthLength_bounds (monthOf (utcDay earlier) - months + 1)
      omega
  · rw [hsame]
    omega

/-- When the usage of so many months is kept, and when the cutoff does not move back. -/
theorem usage_retention_exact {months : Int} (hmonths : 1 ≤ months) (now : Int) :
    (KeepsRecent now months ↔ dayOfMonth (utcDay now) ≤
      monthLength (monthOf (utcDay now) - months)) ∧
    ∀ later, now < later →
      (retentionCutoffMonths now months ≤ retentionCutoffMonths later months ↔
        ¬(monthOf (utcDay later) = monthOf (utcDay now) + 1 ∧
          dayOfMonth (utcDay later) + monthLength (monthOf (utcDay now) - months) <
            dayOfMonth (utcDay now))) :=
  ⟨keepsRecent_iff hmonths now, fun _ h => cutoff_le_iff h months⟩

section sample

/-- Noon of 31 August 2026, and of the day after. -/
def sampleAugust : Int := (daysFromCivil 2026 8 31) * dayTime + 43200000000000

def sampleSeptember : Int := sampleAugust + dayTime

/-- Six months before 31 August is taken for 3 March: the rows of 28 February to 2 March are
deleted. The day after, the cutoff is 1 March again. -/
theorem sixth_month_cut_short : ¬KeepsRecent sampleAugust 6 ∧ sampleAugust < sampleSeptember ∧
    retentionCutoffMonths sampleSeptember 6 < retentionCutoffMonths sampleAugust 6 := by
  refine ⟨fun hkeeps => ?_, by decide, by decide +kernel⟩
  have hrow :=
    hkeeps { daily := [⟨⟨daysFromCivil 2026 3 1, default, "resolve", 2⟩, ⟨1, 0⟩⟩] } _ (.head _)
      (by decide +kernel)
  revert hrow
  decide +kernel

theorem usage_retention_exact_august :
    (KeepsRecent sampleAugust 6 ↔ dayOfMonth (utcDay sampleAugust) ≤
      monthLength (monthOf (utcDay sampleAugust) - 6)) ∧
    ∀ later, sampleAugust < later →
      (retentionCutoffMonths sampleAugust 6 ≤ retentionCutoffMonths later 6 ↔
        ¬(monthOf (utcDay later) = monthOf (utcDay sampleAugust) + 1 ∧
          dayOfMonth (utcDay later) + monthLength (monthOf (utcDay sampleAugust) - 6) <
            dayOfMonth (utcDay sampleAugust))) :=
  usage_retention_exact (by decide) sampleAugust

example : utcDay (retentionCutoffMonths (daysFromCivil 2026 8 1 * dayTime) 6) =
      daysFromCivil 2026 2 1 := by decide +kernel

end sample

end Tenancit.Usage
