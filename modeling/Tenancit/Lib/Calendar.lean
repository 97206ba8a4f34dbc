import Mathlib.Data.List.TakeWhile
import Tenancit.Lib.Json

/-!
Civil dates of the proleptic Gregorian calendar, counted in days from 1 January 1970, and
times with an offset from UTC as RFC 3339 writes them. The text of such a time determines it.
-/
namespace Encoding

/-- The number of a civil date, the inverse of `civil`. -/
def daysFromCivil (year : Int) (month day : Nat) : Int :=
  let y := if month ≤ 2 then year - 1 else year
  let yoe := (y % 400).toNat
  let doy := (153 * (if month ≤ 2 then month + 9 else month - 3) + 2) / 5 + day - 1
  y / 400 * 146097 + (yoe * 365 + yoe / 4 - yoe / 100 + doy : Nat) - 719468

example : daysFromCivil 2024 2 29 = 19782 ∧ civil 19782 = (2024, 2, 29) := by decide

section split

variable {α : Type*} {p : α → Bool} {xs ys us vs : List α}

/-- A part in `p` before a rest that does not begin in `p` is determined. -/
theorem append_class_inj (hx : ∀ a ∈ xs, p a = true) (hu : ∀ a ∈ us, p a = true)
    (hy : ∀ a ∈ ys.head?, p a = false)
    (hv : ∀ a ∈ vs.head?, p a = false) (h : xs ++ ys = us ++ vs) : xs = us ∧ ys = vs := by
  have hstop : ∀ zs : List α, (∀ a ∈ zs.head?, p a = false) → zs.takeWhile p = [] := by
    intro zs hz
    cases zs with
    | nil => rfl
    | cons z zs => simp [hz z rfl]
  have htake := congrArg (List.takeWhile p) h
  rw [List.takeWhile_append_of_pos hx, List.takeWhile_append_of_pos hu,
    hstop ys hy, hstop vs hv] at htake
  simp only [List.append_nil] at htake
  exact ⟨htake, List.append_cancel_left (htake ▸ h)⟩

/-- Lists of one length that agree after the leading copies of an element are equal. -/
theorem dropWhile_inj [DecidableEq α] {a : α} (hlen : xs.length = us.length)
    (h : xs.dropWhile (· = a) = us.dropWhile (· = a)) : xs = us := by
  have hbegins : ∀ zs : List α, zs = List.replicate (zs.takeWhile (· = a)).length a ++
      zs.dropWhile (· = a) := by
    intro zs
    have hall : zs.takeWhile (· = a) = List.replicate (zs.takeWhile (· = a)).length a :=
      List.eq_replicate_of_mem fun b hb => by simpa using List.mem_takeWhile_imp hb
    rw [← hall]
    exact List.takeWhile_append_dropWhile.symm
  have hx := hbegins xs
  have hu := hbegins us
  have hsame : (xs.takeWhile (· = a)).length = (us.takeWhile (· = a)).length := by
    have h₁ := congrArg List.length hx
    have h₂ := congrArg List.length hu
    rw [List.length_append, List.length_replicate] at h₁ h₂
    rw [h] at h₁
    omega
  rw [hx, hu, h, hsame]

end split

section padded

variable {width n m : Nat}

theorem padded_isDigit : ∀ c ∈ (padded width n).toList, c.isDigit = true := by
  intro c hc
  simp only [padded, String.toList_ofList, Nat.toList_repr, List.mem_append] at hc
  rcases hc with hc | hc
  · rw [List.eq_of_mem_replicate hc]
    rfl
  · exact Nat.isDigit_of_mem_toDigits (by decide) (by decide) hc

theorem padded_value (width n : Nat) : Nat.ofDigitChars 10 (padded width n).toList 0 = n := by
  simp only [padded, String.toList_ofList, Nat.toList_repr, Nat.ofDigitChars_append,
    Nat.ofDigitChars_replicate_zero,
    Nat.mul_zero, Nat.ofDigitChars_ten_toDigits]

theorem width_le_padded_length : width ≤ (padded width n).toList.length := by
  simp only [padded, String.toList_ofList, List.length_append, List.length_replicate]
  omega

theorem padded_length_iff (hwidth : 0 < width) :
    (padded width n).toList.length = width ↔ n < 10 ^ width := by
  rw [← Nat.length_toDigits_le_iff (by decide : 1 < 10) hwidth]
  simp only [padded, String.toList_ofList, Nat.toList_repr, List.length_append,
    List.length_replicate]
  omega

theorem padded_inj (h : (padded width n).toList = (padded width m).toList) : n = m := by
  rw [← padded_value width n, h, padded_value]

end padded

/-- A time as a clock on the wall shows it, with its offset from UTC in minutes. -/
structure ZonedTime where
  year : Nat
  month : Nat
  day : Nat
  hour : Nat
  minute : Nat
  second : Nat
  nanosecond : Fin 1000000000
  offset : Int
  deriving DecidableEq

namespace ZonedTime

instance instNeZeroNanoseconds : NeZero 1000000000 := ⟨by decide⟩

/-- Nanoseconds since 1970. -/
def unixNano (t : ZonedTime) : Int :=
  (daysFromCivil t.year t.month t.day * 86400 +
    (t.hour * 3600 + t.minute * 60 + t.second : Nat) - t.offset * 60) *
    1000000000 + t.nanosecond.val

/-- Microseconds since 1970: a time rounded down to the resolution of `timestamptz`. -/
def micros (t : ZonedTime) : Int := t.unixNano / 1000

/-- The fraction of a second, less trailing zeros. -/
def fraction (t : ZonedTime) : List Char :=
  let digits := ((fixedDigits 10 9 t.nanosecond.val).map Nat.digitChar).reverse.dropWhile (· = '0')
  if digits = [] then [] else '.' :: digits.reverse

def zone (t : ZonedTime) : List Char :=
  if t.offset = 0 then ['Z']
  else (if t.offset < 0 then '-' else '+') :: ((padded 2 (t.offset.natAbs / 60)).toList ++
    ':' :: (padded 2 (t.offset.natAbs % 60)).toList)

def chars (t : ZonedTime) : List Char :=
  (padded 4 t.year).toList ++
  '-' :: ((padded 2 t.month).toList ++ '-' :: ((padded 2 t.day).toList ++ 'T' ::
    ((padded 2 t.hour).toList ++
      ':' :: ((padded 2 t.minute).toList ++ ':' :: ((padded 2 t.second).toList ++
      (t.fraction ++ t.zone))))))

/-- `time.RFC3339Nano` -/
def text (t : ZonedTime) : String := String.ofList t.chars

example : text ⟨2025, 7, 31, 22, 13, 20, 120000000, -180⟩ = "2025-07-31T22:13:20.12-03:00" := by
  decide +kernel

variable {t u : ZonedTime}

theorem fraction_inj (h : t.fraction = u.fraction) : t.nanosecond = u.nanosecond := by
  have hdigits : ((fixedDigits 10 9 t.nanosecond.val).map
    Nat.digitChar).reverse.dropWhile (· = '0') =
      ((fixedDigits 10 9 u.nanosecond.val).map Nat.digitChar).reverse.dropWhile (· = '0') := by
    simp only [fraction] at h
    split at h <;> split at h
    next h₁ h₂ => rw [h₁, h₂]
    · cases h
    · cases h
    · exact List.reverse_injective (List.cons.inj h).2
  have hchars := List.reverse_injective (dropWhile_inj (by simp) hdigits)
  have hnumbers : fixedDigits 10 9 t.nanosecond.val = fixedDigits 10 9 u.nanosecond.val := by
    refine List.ext_getElem (by simp) fun i hi hi' => ?_
    have hlt : ∀ n, ∀ d ∈ fixedDigits 10 9 n, d < 10 := fun n => fixedDigits_lt (by decide)
    have hget := congrArg (fun l => l[i]?) hchars
    simp only [List.getElem?_map, List.getElem?_eq_getElem hi,
      List.getElem?_eq_getElem hi', Option.map_some,
      Option.some.injEq] at hget
    refine digitChar_inj ?_ ?_ hget
    · exact (hlt _ _ (List.getElem_mem hi)).trans (by decide)
    · exact (hlt _ _ (List.getElem_mem hi')).trans (by decide)
  exact Fin.ext (fixedDigits_inj t.nanosecond.isLt u.nanosecond.isLt hnumbers)

/-- No digit and no point stands at the beginning of a zone. -/
theorem zone_head : ∀ c ∈ t.zone.head?, (c.isDigit || c = '.') = false := by
  intro c hc
  simp only [zone] at hc
  split at hc
  · obtain rfl : 'Z' = c := by simpa using hc
    decide
  · split at hc
    · obtain rfl : '-' = c := by simpa using hc
      decide
    · obtain rfl : '+' = c := by simpa using hc
      decide

theorem zone_inj (h : t.zone = u.zone) : t.offset = u.offset := by
  have hcolon : ∀ k, ':' ∉ (padded 2 k).toList :=
    fun k hk => absurd (padded_isDigit _ hk) (by decide)
  have hsigns : ∀ o : Int, 'Z' ≠ if o < 0 then '-' else '+' := by
    intro o
    split <;> decide
  by_cases ht : t.offset = 0 <;> by_cases hu : u.offset = 0 <;>
    simp only [zone, ht, hu, if_true, if_false] at h
  · rw [ht, hu]
  · exact absurd (List.cons.inj h).1 (hsigns _)
  · exact absurd (List.cons.inj h).1.symm (hsigns _)
  · obtain ⟨hsign, hrest⟩ := List.cons.inj h
    obtain ⟨hhours, hminutes⟩ := append_delim_inj (hcolon _) (hcolon _) hrest
    have hhours := padded_inj hhours
    have hminutes := padded_inj hminutes
    split at hsign <;> split at hsign
    · omega
    · cases hsign
    · cases hsign
    · omega

theorem chars_inj (h : t.chars = u.chars) : t = u := by
  have hno : ∀ w k c, c.isDigit = false → c ∉ (padded w k).toList := fun w k c hc hmem => by
    rw [padded_isDigit _ hmem] at hc
    cases hc
  obtain ⟨hyear, h⟩ := append_delim_inj (hno _ _ _ rfl) (hno _ _ _ rfl) h
  obtain ⟨hmonth, h⟩ := append_delim_inj (hno _ _ _ rfl) (hno _ _ _ rfl) h
  obtain ⟨hday, h⟩ := append_delim_inj (hno _ _ _ rfl) (hno _ _ _ rfl) h
  obtain ⟨hhour, h⟩ := append_delim_inj (hno _ _ _ rfl) (hno _ _ _ rfl) h
  obtain ⟨hminute, h⟩ := append_delim_inj (hno _ _ _ rfl) (hno _ _ _ rfl) h
  have hfraction : ∀ v : ZonedTime, ∀ c ∈ (padded 2 v.second).toList ++ v.fraction,
      (c.isDigit || c = '.') = true := by
    intro v c hc
    rcases List.mem_append.mp hc with hc | hc
    · rw [padded_isDigit _ hc, Bool.true_or]
    · simp only [fraction] at hc
      split at hc
      · cases hc
      rcases List.mem_cons.mp hc with rfl | hc
      · rfl
      obtain ⟨d, hd, rfl⟩ :=
        List.mem_map.mp (List.mem_reverse.mp
          ((List.dropWhile_sublist _).subset (List.mem_reverse.mp hc)))
      have hten : ∀ k < 10, (k.digitChar.isDigit || k.digitChar = '.') = true := by decide
      exact hten d (fixedDigits_lt (by decide) d hd)
  rw [← List.append_assoc, ← List.append_assoc] at h
  obtain ⟨hseconds, hzone⟩ := append_class_inj (hfraction t) (hfraction u) zone_head zone_head h
  have hpoint : ∀ v : ZonedTime, ∀ c ∈ v.fraction.head?, c.isDigit = false := by
    intro v c hc
    simp only [fraction] at hc
    split at hc
    · cases hc
    · obtain rfl : '.' = c := by simpa using hc
      rfl
  obtain ⟨hsecond, hnano⟩ :=
    append_class_inj padded_isDigit padded_isDigit (hpoint t) (hpoint u) hseconds
  obtain ⟨y, mo, d, ho, mi, s, ns, o⟩ := t
  obtain ⟨y', mo', d', ho', mi', s', ns', o'⟩ := u
  rw [ZonedTime.mk.injEq]
  exact ⟨padded_inj hyear, padded_inj hmonth, padded_inj hday, padded_inj hhour, padded_inj hminute,
    padded_inj hsecond, fraction_inj hnano, zone_inj hzone⟩

/-- The text of a time determines it. -/
theorem text_injective : Function.Injective text :=
  fun _ _ h => chars_inj (String.ofList_injective h)

section length

/-- What `UnmarshalJSON` reads: four digits of a year, two of the rest, an offset below a day. -/
structure Readable (t : ZonedTime) : Prop where
  year : t.year < 10000
  month : t.month ≤ 12
  day : t.day ≤ 31
  hour : t.hour < 24
  minute : t.minute < 60
  second : t.second < 60
  offset : t.offset.natAbs < 1440

theorem length_fraction_le (t : ZonedTime) : t.fraction.length ≤ 10 := by
  have hdigits : (((fixedDigits 10 9 t.nanosecond.val).map Nat.digitChar).reverse.dropWhile
      (· = '0')).length ≤ 9 :=
    (List.dropWhile_sublist _).length_le.trans_eq (by simp)
  unfold fraction
  dsimp only
  split
  · exact Nat.zero_le _
  · rw [List.length_cons, List.length_reverse]
    omega

theorem Readable.length_zone_le {t : ZonedTime} (h : t.Readable) : t.zone.length ≤ 6 := by
  have hoffset := h.offset
  unfold zone
  split
  · decide
  · have hhours := (padded_length_iff (by decide)).mpr (by omega : t.offset.natAbs / 60 < 10 ^ 2)
    have hminutes := (padded_length_iff (by decide)).mpr (by omega : t.offset.natAbs % 60 < 10 ^ 2)
    simp only [List.length_cons, List.length_append, hhours, hminutes]
    omega

/-- The text of a time that was read has 35 characters at most. -/
theorem Readable.length_text_le {t : ZonedTime} (h : t.Readable) : t.text.toList.length ≤ 35 := by
  have hfraction := t.length_fraction_le
  have hzone := h.length_zone_le
  obtain ⟨hyear, hmonth, hday, hhour, hminute, hsecond, -⟩ := h
  have htwo : ∀ n < 100, (padded 2 n).toList.length = 2 :=
    fun n hn => (padded_length_iff (by decide)).mpr hn
  have hfour : (padded 4 t.year).toList.length = 4 := (padded_length_iff (by decide)).mpr hyear
  simp only [text, String.toList_ofList, chars, List.length_append, List.length_cons, hfour,
    htwo t.month (by omega),
    htwo t.day (by omega), htwo t.hour (by omega), htwo t.minute (by omega),
    htwo t.second (by omega)]
  omega

end length

end ZonedTime

end Encoding
