import Tenancit.Lib.Dates

/-!
The reader of RFC 3339 times, `time.Parse` with the layouts `RFC3339` and `RFC3339Nano`,
which accept the same texts: a fraction of a second may follow with either. It reads back
every text of a time of the calendar.
-/
namespace Encoding

section digits

def literal (c : Char) : List Char → Option (List Char)
  | x :: rest => if x = c then some rest else none
  | [] => none

/-- `getnum` with a fixed width: two digits. -/
def twoDigits : List Char → Option (Nat × List Char)
  | a :: b :: rest =>
    if a.isDigit && b.isDigit then some (Nat.ofDigitChars 10 [a, b] 0, rest) else none
  | _ => none

/-- `getnum` of an hour: one digit or two. -/
def oneOrTwoDigits : List Char → Option (Nat × List Char)
  | a :: b :: rest =>
    if a.isDigit then
      if b.isDigit then some (Nat.ofDigitChars 10 [a, b] 0, rest)
        else some (Nat.ofDigitChars 10 [a] 0, b :: rest)
    else none
  | [a] => if a.isDigit then some (Nat.ofDigitChars 10 [a] 0, []) else none
  | [] => none

def fourDigits : List Char → Option (Nat × List Char)
  | a :: b :: c :: d :: rest =>
    if a.isDigit && b.isDigit && c.isDigit &&
      d.isDigit then some (Nat.ofDigitChars 10 [a, b, c, d] 0, rest) else none
  | _ => none

/-- A fraction of a second, in nanoseconds, where one follows: what is finer is cut off. -/
def fractionDigits : List Char → Nat × List Char
  | p :: d :: rest =>
    if (p = '.' ∨ p = ',') ∧ d.isDigit then
      let digits := (d :: rest).takeWhile Char.isDigit
      (Nat.ofDigitChars 10 (digits.take 9) 0 * 10 ^ (9 - digits.length),
        (d :: rest).dropWhile Char.isDigit)
    else (0, p :: d :: rest)
  | cs => (0, cs)

/-- `Z07:00`: the offset from UTC in minutes. An offset of 24 hours or 60 minutes is let pass. -/
def zoneDigits : List Char → Option (Int × List Char)
  | 'Z' :: rest => some (0, rest)
  | sign :: h₁ :: h₂ :: ':' :: m₁ :: m₂ :: rest => do
    let (hours, _) ← twoDigits [h₁, h₂]
    let (minutes, _) ← twoDigits [m₁, m₂]
    if hours ≤ 24 ∧ minutes ≤ 60 then
      if sign = '+' then some ((hours * 60 + minutes : Nat), rest)
      else if sign = '-' then some (-(hours * 60 + minutes : Nat), rest)
      else none
    else none
  | _ => none

variable {n : Nat} {rest : List Char}

theorem literal_cons (c : Char) : literal c (c :: rest) = some rest := if_pos rfl

theorem twoDigits_padded (h : n < 100) :
    twoDigits ((padded 2 n).toList ++ rest) = some (n, rest) := by
  obtain ⟨a, b, hab⟩ :=
    List.length_eq_two.mp ((padded_length_iff (by decide)).mpr (by omega : n < 10 ^ 2))
  have hdigit : ∀ c ∈ (padded 2 n).toList, c.isDigit = true := padded_isDigit
  have hvalue := padded_value 2 n
  rw [hab] at hdigit hvalue
  rw [hab, List.cons_append, List.cons_append, List.nil_append, twoDigits, hvalue,
    hdigit a (by simp), hdigit b (by simp)]
  rfl

theorem oneOrTwoDigits_padded (h : n < 100) :
    oneOrTwoDigits ((padded 2 n).toList ++ rest) = some (n, rest) := by
  obtain ⟨a, b, hab⟩ :=
    List.length_eq_two.mp ((padded_length_iff (by decide)).mpr (by omega : n < 10 ^ 2))
  have hdigit : ∀ c ∈ (padded 2 n).toList, c.isDigit = true := padded_isDigit
  have hvalue := padded_value 2 n
  rw [hab] at hdigit hvalue
  rw [hab, List.cons_append, List.cons_append, List.nil_append, oneOrTwoDigits, hvalue,
    if_pos (hdigit a (by simp)),
    if_pos (hdigit b (by simp))]

theorem fourDigits_padded (h : n < 10000) :
    fourDigits ((padded 4 n).toList ++ rest) = some (n, rest) := by
  obtain ⟨a, b, c, d, habcd⟩ :=
    List.length_eq_four.mp ((padded_length_iff (by decide)).mpr (by omega : n < 10 ^ 4))
  have hdigit : ∀ c ∈ (padded 4 n).toList, c.isDigit = true := padded_isDigit
  have hvalue := padded_value 4 n
  rw [habcd] at hdigit hvalue
  simp only [habcd, List.cons_append, List.nil_append, fourDigits, hvalue,
    hdigit a (by simp), hdigit b (by simp),
    hdigit c (by simp), hdigit d (by simp), Bool.and_self, if_true]

theorem ofDigitChars_fixedDigits (width n : Nat) :
    Nat.ofDigitChars 10 ((fixedDigits 10 width n).map Nat.digitChar) 0 = n % 10 ^ width := by
  induction width generalizing n with
  | zero => simp [fixedDigits, Nat.mod_one]
  | succ w ih =>
    rw [fixedDigits, List.map_append, Nat.ofDigitChars_append, ih, List.map_singleton,
      Nat.ofDigitChars_cons_digitChar_of_lt_ten (Nat.mod_lt _ (by decide)), Nat.ofDigitChars_nil,
      pow_succ', Nat.mod_mul]
    ring

end digits

namespace ZonedTime

/-- `time.Parse(time.RFC3339Nano, ...)` -/
def parse (cs : List Char) : Option ZonedTime := do
  let (year, cs) ← fourDigits cs
  let (month, cs) ← literal '-' cs >>= twoDigits
  let (day, cs) ← literal '-' cs >>= twoDigits
  let (hour, cs) ← literal 'T' cs >>= oneOrTwoDigits
  let (minute, cs) ← literal ':' cs >>= twoDigits
  let (second, cs) ← literal ':' cs >>= twoDigits
  let (nanosecond, cs) := fractionDigits cs
  let (offset, cs) ← zoneDigits cs
  if (1 ≤ month ∧ month ≤ 12) ∧ (hour < 24 ∧ minute < 60 ∧ second < 60) ∧ cs = [] ∧ 1 ≤ day ∧
    day ≤ daysIn month year then
    some ⟨year, month, day, hour, minute, second, Fin.ofNat _ nanosecond, offset⟩
  else none

example : parse "2025-07-31T22:13:20.12-03:00".toList =
      some ⟨2025, 7, 31, 22, 13, 20, 120000000, -180⟩ ∧
    parse "2025-02-29T00:00:00Z".toList = none ∧ parse "2025-07-31T2:13:20,5Z".toList =
      some ⟨2025, 7, 31, 2, 13, 20, 500000000, 0⟩ := by
  decide +kernel

/-- A time of the calendar, with an offset below a day. -/
structure Valid (t : ZonedTime) : Prop extends t.Readable where
  monthPos : 1 ≤ t.month
  dayPos : 1 ≤ t.day
  dayIn : t.day ≤ daysIn t.month t.year

variable {t : ZonedTime}

theorem fractionDigits_fraction :
    fractionDigits (t.fraction ++ t.zone) = (t.nanosecond.val, t.zone) := by
  have hzone : ∀ c ∈ t.zone.head?, c.isDigit = false ∧ c ≠ '.' ∧ c ≠ ',' := by
    intro c hc
    simp only [zone] at hc
    split at hc
    · obtain rfl : 'Z' = c := by simpa using hc
      decide
    · split at hc
      · obtain rfl : '-' = c := by simpa using hc
        decide
      · obtain rfl : '+' = c := by simpa using hc
        decide
  obtain ⟨z, zs, hz⟩ : ∃ z zs, t.zone = z :: zs := by
    unfold zone
    split <;> exact ⟨_, _, rfl⟩
  obtain ⟨hzdigit, hzpoint, hzcomma⟩ := hzone z (by rw [hz]; rfl)
  generalize hall : (fixedDigits 10 9 t.nanosecond.val).map Nat.digitChar = all
  have hvalue : Nat.ofDigitChars 10 all 0 = t.nanosecond.val := by
    rw [← hall, ofDigitChars_fixedDigits]
    exact Nat.mod_eq_of_lt t.nanosecond.isLt
  have hlength : all.length = 9 := by simp [← hall]
  have hdigits : ∀ c ∈ all, c.isDigit = true := by
    intro c hc
    obtain ⟨d, hd, rfl⟩ := List.mem_map.mp (hall ▸ hc)
    have hten : ∀ k < 10, k.digitChar.isDigit = true := by decide
    exact hten d (fixedDigits_lt (by decide) d hd)
  -- the digits are those written and the zeros left out
  obtain ⟨k, hparts⟩ : ∃ k, all = (all.reverse.dropWhile (· = '0')).reverse ++
      List.replicate k '0' := by
    have hzeros : all.reverse.takeWhile (· = '0') =
        List.replicate (all.reverse.takeWhile (· = '0')).length '0' :=
      List.eq_replicate_of_mem fun b hb => by simpa using List.mem_takeWhile_imp hb
    refine ⟨(all.reverse.takeWhile (· = '0')).length, ?_⟩
    have hsplit :=
      congrArg List.reverse (List.takeWhile_append_dropWhile (p := (· = '0'))
        (l := all.reverse)).symm
    rw [List.reverse_reverse, List.reverse_append] at hsplit
    conv_lhs => rw [hsplit, hzeros, List.reverse_replicate]
  have hk : (all.reverse.dropWhile (· = '0')).reverse.length + k = 9 := by
    rw [hparts, List.length_append, List.length_replicate] at hlength
    exact hlength
  rw [hparts, Nat.ofDigitChars_append, Nat.ofDigitChars_replicate_zero] at hvalue
  rw [hparts] at hdigits
  unfold fraction
  rw [hall, hz]
  dsimp only
  by_cases hnone : all.reverse.dropWhile (· = '0') = []
  · rw [hnone, List.reverse_nil, Nat.ofDigitChars_nil, mul_zero] at hvalue
    rw [if_pos hnone, List.nil_append, ← hvalue]
    cases zs with
    | nil => rfl
    | cons d rest => rw [fractionDigits, if_neg (by simp [hzpoint, hzcomma])]
  · rw [if_neg hnone]
    cases hwritten : (all.reverse.dropWhile (· = '0')).reverse with
    | nil => exact absurd (List.reverse_eq_nil_iff.mp hwritten) hnone
    | cons d ds =>
      rw [hwritten] at hk hvalue hdigits
      have hdigit : ∀ c ∈ d :: ds, c.isDigit = true :=
        fun c hc => hdigits c (List.mem_append_left _ hc)
      have htake : ((d :: ds) ++ z :: zs).takeWhile Char.isDigit = d :: ds := by
        rw [List.takeWhile_append_of_pos hdigit, List.takeWhile_cons_of_neg (by simp [hzdigit]),
          List.append_nil]
      have hdrop : ((d :: ds) ++ z :: zs).dropWhile Char.isDigit = z :: zs := by
        rw [List.dropWhile_append_of_pos hdigit, List.dropWhile_cons_of_neg (by simp [hzdigit])]
      have hten : 9 - (d :: ds).length = k := by omega
      rw [List.cons_append, List.cons_append, fractionDigits,
        if_pos ⟨.inl rfl, hdigit d (.head _)⟩, ← List.cons_append,
        htake, hdrop]
      dsimp only
      rw [List.take_of_length_le (by omega), hten, mul_comm]
      exact congrArg (·, z :: zs) hvalue

theorem zoneDigits_zone (h : t.Readable) : zoneDigits t.zone = some (t.offset, []) := by
  have hoffset := h.offset
  unfold zone
  split
  next hzero => rw [hzero, zoneDigits]
  next hne =>
    have hhours : t.offset.natAbs / 60 < 100 := by omega
    have hminutes : t.offset.natAbs % 60 < 100 := by omega
    obtain ⟨h₁, h₂, hh⟩ :=
      List.length_eq_two.mp
        ((padded_length_iff (by decide)).mpr (by omega : t.offset.natAbs / 60 < 10 ^ 2))
    obtain ⟨m₁, m₂, hm⟩ :=
      List.length_eq_two.mp
        ((padded_length_iff (by decide)).mpr (by omega : t.offset.natAbs % 60 < 10 ^ 2))
    have hread : twoDigits (_ ++ []) = _ := twoDigits_padded hhours
    have hread' : twoDigits (_ ++ []) = _ := twoDigits_padded hminutes
    rw [List.append_nil, hh] at hread
    rw [List.append_nil, hm] at hread'
    have hbounds : t.offset.natAbs / 60 ≤ 24 ∧ t.offset.natAbs % 60 ≤ 60 := by omega
    rw [hh, hm]
    by_cases hneg : t.offset < 0
    · have hvalue : t.offset =
        -((t.offset.natAbs / 60 * 60 + t.offset.natAbs % 60 : Nat) : Int) := by omega
      rw [if_pos hneg]
      conv_rhs => rw [hvalue]
      simp [zoneDigits, hread, hread', hbounds]
    · have hvalue : t.offset =
        ((t.offset.natAbs / 60 * 60 + t.offset.natAbs % 60 : Nat) : Int) := by omega
      rw [if_neg hneg]
      conv_rhs => rw [hvalue]
      simp [zoneDigits, hread, hread', hbounds]

/-- The text of a time of the calendar reads back. -/
theorem parse_chars (h : t.Valid) : parse t.chars = some t := by
  have hdays : t.day < 100 := lt_of_le_of_lt h.day (by decide)
  have hmonths : t.month < 100 := lt_of_le_of_lt h.month (by decide)
  have hclock : t.hour < 24 ∧ t.minute < 60 ∧ t.second < 60 := ⟨h.hour, h.minute, h.second⟩
  unfold parse chars
  simp only [fourDigits_padded h.year, literal_cons, twoDigits_padded hmonths,
    twoDigits_padded hdays,
    oneOrTwoDigits_padded (hclock.1.trans (by decide)),
    twoDigits_padded (hclock.2.1.trans (by decide)),
    twoDigits_padded (hclock.2.2.trans (by decide)), fractionDigits_fraction,
    zoneDigits_zone h.toReadable,
    Option.bind_eq_bind, Option.bind_some]
  rw [if_pos ⟨⟨h.monthPos, h.month⟩, hclock, trivial, h.dayPos, h.dayIn⟩]
  simp

theorem ofDigitChars_lt {cs : List Char} (h : ∀ c ∈ cs, c.isDigit = true) :
    Nat.ofDigitChars 10 cs 0 < 10 ^ cs.length := by
  induction cs using List.reverseRecOn with
  | nil => simp
  | append_singleton cs c ih =>
    have hdigit : c.toNat ≤ 57 := by
      have hc := h c (by simp)
      simp only [Char.isDigit, Bool.and_eq_true, decide_eq_true_eq, UInt32.le_iff_toNat_le] at hc
      exact hc.2
    have hrest := ih fun x hx => h x (List.mem_append_left _ hx)
    rw [Nat.ofDigitChars_append, Nat.ofDigitChars_cons, Nat.ofDigitChars_nil, List.length_append,
      List.length_singleton,
      pow_succ]
    have hzero : '0'.toNat = 48 := rfl
    omega

theorem fourDigits_lt {cs rest : List Char} {n : Nat} (h : fourDigits cs = some (n, rest)) :
    n < 10000 := by
  unfold fourDigits at h
  split at h
  next a b c d rest' =>
    split at h
    next hdigits =>
      simp only [Bool.and_eq_true] at hdigits
      have hlt : Nat.ofDigitChars 10 [a, b, c, d] 0 < 10 ^ 4 :=
        ofDigitChars_lt (by simpa [and_assoc] using hdigits)
      obtain ⟨rfl, -⟩ := Prod.mk.inj (Option.some.inj h)
      omega
    · cases h
  · cases h

/-- What was read is a time of the calendar, but for its offset. -/
theorem valid_of_parse {cs : List Char} (h : parse cs = some t) (hoffset : t.offset.natAbs < 1440) :
    t.Valid := by
  simp only [parse, Option.bind_eq_bind, Option.bind_eq_some_iff] at h
  obtain ⟨⟨year, cs⟩, hyear, ⟨month, cs⟩, -, ⟨day, cs⟩, -, ⟨hour, cs⟩, -, ⟨minute, cs⟩, -,
    ⟨second, cs⟩, -, ⟨offset, cs⟩, -, h⟩ := h
  split at h
  next hin =>
    obtain ⟨⟨hmonth, hmonth'⟩, ⟨hhour, hminute, hsecond⟩, -, hday, hday'⟩ := hin
    obtain rfl := Option.some.inj h
    refine ⟨⟨fourDigits_lt hyear, hmonth', ?_, hhour, hminute, hsecond, hoffset⟩, hmonth,
      hday, hday'⟩
    refine hday'.trans ?_
    unfold daysIn
    split
    · split <;> omega
    · omega
  · cases h

section micros

variable (offset t : Int)

/-- The day of a time, in microseconds since 1970, by a clock with an offset from UTC. -/
def dayAt : Int := (t + offset * 60000000) / 86400000000

/-- A time in microseconds since 1970, as a clock with an offset shows it. The sign of the year
is left to the text. -/
def ofMicros : ZonedTime :=
  let date := civil (dayAt offset t)
  let micro := ((t + offset * 60000000) % 86400000000).toNat
  ⟨date.1.natAbs, date.2.1, date.2.2, micro / 3600000000,
   micro / 60000000 % 60, micro / 1000000 % 60,
    Fin.ofNat _ (micro % 1000000 * 1000), offset⟩

variable {offset t}

theorem ofMicros_valid (hyear : FourDigitYear (dayAt offset t)) (hoffset : offset.natAbs < 1440) :
    (ofMicros offset t).Valid := by
  obtain ⟨hmonth, hmonth', hday, hday'⟩ := civil_valid (dayAt offset t)
  obtain ⟨hlo, hhi⟩ := hyear
  have hmicro : ((t + offset * 60000000) % 86400000000).toNat < 86400000000 := by omega
  have hthirty : (civil (dayAt offset t)).2.2 ≤ 31 := by
    unfold daysIn at hday'
    split at hday'
    · split at hday' <;> omega
    · omega
  have habs : (((civil (dayAt offset t)).1.natAbs : Nat) : Int) =
    (civil (dayAt offset t)).1 := by omega
  constructor
  · constructor
    · change (civil (dayAt offset t)).1.natAbs < 10000
      omega
    · exact hmonth'
    · exact hthirty
    · change ((t + offset * 60000000) % 86400000000).toNat / 3600000000 < 24
      omega
    · exact Nat.mod_lt _ (by decide)
    · exact Nat.mod_lt _ (by decide)
    · exact hoffset
  · exact hmonth
  · exact hday
  · change (civil (dayAt offset t)).2.2 ≤
      daysIn (civil (dayAt offset t)).2.1 ((civil (dayAt offset t)).1.natAbs : Nat)
    rw [habs]
    exact hday'

/-- The clock shows the time it was given, where the year has no sign. -/
theorem unixNano_ofMicros (hyear : 0 ≤ (civil (dayAt offset t)).1) :
    (ofMicros offset t).unixNano = t * 1000 := by
  have hdays := daysFromCivil_civil (dayAt offset t)
  have habs : (((civil (dayAt offset t)).1.natAbs : Nat) : Int) =
    (civil (dayAt offset t)).1 := by omega
  simp only [unixNano, ofMicros, habs, hdays, Fin.val_ofNat]
  unfold dayAt
  omega

end micros

end ZonedTime

end Encoding
