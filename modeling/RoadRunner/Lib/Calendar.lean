import Mathlib

/-!
# The civil calendar and RFC 3339 timestamps

Seconds since 1970-01-01T00:00:00Z, an arbitrary `Int`, as a date and time of the proleptic
Gregorian calendar in UTC, and its text `YYYY-MM-DDThh:mm:ssZ`. The split of a day number into
400-, 100-, 4- and 1-year cycles counted from the year 1 is the one of the usual library code, in
which the last cycle of each kind is the long one.

* `year`, `yday`: the year of a day number and the day in it, from 0; `dayOf_year`: they determine
  the day.
* `month`, `mday`: the date in the year; `yday_of_date`: they determine the day in the year.
* `rfc3339 t`: the text of the second `t`; `rfc3339_injective`: two seconds have different texts,
  in any year (a year outside 0..9999 has more digits or a sign).
* `unix`: the second of a text; `unix_rfc3339`: it inverts `rfc3339` for years of four digits.
-/

namespace Calendar

/-! ## Days and years -/

/-- Days of 400, 100 and 4 years that start in a year after a multiple of 400. -/
def daysPer400 : Int := 146097

/-- The days of 100 years. -/
def daysPer100 : Int := 36524

/-- The days of 4 years. -/
def daysPer4 : Int := 1461

/-- A day number (0 is 1970-01-01), counted from 0001-01-01. -/
def fromYear1 (day : Int) : Int := day + 719162

/-- The cycles of a day: 400, 100, 4 and 1 years, and the day in the year, from 0. -/
structure Cycles where
  n400 : Int
  n100 : Int
  n4 : Int
  n1 : Int
  yday : Int

/-- The last 100-year and the last 1-year cycle have one day more, so on that day the quotient
is 4 instead of 3 and is cut back. -/
def cycles (day : Int) : Cycles :=
  let d := fromYear1 day
  let n400 := d / daysPer400
  let d := d - daysPer400 * n400
  let n100 := d / daysPer100 - d / daysPer100 / 4
  let d := d - daysPer100 * n100
  let n4 := d / daysPer4
  let d := d - daysPer4 * n4
  let n1 := d / 365 - d / 365 / 4
  ⟨n400, n100, n4, n1, d - 365 * n1⟩

/-- The year of a day. -/
def year (day : Int) : Int :=
  let c := cycles day
  400 * c.n400 + 100 * c.n100 + 4 * c.n4 + c.n1 + 1

theorem year_eq (day : Int) : year day = 400 * (cycles day).n400 + 100 * (cycles day).n100 +
    4 * (cycles day).n4 + (cycles day).n1 + 1 := rfl

/-- The day in its year, from 0. -/
def yday (day : Int) : Int := (cycles day).yday

/-- The year has a 29 February. -/
def isLeap (y : Int) : Bool := decide (y % 4 = 0 ∧ (y % 100 ≠ 0 ∨ y % 400 = 0))

/-- Days in the years from 1 to `y`. -/
def daysThrough (y : Int) : Int := 365 * y + y / 4 - y / 100 + y / 400

/-- The bounds of the cycles, and the day they add up to. -/
theorem cycles_spec (day : Int) :
    let c := cycles day
    (0 ≤ c.n100 ∧ c.n100 ≤ 3) ∧ (0 ≤ c.n4 ∧ c.n4 ≤ 24) ∧ (0 ≤ c.n1 ∧ c.n1 ≤ 3) ∧ 0 ≤ c.yday ∧
      fromYear1 day =
        daysPer400 * c.n400 + daysPer100 * c.n100 + daysPer4 * c.n4 + 365 * c.n1 + c.yday := by
  simp only [cycles, daysPer400, daysPer100, daysPer4]
  omega

/-- Which days of a cycle are the 366th of their year. -/
theorem yday_le (day : Int) :
    let c := cycles day
    c.yday ≤ 365 ∧ (c.yday = 365 → c.n1 = 3 ∧ (c.n4 = 24 → c.n100 = 3)) := by
  simp only [cycles, daysPer400, daysPer100, daysPer4]
  omega

theorem yday_nonneg (day : Int) : 0 ≤ yday day := (cycles_spec day).2.2.2.1

/-- The day in its year is below the length of the year. -/
theorem yday_lt (day : Int) : yday day < if isLeap (year day) then 366 else 365 := by
  obtain ⟨h100, h4, h1, -, -⟩ := cycles_spec day
  obtain ⟨hle, hlast⟩ := yday_le day
  unfold yday
  split
  · omega
  · rename_i hl
    by_contra hge
    obtain ⟨hn1, hn4⟩ := hlast (by omega)
    have hy := year_eq day
    refine hl (decide_eq_true ⟨by omega, ?_⟩)
    by_cases h24 : (cycles day).n4 = 24
    · right; have := hn4 h24; omega
    · left; omega

/-- The year and the day in it determine the day. -/
theorem dayOf_year (day : Int) : fromYear1 day = daysThrough (year day - 1) + yday day := by
  obtain ⟨h100, h4, h1, -, hsum⟩ := cycles_spec day
  rw [hsum]
  simp only [daysThrough, year, yday, daysPer400, daysPer100, daysPer4]
  omega

/-! ## Months -/

/-- Days of a common year before month `m + 1`. -/
def daysBefore : Nat → Nat
  | 0 => 0 | 1 => 31 | 2 => 59 | 3 => 90 | 4 => 120 | 5 => 151 | 6 => 181 | 7 => 212
  | 8 => 243 | 9 => 273 | 10 => 304 | 11 => 334 | _ => 365

/-- The month, from 1, and the day in it, from 1, of day `d` of a common year: the estimate that
every month has 31 days is at most one month early. -/
def commonDate (d : Nat) : Nat × Nat :=
  let m := d / 31
  if daysBefore (m + 1) ≤ d then (m + 2, d - daysBefore (m + 1) + 1)
  else (m + 1, d - daysBefore m + 1)

/-- The date of day `d` of a year. After February 29 a leap year goes on as a common one. -/
def dateOf (leap : Bool) (d : Nat) : Nat × Nat :=
  if leap then
    if 60 ≤ d then commonDate (d - 1)
    else if d = 59 then (2, 29)
    else commonDate d
  else commonDate d

/-- The day in the year of a date. -/
def dayIn (leap : Bool) (date : Nat × Nat) : Nat :=
  daysBefore (date.1 - 1) + date.2 - 1 + if leap ∧ 2 < date.1 then 1 else 0

theorem dateOf_spec : ∀ leap : Bool, ∀ d < 365 + leap.toNat,
    dayIn leap (dateOf leap d) = d ∧ 1 ≤ (dateOf leap d).1 ∧ (dateOf leap d).1 ≤ 12 ∧
      1 ≤ (dateOf leap d).2 ∧ (dateOf leap d).2 ≤ 31 := by
  decide +kernel

/-! ## Texts -/

/-- The ASCII digit of `d < 10`. -/
def digit (d : Nat) : UInt8 := UInt8.ofNat (48 + d)

theorem digit_injective {a b : Nat} (ha : a < 10) (hb : b < 10) (h : digit a = digit b) : a = b := by
  have := congrArg UInt8.toNat h
  simp only [digit, UInt8.toNat_ofNat'] at this
  omega

/-- `n` in decimal, with zeros in front up to `w` digits. -/
def decimal (w n : Nat) : List UInt8 :=
  ((Nat.digitsAppend 10 w n).map digit).reverse

theorem map_digit_injective {as bs : List Nat} (ha : ∀ a ∈ as, a < 10) (hb : ∀ b ∈ bs, b < 10)
    (h : as.map digit = bs.map digit) : as = bs := by
  induction as generalizing bs with
  | nil => simpa using h.symm
  | cons a as ih =>
    cases bs with
    | nil => simp at h
    | cons b bs =>
      simp only [List.map_cons, List.cons.injEq] at h
      rw [digit_injective (ha a (by simp)) (hb b (by simp)) h.1,
        ih (fun x hx => ha x (by simp [hx])) (fun x hx => hb x (by simp [hx])) h.2]

/-- Zeros in front do not change the number a text stands for. -/
theorem decimal_injective {w : Nat} {m n : Nat} (h : decimal w m = decimal w n) : m = n := by
  have hd := map_digit_injective (fun _ => Nat.lt_of_mem_digitsAppend (by decide) w _)
    (fun _ => Nat.lt_of_mem_digitsAppend (by decide) w _) (List.reverse_injective h)
  have := congrArg (Nat.ofDigits 10) hd
  simpa [Nat.digitsAppend, Nat.ofDigits_append_replicate_zero, Nat.ofDigits_digits] using this

theorem length_decimal_two {n : Nat} (h : n < 100) : (decimal 2 n).length = 2 := by
  simp [decimal, Nat.length_digitsAppend (b := 10) (by decide) 2 (by simpa using h)]

/-- A minus sign is not a digit. -/
theorem minus_not_mem_decimal (w n : Nat) : (45 : UInt8) ∉ decimal w n := by
  simp only [decimal, List.mem_reverse, List.mem_map, not_exists, not_and]
  intro d hd h
  have hlt := Nat.lt_of_mem_digitsAppend (by decide) w d hd
  interval_cases d <;> revert h <;> decide

/-- A year in decimal, four digits at least; a year before 0 with a sign. -/
def yearText (y : Int) : List UInt8 :=
  if y < 0 then 45 :: decimal 4 y.natAbs else decimal 4 y.natAbs

theorem yearText_injective {y z : Int} (h : yearText y = yearText z) : y = z := by
  unfold yearText at h
  split at h <;> split at h
  · have := decimal_injective (List.cons.inj h).2; omega
  · exact absurd (h ▸ List.mem_cons_self) (minus_not_mem_decimal 4 z.natAbs)
  · exact absurd (h ▸ List.mem_cons_self) (minus_not_mem_decimal 4 y.natAbs)
  · have := decimal_injective h; omega

/-- The day of a second, and the second in the day. -/
def dayOfSec (t : Int) : Int := t / 86400

/-- The seconds since midnight. -/
def secOfDay (t : Int) : Nat := (t % 86400).toNat

/-- The date of a second. -/
def date (t : Int) : Nat × Nat := dateOf (isLeap (year (dayOfSec t))) (yday (dayOfSec t)).toNat

/-- The text after the year: `-MM-DDThh:mm:ssZ`. -/
def rest (t : Int) : List UInt8 :=
  45 :: (decimal 2 (date t).1 ++ 45 :: (decimal 2 (date t).2 ++ 84 ::
    (decimal 2 (secOfDay t / 3600) ++ 58 :: (decimal 2 (secOfDay t / 60 % 60) ++ 58 ::
      (decimal 2 (secOfDay t % 60) ++ [90])))))

/-- The text of the second `t`: `YYYY-MM-DDThh:mm:ssZ`. -/
def rfc3339 (t : Int) : List UInt8 := yearText (year (dayOfSec t)) ++ rest t

theorem date_spec (t : Int) :
    dayIn (isLeap (year (dayOfSec t))) (date t) = (yday (dayOfSec t)).toNat ∧
      (date t).1 ≤ 12 ∧ (date t).2 ≤ 31 := by
  have h0 := yday_nonneg (dayOfSec t)
  have hlt := yday_lt (dayOfSec t)
  obtain ⟨h1, -, h2, -, h3⟩ := dateOf_spec (isLeap (year (dayOfSec t))) (yday (dayOfSec t)).toNat
    (by cases hl : isLeap (year (dayOfSec t)) <;> simp [hl] at hlt ⊢ <;> omega)
  exact ⟨h1, h2, h3⟩

theorem secOfDay_lt (t : Int) : secOfDay t < 86400 := by unfold secOfDay; omega

theorem length_rest (t : Int) : (rest t).length = 16 := by
  obtain ⟨-, h1, h2⟩ := date_spec t
  have h3 := secOfDay_lt t
  simp [rest, length_decimal_two (show (date t).1 < 100 by omega),
    length_decimal_two (show (date t).2 < 100 by omega),
    length_decimal_two (show secOfDay t / 3600 < 100 by omega),
    length_decimal_two (show secOfDay t / 60 % 60 < 100 by omega),
    length_decimal_two (show secOfDay t % 60 < 100 by omega)]

/-- Two texts that start with a two-digit number and agree, agree in it and in what follows. -/
theorem decimal_two_append {m n : Nat} {r s : List UInt8} (hm : m < 100) (hn : n < 100)
    (h : decimal 2 m ++ r = decimal 2 n ++ s) : m = n ∧ r = s := by
  obtain ⟨h1, h2⟩ := List.append_inj h (by rw [length_decimal_two hm, length_decimal_two hn])
  exact ⟨decimal_injective h1, h2⟩

theorem rest_injective {t u : Int} (h : rest t = rest u) :
    date t = date u ∧ secOfDay t = secOfDay u := by
  obtain ⟨-, t1, t2⟩ := date_spec t
  obtain ⟨-, u1, u2⟩ := date_spec u
  have ht := secOfDay_lt t
  have hu := secOfDay_lt u
  obtain ⟨hmonth, h⟩ := decimal_two_append (by omega) (by omega) (List.cons.inj h).2
  obtain ⟨hday, h⟩ := decimal_two_append (by omega) (by omega) (List.cons.inj h).2
  obtain ⟨hhour, h⟩ := decimal_two_append (by omega) (by omega) (List.cons.inj h).2
  obtain ⟨hmin, h⟩ := decimal_two_append (by omega) (by omega) (List.cons.inj h).2
  obtain ⟨hsec, -⟩ := decimal_two_append (by omega) (by omega) (List.cons.inj h).2
  exact ⟨Prod.ext hmonth hday, by omega⟩

/-- **Two seconds have different texts.** -/
theorem rfc3339_injective {t u : Int} (h : rfc3339 t = rfc3339 u) : t = u := by
  obtain ⟨hy, hr⟩ := List.append_inj' h (by rw [length_rest, length_rest])
  have hyear := yearText_injective hy
  obtain ⟨hdate, hsec⟩ := rest_injective hr
  have hyday : (yday (dayOfSec t)).toNat = (yday (dayOfSec u)).toNat := by
    rw [← (date_spec t).1, ← (date_spec u).1, hyear, hdate]
  have hday : dayOfSec t = dayOfSec u := by
    have ht := dayOf_year (dayOfSec t)
    have hu := dayOf_year (dayOfSec u)
    have := yday_nonneg (dayOfSec t)
    have := yday_nonneg (dayOfSec u)
    rw [hyear] at ht
    unfold fromYear1 at ht hu
    omega
  unfold dayOfSec at hday
  unfold secOfDay at hsec
  omega

/-! ## Reading a text -/

/-- The number of a text of digits. -/
def number (b : List UInt8) : Nat := Nat.ofDigits 10 (b.map fun c => c.toNat - 48).reverse

theorem number_decimal (w n : Nat) : number (decimal w n) = n := by
  have hdigits : (Nat.digitsAppend 10 w n).map (fun d => (digit d).toNat - 48) = Nat.digitsAppend 10 w n := by
    conv_rhs => rw [← List.map_id (Nat.digitsAppend 10 w n)]
    refine List.map_congr_left fun d hd => ?_
    have hlt := Nat.lt_of_mem_digitsAppend (by decide) w d hd
    rw [digit, UInt8.toNat_ofNat', id]
    omega
  rw [number, decimal, List.map_reverse, List.reverse_reverse, List.map_map]
  refine (congrArg (Nat.ofDigits 10) hdigits).trans ?_
  simp [Nat.digitsAppend, Nat.ofDigits_append_replicate_zero, Nat.ofDigits_digits]

/-- A number of `w` digits, and the text after it and the byte that follows. -/
def field (w : Nat) (b : List UInt8) : Nat × List UInt8 := (number (b.take w), b.drop (w + 1))

theorem field_decimal {w n : Nat} (h : n < 10 ^ w) (c : UInt8) (r : List UInt8) :
    field w (decimal w n ++ c :: r) = (n, r) := by
  have hlength : (decimal w n).length = w := by
    simp [decimal, Nat.length_digitsAppend (b := 10) (by decide) w h]
  rw [field, List.take_append_of_le_length (by omega), List.take_of_length_le (by omega), number_decimal,
    List.drop_append, List.drop_of_length_le (by omega), hlength]
  simp

/-- The second of a text `YYYY-MM-DDThh:mm:ssZ`. What the text is made of is not checked. -/
def unix (b : List UInt8) : Int :=
  let (y, b) := field 4 b
  let (m, b) := field 2 b
  let (d, b) := field 2 b
  let (hour, b) := field 2 b
  let (min, b) := field 2 b
  let (sec, _) := field 2 b
  (daysThrough (y - 1) + dayIn (isLeap y) (m, d) - fromYear1 0) * 86400 + (hour * 3600 + min * 60 + sec : Nat)

theorem unix_rfc3339 {t : Int} (hlo : 0 ≤ year (dayOfSec t)) (hhi : year (dayOfSec t) ≤ 9999) :
    unix (rfc3339 t) = t := by
  obtain ⟨hdayIn, hmonth, hday⟩ := date_spec t
  have hsec := secOfDay_lt t
  have hyear : (((year (dayOfSec t)).natAbs : Nat) : Int) = year (dayOfSec t) := by omega
  have hyday := yday_nonneg (dayOfSec t)
  have hdays := dayOf_year (dayOfSec t)
  have htext : yearText (year (dayOfSec t)) = decimal 4 (year (dayOfSec t)).natAbs := if_neg (by omega)
  rw [rfc3339, rest, htext, unix]
  simp only [field_decimal (w := 4) (n := (year (dayOfSec t)).natAbs) (by omega),
    field_decimal (w := 2) (n := (date t).1) (by omega), field_decimal (w := 2) (n := (date t).2) (by omega),
    field_decimal (w := 2) (n := secOfDay t / 3600) (by omega),
    field_decimal (w := 2) (n := secOfDay t / 60 % 60) (by omega),
    field_decimal (w := 2) (n := secOfDay t % 60) (by omega), hyear, hdayIn]
  unfold fromYear1 dayOfSec at *
  unfold secOfDay at *
  omega

/-- The years 1 to 9999. -/
theorem year_bounds {t : Int} (hlo : -62135596800 ≤ t) (hhi : t < 253402300800) :
    0 ≤ year (dayOfSec t) ∧ year (dayOfSec t) ≤ 9999 := by
  have hdays := dayOf_year (dayOfSec t)
  have hnonneg := yday_nonneg (dayOfSec t)
  have hlt := yday_lt (dayOfSec t)
  have hle : yday (dayOfSec t) < 366 := by
    split at hlt <;> omega
  unfold fromYear1 daysThrough at hdays
  unfold dayOfSec at *
  omega

-- 2022-01-31T23:59:59Z and a leap day
example : rfc3339 1643673599 =
    [50, 48, 50, 50, 45, 48, 49, 45, 51, 49, 84, 50, 51, 58, 53, 57, 58, 53, 57, 90] := by
  decide +kernel
example : date 1709164800 = (2, 29) := by decide +kernel

end Calendar
