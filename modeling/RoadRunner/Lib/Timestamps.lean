import RoadRunner.Lib.Bucket
import RoadRunner.Lib.Calendar

/-!
# The order of RFC 3339 timestamps

For years of four digits the texts of `Calendar.rfc3339` have one length and their fields stand in
the order of their weight, so that byte order is time order.

* `decimal_append_lt`: texts that start with numbers of one width are ordered by the numbers, then
  by what follows.
* `year_mono`, `date_lt`: a later day has a later year, or the same year and a later date in it.
* `rfc3339_strictMonoOn`: the texts of the years 1 to 9999 are ordered as their seconds.
-/

namespace Calendar

/-! ## Numbers of a fixed width -/

theorem digit_lt {a b : Nat} (h : a < b) (hb : b < 10) : digit a < digit b := by
  rw [UInt8.lt_iff_toNat_lt, digit, digit, UInt8.toNat_ofNat', UInt8.toNat_ofNat']
  omega

theorem decimal_succ (w n : Nat) : decimal (w + 1) n = decimal w (n / 10) ++ [digit (n % 10)] := by
  have hdigits : Nat.digitsAppend 10 (w + 1) n = n % 10 :: Nat.digitsAppend 10 w (n / 10) := by
    rcases Nat.eq_zero_or_pos n with rfl | hn
    · simp [Nat.digitsAppend, List.replicate_succ]
    · rw [Nat.digitsAppend, Nat.digits_def' (by decide) hn]
      simp [Nat.digitsAppend]
  simp [decimal, hdigits]

theorem length_decimal {w n : Nat} (h : n < 10 ^ w) : (decimal w n).length = w := by
  simp [decimal, Nat.length_digitsAppend (b := 10) (by decide) w h]

/-- Of two texts that differ at their starts of one length, the smaller start decides. -/
theorem append_lt_append {a b r s : List UInt8} (hlen : a.length = b.length) (h : a < b) :
    a ++ r < b ++ s := by
  induction a generalizing b with
  | nil =>
    rw [List.length_nil, eq_comm, List.length_eq_zero_iff] at hlen
    subst hlen
    exact absurd h (lt_irrefl _)
  | cons x a ih =>
    cases b with
    | nil => simp at hlen
    | cons y b =>
      rw [List.cons_append, List.cons_append, List.cons_lt_cons_iff]
      rcases List.cons_lt_cons_iff.mp h with hxy | ⟨rfl, hab⟩
      · exact .inl hxy
      · exact .inr ⟨rfl, ih (by simpa using hlen) hab⟩

theorem append_lt_append_left (a : List UInt8) {r s : List UInt8} (h : r < s) : a ++ r < a ++ s := by
  induction a with
  | nil => exact h
  | cons x a ih => exact List.cons_lt_cons_iff.mpr (.inr ⟨rfl, ih⟩)

theorem decimal_lt {w m n : Nat} (hn : n < 10 ^ w) (h : m < n) : decimal w m < decimal w n := by
  induction w generalizing m n with
  | zero => omega
  | succ w ih =>
    rw [decimal_succ, decimal_succ]
    rw [pow_succ] at hn
    -- the number without its last digit decides, then the last digit
    rcases Nat.lt_or_ge (m / 10) (n / 10) with hq | hq
    · apply append_lt_append _ (ih (by omega) hq)
      rw [length_decimal (by omega), length_decimal (by omega)]
    · rw [show m / 10 = n / 10 by omega]
      apply append_lt_append_left
      exact List.cons_lt_cons_iff.mpr (.inl (digit_lt (by omega) (by omega)))

theorem decimal_append_lt {w m n : Nat} {r s : List UInt8} (hn : n < 10 ^ w)
    (h : m < n ∨ m = n ∧ r < s) : decimal w m ++ r < decimal w n ++ s := by
  rcases h with h | ⟨rfl, h⟩
  · apply append_lt_append _ (decimal_lt hn h)
    rw [length_decimal (by omega), length_decimal hn]
  · exact append_lt_append_left _ h

/-- As `decimal_append_lt`, with a separator after the numbers. -/
theorem decimal_sep_lt {w m n : Nat} (c : UInt8) {r s : List UInt8} (hn : n < 10 ^ w)
    (h : m < n ∨ m = n ∧ r < s) : decimal w m ++ c :: r < decimal w n ++ c :: s := by
  apply decimal_append_lt hn
  rcases h with h | ⟨rfl, h⟩
  · exact .inl h
  · exact .inr ⟨rfl, List.cons_lt_cons_iff.mpr (.inr ⟨rfl, h⟩)⟩

/-! ## Days -/

theorem daysThrough_mono {y z : Int} (h : y ≤ z) : daysThrough y ≤ daysThrough z := by
  unfold daysThrough
  omega

/-- The days through a year are those through the one before and its own. -/
theorem daysThrough_pred (y : Int) :
    daysThrough y = daysThrough (y - 1) + if isLeap y then 366 else 365 := by
  unfold daysThrough isLeap
  split
  · rename_i hl
    rw [decide_eq_true_iff] at hl
    omega
  · rename_i hl
    rw [decide_eq_true_iff] at hl
    omega

theorem year_mono {a b : Int} (h : a ≤ b) : year a ≤ year b := by
  by_contra hlt
  -- then day `a` is after the last day of the year of `b`
  have ha := dayOf_year a
  have hb := dayOf_year b
  have hyear := daysThrough_mono (show year b ≤ year a - 1 by omega)
  have hpred := daysThrough_pred (year b)
  have hlast := yday_lt b
  have hfirst := yday_nonneg a
  unfold fromYear1 at ha hb
  omega

/-- The date of the next day of a year is later, with months before days. -/
theorem dateOf_succ : ∀ leap : Bool, ∀ d < 364 + leap.toNat,
    32 * (dateOf leap d).1 + (dateOf leap d).2 < 32 * (dateOf leap (d + 1)).1 + (dateOf leap (d + 1)).2 := by
  decide +kernel

theorem dateOf_lt {leap : Bool} {d e : Nat} (h : d < e) (he : e < 365 + leap.toNat) :
    32 * (dateOf leap d).1 + (dateOf leap d).2 < 32 * (dateOf leap e).1 + (dateOf leap e).2 := by
  induction e, h using Nat.le_induction with
  | base => exact dateOf_succ leap d (by omega)
  | succ e _ ih => exact (ih (by omega)).trans (dateOf_succ leap e (by omega))

/-- Of two seconds in one year, the one on the earlier day has the earlier date. -/
theorem date_lt {t u : Int} (hyear : year (dayOfSec t) = year (dayOfSec u)) (h : dayOfSec t < dayOfSec u) :
    (date t).1 < (date u).1 ∨ (date t).1 = (date u).1 ∧ (date t).2 < (date u).2 := by
  have hyday : yday (dayOfSec t) < yday (dayOfSec u) := by
    have ht := dayOf_year (dayOfSec t)
    have hu := dayOf_year (dayOfSec u)
    rw [hyear] at ht
    unfold fromYear1 at ht hu
    omega
  have hlast : (yday (dayOfSec u)).toNat < 365 + (isLeap (year (dayOfSec u))).toNat := by
    have hlt := yday_lt (dayOfSec u)
    cases hl : isLeap (year (dayOfSec u)) <;> simp [hl] at hlt ⊢ <;> omega
  have hlt := dateOf_lt (show (yday (dayOfSec t)).toNat < (yday (dayOfSec u)).toNat by
    have := yday_nonneg (dayOfSec t); omega) hlast
  rw [← date, ← hyear, ← date] at hlt
  obtain ⟨-, -, ht⟩ := date_spec t
  obtain ⟨-, -, hu⟩ := date_spec u
  omega

/-! ## Texts -/

theorem rest_lt {t u : Int}
    (h : (date t).1 < (date u).1 ∨ (date t).1 = (date u).1 ∧
      ((date t).2 < (date u).2 ∨ (date t).2 = (date u).2 ∧ secOfDay t < secOfDay u)) :
    rest t < rest u := by
  obtain ⟨-, hmonth, hday⟩ := date_spec u
  have hsec := secOfDay_lt u
  apply List.cons_lt_cons_iff.mpr (.inr ⟨rfl, _⟩)
  apply decimal_sep_lt 45 (by omega)
  refine h.imp_right fun h => ⟨h.1, ?_⟩
  apply decimal_sep_lt 84 (by omega)
  refine h.2.imp_right fun h => ⟨h.1, ?_⟩
  -- the second of the day as hours, minutes and seconds
  apply decimal_sep_lt 58 (by omega)
  rcases Nat.lt_or_ge (secOfDay t / 3600) (secOfDay u / 3600) with hh | hh
  · exact .inl hh
  refine .inr ⟨by omega, decimal_sep_lt 58 (by omega) ?_⟩
  rcases Nat.lt_or_ge (secOfDay t / 60 % 60) (secOfDay u / 60 % 60) with hm | hm
  · exact .inl hm
  exact .inr ⟨by omega, decimal_append_lt (by omega) (.inl (by omega))⟩

theorem rfc3339_lt {t u : Int} (hlo : 0 ≤ year (dayOfSec t)) (hhi : year (dayOfSec u) ≤ 9999) (h : t < u) :
    rfc3339 t < rfc3339 u := by
  have hday : dayOfSec t ≤ dayOfSec u := by unfold dayOfSec; omega
  have hyear := year_mono hday
  have ht : yearText (year (dayOfSec t)) = decimal 4 (year (dayOfSec t)).natAbs := if_neg (by omega)
  have hu : yearText (year (dayOfSec u)) = decimal 4 (year (dayOfSec u)).natAbs := if_neg (by omega)
  rw [rfc3339, rfc3339, ht, hu]
  apply decimal_append_lt (by omega)
  rcases hyear.lt_or_eq with hlt | heq
  · exact .inl (by omega)
  refine .inr ⟨by rw [heq], rest_lt ?_⟩
  rcases hday.lt_or_eq with hlt | hsame
  · exact (date_lt heq hlt).imp_right fun h => ⟨h.1, .inl h.2⟩
  · -- one day: the same date, and a later second of it
    have hdate : date t = date u := by rw [date, date, hsame]
    refine .inr ⟨by rw [hdate], .inr ⟨by rw [hdate], ?_⟩⟩
    unfold dayOfSec at hsame
    unfold secOfDay
    omega

/-- **Byte order is time order**, for the years 1 to 9999. -/
theorem rfc3339_strictMonoOn : StrictMonoOn rfc3339 {t | -62135596800 ≤ t ∧ t < 253402300800} := by
  intro t ht u hu h
  exact rfc3339_lt (year_bounds ht.1 ht.2).1 (year_bounds hu.1 hu.2).2 h

end Calendar
