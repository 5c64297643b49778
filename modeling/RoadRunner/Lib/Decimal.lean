import Mathlib

/-!
# Decimal integers

Integers of 64 bits as decimal texts, as Go's `strconv` writes and reads them: `itoa` gives digits with a
minus sign before a negative number, `atoi` takes digits with an optional sign and refuses everything else and
what is out of range.

* `Canonical`: the digits of a number without zeros in front; `canonical_digits`: `digits` gives such a text.
* `atoi_itoa`: reading inverts writing.
-/

namespace Decimal

/-- The digits of a number, the first one first. -/
def digits (n : Nat) : List UInt8 :=
  if n = 0 then [48] else (Nat.digits 10 n).reverse.map fun d => UInt8.ofNat (48 + d)

/-- An ASCII digit. -/
def isDigit (b : UInt8) : Bool := 48 ≤ b.toNat && b.toNat ≤ 57

/-- The number that digits stand for. -/
def value (ds : List UInt8) : Nat := Nat.ofDigits 10 (ds.map fun b => b.toNat - 48).reverse

/-- The number of a text that has digits only, and at least one. -/
def parse (ds : List UInt8) : Option Nat := if ds ≠ [] ∧ ds.all isDigit then some (value ds) else none

/-- `strconv.Itoa`. -/
def itoa (n : Int64) : List UInt8 :=
  if n < 0 then 45 :: digits n.toInt.natAbs else digits n.toInt.natAbs

/-- A number without a sign, or with a plus. -/
def unsigned (ds : List UInt8) : Option Int64 :=
  (parse ds).bind fun n => if n < 2 ^ 63 then some (Int64.ofInt n) else none

/-- `strconv.Atoi`. -/
def atoi : List UInt8 → Option Int64
  | 45 :: ds => (parse ds).bind fun n => if n ≤ 2 ^ 63 then some (Int64.ofInt (-n)) else none
  | 43 :: ds => unsigned ds
  | ds => unsigned ds

/-! ## Digits -/

theorem digit_toNat {d : Nat} (h : d < 10) : (UInt8.ofNat (48 + d)).toNat = 48 + d := by
  rw [UInt8.toNat_ofNat']
  omega

theorem isDigit_digit {d : Nat} (h : d < 10) : isDigit (UInt8.ofNat (48 + d)) = true := by
  simp only [isDigit, digit_toNat h, Bool.and_eq_true, decide_eq_true_eq]
  omega

theorem all_isDigit_digits (n : Nat) : (digits n).all isDigit = true := by
  unfold digits
  split
  · rfl
  · rw [List.all_eq_true]
    intro b hb
    obtain ⟨d, hd, rfl⟩ := List.mem_map.mp hb
    exact isDigit_digit (Nat.digits_lt_base (by omega) (List.mem_reverse.mp hd))

theorem digits_ne_nil (n : Nat) : digits n ≠ [] := by
  unfold digits
  split
  · simp
  case isFalse h => simpa using Nat.digits_ne_nil_iff_ne_zero.mpr h

theorem value_digits (n : Nat) : value (digits n) = n := by
  unfold digits value
  split
  case isTrue h => rw [h]; rfl
  case isFalse h =>
    have hdigits : (Nat.digits 10 n).map (fun d => (UInt8.ofNat (48 + d)).toNat - 48) = Nat.digits 10 n := by
      conv_rhs => rw [← List.map_id (Nat.digits 10 n)]
      refine List.map_congr_left fun d hd => ?_
      rw [digit_toNat (Nat.digits_lt_base (by omega) hd)]
      exact Nat.add_sub_cancel_left 48 d
    rw [List.map_map, List.map_reverse, List.reverse_reverse]
    exact (congrArg (Nat.ofDigits 10) hdigits).trans (Nat.ofDigits_digits 10 n)

theorem parse_digits (n : Nat) : parse (digits n) = some n := by
  rw [parse, if_pos ⟨digits_ne_nil n, all_isDigit_digits n⟩, value_digits]

theorem digits_of_lt_ten {n : Nat} (h : n < 10) : digits n = [UInt8.ofNat (48 + n)] := by
  unfold digits
  split
  case isTrue h0 => rw [h0]; rfl
  case isFalse h0 => rw [Nat.digits_of_lt 10 n h0 h]; rfl

/-- The last digit comes after those of the rest. -/
theorem digits_of_ten_le {n : Nat} (h : 10 ≤ n) : digits n = digits (n / 10) ++ [UInt8.ofNat (48 + n % 10)] := by
  rw [digits, if_neg (by omega), digits, if_neg (by omega), Nat.digits_def' (by omega) (by omega)]
  simp

theorem length_digits_le {n k : Nat} (hk : 0 < k) (h : n < 10 ^ k) : (digits n).length ≤ k := by
  unfold digits
  split
  · exact hk
  · rw [List.length_map, List.length_reverse]
    exact (Nat.digits_length_le_iff (by omega) n).mpr h

/-! ## Canonical texts -/

/-- The text has digits only, at least one, no zero in front of another digit, and stands for `n`. -/
structure Canonical (n : Nat) (ds : List UInt8) : Prop where
  ne_nil : ds ≠ []
  digits : ∀ b ∈ ds, isDigit b = true
  leading : ds.head? = some 48 → ds = [48]
  value : value ds = n

theorem head_digits {n : Nat} (h : n ≠ 0) : (digits n).head? ≠ some 48 := by
  induction n using Nat.strongRecOn with
  | ind n ih =>
    by_cases hn : n < 10
    · rw [digits_of_lt_ten hn, List.head?_cons]
      intro heq
      have := congrArg UInt8.toNat (Option.some.inj heq)
      rw [digit_toNat hn] at this
      exact h (by simpa using this)
    · have hfirst := List.head?_eq_some_head (digits_ne_nil (n / 10))
      rw [digits_of_ten_le (by omega), List.head?_append, hfirst, Option.some_or, ← hfirst]
      exact ih (n / 10) (by omega) (by omega)

theorem canonical_digits (n : Nat) : Canonical n (digits n) where
  ne_nil := digits_ne_nil n
  digits := List.all_eq_true.mp (all_isDigit_digits n)
  leading hhead := by
    by_cases h : n = 0
    · rw [h]; rfl
    · exact absurd hhead (head_digits h)
  value := value_digits n

/-! ## Signed integers -/

/-- Digits do not start with a sign. -/
theorem atoi_digits (n : Nat) : atoi (digits n) = unsigned (digits n) := by
  have hall := all_isDigit_digits n
  cases hd : digits n with
  | nil => rfl
  | cons b ds =>
    rw [hd, List.all_cons, Bool.and_eq_true] at hall
    have hb := hall.1
    unfold atoi
    split
    case h_1 heq => cases heq; exact absurd hb (by decide)
    case h_2 heq => cases heq; exact absurd hb (by decide)
    case h_3 => rfl

theorem atoi_itoa (n : Int64) : atoi (itoa n) = some n := by
  have hlo := n.le_toInt
  have hhi := n.toInt_lt
  unfold itoa
  split
  case isTrue hneg =>
    rw [Int64.lt_iff_toInt_lt, Int64.toInt_zero] at hneg
    have habs : -(n.toInt.natAbs : Int) = n.toInt := by omega
    rw [atoi, parse_digits, Option.bind_some, if_pos (by omega), habs, Int64.ofInt_toInt]
  case isFalse hpos =>
    rw [Int64.lt_iff_toInt_lt, Int64.toInt_zero] at hpos
    have habs : (n.toInt.natAbs : Int) = n.toInt := by omega
    rw [atoi_digits, unsigned, parse_digits, Option.bind_some, if_pos (by omega), habs, Int64.ofInt_toInt]

end Decimal
