import Mathlib

/-!
# Counters of 64 bits

A counter that is a `UInt64`: one is added with `+ 1` and taken off with `+ ~~~0`, as Go's
`atomic.AddUint64` does. It wraps at both ends.

* `ofNat_succ_dec`: taking one off undoes adding one.
* `add_one_not_gt`, `dec_not_gt`: a counter under a limit stays under it if it was not at the limit,
  and if it was not 0.
-/

namespace Counter

theorem ofNat_succ (n : Nat) : UInt64.ofNat (n + 1) = UInt64.ofNat n + 1 := UInt64.ofNat_add n 1

theorem ofNat_succ_dec (n : Nat) : UInt64.ofNat (n + 1) + ~~~0 = UInt64.ofNat n := by
  rw [ofNat_succ, UInt64.add_assoc, show (1 : UInt64) + ~~~0 = 0 from rfl, UInt64.add_zero]

theorem ofNat_succ_ne (n : Nat) : UInt64.ofNat (n + 1) ≠ UInt64.ofNat n := by
  intro h
  rw [ofNat_succ] at h
  simp at h

theorem ofNat_pos {n : Nat} (h : 0 < n) (hn : n < 2 ^ 64) : 0 < UInt64.ofNat n := by
  rw [UInt64.lt_iff_toNat_lt, UInt64.toNat_ofNat_of_lt' hn]
  exact h

theorem add_one_not_gt {a p : UInt64} (h : a < p) : ¬ p < a + 1 := by
  have ha := a.toNat_lt
  have hp := p.toNat_lt
  rw [UInt64.lt_iff_toNat_lt] at h ⊢
  rw [UInt64.toNat_add, UInt64.toNat_one, Nat.mod_eq_of_lt (by omega)]
  omega

theorem dec_not_gt {a p : UInt64} (ha : 0 < a) (h : ¬ p < a) : ¬ p < a + ~~~0 := by
  have hlt := a.toNat_lt
  rw [UInt64.lt_iff_toNat_lt] at ha h ⊢
  rw [UInt64.toNat_add, show (~~~0 : UInt64).toNat = 18446744073709551615 from rfl]
  rw [UInt64.toNat_zero] at ha
  omega

end Counter
