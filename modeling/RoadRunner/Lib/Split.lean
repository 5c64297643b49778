import Mathlib

/-!
# Splitting at a separator

What `strings.Split` makes of a list, for a separator of any length. The places of the separator are found from the
left and do not overlap.

* `Split.cut`: the first place, as `strings.Index` finds it.
* `Split.split`: all parts.
* `Split.Free`: a part in which, with the separator after it, no place is found too early. That the part does not have
  the separator is not enough, since its end may be the start of one.
* `Split.split_intercalate`: splitting inverts joining for such parts.
-/

namespace Split

section

variable {α : Type} {sep l : List α}

/-- The separator is not found before its place after the part. -/
def Free (sep l : List α) : Prop := ¬ sep <:+: l ++ sep.dropLast

theorem Free.tail {a : α} (h : Free sep (a :: l)) : Free sep l :=
  fun hplace => h (hplace.trans (List.suffix_cons a _).isInfix)

theorem Free.lacks (h : Free sep l) : ¬ sep <:+: l :=
  fun hplace => h (hplace.trans (List.prefix_append l _).isInfix)

/-- A place that begins in the part ends before the last element of the separator. -/
theorem Free.not_start {a : α} (h : Free sep (a :: l)) (r : List α) : ¬ sep <+: a :: l ++ (sep ++ r) := by
  intro hsep
  have hpart : a :: l ++ sep.dropLast <+: a :: l ++ (sep ++ r) :=
    (List.prefix_append_right_inj _).mpr (( List.dropLast_prefix sep).trans (List.prefix_append sep r))
  have hlen : sep.length ≤ (a :: l ++ sep.dropLast).length := by
    rw [List.length_append, List.length_cons, List.length_dropLast]
    omega
  exact h (List.prefix_of_prefix_length_le hsep hpart hlen).isInfix

end

variable {α : Type} [DecidableEq α]

/-- What is before the first place of the separator, and what is after it. -/
def cut (sep : List α) : List α → Option (List α × List α)
  | [] => none
  | a :: s =>
    if sep <+: a :: s then some ([], (a :: s).drop sep.length)
    else (cut sep s).map fun p => (a :: p.1, p.2)

/-- The parts, with a bound for the number of places. -/
def pieces (sep : List α) : Nat → List α → List (List α)
  | 0, s => [s]
  | n + 1, s =>
    match cut sep s with
    | none => [s]
    | some (l, r) => l :: pieces sep n r

/-- `strings.Split`, for a separator that is not empty. Each place takes an element, so there are at most as many
places as elements. -/
def split (sep s : List α) : List (List α) := pieces sep s.length s

section

variable {sep s l r : List α}

theorem cut_of_free (hsep : sep ≠ []) (h : Free sep l) (r : List α) : cut sep (l ++ (sep ++ r)) = some (l, r) := by
  induction l with
  | nil =>
    obtain ⟨a, t, rfl⟩ := List.exists_cons_of_ne_nil hsep
    rw [List.nil_append, List.cons_append, cut, ← List.cons_append, if_pos (List.prefix_append (a :: t) r),
      List.drop_left]
  | cons a l ih =>
    rw [List.cons_append, cut, ← List.cons_append, if_neg (h.not_start r), ih h.tail]
    rfl

theorem cut_eq_none (h : ¬ sep <:+: s) : cut sep s = none := by
  induction s with
  | nil => rfl
  | cons a s ih =>
    rw [cut, if_neg fun hstart => h hstart.isInfix, ih fun hplace => h (hplace.trans (List.suffix_cons a s).isInfix)]
    rfl

theorem length_of_cut (hsep : sep ≠ []) (h : cut sep s = some (l, r)) : r.length < s.length := by
  induction s generalizing l with
  | nil => cases h
  | cons a s ih =>
    rw [cut] at h
    split at h
    · cases h
      have := List.length_pos_iff.mpr hsep
      rw [List.length_drop, List.length_cons]
      omega
    · obtain ⟨p, hp, heq⟩ := Option.map_eq_some_iff.mp h
      cases heq
      exact Nat.lt_succ_of_lt (ih hp)

/-- The bound makes no difference if it is not below the length. -/
theorem pieces_congr (hsep : sep ≠ []) {m n : Nat} (hm : s.length ≤ m) (hn : s.length ≤ n) :
    pieces sep m s = pieces sep n s := by
  induction m generalizing n s with
  | zero =>
    obtain rfl := List.length_eq_zero_iff.mp (Nat.le_zero.mp hm)
    cases n <;> rfl
  | succ m ih =>
    cases n with
    | zero =>
      obtain rfl := List.length_eq_zero_iff.mp (Nat.le_zero.mp hn)
      rfl
    | succ n =>
      rw [pieces, pieces]
      cases hcut : cut sep s with
      | none => rfl
      | some p =>
        have := length_of_cut hsep hcut
        exact congrArg (p.1 :: ·) (ih (by omega) (by omega))

theorem split_of_cut (hsep : sep ≠ []) (h : cut sep s = some (l, r)) : split sep s = l :: split sep r := by
  have hlen := length_of_cut hsep h
  obtain ⟨n, hn⟩ := Nat.exists_eq_add_one_of_ne_zero (Nat.ne_zero_of_lt hlen)
  rw [split, hn, pieces, h]
  exact congrArg (l :: ·) (pieces_congr hsep (by omega) (Nat.le_refl _))

theorem split_of_lacks (h : ¬ sep <:+: s) : split sep s = [s] := by
  rw [split]
  cases s.length with
  | zero => rfl
  | succ n => rw [pieces, cut_eq_none h]

end

/-- Splitting inverts joining. -/
theorem split_intercalate {sep : List α} (hsep : sep ≠ []) {parts : List (List α)} (hne : parts ≠ [])
    (h : ∀ p ∈ parts, Free sep p) : split sep (sep.intercalate parts) = parts := by
  induction parts with
  | nil => exact absurd rfl hne
  | cons p parts ih =>
    rw [List.forall_mem_cons] at h
    cases parts with
    | nil =>
      rw [List.intercalate_singleton]
      exact split_of_lacks h.1.lacks
    | cons q parts =>
      rw [List.intercalate_cons_cons, List.append_assoc, split_of_cut hsep (cut_of_free hsep h.1 _),
        ih (List.cons_ne_nil q parts) h.2]

end Split
