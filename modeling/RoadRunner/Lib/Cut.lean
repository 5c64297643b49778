import Mathlib

/-!
# Cutting a list at an element

A list cut at the first place of an element, as `strings.IndexByte`, `strings.SplitN` and the like do: what is before
it is `takeWhile`, and it and what is after it are `dropWhile`. Every list with the element is `l ++ a :: r` with
`a ∉ l` (`List.eq_append_cons_of_mem`), and for such a list the two are `l` and `a :: r`.

* `Cut.induction`: induction over the cuts of a list, which is how `List.splitOn` goes through it.
-/

namespace Cut

section

variable {α : Type} {p : α → Bool} {l r : List α}

/-- A list is cut where a predicate first fails. -/
theorem takeWhile_append_of_head (hl : ∀ b ∈ l, p b = true) (hr : ∀ b, r.head? = some b → p b = false) :
    (l ++ r).takeWhile p = l := by
  rw [List.takeWhile_append_of_pos hl]
  cases r with
  | nil => rw [List.takeWhile_nil, List.append_nil]
  | cons b r => rw [List.takeWhile_cons_of_neg (by rw [hr b rfl]; exact Bool.false_ne_true), List.append_nil]

theorem dropWhile_append_of_head (hl : ∀ b ∈ l, p b = true) (hr : ∀ b, r.head? = some b → p b = false) :
    (l ++ r).dropWhile p = r := by
  rw [List.dropWhile_append_of_pos hl]
  cases r with
  | nil => rfl
  | cons b r => rw [List.dropWhile_cons_of_neg (by rw [hr b rfl]; exact Bool.false_ne_true)]

end

variable {α : Type} [DecidableEq α] {a : α} {l : List α}

theorem takeWhile_append (h : a ∉ l) (r : List α) : (l ++ a :: r).takeWhile (· ≠ a) = l := by
  refine takeWhile_append_of_head (fun b hb => decide_eq_true (ne_of_mem_of_not_mem hb h)) ?_
  rintro b ⟨⟩
  simp

theorem dropWhile_append (h : a ∉ l) (r : List α) : (l ++ a :: r).dropWhile (· ≠ a) = a :: r := by
  refine dropWhile_append_of_head (fun b hb => decide_eq_true (ne_of_mem_of_not_mem hb h)) ?_
  rintro b ⟨⟩
  simp

theorem takeWhile_of_not_mem (h : a ∉ l) : l.takeWhile (· ≠ a) = l :=
  List.takeWhile_eq_self_iff.mpr fun _ hb => decide_eq_true (ne_of_mem_of_not_mem hb h)

/-- There is one cut at the first place of the element. -/
theorem append_cons_inj {l' r r' : List α} (h : a ∉ l) (h' : a ∉ l') (heq : l ++ a :: r = l' ++ a :: r') :
    l = l' ∧ r = r' := by
  have hl : l = l' := by
    rw [← takeWhile_append h r, heq, takeWhile_append h' r']
  subst hl
  exact ⟨rfl, (List.cons.inj (List.append_cancel_left heq)).2⟩

/-- Induction over the places of an element. -/
theorem induction {P : List α → Prop} (a : α) (last : ∀ l, a ∉ l → P l)
    (cut : ∀ l r, a ∉ l → P r → P (l ++ a :: r)) (l : List α) : P l := by
  induction hn : l.length using Nat.strongRecOn generalizing l with
  | ind n ih =>
    subst hn
    by_cases hmem : a ∈ l
    · obtain ⟨l, r, rfl, hl⟩ := List.eq_append_cons_of_mem hmem
      refine cut l r hl (ih r.length ?_ r rfl)
      rw [List.length_append, List.length_cons]
      omega
    · exact last l hmem

/-- The parts of a split list do not have the element. -/
theorem not_mem_of_mem_splitOn {part : List α} (h : part ∈ l.splitOn a) : a ∉ part := by
  induction l using induction a with
  | last l hl =>
    rw [List.splitOn_eq_singleton hl, List.mem_singleton] at h
    rwa [h]
  | cut l r hl ih =>
    rw [List.splitOn_append_cons_self_of_not_mem hl] at h
    rcases List.mem_cons.mp h with rfl | hr
    · exact hl
    · exact ih hr

end Cut
