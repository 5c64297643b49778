import Mathlib

/-!
# Lists in which one element changes

What holds of all elements of a list, whether some element has a property, and how many have it, when one
element is added, removed or replaced. `of_update` is for maps in which one entry changes.
-/

namespace Update

universe u

variable {α : Type u} {l : List α} {n : Nat} {a : α}

/-! ## All elements -/

section Forall

variable {p : α → Prop}

theorem forall_concat (h : ∀ b ∈ l, p b) (ha : p a) : ∀ b ∈ l ++ [a], p b := by
  intro b hb
  rcases List.mem_append.mp hb with hb | hb
  · exact h b hb
  · exact List.mem_singleton.mp hb ▸ ha

theorem forall_set (h : ∀ b ∈ l, p b) (n : Nat) (ha : p a) : ∀ b ∈ l.set n a, p b := by
  intro b hb
  rcases List.mem_or_eq_of_mem_set hb with hb | rfl
  · exact h b hb
  · exact ha

theorem forall_modify {f : α → α} (h : ∀ b ∈ l, p b) (hf : ∀ b, p b → p (f b)) (n : Nat) :
    ∀ b ∈ l.modify n f, p b := by
  rw [List.modify_eq_set_getElem?]
  cases hn : l[n]? with
  | none => exact h
  | some a => exact forall_set h n (hf a (h a (List.mem_of_getElem? hn)))

end Forall

/-! ## Maps -/

/-- An entry of the map after a change is the new one, or was there under another key. -/
theorem of_update {κ : Type*} {β : Type*} [DecidableEq κ] {f : κ → Option β} {k j : κ} {entry : Option β} {b : β}
    (h : Function.update f k entry j = some b) : j = k ∧ entry = some b ∨ j ≠ k ∧ f j = some b := by
  by_cases hj : j = k
  · subst hj
    rw [Function.update_self] at h
    exact .inl ⟨rfl, h⟩
  · rw [Function.update_of_ne hj] at h
    exact .inr ⟨hj, h⟩

/-! ## Some element -/

section Exists

/-- Some element at another place than `n` has the property. -/
def Elsewhere (l : List α) (n : Nat) (p : α → Prop) : Prop := ∃ m b, m ≠ n ∧ l[m]? = some b ∧ p b

variable {p : α → Prop}

theorem exists_set_iff (h : l[n]? = some a) (b : α) : (∃ c ∈ l.set n b, p c) ↔ p b ∨ Elsewhere l n p := by
  have hn := (List.getElem?_eq_some_iff.mp h).1
  constructor
  · rintro ⟨c, hc, hp⟩
    obtain ⟨m, hm⟩ := List.mem_iff_getElem?.mp hc
    by_cases hmn : m = n
    · subst hmn
      rw [List.getElem?_set_self hn] at hm
      exact .inl (Option.some.inj hm ▸ hp)
    · rw [List.getElem?_set_ne (Ne.symm hmn)] at hm
      exact .inr ⟨m, c, hmn, hm, hp⟩
  · rintro (hp | ⟨m, c, hmn, hm, hp⟩)
    · exact ⟨b, List.mem_set hn b, hp⟩
    · refine ⟨c, List.mem_of_getElem? (i := m) ?_, hp⟩
      rw [List.getElem?_set_ne (Ne.symm hmn)]
      exact hm

theorem exists_iff_elsewhere (h : l[n]? = some a) : (∃ c ∈ l, p c) ↔ p a ∨ Elsewhere l n p := by
  have hset : l.set n a = l := by
    obtain ⟨hn, rfl⟩ := List.getElem?_eq_some_iff.mp h
    exact List.set_getElem_self hn
  rw [← exists_set_iff h a, hset]

end Exists

/-! ## Counts -/

variable (p : α → Bool)

theorem countP_concat (l : List α) (a : α) : (l ++ [a]).countP p = l.countP p + (p a).toNat := by
  cases h : p a <;> simp [h]

theorem countP_eraseIdx (h : l[n]? = some a) : l.countP p = (l.eraseIdx n).countP p + (p a).toNat := by
  obtain ⟨hn, rfl⟩ := List.getElem?_eq_some_iff.mp h
  rw [← countP_concat]
  exact (((List.perm_append_singleton _ _).trans (List.getElem_cons_eraseIdx_perm hn)).countP_eq p).symm

theorem countP_set (h : l[n]? = some a) (b : α) :
    (l.set n b).countP p + (p a).toNat = l.countP p + (p b).toNat := by
  induction l generalizing n with
  | nil => simp at h
  | cons c l ih =>
    cases n with
    | zero =>
      obtain rfl : c = a := by simpa using h
      rw [List.set_cons_zero, List.countP_cons, List.countP_cons]
      cases p c <;> cases p b <;> simp
    | succ n =>
      have hset := ih (by simpa using h)
      rw [List.set_cons_succ, List.countP_cons, List.countP_cons]
      omega

theorem countP_modify (h : l[n]? = some a) (f : α → α) :
    (l.modify n f).countP p + (p a).toNat = l.countP p + (p (f a)).toNat := by
  rw [List.modify_eq_set_getElem?, h]
  exact countP_set p h (f a)

theorem countP_modify_of_eq {f : α → α} (hf : ∀ a, p (f a) = p a) (l : List α) (n : Nat) :
    (l.modify n f).countP p = l.countP p := by
  cases h : l[n]? with
  | none => rw [List.modify_eq_self (List.getElem?_eq_none_iff.mp h)]
  | some a =>
    have hcount := countP_modify p h f
    rw [hf] at hcount
    exact Nat.add_right_cancel hcount

end Update
