import Mathlib

/-!
# Lists in every order

What holds between the earlier and the later elements of a list whatever its order is, for example the
order in which the entries of a hash map are visited.

* `Orders.forall_perm_pairwise`: it holds both ways between any two of them. For a reflexive relation
  these are any two elements (`forall_perm_pairwise_refl`).
* `Orders.Lists l s`: `l` has the elements of the set `s`, each once. `forall_lists_pairwise` is the rule
  for every such list.
-/

namespace Orders

variable {α : Type} {R : α → α → Prop}

theorem forall_perm_pairwise {l : List α} :
    (∀ l' : List α, l'.Perm l → l'.Pairwise R) ↔ l.Pairwise fun a b => R a b ∧ R b a := by
  constructor
  · intro h
    have hrev := List.pairwise_reverse.mp (h l.reverse l.reverse_perm)
    exact (h l (.refl l)).and hrev
  · intro h l' hl'
    have hboth : l'.Pairwise fun a b => R a b ∧ R b a := (hl'.pairwise_iff And.symm).mpr h
    exact hboth.imp And.left

theorem forall_perm_pairwise_refl (hR : ∀ a, R a a) {l : List α} :
    (∀ l' : List α, l'.Perm l → l'.Pairwise R) ↔ ∀ a ∈ l, ∀ b ∈ l, R a b := by
  rw [forall_perm_pairwise]
  constructor
  · intro h a ha b hb
    have hsymm : Std.Symm fun a b => R a b ∧ R b a := ⟨fun _ _ => And.symm⟩
    exact (h.forall_of_forall (fun x _ => ⟨hR x, hR x⟩) ha hb).1
  · intro h
    exact List.pairwise_of_forall_mem_list fun a ha b hb => ⟨h a ha b hb, h b hb a ha⟩

section Lists

variable [DecidableEq α]

/-- `l` is an order of the elements of `s`. -/
def Lists (l : List α) (s : Finset α) : Prop := l.Nodup ∧ l.toFinset = s

instance (l : List α) (s : Finset α) : Decidable (Lists l s) :=
  inferInstanceAs (Decidable (_ ∧ _))

theorem Lists.mem_iff {l : List α} {s : Finset α} (h : Lists l s) {a : α} : a ∈ l ↔ a ∈ s := by
  rw [← h.2, List.mem_toFinset]

theorem exists_lists (s : Finset α) : ∃ l, Lists l s :=
  ⟨s.toList, s.nodup_toList, s.toList_toFinset⟩

theorem Lists.of_perm {l l' : List α} {s : Finset α} (h : Lists l s) (hp : l'.Perm l) : Lists l' s :=
  ⟨hp.nodup_iff.mpr h.1, (List.toFinset_eq_of_perm _ _ hp).trans h.2⟩

theorem forall_lists_pairwise {s : Finset α} :
    (∀ l, Lists l s → l.Pairwise R) ↔ ∀ a ∈ s, ∀ b ∈ s, a ≠ b → R a b := by
  constructor
  · intro h a ha b hb hab
    obtain ⟨l, hl⟩ := exists_lists s
    have hsymm : Std.Symm fun a b => R a b ∧ R b a := ⟨fun _ _ => And.symm⟩
    have hboth := forall_perm_pairwise.mp fun l' hp => h l' (hl.of_perm hp)
    exact (hboth.forall (hl.mem_iff.mpr ha) (hl.mem_iff.mpr hb) hab).1
  · intro h l hl
    exact hl.1.pairwise_of_forall_ne fun a ha b hb => h a (hl.mem_iff.mp ha) b (hl.mem_iff.mp hb)

end Lists

end Orders
