import Mathlib

/-!
# Loops that may fail

* `mapM_eq_some_iff`, `isSome_mapM_iff`: a loop over a list returns if each of its steps does.
* `foldlM_append`: a loop that appends the result of each step to what it has.
-/

namespace Traverse

universe u v

variable {α : Type u} {β : Type v} {f : α → Option β} {l : List α}

theorem mapM_eq_some_iff {r : List β} : l.mapM f = some r ↔ List.Forall₂ (fun a b => f a = some b) l r := by
  induction l generalizing r with
  | nil => cases r <;> simp
  | cons a l ih =>
    rw [List.mapM_cons]
    cases hfa : f a with
    | none => cases r <;> simp [hfa]
    | some b =>
      cases hl : l.mapM f with
      | none => cases r <;> simp [hfa, ← ih, hl]
      | some bs => cases r <;> simp [hfa, ← ih, hl]

theorem mapM_eq_some_map_iff {g : α → β} : l.mapM f = some (l.map g) ↔ ∀ a ∈ l, f a = some (g a) := by
  rw [mapM_eq_some_iff, List.forall₂_map_right_iff, List.forall₂_same]

theorem isSome_mapM_iff : (l.mapM f).isSome ↔ ∀ a ∈ l, (f a).isSome := by
  constructor
  · intro h a ha
    obtain ⟨r, hr⟩ := Option.isSome_iff_exists.mp h
    have hrel := mapM_eq_some_iff.mp hr
    clear h hr
    induction hrel with
    | nil => cases ha
    | cons hb _ ih =>
      rcases List.mem_cons.mp ha with rfl | ha
      · exact Option.isSome_iff_exists.mpr ⟨_, hb⟩
      · exact ih ha
  · intro h
    induction l with
    | nil => rfl
    | cons a l ih =>
      rw [List.forall_mem_cons] at h
      obtain ⟨b, hb⟩ := Option.isSome_iff_exists.mp h.1
      obtain ⟨bs, hbs⟩ := Option.isSome_iff_exists.mp (ih h.2)
      simp [List.mapM_cons, hb, hbs]

theorem foldlM_append (l : List α) (acc : List β) :
    l.foldlM (fun acc a => (f a).map fun b => acc ++ [b]) acc = (l.mapM f).map (acc ++ ·) := by
  induction l generalizing acc with
  | nil => simp
  | cons a l ih =>
    rw [List.foldlM_cons, List.mapM_cons]
    cases f a with
    | none => rfl
    | some b =>
      rw [Option.map_some, Option.bind_eq_bind, Option.bind_some, ih]
      cases l.mapM f <;> simp

end Traverse
