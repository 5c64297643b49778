import RoadRunner.Lib.Run
import RoadRunner.Lib.Update

/-!
# Processes that take steps in turn

Any number of processes on a state that they share. A process is a value of `P`, and `f s p` is its next
atomic step: the shared state and the process after it. What a process does next may depend on what its
last step has found, so it is not given as a list of steps (for that, see `Lib/Calls.lean`).

* `next f st n`: the `n`-th process takes its next step. `next_cases`: what that can be.
* `exists_finish`: where some step is always possible and brings the end closer, the processes can all
  come to their end.
-/

namespace Interleave

universe u v w

variable {S : Type u} {P : Type v}

/-- The shared state and the processes. -/
structure State (S : Type u) (P : Type v) where
  shared : S
  procs : List P
  deriving DecidableEq

variable (f : S → P → S × P)

/-- The `n`-th process takes its next step. -/
def next (st : State S P) (n : Nat) : State S P :=
  match st.procs[n]? with
  | none => st
  | some p => ⟨(f st.shared p).1, st.procs.set n (f st.shared p).2⟩

/-- The processes take steps in this order. -/
def finish (st : State S P) (ns : List Nat) : State S P := Run.exec (next f) st ns

variable {f} {st : State S P} {n : Nat}

theorem next_of_some {p : P} (h : st.procs[n]? = some p) :
    next f st n = ⟨(f st.shared p).1, st.procs.set n (f st.shared p).2⟩ := by
  rw [next, h]

theorem next_of_none (h : st.procs[n]? = none) : next f st n = st := by
  rw [next, h]

theorem finish_append (st : State S P) (ns ms : List Nat) :
    finish f st (ns ++ ms) = finish f (finish f st ns) ms := List.foldl_append

/-- Nothing happens, or one process takes a step. -/
theorem next_cases (f : S → P → S × P) (st : State S P) (n : Nat) :
    next f st n = st ∨ ∃ p, st.procs[n]? = some p ∧
      next f st n = ⟨(f st.shared p).1, st.procs.set n (f st.shared p).2⟩ := by
  cases h : st.procs[n]? with
  | none => exact .inl (next_of_none h)
  | some p => exact .inr ⟨p, rfl, next_of_some h⟩

/-! ### Processes with an identity -/

section Identity

variable {K : Type w} {ident : P → K}

theorem idents_next (hid : ∀ s p, ident (f s p).2 = ident p) (st : State S P) (n : Nat) :
    (next f st n).procs.map ident = st.procs.map ident := by
  rcases next_cases f st n with h | ⟨p, hp, h⟩
  · rw [h]
  · rw [h]
    have hn : (st.procs.map ident)[n]? = some (ident p) := by rw [List.getElem?_map, hp]; rfl
    rw [List.map_set, hid]
    obtain ⟨hlt, heq⟩ := List.getElem?_eq_some_iff.mp hn
    rw [← heq]
    exact List.set_getElem_self hlt

/-- A step keeps an invariant of each process, if it keeps that of its own and those of the processes
with another identity. -/
theorem each_next {I : S → P → Prop} (hown : ∀ s p, I s p → I (f s p).1 (f s p).2)
    (hother : ∀ s p q, ident p ≠ ident q → I s p → I s q → I (f s p).1 q)
    (hnodup : (st.procs.map ident).Nodup) (h : ∀ p ∈ st.procs, I st.shared p) (n : Nat) :
    ∀ p ∈ (next f st n).procs, I (next f st n).shared p := by
  rcases next_cases f st n with hnext | ⟨p, hp, hnext⟩
  · rw [hnext]
    exact h
  · rw [hnext]
    intro q hq
    have hIp := h p (List.mem_of_getElem? hp)
    obtain ⟨m, hm⟩ := List.mem_iff_getElem?.mp hq
    by_cases hmn : m = n
    · subst hmn
      obtain rfl : (f st.shared p).2 = q := by
        have hlt := (List.getElem?_eq_some_iff.mp hp).1
        rw [List.getElem?_set_self hlt] at hm
        exact Option.some.inj hm
      exact hown _ _ hIp
    · rw [List.getElem?_set_ne (Ne.symm hmn)] at hm
      refine hother _ _ _ (fun heq => hmn ?_) hIp (h q (List.mem_of_getElem? hm))
      -- the two stand at different places, so they are different processes
      have hm' : (st.procs.map ident)[m]? = some (ident q) := by rw [List.getElem?_map, hm]; rfl
      have hn' : (st.procs.map ident)[n]? = some (ident q) := by rw [List.getElem?_map, hp, ← heq]; rfl
      exact (List.getElem?_inj (List.getElem?_eq_some_iff.mp hm').1 hnodup).mp (hm'.trans hn'.symm)

end Identity

/-! ### Coming to an end -/

/-- What the processes have left, in all. -/
def weight (μ : P → Nat) (st : State S P) : Nat := (st.procs.map μ).sum

theorem sum_set_lt {μ : P → Nat} {l : List P} {p q : P} (hp : l[n]? = some p) (hlt : μ q < μ p) :
    ((l.set n q).map μ).sum < (l.map μ).sum := by
  induction l generalizing n with
  | nil => cases hp
  | cons a l ih =>
    cases n with
    | zero =>
      obtain rfl : a = p := by simpa using hp
      simp
      omega
    | succ n =>
      have hrest := ih (by simpa using hp)
      simp only [List.set_cons_succ, List.map_cons, List.sum_cons]
      omega

/-- Where a process that has not ended can always take a step that keeps `I`, all can come to an end
with it. -/
theorem exists_finish {ended : P → Prop} {μ : P → Nat} {I : State S P → Prop}
    (hμ : ∀ s p, ¬ ended p → μ (f s p).2 < μ p)
    (hstep : ∀ st, I st → (∃ p ∈ st.procs, ¬ ended p) →
      ∃ n p, st.procs[n]? = some p ∧ ¬ ended p ∧ I (next f st n))
    (hI : I st) : ∃ ns, I (finish f st ns) ∧ ∀ p ∈ (finish f st ns).procs, ended p := by
  refine Run.exists_drain (fun st : State S P => ∀ p ∈ st.procs, ended p) (weight μ) ?_ hI
  intro st hI hdone
  obtain ⟨n, p, hp, hend, hI'⟩ := hstep st hI (by simpa using hdone)
  refine ⟨n, hI', ?_⟩
  rw [next_of_some hp]
  exact sum_set_lt hp (hμ _ _ hend)

end Interleave
