/-!
# Runs of a step function

A component that reacts to one action at a time is a function `step : S → A → S`. This file has
what every proof about its whole runs needs, for an arbitrary type of states and of actions.

* `Run.exec step s as`: the state after the actions `as`.
* `Run.Along step C s as`: every action of the run meets `C` in the state it is taken in. A
  condition on runs (`no step fails`, `every id is fresh`) is a `C` of this kind.
* `Run.Along.forall_iff`: the same, read off the places of the run.
* `Run.Along.invariant`: what every step that meets `C` keeps, holds after every such run.
* `Run.Along.everywhere_iff`: a property that holds in every state of a run exactly if its steps
  meet a condition; `Run.Along.always_iff`: the same where every action can be taken.
* `Run.Along.exec_iff`: a property that a step keeps exactly if it meets a condition, and that no step
  brings back, holds at the end of a run exactly if all steps meet it.
* `Run.natAbs_exec_le`: a bound on a counter.
* `Run.exists_drain`: a run that comes to an end, from a step that comes closer to it.
-/

namespace Run

universe u v

variable {S : Type u} {A : Type v} (step : S → A → S)

/-- The state after the actions `as`. -/
def exec (s : S) (as : List A) : S := as.foldl step s

@[simp] theorem exec_nil (s : S) : exec step s [] = s := rfl

@[simp] theorem exec_cons (s : S) (a : A) (as : List A) :
    exec step s (a :: as) = exec step (step s a) as := rfl

/-- Every action of the run `as` from `s` meets `C` in the state it is taken in. -/
def Along (C : S → A → Prop) : S → List A → Prop
  | _, [] => True
  | s, a :: as => C s a ∧ Along C (step s a) as

instance Along.decidable {C : S → A → Prop} [∀ s a, Decidable (C s a)] :
    ∀ (s : S) (as : List A), Decidable (Along step C s as)
  | _, [] => inferInstanceAs (Decidable True)
  | s, a :: as =>
    have := Along.decidable (C := C) (step s a) as
    inferInstanceAs (Decidable (C s a ∧ Along step C (step s a) as))

variable {step}

theorem Along.append {C : S → A → Prop} {s : S} {as bs : List A} :
    Along step C s (as ++ bs) ↔ Along step C s as ∧ Along step C (exec step s as) bs := by
  induction as generalizing s with
  | nil => simp [Along]
  | cons a as ih => simp [Along, ih, and_assoc]

/-- A condition that does not read the state. -/
theorem Along.of_forall {C : A → Prop} (s : S) {as : List A} (h : ∀ a ∈ as, C a) :
    Along step (fun _ a => C a) s as := by
  induction as generalizing s with
  | nil => trivial
  | cons a as ih =>
    exact ⟨h a List.mem_cons_self, ih (step s a) fun b hb => h b (List.mem_cons_of_mem a hb)⟩

/-- The condition at every place of the run. -/
theorem Along.forall_iff {C : S → A → Prop} {s : S} {as : List A} :
    (∀ bs a cs, as = bs ++ a :: cs → C (exec step s bs) a) ↔ Along step C s as := by
  induction as generalizing s with
  | nil =>
    refine iff_of_true (fun bs a cs h => ?_) trivial
    cases bs <;> cases h
  | cons b as ih =>
    constructor
    · intro h
      exact ⟨h [] b as rfl, ih.mp fun bs a cs heq => h (b :: bs) a cs (congrArg (b :: ·) heq)⟩
    · rintro ⟨hb, hrest⟩ bs a cs heq
      cases bs with
      | nil =>
        obtain ⟨rfl, rfl⟩ := List.cons.inj heq
        exact hb
      | cons b' bs =>
        obtain ⟨rfl, rfl⟩ := List.cons.inj heq
        exact ih.mpr hrest bs a cs rfl

/-- The condition `D` gives the condition `C` in the states of an invariant. -/
theorem Along.imp {C D : S → A → Prop} {I : S → Prop}
    (hstep : ∀ s a, I s → D s a → C s a ∧ I (step s a)) {s : S} {as : List A} (hs : I s)
    (h : Along step D s as) : Along step C s as := by
  induction as generalizing s with
  | nil => trivial
  | cons a as ih =>
    obtain ⟨hC, hI⟩ := hstep s a hs h.1
    exact ⟨hC, ih hI h.2⟩

/-- The run rule: what every step that meets `C` keeps, holds after every run that meets `C`. -/
theorem Along.invariant {C : S → A → Prop} {I : S → Prop}
    (hstep : ∀ s a, I s → C s a → I (step s a)) {s : S} {as : List A} (hs : I s)
    (h : Along step C s as) : I (exec step s as) := by
  induction as generalizing s with
  | nil => exact hs
  | cons a as ih => exact ih (hstep s a hs h.1) h.2

/-- The exact run rule: where a step that meets `D` keeps `P` exactly if it meets `C` (and then
keeps `I`), `P` holds in every state of a run exactly if all its steps meet `C`. -/
theorem Along.everywhere_iff {C D : S → A → Prop} {I P : S → Prop}
    (hkeep : ∀ s a, I s → P s → D s a → C s a → I (step s a) ∧ P (step s a))
    (hneed : ∀ s a, I s → P s → D s a → P (step s a) → C s a) {s : S} {as : List A} (hI : I s)
    (hP : P s) (hD : Along step D s as) :
    (∀ bs cs, as = bs ++ cs → P (exec step s bs)) ↔ Along step C s as := by
  induction as generalizing s with
  | nil =>
    refine ⟨fun _ => trivial, fun _ bs cs h => ?_⟩
    rw [(List.append_eq_nil_iff.mp h.symm).1]
    exact hP
  | cons a as ih =>
    constructor
    · intro h
      have hC : C s a := hneed s a hI hP hD.1 (h [a] as rfl)
      obtain ⟨hI', hP'⟩ := hkeep s a hI hP hD.1 hC
      exact ⟨hC, (ih hI' hP' hD.2).mp fun bs cs heq => h (a :: bs) cs (by rw [heq]; rfl)⟩
    · rintro ⟨hC, hrest⟩ bs cs heq
      obtain ⟨hI', hP'⟩ := hkeep s a hI hP hD.1 hC
      cases bs with
      | nil => exact hP
      | cons b bs =>
        obtain ⟨rfl, rfl⟩ := List.cons.inj heq
        exact (ih hI' hP' hD.2).mpr hrest bs cs rfl

/-- The exact run rule for every action. -/
theorem Along.always_iff {C : S → A → Prop} {I P : S → Prop}
    (hkeep : ∀ s a, I s → P s → C s a → I (step s a) ∧ P (step s a))
    (hneed : ∀ s a, I s → P s → P (step s a) → C s a) {s : S} {as : List A} (hI : I s) (hP : P s) :
    (∀ bs cs, as = bs ++ cs → P (exec step s bs)) ↔ Along step C s as :=
  everywhere_iff (D := fun _ _ => True) (fun s a hI hP _ => hkeep s a hI hP) (fun s a hI hP _ => hneed s a hI hP)
    hI hP (of_forall s fun _ _ => trivial)

/-- The exact run rule for a property that is lost for good. -/
theorem Along.exec_iff {C : S → A → Prop} {I P : S → Prop} (hkeep : ∀ s a, I s → I (step s a))
    (hstep : ∀ s a, I s → (P (step s a) ↔ P s ∧ C s a)) {s : S} {as : List A} (hs : I s) :
    P (exec step s as) ↔ P s ∧ Along step C s as := by
  induction as generalizing s with
  | nil => exact (and_iff_left trivial).symm
  | cons a as ih => rw [exec_cons, ih (hkeep s a hs), hstep s a hs, and_assoc]; rfl

/-- The run rule without a condition on the steps. -/
theorem exec_invariant {I : S → Prop} (hstep : ∀ s a, I s → I (step s a)) {s : S} (as : List A)
    (hs : I s) : I (exec step s as) := by
  induction as generalizing s with
  | nil => exact hs
  | cons a as ih => exact ih (hstep s a hs)

/-- A counter that changes by one at most in a step is no larger than the run is long. -/
theorem natAbs_exec_le {I : S → Prop} {f : S → Int}
    (hstep : ∀ s a, I s → I (step s a) ∧ (f (step s a) - f s).natAbs ≤ 1) {s : S} (hs : I s) (as : List A) :
    (f (exec step s as) - f s).natAbs ≤ as.length := by
  induction as generalizing s with
  | nil => simp
  | cons a as ih =>
    obtain ⟨hI, hle⟩ := hstep s a hs
    have hrest := ih hI
    rw [exec_cons, List.length_cons]
    omega

/-- The drain rule: where some step brings every state of `I` that is not `done` closer to its end, some
run ends. -/
theorem exists_drain {I : S → Prop} (done : S → Prop) (μ : S → Nat)
    (hstep : ∀ s, I s → ¬ done s → ∃ a, I (step s a) ∧ μ (step s a) < μ s) {s : S} (hs : I s) :
    ∃ as, I (exec step s as) ∧ done (exec step s as) := by
  induction hμ : μ s using Nat.strongRecOn generalizing s with
  | ind n ih =>
    by_cases hdone : done s
    · exact ⟨[], hs, hdone⟩
    · obtain ⟨a, hI, hlt⟩ := hstep s hs hdone
      obtain ⟨as, has⟩ := ih (μ (step s a)) (hμ ▸ hlt) hI rfl
      exact ⟨a :: as, has⟩

end Run
