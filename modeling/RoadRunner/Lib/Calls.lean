import Mathlib
import RoadRunner.Lib.Run

/-!
# Calls that run side by side

Several calls are in progress at the same time, on a state that they share. A call makes a test when it is
started, and from then on it is the list of the atomic steps it has left. A step may have to wait (`act` gives
`none`), and may be taken in several ways (`K`).

* `System.step`: a call is started, or the `n`-th call takes its next step (`System.next`).
* `pending w`: what the steps that are left add up to. `total_next`: a quantity that every step changes by its
  weight is, with what is pending, the same along `next`.
* `Sound Ok s`: the calls in progress can all return, and whenever they have, the state is `Ok`.
  `Sound.of_invariant`: from an invariant of `next`.
-/

namespace Calls

universe u

variable {S O E K : Type u}

/-- The functions that are called: `start` is what a call does at once, with the steps it has left. -/
structure System (S O E K : Type u) where
  start : S → O → S × List E
  act : S → E → K → Option S

/-- The shared state and, for each call, the steps it has left. -/
structure State (S E : Type u) where
  shared : S
  calls : List (List E)
  deriving DecidableEq

/-- A call begins, or goes on. -/
inductive Move (O K : Type u) where
  | start (op : O)
  | next (n : Nat) (k : K)
  deriving DecidableEq

namespace System

variable (sys : System S O E K)

/-- The `n`-th call takes its next step, if it has one and does not have to wait. -/
def next (s : State S E) (n : Nat) (k : K) : State S E :=
  match s.calls[n]? with
  | some (e :: es) =>
    match sys.act s.shared e k with
    | some shared => ⟨shared, s.calls.set n es⟩
    | none => s
  | _ => s

/-- One move. -/
def step (s : State S E) : Move O K → State S E
  | .start op => ⟨(sys.start s.shared op).1, s.calls ++ [(sys.start s.shared op).2]⟩
  | .next n k => sys.next s n k

/-- Only calls that are in progress take steps. -/
def finish (s : State S E) (ms : List (Nat × K)) : State S E := Run.exec (fun s m => sys.next s m.1 m.2) s ms

end System

/-- No call is in progress. -/
def State.Quiet (s : State S E) : Prop := ∀ es ∈ s.calls, es = []

instance (s : State S E) : Decidable s.Quiet :=
  decidable_of_iff (s.calls.all List.isEmpty = true) (by simp [State.Quiet])

/-- What a step of a call can do. -/
inductive Next (sys : System S O E K) (s : State S E) (n : Nat) (k : K) : State S E → Prop where
  | idle : Next sys s n k s
  | acted {e : E} {es : List E} {shared : S} (hn : s.calls[n]? = some (e :: es))
      (hact : sys.act s.shared e k = some shared) : Next sys s n k ⟨shared, s.calls.set n es⟩

theorem next_next (sys : System S O E K) (s : State S E) (n : Nat) (k : K) :
    Next sys s n k (sys.next s n k) := by
  unfold System.next
  split
  case h_1 e es hn =>
    split
    case h_1 shared hact => exact .acted hn hact
    case h_2 => exact .idle
  case h_2 => exact .idle

/-- What holds before a call takes its next step holds after it, if the step that it has left keeps it. -/
theorem next_invariant {sys : System S O E K} {P : State S E → Prop} {s : State S E} {n : Nat} {k : K} (hs : P s)
    (hact : ∀ e es shared, s.calls[n]? = some (e :: es) → sys.act s.shared e k = some shared →
      P ⟨shared, s.calls.set n es⟩) : P (sys.next s n k) := by
  have hnext := next_next sys s n k
  generalize sys.next s n k = s' at hnext ⊢
  cases hnext with
  | idle => exact hs
  | acted hn ha => exact hact _ _ _ hn ha

/-! ## What is pending -/

section Pending

variable {G : Type} [AddCommMonoid G] (w : E → G)

/-- The sum of the weights of the steps. -/
def weight (es : List E) : G := (es.map w).sum

/-- What the steps that the calls have left add up to. -/
def pending (calls : List (List E)) : G := (calls.map (weight w)).sum

@[simp] theorem weight_nil : weight w ([] : List E) = 0 := rfl

@[simp] theorem weight_cons (e : E) (es : List E) : weight w (e :: es) = w e + weight w es := by
  simp [weight]

@[simp] theorem pending_cons (es : List E) (calls : List (List E)) :
    pending w (es :: calls) = weight w es + pending w calls := by
  simp [pending]

@[simp] theorem pending_concat (calls : List (List E)) (es : List E) :
    pending w (calls ++ [es]) = pending w calls + weight w es := by
  simp [pending]

theorem pending_add (v : E → G) (calls : List (List E)) :
    pending (fun e => v e + w e) calls = pending v calls + pending w calls := by
  have hweight : weight (fun e => v e + w e) = fun es => weight v es + weight w es := by
    funext es
    exact List.sum_map_add
  rw [pending, hweight]
  exact List.sum_map_add

variable {w}

/-- One call has taken the step `e`. -/
theorem pending_set_tail {calls : List (List E)} {n : Nat} {e : E} {es : List E}
    (h : calls[n]? = some (e :: es)) : w e + pending w (calls.set n es) = pending w calls := by
  induction calls generalizing n with
  | nil => simp at h
  | cons fs calls ih =>
    cases n with
    | zero =>
      obtain rfl : fs = e :: es := by simpa using h
      rw [List.set_cons_zero, pending_cons, pending_cons, weight_cons, add_assoc]
    | succ n =>
      have hset := ih (by simpa using h)
      rw [List.set_cons_succ, pending_cons, pending_cons, ← hset, add_left_comm]

theorem pending_of_quiet {s : State S E} (h : s.Quiet) : pending w s.calls = 0 := by
  obtain ⟨shared, calls⟩ := s
  change ∀ es ∈ calls, es = [] at h
  induction calls with
  | nil => rfl
  | cons es calls ih =>
    rw [pending_cons, h es List.mem_cons_self, weight_nil, zero_add]
    exact ih fun fs hfs => h fs (List.mem_cons_of_mem es hfs)

theorem weight_le_pending {w : E → Nat} {calls : List (List E)} {es : List E} (h : es ∈ calls) :
    weight w es ≤ pending w calls :=
  List.le_sum_of_mem (List.mem_map_of_mem h)

theorem pending_nonpos {w : E → Int} {calls : List (List E)} (hw : ∀ es ∈ calls, weight w es ≤ 0) :
    pending w calls ≤ 0 := by
  induction calls with
  | nil => exact le_refl 0
  | cons fs calls ih =>
    have hfs := hw fs List.mem_cons_self
    have hcalls := ih fun es hes => hw es (List.mem_cons_of_mem fs hes)
    rw [pending_cons]
    omega

theorem pending_le_weight {w : E → Int} {calls : List (List E)} (hw : ∀ es ∈ calls, weight w es ≤ 0)
    {es : List E} (h : es ∈ calls) : pending w calls ≤ weight w es := by
  induction calls with
  | nil => cases h
  | cons fs calls ih =>
    have hfs := hw fs List.mem_cons_self
    have hcalls := fun es hes => hw es (List.mem_cons_of_mem fs hes)
    rw [pending_cons]
    rcases List.mem_cons.mp h with rfl | h
    · have := pending_nonpos hcalls
      omega
    · have := ih hcalls h
      omega

theorem weight_append (es fs : List E) : weight w (es ++ fs) = weight w es + weight w fs := by
  simp [weight]

/-- What is left of a call never adds anything. -/
def Nonpos (w : E → Int) : List E → Prop
  | [] => True
  | e :: es => weight w (e :: es) ≤ 0 ∧ Nonpos w es

theorem Nonpos.weight_le {w : E → Int} {es : List E} (h : Nonpos w es) : weight w es ≤ 0 := by
  cases es with
  | nil => exact le_refl 0
  | cons e es => exact h.1

theorem Nonpos.append {w : E → Int} {es fs : List E} (hes : Nonpos w es) (hfs : Nonpos w fs) :
    Nonpos w (es ++ fs) := by
  induction es with
  | nil => exact hfs
  | cons e es ih =>
    refine ⟨?_, ih hes.2⟩
    have hhead := hes.1
    have htail := hfs.weight_le
    change weight w ((e :: es) ++ fs) ≤ 0
    rw [weight_append]
    omega

/-- The quantity `m` of the shared state, as it is when all steps that are left have been taken. -/
def total (m : S → G) (w : E → G) (s : State S E) : G := m s.shared + pending w s.calls

theorem total_next {sys : System S O E K} {m : S → G}
    (hact : ∀ s e k s', sys.act s e k = some s' → m s' = m s + w e) (s : State S E) (n : Nat) (k : K) :
    total m w (sys.next s n k) = total m w s := by
  refine next_invariant (P := fun t => total m w t = total m w s) rfl fun e es shared hn ha => ?_
  rw [total, total, hact _ _ _ _ ha, add_assoc, pending_set_tail hn]

theorem total_finish {sys : System S O E K} {m : S → G}
    (hact : ∀ s e k s', sys.act s e k = some s' → m s' = m s + w e) (s : State S E) (ms : List (Nat × K)) :
    total m w (sys.finish s ms) = total m w s :=
  Run.exec_invariant (I := fun t => total m w t = total m w s)
    (fun t a ht => (total_next hact t a.1 a.2).trans ht) ms rfl

theorem total_of_quiet {m : S → G} {s : State S E} (h : s.Quiet) : total m w s = m s.shared := by
  rw [total, pending_of_quiet h, add_zero]

end Pending

/-! ## Calls that return -/

section Sound

variable (sys : System S O E K) (Ok : S → Prop)

/-- The calls can return, and when they have, the state is right. -/
structure Sound (s : State S E) : Prop where
  returns : ∃ ms, (sys.finish s ms).Quiet
  ok : ∀ ms, (sys.finish s ms).Quiet → Ok (sys.finish s ms).shared

variable {sys Ok}

/-- An invariant that every step keeps, under which some step can always be taken, and that gives `Ok` when
the calls have returned. -/
theorem Sound.of_invariant {I : State S E → Prop} (hnext : ∀ s n k, I s → I (sys.next s n k))
    (hprogress : ∀ s, I s → ¬ s.Quiet →
      ∃ (n : Nat) (e : E) (es : List E) (k : K) (shared : S),
        s.calls[n]? = some (e :: es) ∧ sys.act s.shared e k = some shared)
    (hok : ∀ s, I s → s.Quiet → Ok s.shared) {s : State S E} (hs : I s) : Sound sys Ok s where
  returns := by
    -- the steps that are left become fewer
    have hfewer : ∀ s, I s → ¬ s.Quiet → ∃ m : Nat × K, I (sys.next s m.1 m.2) ∧
        pending (fun _ => 1) (sys.next s m.1 m.2).calls < pending (fun _ => 1) s.calls := by
      intro s hs hq
      obtain ⟨n, e, es, k, shared, hn, hact⟩ := hprogress s hs hq
      refine ⟨(n, k), hnext s n k hs, ?_⟩
      have hstep : sys.next s n k = ⟨shared, s.calls.set n es⟩ := by simp [System.next, hn, hact]
      have htail := pending_set_tail (w := fun _ => 1) hn
      simp only [hstep]
      omega
    obtain ⟨ms, -, hquiet⟩ := Run.exists_drain State.Quiet (fun s => pending (fun _ => 1) s.calls) hfewer hs
    exact ⟨ms, hquiet⟩
  ok ms hquiet := by
    have hI : I (sys.finish s ms) :=
      Run.exec_invariant (I := I) (fun t m ht => hnext t m.1 m.2 ht) ms hs
    exact hok _ hI hquiet

end Sound

end Calls
