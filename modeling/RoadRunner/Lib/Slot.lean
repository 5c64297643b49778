import RoadRunner.Lib.Run
import RoadRunner.Lib.Update

/-!
# A one-slot channel that is borrowed from

A channel with room for one value, which its users take out, use and put back. It is a mutex that also stores
what it protects.

* `step`: the users' steps. A user waits for the value (or gives up), holds it, and then waits to put it back.
* `tokens`: how many values there are, in the slot or with a user. `tokens_step`: no step changes it.
* `slot_eq_none`: with one value, a user that puts it back finds the slot empty. `user_unique`: no two users
  have it. `exists_slot`: the users can bring it back.
-/

namespace Slot

open Update

universe u

variable {T : Type u}

/-- A user of the value. -/
inductive User (T : Type u) where
  | waiting
  | holding (t : T)
  /-- It is done with the value, and puts it back. -/
  | putting (t : T)
  | done
  deriving DecidableEq

/-- The user has the value. -/
def User.carries : User T → Bool
  | holding _ | putting _ => true
  | waiting | done => false

/-- The slot, and its users. -/
structure State (T : Type u) where
  slot : Option T
  users : List (User T)
  deriving DecidableEq

/-- What can happen. -/
inductive Move where
  | call
  | take (n : Nat)
  | finish (n : Nat)
  | put (n : Nat)
  /-- A user stops waiting. -/
  | expire (n : Nat)
  deriving DecidableEq

/-- One move. -/
def step (s : State T) : Move → State T
  | .call => { s with users := s.users ++ [.waiting] }
  | .take n =>
    match s.slot, s.users[n]? with
    | some t, some .waiting => ⟨none, s.users.set n (.holding t)⟩
    | _, _ => s
  | .finish n =>
    match s.users[n]? with
    | some (.holding t) => { s with users := s.users.set n (.putting t) }
    | _ => s
  | .put n =>
    match s.slot, s.users[n]? with
    | none, some (.putting t) => ⟨some t, s.users.set n .done⟩
    | _, _ => s
  | .expire n =>
    match s.users[n]? with
    | some .waiting => { s with users := s.users.set n .done }
    | _ => s

/-- The number of values, in the slot and with the users. -/
def tokens (s : State T) : Nat := s.slot.isSome.toNat + s.users.countP User.carries

/-- What a step can do. -/
inductive Stepped (s : State T) : State T → Prop where
  | idle : Stepped s s
  | called : Stepped s ⟨s.slot, s.users ++ [.waiting]⟩
  | took {n : Nat} {t : T} (hslot : s.slot = some t) (hn : s.users[n]? = some .waiting) :
    Stepped s ⟨none, s.users.set n (.holding t)⟩
  | finished {n : Nat} {t : T} (hn : s.users[n]? = some (.holding t)) :
    Stepped s ⟨s.slot, s.users.set n (.putting t)⟩
  | put {n : Nat} {t : T} (hslot : s.slot = none) (hn : s.users[n]? = some (.putting t)) :
    Stepped s ⟨some t, s.users.set n .done⟩
  | expired {n : Nat} (hn : s.users[n]? = some .waiting) : Stepped s ⟨s.slot, s.users.set n .done⟩

theorem step_stepped (s : State T) (m : Move) : Stepped s (step s m) := by
  cases m with
  | call => exact .called
  | take n =>
    simp only [step]
    split
    · exact .took ‹_› ‹_›
    · exact .idle
  | finish n =>
    simp only [step]
    split
    · exact .finished ‹_›
    · exact .idle
  | put n =>
    simp only [step]
    split
    · exact .put ‹_› ‹_›
    · exact .idle
  | expire n =>
    simp only [step]
    split
    · exact .expired ‹_›
    · exact .idle

@[simp] theorem tokens_step (s : State T) (m : Move) : tokens (step s m) = tokens s := by
  have hstep := step_stepped s m
  generalize step s m = s' at hstep ⊢
  cases hstep with
  | idle => rfl
  | called => simp [tokens, User.carries]
  | @took n t hslot hn =>
    have hcount : (s.users.set n (.holding t)).countP User.carries + 0 = s.users.countP User.carries + 1 :=
      countP_set User.carries hn (.holding t)
    simp only [tokens, hslot, Option.isSome_none, Option.isSome_some, Bool.toNat_false, Bool.toNat_true]
    omega
  | @finished n t hn =>
    have hcount : (s.users.set n (.putting t)).countP User.carries + 1 = s.users.countP User.carries + 1 :=
      countP_set User.carries hn (.putting t)
    simp only [tokens]
    omega
  | @put n t hslot hn =>
    have hcount : (s.users.set n .done).countP User.carries + 1 = s.users.countP User.carries + 0 :=
      countP_set User.carries hn .done
    simp only [tokens, hslot, Option.isSome_none, Option.isSome_some, Bool.toNat_false, Bool.toNat_true]
    omega
  | @expired n hn =>
    have hcount : (s.users.set n .done).countP User.carries + 0 = s.users.countP User.carries + 0 :=
      countP_set User.carries hn .done
    simp only [tokens]
    omega

/-- If the users have all the values, the slot has none. -/
theorem slot_eq_none_of_le {s : State T} (h : tokens s ≤ s.users.countP User.carries) : s.slot = none := by
  cases hslot : s.slot with
  | none => rfl
  | some t =>
    rw [tokens, hslot, Option.isSome_some, Bool.toNat_true] at h
    omega

theorem slot_eq_none_of_tokens {s : State T} (h : tokens s = 0) : s.slot = none := by
  apply slot_eq_none_of_le
  rw [h]
  exact Nat.zero_le _

section One

variable {s : State T}

theorem slot_eq_none (h : tokens s ≤ 1) {v : User T} (hv : v ∈ s.users) (hc : v.carries = true) :
    s.slot = none := by
  have hpos : 0 < s.users.countP User.carries := List.countP_pos_iff.mpr ⟨v, hv, hc⟩
  exact slot_eq_none_of_le (Nat.le_trans h hpos)

theorem user_unique (h : tokens s ≤ 1) {m n : Nat} {v w : User T} (hv : s.users[m]? = some v)
    (hw : s.users[n]? = some w) (hcv : v.carries = true) (hcw : w.carries = true) : m = n := by
  by_contra hne
  -- without the value of the first user, the second one still has one
  have hset := countP_set User.carries hv .done
  have hw' : (s.users.set m .done)[n]? = some w := by rw [List.getElem?_set_ne hne, hw]
  have hpos : 0 < (s.users.set m .done).countP User.carries :=
    List.countP_pos_iff.mpr ⟨w, List.mem_of_getElem? hw', hcw⟩
  rw [hcv] at hset
  simp only [Bool.toNat_true, User.carries, Bool.toNat_false] at hset
  rw [tokens] at h
  omega

/-- The users can bring the value back into the slot. -/
theorem exists_slot (h : tokens s = 1) : ∃ ms, (Run.exec step s ms).slot.isSome := by
  cases hslot : s.slot with
  | some t => exact ⟨[], by rw [Run.exec_nil, hslot]; rfl⟩
  | none =>
    have hpos : 0 < s.users.countP User.carries := by
      rw [tokens, hslot, Option.isSome_none, Bool.toNat_false] at h
      omega
    obtain ⟨v, hv, hc⟩ := List.countP_pos_iff.mp hpos
    obtain ⟨n, hn⟩ := List.getElem?_of_mem hv
    have hlt : n < s.users.length := (List.getElem?_eq_some_iff.mp hn).1
    cases v with
    | waiting => cases hc
    | done => cases hc
    | putting t =>
      refine ⟨[.put n], ?_⟩
      simp only [Run.exec_cons, Run.exec_nil, step, hslot, hn]
      rfl
    | holding t =>
      refine ⟨[.finish n, .put n], ?_⟩
      have hset : (s.users.set n (.putting t))[n]? = some (.putting t) := List.getElem?_set_self hlt
      simp only [Run.exec_cons, Run.exec_nil, step, hslot, hn, hset]
      rfl

end One

end Slot
