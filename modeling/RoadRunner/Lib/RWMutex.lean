import Mathlib

/-!
# Readers and writers

A readers-writer mutex, as Go documents it: any number of readers or one writer hold it, and a writer
that waits keeps new readers out. A writer takes it in two steps: it announces itself, and it is let in
once nobody holds the mutex.

* `RWMutex.act`: one action on the mutex, or `none` while it blocks.
* `Shares`: which part of the mutex a thread has in each of its states. `Shares.Fits` says that an action
  changes the thread's part as it changes the mutex.
* `Balanced k m ts`: the mutex is what the threads have of it, and `k` read locks that no thread gives
  back. `Balanced.act`: actions that fit keep it. `Balanced.forget`: a thread that forgets a lock.
-/

/-- `sync.RWMutex`. -/
structure RWMutex where
  readers : Nat := 0
  /-- Writers that wait. -/
  waiting : Nat := 0
  writer : Bool := false
  excl : writer = true → readers = 0 := by decide
  deriving DecidableEq

namespace RWMutex

/-- A step of a thread on the lock. -/
inductive Act where
  | skip
  | rlock
  | runlock
  /-- `Lock` is called. -/
  | announce
  /-- `Lock` returns. -/
  | lock
  | unlock
  deriving DecidableEq

/-- The lock after a step, `none` if it has to wait. -/
def act (m : RWMutex) : Act → Option RWMutex
  | .skip => some m
  | .rlock =>
    if h : m.writer = false ∧ m.waiting = 0 then
      some { m with readers := m.readers + 1, excl := fun hw => by simp [h.1] at hw }
    else none
  | .runlock =>
    if 0 < m.readers then some { m with readers := m.readers - 1, excl := fun hw => by simp [m.excl hw] }
    else none
  | .announce => some { m with waiting := m.waiting + 1 }
  | .lock =>
    if h : 0 < m.waiting ∧ m.readers = 0 ∧ m.writer = false then
      some { m with waiting := m.waiting - 1, writer := true, excl := fun _ => h.2.1 }
    else none
  | .unlock => if m.writer then some { m with writer := false, excl := nofun } else none

/-- What an action that does not block does. -/
inductive Acted (m : RWMutex) : Act → RWMutex → Prop where
  | skip : Acted m .skip m
  | rlock {m' : RWMutex} (hw : m.writer = false) (hq : m.waiting = 0) (hr : m'.readers = m.readers + 1)
    (hq' : m'.waiting = 0) (hw' : m'.writer = false) : Acted m .rlock m'
  | runlock {m' : RWMutex} (hr : m.readers = m'.readers + 1) (hq' : m'.waiting = m.waiting)
    (hw' : m'.writer = m.writer) : Acted m .runlock m'
  | announce {m' : RWMutex} (hr : m'.readers = m.readers) (hq' : m'.waiting = m.waiting + 1)
    (hw' : m'.writer = m.writer) : Acted m .announce m'
  | lock {m' : RWMutex} (hr : m.readers = 0) (hw : m.writer = false) (hr' : m'.readers = 0)
    (hq' : m.waiting = m'.waiting + 1) (hw' : m'.writer = true) : Acted m .lock m'
  | unlock {m' : RWMutex} (hw : m.writer = true) (hr : m'.readers = m.readers)
    (hq' : m'.waiting = m.waiting) (hw' : m'.writer = false) : Acted m .unlock m'

theorem acted {m m' : RWMutex} {a : Act} (h : m.act a = some m') : Acted m a m' := by
  cases a with
  | skip => cases h; exact .skip
  | rlock =>
    simp only [act] at h
    split at h
    case isTrue hfree => cases h; exact .rlock hfree.1 hfree.2 rfl hfree.2 hfree.1
    case isFalse => cases h
  | runlock =>
    simp only [act] at h
    split at h
    case isTrue hpos => cases h; exact .runlock (Nat.sub_add_cancel hpos).symm rfl rfl
    case isFalse => cases h
  | announce => cases h; exact .announce rfl rfl rfl
  | lock =>
    simp only [act] at h
    split at h
    case isTrue hfree =>
      cases h
      exact .lock hfree.2.1 hfree.2.2 hfree.2.1 (Nat.sub_add_cancel hfree.1).symm rfl
    case isFalse => cases h
  | unlock =>
    simp only [act] at h
    split at h
    case isTrue hw => cases h; exact .unlock hw rfl rfl rfl
    case isFalse => cases h

theorem exists_rlock {m : RWMutex} (hw : m.writer = false) (hq : m.waiting = 0) :
    ∃ m', m.act .rlock = some m' :=
  ⟨_, dif_pos ⟨hw, hq⟩⟩

theorem exists_runlock {m : RWMutex} (hr : 0 < m.readers) : ∃ m', m.act .runlock = some m' :=
  ⟨_, if_pos hr⟩

theorem exists_lock {m : RWMutex} (hq : 0 < m.waiting) (hr : m.readers = 0) (hw : m.writer = false) :
    ∃ m', m.act .lock = some m' :=
  ⟨_, dif_pos ⟨hq, hr, hw⟩⟩

theorem exists_unlock {m : RWMutex} (hw : m.writer = true) : ∃ m', m.act .unlock = some m' :=
  ⟨_, if_pos hw⟩

/-- The counts of the mutex after an action. -/
theorem act_counts {m m' : RWMutex} {a : Act} (h : m.act a = some m') :
    (m'.readers + (if a = .runlock then 1 else 0) = m.readers + if a = .rlock then 1 else 0) ∧
      (m'.waiting + (if a = .lock then 1 else 0) = m.waiting + if a = .announce then 1 else 0) ∧
      m'.writer.toNat + (if a = .unlock then 1 else 0) = m.writer.toNat + if a = .lock then 1 else 0 := by
  cases acted h <;> simp_all

/-! ## Threads -/

/-- What a thread in a state has of the mutex. -/
structure Shares (P : Type) where
  reads : P → Nat
  waits : P → Nat
  writes : P → Nat

variable {P : Type}

/-- `f` summed over the threads. -/
def total (f : P → Nat) (ts : List P) : Nat := (ts.map f).sum

@[simp] theorem total_nil (f : P → Nat) : total f [] = 0 := rfl

@[simp] theorem total_append (f : P → Nat) (ts us : List P) : total f (ts ++ us) = total f ts + total f us := by
  simp [total]

@[simp] theorem total_singleton (f : P → Nat) (p : P) : total f [p] = f p := by simp [total]

theorem total_set {f : P → Nat} {ts : List P} {i : Nat} {p : P} (h : ts[i]? = some p) (q : P) :
    total f (ts.set i q) + f p = total f ts + f q := by
  induction ts generalizing i with
  | nil => cases h
  | cons t ts ih =>
    cases i with
    | zero =>
      cases h
      simp only [total, List.set_cons_zero, List.map_cons, List.sum_cons]
      omega
    | succ i =>
      have := ih h
      simp only [total, List.set_cons_succ, List.map_cons, List.sum_cons] at this ⊢
      omega

theorem total_eq_zero_iff {f : P → Nat} {ts : List P} : total f ts = 0 ↔ ∀ p ∈ ts, f p = 0 := by
  induction ts with
  | nil => simp
  | cons t ts ih =>
    have hcons : total f (t :: ts) = f t + total f ts := rfl
    rw [hcons, Nat.add_eq_zero_iff, ih, List.forall_mem_cons]

theorem total_pos_iff {f : P → Nat} {ts : List P} : 0 < total f ts ↔ ∃ p ∈ ts, 0 < f p := by
  simp [Nat.pos_iff_ne_zero, total_eq_zero_iff]

namespace Shares

variable (sh : Shares P)

/-- The action takes a thread from its part of the mutex in `p` to that in `q`. -/
structure Fits (a : Act) (p q : P) : Prop where
  reads : sh.reads q + (if a = .runlock then 1 else 0) = sh.reads p + if a = .rlock then 1 else 0
  waits : sh.waits q + (if a = .lock then 1 else 0) = sh.waits p + if a = .announce then 1 else 0
  writes : sh.writes q + (if a = .unlock then 1 else 0) = sh.writes p + if a = .lock then 1 else 0

/-- The mutex is what the threads have of it, but for `k` read locks that no thread has. -/
structure Balanced (k : Nat) (m : RWMutex) (ts : List P) : Prop where
  reads : m.readers = total sh.reads ts + k
  waits : m.waiting = total sh.waits ts
  writes : m.writer.toNat = total sh.writes ts

variable {sh} {k : Nat} {m m' : RWMutex} {ts : List P}

theorem Balanced.act {a : Act} {i : Nat} {p q : P} (h : sh.Balanced k m ts) (hi : ts[i]? = some p)
    (hfits : sh.Fits a p q) (ha : m.act a = some m') : sh.Balanced k m' (ts.set i q) := by
  obtain ⟨hr, hq, hw⟩ := h
  obtain ⟨fr, fq, fw⟩ := hfits
  have tr := total_set (f := sh.reads) hi q
  have tq := total_set (f := sh.waits) hi q
  have tw := total_set (f := sh.writes) hi q
  obtain ⟨ar, aq, aw⟩ := act_counts ha
  exact ⟨by omega, by omega, by omega⟩

/-- A thread that has a part of nothing. -/
theorem Balanced.append {p : P} (h : sh.Balanced k m ts) (hr : sh.reads p = 0) (hq : sh.waits p = 0)
    (hw : sh.writes p = 0) : sh.Balanced k m (ts ++ [p]) := by
  constructor
  · simp [hr, h.reads]
  · simp [hq, h.waits]
  · simp [hw, h.writes]

/-- A thread that forgets read locks. -/
theorem Balanced.forget {i n : Nat} {p q : P} (h : sh.Balanced k m ts) (hi : ts[i]? = some p)
    (hr : sh.reads p = sh.reads q + n) (hq : sh.waits p = sh.waits q) (hw : sh.writes p = sh.writes q) :
    sh.Balanced (k + n) m (ts.set i q) := by
  have tr := total_set (f := sh.reads) hi q
  have tq := total_set (f := sh.waits) hi q
  have tw := total_set (f := sh.writes) hi q
  exact ⟨by have := h.reads; omega, by have := h.waits; omega, by have := h.writes; omega⟩

end Shares

end RWMutex
