import RoadRunner.Lib.RWMutex
import RoadRunner.Lib.Run
import RoadRunner.Lib.Update

/-!
# Data behind a readers-writer mutex

Any number of threads that share data and a readers-writer mutex. A thread with a part of the mutex gives it back before
it takes another one (`Disciplined`). What such programs need is proved here once.

* `step`: a thread is started, or one goes on, unless its action on the mutex blocks.
* `Rule`: what is to be shown of the single moves for an invariant that a thread with the write lock may break: `Calm`
  holds of the data when nobody writes, and `Own` of each thread. `Inv.next`: every step keeps them.
* `Inv.exists_finish`: the threads can all come to their end, and leave the mutex free.
-/

namespace Guarded

open RWMutex (Act Shares total)

/-- What a thread has of the mutex. -/
inductive Hold where
  | nothing
  | read
  /-- It is in `Lock`. -/
  | wait
  | write
  deriving DecidableEq

namespace Hold

/-- What a thread has after an action, if it may take it. -/
def after : Hold → Act → Option Hold
  | nothing, .skip => some nothing
  | nothing, .rlock => some read
  | nothing, .announce => some wait
  | read, .skip => some read
  | read, .runlock => some nothing
  | wait, .lock => some write
  | write, .skip => some write
  | write, .unlock => some nothing
  | _, _ => none

variable {P : Type} (hold : P → Hold)

/-- The shares of the lock that a thread has. -/
def shares : Shares P where
  reads p := if hold p = read then 1 else 0
  waits p := if hold p = wait then 1 else 0
  writes p := if hold p = write then 1 else 0

theorem fits {p q : P} {a : Act} (h : (hold p).after a = some (hold q)) : (shares hold).Fits a p q := by
  constructor <;> simp only [shares] <;> generalize hold p = x at h ⊢ <;> generalize hold q = y at h ⊢ <;>
    revert h <;> cases x <;> cases a <;> cases y <;> decide

end Hold

variable {S P C : Type}

/-- Threads, and the data that the lock guards. -/
structure State (S P : Type) where
  mutex : RWMutex := {}
  data : S
  threads : List P := []

/-- A move of a thread: what it does to the mutex, and the data and the thread after it. -/
structure Move (S P : Type) where
  act : Act
  data : S
  thread : P

/-- A thread is started, or goes on. -/
inductive Op (P C : Type) where
  | start (p : P)
  /-- The thread `i` goes on; `c` is what the rest of the world does. -/
  | go (i : Nat) (c : C)

section

variable (move : S → P → C → Move S P)

/-- One operation. -/
def step (s : State S P) : Op P C → State S P
  | .start p => { s with threads := s.threads ++ [p] }
  | .go i c =>
    match s.threads[i]? with
    | none => s
    | some p =>
      match s.mutex.act (move s.data p c).act with
      | none => s
      | some m => ⟨m, (move s.data p c).data, s.threads.set i (move s.data p c).thread⟩

/-- What a step does. -/
inductive Stepped (s : State S P) : Op P C → State S P → Prop where
  | start (p : P) : Stepped s (.start p) { s with threads := s.threads ++ [p] }
  | blocked (i : Nat) (c : C) : Stepped s (.go i c) s
  | go {i : Nat} {c : C} {p : P} {m : RWMutex} (hi : s.threads[i]? = some p)
      (hact : s.mutex.act (move s.data p c).act = some m) :
      Stepped s (.go i c) ⟨m, (move s.data p c).data, s.threads.set i (move s.data p c).thread⟩

theorem stepped (s : State S P) (op : Op P C) : Stepped move s op (step move s op) := by
  cases op with
  | start p => exact .start p
  | go i c =>
    simp only [step]
    split
    · exact .blocked i c
    · split
      · exact .blocked i c
      · exact .go ‹_› ‹_›

/-- A thread with a part of the mutex takes no other one. -/
def Disciplined (hold : P → Hold) : Prop := ∀ d p c, (hold p).after (move d p c).act = some (hold (move d p c).thread)

/-- The data when nobody writes, and each thread with the data. A thread sees data that nobody writes when it reads,
and when it is let in. -/
structure Rule (hold : P → Hold) (Calm : S → Prop) (Own : S → P → Prop) : Prop where
  own : ∀ d p c, Own d p →
    (hold p = .read ∨ (move d p c).act = .rlock ∨ (move d p c).act = .lock → Calm d) →
    Own (move d p c).data (move d p c).thread
  calm : ∀ d p c, Own d p → hold p ≠ .write → Calm d → Calm (move d p c).data
  unlock : ∀ d p c, Own d p → hold p = .write → (move d p c).act = .unlock → Calm (move d p c).data
  other : ∀ d p c q, Own d p → Own d q → (hold p = .write → hold q ≠ .read ∧ hold q ≠ .write) →
    Own (move d p c).data q

end

/-- The mutex is what the threads have of it. -/
def Balanced (hold : P → Hold) (s : State S P) : Prop := (Hold.shares hold).Balanced 0 s.mutex s.threads

/-- The lock fits the threads; the data is calm without a writer. -/
structure Inv (hold : P → Hold) (Calm : S → Prop) (Own : S → P → Prop) (s : State S P) : Prop where
  balanced : Balanced hold s
  calm : s.mutex.writer = false → Calm s.data
  own : ∀ p ∈ s.threads, Own s.data p

/-! ## Exclusion -/

section

variable {hold : P → Hold} {s : State S P}

theorem add_le_total {f : P → Nat} {ts : List P} {i j : Nat} {p q : P} (hi : ts[i]? = some p) (hj : ts[j]? = some q)
    (hij : i ≠ j) : f p + f q ≤ total f ts := by
  induction ts generalizing i j with
  | nil => simp at hi
  | cons t ts ih =>
    have hcons : total f (t :: ts) = f t + total f ts := rfl
    have hmem : ∀ n r, ts[n]? = some r → f r ≤ total f ts := fun n r hr =>
      List.le_sum_of_mem (List.mem_map_of_mem (List.mem_of_getElem? hr))
    cases i with
    | zero =>
      cases j with
      | zero => exact absurd rfl hij
      | succ j =>
        obtain rfl : t = p := by simpa using hi
        have := hmem j q (by simpa using hj)
        omega
    | succ i =>
      cases j with
      | zero =>
        obtain rfl : t = q := by simpa using hj
        have := hmem i p (by simpa using hi)
        omega
      | succ j =>
        have := ih (i := i) (j := j) (by simpa using hi) (by simpa using hj) (fun h => hij (congrArg _ h))
        omega

theorem Balanced.writer_of_write (h : Balanced hold s) {p : P} (hp : p ∈ s.threads) (hw : hold p = .write) :
    s.mutex.writer = true := by
  have hpos : 0 < total (Hold.shares hold).writes s.threads :=
    RWMutex.total_pos_iff.mpr ⟨p, hp, by simp [Hold.shares, hw]⟩
  have := h.writes
  cases hm : s.mutex.writer with
  | true => rfl
  | false =>
    rw [hm] at this
    simp only [Bool.toNat_false] at this
    omega

theorem Balanced.writer_of_read (h : Balanced hold s) {p : P} (hp : p ∈ s.threads) (hr : hold p = .read) :
    s.mutex.writer = false := by
  have hpos : 0 < total (Hold.shares hold).reads s.threads :=
    RWMutex.total_pos_iff.mpr ⟨p, hp, by simp [Hold.shares, hr]⟩
  have hreads := h.reads
  cases hm : s.mutex.writer with
  | false => rfl
  | true =>
    have := s.mutex.excl hm
    omega

/-- Beside a thread with the write lock no other one reads or writes. -/
theorem Balanced.exclusive (h : Balanced hold s) {i j : Nat} {p q : P} (hi : s.threads[i]? = some p)
    (hj : s.threads[j]? = some q) (hij : i ≠ j) (hw : hold p = .write) : hold q ≠ .read ∧ hold q ≠ .write := by
  have hwriter := h.writer_of_write (List.mem_of_getElem? hi) hw
  constructor
  · intro hr
    rw [h.writer_of_read (List.mem_of_getElem? hj) hr] at hwriter
    cases hwriter
  · intro hq
    have hle := add_le_total (f := (Hold.shares hold).writes) hi hj hij
    have hwrites := h.writes
    simp only [Hold.shares, hw, hq, if_true] at hle hwrites
    rw [hwriter] at hwrites
    simp only [Bool.toNat_true] at hwrites
    omega

end

/-! ## Steps -/

section

variable {move : S → P → C → Move S P} {hold : P → Hold} {s : State S P}

theorem Balanced.start (h : Balanced hold s) {p : P} (hp : hold p = .nothing) :
    Balanced hold { s with threads := s.threads ++ [p] } :=
  RWMutex.Shares.Balanced.append h (by simp [Hold.shares, hp]) (by simp [Hold.shares, hp]) (by simp [Hold.shares, hp])

theorem Balanced.go (hdis : Disciplined move hold) (h : Balanced hold s) {i : Nat} {c : C} {p : P} {m : RWMutex}
    (hi : s.threads[i]? = some p) (hact : s.mutex.act (move s.data p c).act = some m) :
    Balanced hold ⟨m, (move s.data p c).data, s.threads.set i (move s.data p c).thread⟩ :=
  RWMutex.Shares.Balanced.act h hi (Hold.fits hold (hdis s.data p c)) hact

variable {Calm : S → Prop} {Own : S → P → Prop}

theorem Inv.go (hdis : Disciplined move hold) (hrule : Rule move hold Calm Own) (h : Inv hold Calm Own s) {i : Nat}
    {c : C} {p : P} {m : RWMutex} (hi : s.threads[i]? = some p)
    (hact : s.mutex.act (move s.data p c).act = some m) :
    Inv hold Calm Own ⟨m, (move s.data p c).data, s.threads.set i (move s.data p c).thread⟩ := by
  have hp := List.mem_of_getElem? hi
  have hown := h.own p hp
  have hacted := RWMutex.acted hact
  refine ⟨h.balanced.go hdis hi hact, fun hfree => ?_, fun q hq => ?_⟩
  · by_cases hw : hold p = .write
    · -- the writer has gone, so it has unlocked
      have hwriter := h.balanced.writer_of_write hp hw
      refine hrule.unlock _ _ _ hown hw ?_
      change m.writer = false at hfree
      generalize (move s.data p c).act = a at hacted
      cases hacted <;> simp_all
    · refine hrule.calm _ _ _ hown hw (h.calm ?_)
      have hafter := hdis s.data p c
      change m.writer = false at hfree
      generalize (move s.data p c).act = a at hacted hafter
      cases hacted with
      | unlock hwas =>
        generalize hold p = x at hafter hw
        cases x <;> simp_all [Hold.after]
      | _ => simp_all
  · obtain ⟨j, hj⟩ := List.mem_iff_getElem?.mp hq
    by_cases hij : i = j
    · subst hij
      obtain rfl : (move s.data p c).thread = q := by
        have hlt := (List.getElem?_eq_some_iff.mp hi).1
        exact Option.some.inj ((List.getElem?_set_self hlt).symm.trans hj)
      refine hrule.own _ _ _ hown fun hsees => h.calm ?_
      rcases hsees with hr | hr | hr
      · exact h.balanced.writer_of_read hp hr
      · rw [hr] at hacted
        cases hacted with
        | rlock hw => exact hw
      · rw [hr] at hacted
        cases hacted with
        | lock _ hw => exact hw
    · have hj' : s.threads[j]? = some q := (List.getElem?_set_ne hij).symm.trans hj
      exact hrule.other _ _ _ _ hown (h.own q (List.mem_of_getElem? hj')) fun hw => h.balanced.exclusive hi hj' hij hw

variable (move) in
/-- A thread starts with nothing of the mutex. -/
theorem Inv.start (h : Inv hold Calm Own s) {p : P} (hp : hold p = .nothing) (hown : Own s.data p) :
    Inv hold Calm Own (step move s (.start p)) :=
  ⟨h.balanced.start hp, h.calm, Update.forall_concat h.own hown⟩

/-- A thread goes on, or is blocked. -/
theorem Inv.next (hdis : Disciplined move hold) (hrule : Rule move hold Calm Own) (h : Inv hold Calm Own s) (i : Nat)
    (c : C) : Inv hold Calm Own (step move s (.go i c)) := by
  have hstep := stepped move s (.go i c)
  generalize step move s (.go i c) = s' at hstep ⊢
  cases hstep with
  | blocked => exact h
  | go hi hact => exact h.go hdis hrule hi hact

/-! ## Coming to an end -/

/-- Until all threads have ended, one can go on, whatever the rest of the world does: the writer if there is one, else a
reader, else a writer that waits, and else any of them. -/
theorem Balanced.exists_go (hdis : Disciplined move hold) (h : Balanced hold s) {ended : P → Prop}
    (hended : ∀ p ∈ s.threads, ended p → hold p = .nothing) (hsome : ∃ p ∈ s.threads, ¬ ended p) :
    ∃ (i : Nat) (p : P), s.threads[i]? = some p ∧ ¬ ended p ∧ ∀ c, ∃ m, s.mutex.act (move s.data p c).act = some m := by
  have hnot : ∀ p ∈ s.threads, hold p ≠ .nothing → ¬ ended p := fun p hp hne hend => hne (hended p hp hend)
  have hafter : ∀ p c, ∃ x, (hold p).after (move s.data p c).act = some x := fun p c => ⟨_, hdis s.data p c⟩
  cases hw : s.mutex.writer with
  | true =>
    have hpos : 0 < total (Hold.shares hold).writes s.threads := by
      rw [← h.writes, hw]
      exact Nat.one_pos
    obtain ⟨p, hp, hwrites⟩ := RWMutex.total_pos_iff.mp hpos
    obtain ⟨i, hi⟩ := List.mem_iff_getElem?.mp hp
    have hhold : hold p = .write := by
      by_contra hne
      simp [Hold.shares, hne] at hwrites
    refine ⟨i, p, hi, hnot p hp (by simp [hhold]), fun c => ?_⟩
    obtain ⟨x, hx⟩ := hafter p c
    rw [hhold] at hx
    generalize (move s.data p c).act = a at hx ⊢
    cases a <;> first | exact ⟨_, rfl⟩ | exact RWMutex.exists_unlock hw | cases hx
  | false =>
    by_cases hread : ∃ p ∈ s.threads, hold p = .read
    · obtain ⟨p, hp, hhold⟩ := hread
      obtain ⟨i, hi⟩ := List.mem_iff_getElem?.mp hp
      have hreaders : 0 < s.mutex.readers := by
        rw [h.reads]
        exact RWMutex.total_pos_iff.mpr ⟨p, hp, by simp [Hold.shares, hhold]⟩
      refine ⟨i, p, hi, hnot p hp (by simp [hhold]), fun c => ?_⟩
      obtain ⟨x, hx⟩ := hafter p c
      rw [hhold] at hx
      generalize (move s.data p c).act = a at hx ⊢
      cases a <;> first | exact ⟨_, rfl⟩ | exact RWMutex.exists_runlock hreaders | cases hx
    · have hnone : ∀ p ∈ s.threads, hold p ≠ .read := fun p hp hr => hread ⟨p, hp, hr⟩
      have hreaders : s.mutex.readers = 0 := by
        rw [h.reads, Nat.add_zero, RWMutex.total_eq_zero_iff]
        exact fun p hp => by simp [Hold.shares, hnone p hp]
      rcases Nat.eq_zero_or_pos s.mutex.waiting with hq | hq
      · obtain ⟨p, hp, hend⟩ := hsome
        obtain ⟨i, hi⟩ := List.mem_iff_getElem?.mp hp
        have hwaits := RWMutex.total_eq_zero_iff.mp (h.waits.symm.trans hq) p hp
        have hwrites := RWMutex.total_eq_zero_iff.mp (h.writes.symm.trans (congrArg _ hw)) p hp
        refine ⟨i, p, hi, hend, fun c => ?_⟩
        obtain ⟨x, hx⟩ := hafter p c
        have hhold : hold p = .nothing := by
          cases hh : hold p with
          | nothing => rfl
          | read => exact absurd hh (hnone p hp)
          | wait => simp [Hold.shares, hh] at hwaits
          | write => simp [Hold.shares, hh] at hwrites
        rw [hhold] at hx
        generalize (move s.data p c).act = a at hx ⊢
        cases a <;> first | exact ⟨_, rfl⟩ | exact RWMutex.exists_rlock hw hq | cases hx
      · obtain ⟨p, hp, hwaits⟩ := RWMutex.total_pos_iff.mp (h.waits ▸ hq)
        obtain ⟨i, hi⟩ := List.mem_iff_getElem?.mp hp
        have hhold : hold p = .wait := by
          by_contra hne
          simp [Hold.shares, hne] at hwaits
        refine ⟨i, p, hi, hnot p hp (by simp [hhold]), fun c => ?_⟩
        obtain ⟨x, hx⟩ := hafter p c
        rw [hhold] at hx
        generalize (move s.data p c).act = a at hx ⊢
        cases a <;> first | exact RWMutex.exists_lock hq hreaders hw | cases hx

/-- The threads go on in this order. -/
def finish (move : S → P → C → Move S P) (s : State S P) (gos : List (Nat × C)) : State S P :=
  Run.exec (fun s g => step move s (.go g.1 g.2)) s gos

/-- Where the world can bring every thread closer to its end, all can end. -/
theorem Inv.exists_finish (hdis : Disciplined move hold) (hrule : Rule move hold Calm Own) (h : Inv hold Calm Own s)
    {ended : P → Prop} (hended : ∀ p, ended p → hold p = .nothing) (rank : P → Nat)
    (hrank : ∀ d p, ¬ ended p → ∃ c, rank (move d p c).thread < rank p) :
    ∃ gos, Inv hold Calm Own (finish move s gos) ∧ ∀ p ∈ (finish move s gos).threads, ended p := by
  refine Run.exists_drain (fun s => ∀ p ∈ s.threads, ended p) (fun s => total rank s.threads) ?_ h
  intro s h hdone
  obtain ⟨i, p, hi, hend, hact⟩ := h.balanced.exists_go hdis (fun p _ => hended p) (by simpa using hdone)
  obtain ⟨c, hc⟩ := hrank s.data p hend
  obtain ⟨m, hm⟩ := hact c
  have hstep : step move s (.go i c) =
      ⟨m, (move s.data p c).data, s.threads.set i (move s.data p c).thread⟩ := by
    simp only [Guarded.step, hi, hm]
  refine ⟨(i, c), ?_, ?_⟩
  · rw [hstep]
    exact h.go hdis hrule hi hm
  · rw [hstep]
    have := RWMutex.total_set (f := rank) hi (move s.data p c).thread
    simp only at this ⊢
    omega

/-- When all threads have ended, the mutex is free. -/
theorem Balanced.free (h : Balanced hold s) (hnothing : ∀ p ∈ s.threads, hold p = .nothing) :
    s.mutex.readers = 0 ∧ s.mutex.waiting = 0 ∧ s.mutex.writer = false := by
  refine ⟨?_, ?_, ?_⟩
  · rw [h.reads, Nat.add_zero, RWMutex.total_eq_zero_iff]
    exact fun p hp => by simp [Hold.shares, hnothing p hp]
  · rw [h.waits, RWMutex.total_eq_zero_iff]
    exact fun p hp => by simp [Hold.shares, hnothing p hp]
  · have hzero : total (Hold.shares hold).writes s.threads = 0 :=
      RWMutex.total_eq_zero_iff.mpr fun p hp => by simp [Hold.shares, hnothing p hp]
    have := h.writes.trans hzero
    cases hm : s.mutex.writer with
    | false => rfl
    | true => rw [hm] at this; cases this

end

end Guarded
