import RoadRunner.Lib.RWMutex
import RoadRunner.Lib.Run
import RoadRunner.Lib.Update

/-!
# The lock of the websockets plugin

`Plugin.Middleware` and `Plugin.Reset` of `http/middleware/websockets/plugin.go` as they use the plugin's
`RWMutex`, for any number of requests and resets. A request takes the read lock for its checks, and
`exec` takes it once more for the call of the validator; a session that follows takes it for each join.

* `Doomed`: a read lock is lost, or a request and a reset wait for each other. It stays so.
* `noDeadlock_everywhere_iff`: which runs have no deadlock.
-/

namespace RoadRunner.Websockets.Locking

open RWMutex (Act Shares total)

/-- What the checks come to for a request. -/
structure Request where
  /-- `isOriginAllowed`. -/
  allowed : Bool
  /-- `ServerAccessValidator` returns no error, so `exec` is called. -/
  encodes : Bool
  deriving DecidableEq

/-- Where a thread is. -/
inductive Phase where
  /-- A request to the configured path, before `RLock`. -/
  | arrived (r : Request)
  /-- With the read lock, before the origin is checked. -/
  | checking (r : Request)
  /-- In `exec`, before `RLock`. -/
  | validating
  /-- In `exec`, with both read locks. -/
  | executing
  /-- The validator has returned. -/
  | validated
  /-- After `RUnlock`. -/
  | released
  /-- In the command loop. -/
  | session
  /-- In `exec` for a join, before `RLock`. -/
  | joining
  /-- In `exec` for a join, with the read lock. -/
  | joined
  /-- A `Reset`, before `Lock`. -/
  | called
  /-- In `Lock`. -/
  | waiting
  /-- With the lock. -/
  | resetting
  | returned
  deriving DecidableEq

namespace Phase

/-- The next action and where it leads. `c` is what the worker, the upgrade or the client does. -/
def move : Phase → Bool → Act × Phase
  | arrived r, _ => (.rlock, checking r)
  | checking r, _ =>
    -- a request that is turned away returns with the read lock
    if r.allowed then (.skip, if r.encodes then validating else validated) else (.skip, returned)
  | validating, _ => (.rlock, executing)
  | executing, _ => (.runlock, validated)
  | validated, _ => (.runlock, released)
  | released, c => (.skip, if c then session else returned)
  | session, c => (.skip, if c then joining else returned)
  | joining, _ => (.rlock, joined)
  | joined, _ => (.runlock, session)
  | called, _ => (.announce, waiting)
  | waiting, _ => (.lock, resetting)
  | resetting, _ => (.unlock, returned)
  | returned, _ => (.skip, returned)

/-- The thread serves a request. -/
def isRequest : Phase → Bool
  | called | waiting | resetting | returned => false
  | _ => true

/-- It is in an `RLock` or a `Lock`. -/
def pending (p : Phase) : Bool := (p.move true).1 = .rlock ∨ (p.move true).1 = .lock

/-- Between its first and its second `RLock`. -/
def between : Phase → Bool
  | checking r => r.encodes
  | validating => true
  | _ => false

/-- It will be turned away. -/
def turnedAway : Phase → Bool
  | arrived r | checking r => !r.allowed
  | _ => false

/-- What a thread has of the mutex. -/
def shares : Shares Phase where
  reads
    | checking _ | validating | validated | joined => 1
    | executing => 2
    | _ => 0
  waits
    | waiting => 1
    | _ => 0
  writes
    | resetting => 1
    | _ => 0

/-- How far a thread is from its end. -/
def rank : Phase → Nat
  | arrived _ => 9
  | checking _ => 8
  | validating => 7
  | executing => 6
  | validated => 5
  | released => 4
  | called | joining => 3
  | waiting | joined => 2
  | session | resetting => 1
  | returned => 0

/-- All but one move keep the account of the mutex. -/
theorem fits {p : Phase} (h : ∀ r, p = checking r → r.allowed = true) (c : Bool) :
    shares.Fits (p.move c).1 p (p.move c).2 := by
  cases p with
  | checking r =>
    simp only [move, h r rfl, ↓reduceIte]
    split <;> exact ⟨rfl, rfl, rfl⟩
  | released | session => cases c <;> exact ⟨rfl, rfl, rfl⟩
  | _ => exact ⟨rfl, rfl, rfl⟩

theorem rank_move {p : Phase} (h : p ≠ returned) : (p.move false).2.rank < p.rank := by
  cases p with
  | checking r => obtain ⟨_ | _, _ | _⟩ := r <;> decide
  | returned => exact absurd rfl h
  | _ => simp [move, rank]

theorem turnedAway_move {p : Phase} (h : p.turnedAway = false) (c : Bool) :
    (p.move c).2.turnedAway = false := by
  cases p with
  | arrived r => exact h
  | checking r => obtain ⟨_ | _, _ | _⟩ := r <;> rfl
  | released | session => cases c <;> rfl
  | _ => rfl

theorem between_move {p : Phase} (h : p.between = false) {c : Bool} (ha : (p.move c).1 ≠ .rlock) :
    (p.move c).2.between = false := by
  cases p with
  | arrived r => exact absurd rfl ha
  | checking r => obtain ⟨_ | _, _ | _⟩ := r <;> first | rfl | cases h
  | released | session => cases c <;> rfl
  | _ => rfl

theorem between_of_reads {p : Phase} (h : shares.reads p = 0) : p.between = false := by
  cases p with
  | checking | validating => cases h
  | _ => rfl

theorem announce_iff {p : Phase} {c : Bool} : (p.move c).1 = .announce ↔ p = called := by
  cases p with
  | checking r => obtain ⟨_ | _, _ | _⟩ := r <;> simp [move]
  | _ => simp [move]

end Phase

/-! ## The system -/

/-- The lock, and the threads. -/
structure State where
  mutex : RWMutex := {}
  threads : List Phase := []
  deriving DecidableEq

/-- What can happen. -/
inductive Op where
  | request (r : Request)
  | reset
  /-- The thread `i` goes on. -/
  | go (i : Nat) (c : Bool)
  deriving DecidableEq

/-- One operation. -/
def step (s : State) : Op → State
  | .request r => { s with threads := s.threads ++ [.arrived r] }
  | .reset => { s with threads := s.threads ++ [.called] }
  | .go i c =>
    match s.threads[i]? with
    | none => s
    | some p =>
      match s.mutex.act (p.move c).1 with
      | none => s
      | some m => ⟨m, s.threads.set i (p.move c).2⟩

/-- What a step does. -/
inductive Stepped (s : State) : Op → State → Prop where
  | request (r : Request) : Stepped s (.request r) { s with threads := s.threads ++ [.arrived r] }
  | reset : Stepped s .reset { s with threads := s.threads ++ [.called] }
  | go {i : Nat} {c : Bool} {p : Phase} {m : RWMutex} (hi : s.threads[i]? = some p)
    (hact : s.mutex.act (p.move c).1 = some m) : Stepped s (.go i c) ⟨m, s.threads.set i (p.move c).2⟩
  | blocked (i : Nat) (c : Bool) : Stepped s (.go i c) s

theorem stepped (s : State) (op : Op) : Stepped s op (step s op) := by
  cases op with
  | request r => exact .request r
  | reset => exact .reset
  | go i c =>
    simp only [step]
    split
    · exact .blocked i c
    · split
      · exact .blocked i c
      · exact .go ‹_› ‹_›

theorem step_go {s : State} {i : Nat} {c : Bool} {p : Phase} {m : RWMutex} (hi : s.threads[i]? = some p)
    (hact : s.mutex.act (p.move c).1 = some m) :
    step s (.go i c) = ⟨m, s.threads.set i (p.move c).2⟩ := by
  simp only [step, hi, hact]

/-! ## What is to hold -/

/-- No thread waits for ever, and no read lock is left. -/
structure NoDeadlock (s : State) : Prop where
  /-- When all requests have returned, nobody has a read lock. -/
  readers : (∀ p ∈ s.threads, p.isRequest = false) → s.mutex.readers = 0
  /-- A thread in an `RLock` or a `Lock` is let in by some continuation. -/
  granted : ∀ (i : Nat) (p : Phase), s.threads[i]? = some p → p.pending = true →
    ∃ ops, (Run.exec step s ops).threads[i]? = some (p.move true).2
  /-- By some continuation all threads return and leave no read lock. -/
  drains : ∃ ops, (∀ p ∈ (Run.exec step s ops).threads, p = .returned) ∧
    (Run.exec step s ops).mutex.readers = 0

/-- Every request has an allowed origin, and `Lock` is called only when no request is between its two
`RLock`s. -/
def Orderly (s : State) : Op → Prop
  | .request r => r.allowed = true
  | .reset => True
  | .go i _ => s.threads[i]? = some .called → ∀ p ∈ s.threads, p.between = false

/-! ## Orderly runs -/

/-- The lock fits the threads, and no request is turned away or, with a writer waiting, between its locks. -/
structure Safe (s : State) : Prop where
  balanced : Phase.shares.Balanced 0 s.mutex s.threads
  allowed : ∀ p ∈ s.threads, p.turnedAway = false
  between : 0 < s.mutex.waiting → ∀ p ∈ s.threads, p.between = false

theorem safe_start : Safe {} := ⟨⟨rfl, rfl, rfl⟩, nofun, nofun⟩

namespace Safe

variable {s : State}

theorem next {op : Op} (h : Safe s) (hop : Orderly s op) : Safe (step s op) := by
  have hstep := stepped s op
  generalize step s op = s' at hstep ⊢
  cases hstep with
  | request r =>
    refine ⟨h.balanced.append rfl rfl rfl, ?_, fun hq => ?_⟩ <;>
      rw [List.forall_mem_append, List.forall_mem_singleton]
    · have hr : r.allowed = true := hop
      exact ⟨h.allowed, by simp [Phase.turnedAway, hr]⟩
    · exact ⟨h.between hq, rfl⟩
  | reset =>
    refine ⟨h.balanced.append rfl rfl rfl, ?_, fun hq => ?_⟩ <;>
      rw [List.forall_mem_append, List.forall_mem_singleton]
    · exact ⟨h.allowed, rfl⟩
    · exact ⟨h.between hq, rfl⟩
  | @go i c p m hi hact =>
    have hp : p ∈ s.threads := List.mem_of_getElem? hi
    have hallowed := h.allowed p hp
    have hfits := Phase.fits (p := p) (fun r hr => by
      subst hr
      simpa [Phase.turnedAway] using hallowed) c
    refine ⟨h.balanced.act hi hfits hact, Update.forall_set h.allowed i ?_, fun hpos => ?_⟩
    · exact Phase.turnedAway_move hallowed c
    · -- a writer that waits has been waiting, or its `Lock` is called now
      have hold : ∀ p ∈ s.threads, p.between = false := by
        rcases Nat.eq_zero_or_pos s.mutex.waiting with hzero | hwas
        · have hcalled : p = .called := by
            rw [← Phase.announce_iff (c := c)]
            have := (RWMutex.act_counts hact).2.1
            by_contra hne
            simp only [hne, ↓reduceIte, hzero] at this
            simp only at hpos
            omega
          exact hop (hcalled ▸ hi)
        · exact h.between hwas
      refine Update.forall_set hold i (Phase.between_move (hold p hp) fun hrlock => ?_)
      rw [hrlock] at hact
      cases RWMutex.acted hact with
      | rlock _ _ _ hq' _ => exact Nat.lt_irrefl 0 (hq' ▸ hpos)
  | blocked i c => exact h

/-- The thread `i` can go on. -/
theorem go {i : Nat} {p : Phase} (h : Safe s) (hi : s.threads[i]? = some p) (hp : p ≠ .returned)
    (hop : p = .called → ∀ q ∈ s.threads, q.between = false)
    (hact : ∃ m, s.mutex.act (p.move false).1 = some m) :
    ∃ op, Safe (step s op) ∧ total Phase.rank (step s op).threads < total Phase.rank s.threads := by
  obtain ⟨m, hact⟩ := hact
  refine ⟨.go i false, h.next fun hcalled => hop (Option.some.inj (hi.symm.trans hcalled)), ?_⟩
  rw [step_go hi hact]
  have hset := RWMutex.total_set (f := Phase.rank) hi (p.move false).2
  have hrank := Phase.rank_move hp
  simp only at hset ⊢
  omega

/-- A thread other than a call of `Reset` that begins. -/
theorem go_of_ne {i : Nat} {p : Phase} (h : Safe s) (hi : s.threads[i]? = some p) (hp : p ≠ .returned ∧ p ≠ .called)
    (hact : ∃ m, s.mutex.act (p.move false).1 = some m) :
    ∃ op, Safe (step s op) ∧ total Phase.rank (step s op).threads < total Phase.rank s.threads :=
  h.go hi hp.1 (fun hcalled => absurd hcalled hp.2) hact

theorem readers_eq_zero (h : Safe s) (hreads : ∀ p ∈ s.threads, Phase.shares.reads p = 0) :
    s.mutex.readers = 0 := by
  rw [h.balanced.reads, Nat.add_zero, RWMutex.total_eq_zero_iff]
  exact hreads

/-- Until all threads have returned, one can go on: the writer if there is one, else a reader, else a
writer that waits, and else any of them. -/
theorem progress (h : Safe s) (hdone : ¬ ∀ p ∈ s.threads, p = .returned) :
    ∃ op, Safe (step s op) ∧ total Phase.rank (step s op).threads < total Phase.rank s.threads := by
  cases hw : s.mutex.writer with
  | true =>
    have hpos : 0 < total Phase.shares.writes s.threads := by
      rw [← h.balanced.writes, hw]
      exact Nat.one_pos
    obtain ⟨p, hp, hwrites⟩ := RWMutex.total_pos_iff.mp hpos
    obtain ⟨i, hi⟩ := List.mem_iff_getElem?.mp hp
    cases p with
    | resetting => exact h.go_of_ne hi (by simp) (RWMutex.exists_unlock hw)
    | _ => cases hwrites
  | false =>
    by_cases hread : ∃ p ∈ s.threads, 0 < Phase.shares.reads p
    · obtain ⟨p, hp, hreads⟩ := hread
      obtain ⟨i, hi⟩ := List.mem_iff_getElem?.mp hp
      have hreaders : 0 < s.mutex.readers := by
        rw [h.balanced.reads]
        exact RWMutex.total_pos_iff.mpr ⟨p, hp, hreads⟩
      cases p with
      | checking r =>
        have hr : r.allowed = true := by simpa [Phase.turnedAway] using h.allowed _ hp
        exact h.go_of_ne hi (by simp) ⟨s.mutex, by simp [Phase.move, hr, RWMutex.act]⟩
      | validating =>
        have hq : s.mutex.waiting = 0 := by
          by_contra hne
          cases h.between (Nat.pos_of_ne_zero hne) _ hp
        exact h.go_of_ne hi (by simp) (RWMutex.exists_rlock hw hq)
      | executing | validated | joined => exact h.go_of_ne hi (by simp) (RWMutex.exists_runlock hreaders)
      | _ => cases hreads
    · have hzero : ∀ p ∈ s.threads, Phase.shares.reads p = 0 := by simpa using hread
      have hreaders := h.readers_eq_zero hzero
      rcases Nat.eq_zero_or_pos s.mutex.waiting with hq | hq
      · obtain ⟨p, hp, hne⟩ : ∃ p ∈ s.threads, p ≠ .returned := by simpa using hdone
        obtain ⟨i, hi⟩ := List.mem_iff_getElem?.mp hp
        have hreads := hzero p hp
        have hwaits := RWMutex.total_eq_zero_iff.mp (h.balanced.waits.symm.trans hq) p hp
        have hwrites := RWMutex.total_eq_zero_iff.mp (h.balanced.writes.symm.trans (congrArg _ hw)) p hp
        cases p with
        | arrived r => exact h.go_of_ne hi (by simp) (RWMutex.exists_rlock hw hq)
        | joining => exact h.go_of_ne hi (by simp) (RWMutex.exists_rlock hw hq)
        | released | session => exact h.go_of_ne hi (by simp) ⟨_, rfl⟩
        | called =>
          exact h.go hi (by simp) (fun _ q hq => Phase.between_of_reads (hzero q hq)) ⟨_, rfl⟩
        | returned => exact absurd rfl hne
        | checking | validating | executing | validated | joined => cases hreads
        | waiting => cases hwaits
        | resetting => cases hwrites
      · obtain ⟨p, hp, hwaits⟩ := RWMutex.total_pos_iff.mp (h.balanced.waits ▸ hq)
        obtain ⟨i, hi⟩ := List.mem_iff_getElem?.mp hp
        cases p with
        | waiting => exact h.go_of_ne hi (by simp) (RWMutex.exists_lock hq hreaders hw)
        | _ => cases hwaits

/-- The threads of a state without deadlock can all return. -/
theorem drains (h : Safe s) : ∃ ops, Safe (Run.exec step s ops) ∧
    ∀ p ∈ (Run.exec step s ops).threads, p = .returned :=
  Run.exists_drain (fun s => ∀ p ∈ s.threads, p = .returned)
    (fun s => total Phase.rank s.threads) (fun _ h hdone => h.progress hdone) h

end Safe

/-- A thread that waits for the mutex and is further on later has been let in. -/
theorem granted_of_moved {s : State} {i : Nat} {p : Phase} (hi : s.threads[i]? = some p)
    (hp : p.pending = true) (ops : List Op) (hmoved : (Run.exec step s ops).threads[i]? ≠ some p) :
    ∃ ops, (Run.exec step s ops).threads[i]? = some (p.move true).2 := by
  induction ops generalizing s with
  | nil => exact absurd hi hmoved
  | cons op ops ih =>
    by_cases hsame : (step s op).threads[i]? = some p
    · obtain ⟨ops', h⟩ := ih hsame hmoved
      exact ⟨op :: ops', h⟩
    · refine ⟨[op], ?_⟩
      have hlt : i < s.threads.length := (List.getElem?_eq_some_iff.mp hi).1
      rw [Run.exec_cons, Run.exec_nil]
      have hstep := stepped s op
      generalize step s op = s' at hstep hsame ⊢
      cases hstep with
      | request | reset => exact absurd (by rw [List.getElem?_append_left hlt, hi]) hsame
      | @go j c q m hj hact =>
        by_cases hij : j = i
        · subst hij
          cases hi.symm.trans hj
          rw [List.getElem?_set_self hlt]
          -- the move of a thread that waits does not depend on the choice
          cases p <;> first | rfl | cases hp
        · exact absurd (by rw [List.getElem?_set_ne hij, hi]) hsame
      | blocked => exact absurd hi hsame

theorem Safe.noDeadlock {s : State} (h : Safe s) : NoDeadlock s := by
  obtain ⟨ops, hsafe, hreturned⟩ := h.drains
  refine ⟨fun hreq => h.readers_eq_zero fun p hp => ?_, fun i p hi hp => ?_, ops, hreturned, ?_⟩
  · have := hreq p hp
    cases p with
    | called | waiting | resetting | returned => rfl
    | _ => cases this
  · refine granted_of_moved hi hp ops fun hstill => ?_
    cases hreturned p (List.mem_of_getElem? hstill)
    cases hp
  · exact hsafe.readers_eq_zero fun p hp => by rw [hreturned p hp]; rfl

/-! ## Runs that are not orderly -/

/-- A read lock is lost or will be, or a request waits for its second one behind a writer that waits for
the first. -/
def Doomed (s : State) : Prop :=
  ∃ k, Phase.shares.Balanced k s.mutex s.threads ∧
    (0 < k ∨ (∃ p ∈ s.threads, p.turnedAway = true) ∨
      0 < s.mutex.waiting ∧ ∃ p ∈ s.threads, p.between = true)

theorem mem_set_or_eq {ts : List Phase} {i : Nat} {p q : Phase} (hi : ts[i]? = some p) (hq : q ∈ ts)
    (r : Phase) : q ∈ ts.set i r ∨ q = p := by
  obtain ⟨j, hj⟩ := List.mem_iff_getElem?.mp hq
  by_cases hij : i = j
  · subst hij
    exact .inr (Option.some.inj (hj.symm.trans hi))
  · exact .inl (List.mem_of_getElem? ((List.getElem?_set_ne hij).trans hj))

/-- A request between its two `RLock`s and a writer that waits keep each other where they are. -/
theorem stuck_move {s : State} {k i : Nat} {c : Bool} {p q : Phase} {m : RWMutex}
    (hbal : Phase.shares.Balanced k s.mutex s.threads) (hwait : 0 < s.mutex.waiting) (hq : q ∈ s.threads)
    (hbetween : q.between = true) (hi : s.threads[i]? = some p)
    (hleak : ∀ r, p = .checking r → r.allowed = true) (hact : s.mutex.act (p.move c).1 = some m) :
    0 < m.waiting ∧ ∃ q ∈ s.threads.set i (p.move c).2, q.between = true := by
  have hreaders : 0 < s.mutex.readers := by
    have hreads : 0 < Phase.shares.reads q := by
      by_contra hzero
      rw [Phase.between_of_reads (Nat.eq_zero_of_not_pos hzero)] at hbetween
      cases hbetween
    have := RWMutex.total_pos_iff.mpr ⟨q, hq, hreads⟩
    have := hbal.reads
    omega
  constructor
  · have hacted := RWMutex.acted hact
    generalize (p.move c).1 = a at hacted
    cases hacted <;> omega
  · rcases mem_set_or_eq hi hq (p.move c).2 with hmem | rfl
    · exact ⟨q, hmem, hbetween⟩
    · refine ⟨_, List.mem_set (List.getElem?_eq_some_iff.mp hi).1 _, ?_⟩
      cases q with
      | checking r =>
        have hr : r.encodes = true := hbetween
        simp [Phase.move, hleak r rfl, hr, Phase.between]
      | validating =>
        cases RWMutex.acted hact with
        | rlock _ hfree => exact absurd hfree (Nat.ne_of_gt hwait)
      | _ => cases hbetween

theorem Doomed.next {s : State} (h : Doomed s) (op : Op) : Doomed (step s op) := by
  obtain ⟨k, hbal, hdoom⟩ := h
  have hstep := stepped s op
  generalize step s op = s' at hstep ⊢
  cases hstep with
  | request | reset =>
    refine ⟨k, hbal.append rfl rfl rfl, hdoom.imp_right (.imp ?_ (.imp_right ?_))⟩ <;>
      exact fun ⟨p, hp, h⟩ => ⟨p, List.mem_append_left _ hp, h⟩
  | blocked => exact ⟨k, hbal, hdoom⟩
  | @go i c p m hi hact =>
    by_cases hleak : ∀ r, p = .checking r → r.allowed = true
    · refine ⟨k, hbal.act hi (Phase.fits hleak c) hact, ?_⟩
      rcases hdoom with hk | ⟨q, hq, haway⟩ | ⟨hwait, q, hq, hbetween⟩
      · exact .inl hk
      · refine .inr (.inl ?_)
        rcases mem_set_or_eq hi hq (p.move c).2 with hmem | rfl
        · exact ⟨q, hmem, haway⟩
        · refine ⟨_, List.mem_set (List.getElem?_eq_some_iff.mp hi).1 _, ?_⟩
          cases q with
          | arrived r => exact haway
          | checking r => simp [Phase.turnedAway, hleak r rfl] at haway
          | _ => cases haway
      · exact .inr (.inr (stuck_move hbal hwait hq hbetween hi hleak hact))
    · -- the request returns with its read lock
      obtain ⟨r, rfl, hr⟩ : ∃ r, p = .checking r ∧ r.allowed = false := by simpa using hleak
      simp only [Phase.move, hr, Bool.false_eq_true, ↓reduceIte] at hact ⊢
      cases hact
      exact ⟨k + 1, hbal.forget hi rfl rfl rfl, .inl k.succ_pos⟩

theorem Doomed.not_noDeadlock {s : State} (h : Doomed s) : ¬ NoDeadlock s := by
  intro hok
  obtain ⟨ops, hreturned, hreaders⟩ := hok.drains
  obtain ⟨k, hbal, hdoom⟩ := Run.exec_invariant (fun _ op h => h.next op) ops h
  have hreads := hbal.reads
  rcases hdoom with hk | ⟨p, hp, haway⟩ | ⟨-, p, hp, hbetween⟩
  · omega
  · rw [hreturned p hp] at haway
    cases haway
  · rw [hreturned p hp] at hbetween
    cases hbetween

theorem Safe.doomed {s : State} {op : Op} (h : Safe s) (hop : ¬ Orderly s op) : Doomed (step s op) := by
  cases op with
  | request r =>
    have hr : r.allowed = false := eq_false_of_ne_true hop
    exact ⟨0, h.balanced.append rfl rfl rfl, .inr (.inl ⟨.arrived r,
      List.mem_append_right _ List.mem_cons_self, by simp [Phase.turnedAway, hr]⟩)⟩
  | reset => exact absurd trivial hop
  | go i c =>
    obtain ⟨hi, p, hp, hbetween⟩ :
        s.threads[i]? = some .called ∧ ∃ p ∈ s.threads, p.between = true := by
      simpa [Orderly] using hop
    have hfits := Phase.fits (p := .called) nofun c
    rw [step_go hi rfl]
    refine ⟨0, h.balanced.act hi hfits rfl, .inr (.inr ⟨Nat.succ_pos _, p, ?_, hbetween⟩)⟩
    rcases mem_set_or_eq hi hp (Phase.move .called c).2 with hmem | rfl
    · exact hmem
    · cases hbetween

/-- No state of a run is a deadlock, exactly if every request comes from an allowed origin and `Reset`
calls `Lock` only when no request is between its two `RLock`s. -/
theorem noDeadlock_everywhere_iff (ops : List Op) :
    (∀ pre post, ops = pre ++ post → NoDeadlock (Run.exec step {} pre)) ↔
      Run.Along step Orderly {} ops := by
  refine Run.Along.always_iff (I := Safe) ?_ ?_ safe_start safe_start.noDeadlock
  · intro s op hsafe _ hop
    exact ⟨hsafe.next hop, (hsafe.next hop).noDeadlock⟩
  · intro s op hsafe _ hok
    by_contra hop
    exact (hsafe.doomed hop).not_noDeadlock hok

/-- A request is turned away and returns with the read lock, and a `Reset` waits for it. In another run a
`Reset` waits for a request that is in `exec`, and `exec` waits for the `Reset`. -/
theorem turned_away_keeps_lock :
    Run.exec step {} [.request ⟨false, true⟩, .go 0 false, .go 0 false, .reset, .go 1 false, .go 1 false] =
        ⟨{ readers := 1, waiting := 1 }, [.returned, .waiting]⟩ ∧
      Run.exec step {} [.request ⟨true, true⟩, .go 0 false, .go 0 false, .reset, .go 1 false, .go 1 false,
          .go 0 false] =
        ⟨{ readers := 1, waiting := 1 }, [.validating, .waiting]⟩ := by
  decide

end RoadRunner.Websockets.Locking
