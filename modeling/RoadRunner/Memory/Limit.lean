import RoadRunner.Memory.Jobs
import RoadRunner.Lib.Run
import RoadRunner.Lib.Counter

/-!
# The limit on waiting goroutines

For a delayed job `handleItem` compares `goroutines` with `goroutinesMax` and then starts a goroutine,
which adds itself to `goroutines` when it runs. `handleItem` of `Memory/Jobs.lean` makes the test and the
`go` statement at once; here they are two steps (`handleItem_eq_check_spawn`), and any other step can come
between them.

* `State.started`: the delayed jobs that wait, and those that will once their goroutines run.
  `waiting_le_iff_started_le`: the goroutines can run in such an order that all of them wait at the same time.
* `waiting_le_everywhere_iff`: which runs stay under the limit.
-/

namespace RoadRunner.Memory.Limit

open Consumer

/-- A consumer, with the calls that have passed the test. -/
structure State where
  c : Consumer
  /-- The messages of the `handleItem` calls between the test and the `go` statement. -/
  checked : List Job := []

/-- What can happen. -/
inductive Act where
  /-- A `handleItem` of a delayed job makes the test. -/
  | check (msg : Job)
  /-- The `n`-th call after its test runs the `go` statement. -/
  | spawn (n : Nat)
  | op (op : Op)

/-- The test of `handleItem`, with the error it returns. -/
def check (msg : Job) (s : State) : Option Err × State :=
  if goroutinesMax ≤ s.c.goroutines then
    (some (.op "ephemeral_handle_request" (.str "max concurrency number reached")), s)
  else (none, { s with checked := s.checked ++ [msg] })

/-- One step. -/
def step (s : State) : Act → State
  | .check msg => if isDelayed msg then (check msg s).2 else s
  | .spawn n =>
    match s.checked[n]? with
    | none => s
    | some msg =>
      { c := { s.c with spawned := s.c.spawned ++ [msg] }, checked := s.checked.eraseIdx n }
  | .op op => { s with c := Memory.step s.c op }

/-- Without a step in between, the two steps are `handleItem`. -/
theorem handleItem_eq_check_spawn {msg : Job} (hd : isDelayed msg = true) (expires ready : Bool) (s : State) :
    Run.exec step s [.check msg, .spawn s.checked.length] =
      { s with c := (s.c.handleItem expires ready msg).2 } := by
  have hpos : 0 < msg.options.delay := of_decide_eq_true hd
  by_cases hmax : goroutinesMax ≤ s.c.goroutines
  · simp [step, hd, check, handleItem, hpos, hmax]
  · simp [step, hd, check, handleItem, hpos, hmax, List.eraseIdx_append_of_length_le]

namespace State

/-- The delayed jobs that wait. -/
def waiting (s : State) : Nat := s.c.sleeping.length

/-- Those that passed the test and have not been counted yet. -/
def uncounted (s : State) : Nat := s.checked.length + s.c.spawned.length

/-- The jobs that wait, or will. -/
def started (s : State) : Nat := s.uncounted + s.waiting

end State

/-! ## Goroutines that have been started -/

/-- A step of a call or of a goroutine that has passed the test. -/
def Starts : Act → Prop
  | .spawn _ => True
  | .op (.begin _) => True
  | _ => False

theorem started_of_starts (s : State) {a : Act} (ha : Starts a) : (step s a).started = s.started := by
  match a with
  | .spawn n =>
    simp only [step]
    split
    case h_1 => rfl
    case h_2 msg hn =>
      have hlt := (List.getElem?_eq_some_iff.mp hn).1
      simp only [State.started, State.uncounted, State.waiting, List.length_eraseIdx_of_lt hlt,
        List.length_append, List.length_singleton]
      omega
  | .op (.begin n) =>
    simp only [step, Memory.step]
    split
    case h_1 => rfl
    case h_2 jj hn =>
      have hlt := (List.getElem?_eq_some_iff.mp hn).1
      simp only [State.started, State.uncounted, State.waiting, Consumer.begin,
        List.length_eraseIdx_of_lt hlt, List.length_append, List.length_singleton]
      omega

theorem exec_spawn (c : Consumer) (checked : List Job) :
    Run.exec step ⟨c, checked⟩ (List.replicate checked.length (.spawn 0)) =
      ⟨{ c with spawned := c.spawned ++ checked }, []⟩ := by
  induction checked generalizing c with
  | nil => simp
  | cons msg checked ih =>
    rw [List.length_cons, List.replicate_succ, Run.exec_cons]
    refine (ih { c with spawned := c.spawned ++ [msg] }).trans ?_
    simp

theorem exec_begin (c : Consumer) (checked spawned : List Job) (hspawned : c.spawned = spawned) :
    (Run.exec step ⟨c, checked⟩ (List.replicate spawned.length (.op (.begin 0)))).waiting =
      c.sleeping.length + spawned.length := by
  induction spawned generalizing c with
  | nil => rfl
  | cons jj spawned ih =>
    rw [List.length_cons, List.replicate_succ, Run.exec_cons]
    have hstep : step ⟨c, checked⟩ (.op (.begin 0)) = ⟨{ c with spawned }.begin jj, checked⟩ := by
      simp [step, Memory.step, hspawned]
    rw [hstep]
    refine (ih _ rfl).trans ?_
    simp only [Consumer.begin, List.length_append, List.length_singleton]
    omega

/-- The `go` statements and the goroutines run: all of them wait. -/
theorem exists_all_waiting (s : State) :
    ∃ rest, (∀ a ∈ rest, Starts a) ∧ (Run.exec step s rest).waiting = s.started := by
  refine ⟨List.replicate s.checked.length (.spawn 0) ++
    List.replicate (s.c.spawned ++ s.checked).length (.op (.begin 0)), ?_, ?_⟩
  · intro a ha
    rcases List.mem_append.mp ha with ha | ha
    · rw [List.eq_of_mem_replicate ha]; trivial
    · rw [List.eq_of_mem_replicate ha]; trivial
  · rw [Run.exec, List.foldl_append, ← Run.exec, ← Run.exec, exec_spawn, exec_begin _ _ _ rfl]
    simp only [State.started, State.uncounted, State.waiting, List.length_append]
    omega

/-- No order of the goroutines that are started has more than `m` waiting, exactly if no more than `m` are
started. -/
theorem waiting_le_iff_started_le (s : State) (m : Nat) :
    (∀ rest, (∀ a ∈ rest, Starts a) → (Run.exec step s rest).waiting ≤ m) ↔ s.started ≤ m := by
  constructor
  · intro h
    obtain ⟨rest, hrest, hall⟩ := exists_all_waiting s
    exact hall ▸ h rest hrest
  · intro h rest hrest
    have hsame : (Run.exec step s rest).started = s.started :=
      Run.Along.invariant (C := fun _ => Starts) (I := fun t => t.started = s.started)
        (fun t a ht ha => (started_of_starts t ha).trans ht) rfl (Run.Along.of_forall s hrest)
    have hle : (Run.exec step s rest).waiting ≤ (Run.exec step s rest).started := Nat.le_add_left _ _
    omega

/-! ## Runs -/

/-- The action makes the test for a delayed job, and passes. -/
def Passes (s : State) (a : Act) : Prop :=
  s.c.goroutines < goroutinesMax ∧
    match a with
    | .check msg => isDelayed msg = true
    | .op (.push registered _ job) => registered = true ∧ isDelayed job = true
    | .op (.requeue n headers delay _) =>
      ∃ i, s.c.pq[n]? = some i ∧ isDelayed (requeued headers delay i) = true
    | _ => False

/-- What an action does to the numbers that the limit is about. -/
inductive Moved (s : State) (a : Act) (s' : State) : Prop where
  | same (hp : ¬ Passes s a) (hu : s'.uncounted = s.uncounted) (hw : s'.waiting = s.waiting)
      (hg : s'.c.goroutines = s.c.goroutines)
  | passed (hp : Passes s a) (hu : s'.uncounted = s.uncounted + 1) (hw : s'.waiting = s.waiting)
      (hg : s'.c.goroutines = s.c.goroutines)
  | counted (hp : ¬ Passes s a) (hu : s'.uncounted + 1 = s.uncounted) (hw : s'.waiting = s.waiting + 1)
      (hg : s'.c.goroutines = s.c.goroutines + 1)
  | woke (hp : ¬ Passes s a) (hu : s'.uncounted = s.uncounted) (hw : s'.waiting + 1 = s.waiting)
      (hg : s'.c.goroutines = s.c.goroutines + ~~~0 ∨ s'.c.goroutines = s.c.goroutines)

theorem Moved.of_eq {s s' t : State} {a : Act} (h : Moved s a t) (hu : s'.uncounted = t.uncounted)
    (hw : s'.waiting = t.waiting) (hg : s'.c.goroutines = t.c.goroutines) : Moved s a s' := by
  cases h with
  | same hp hu' hw' hg' => exact .same hp (hu.trans hu') (hw.trans hw') (hg.trans hg')
  | passed hp hu' hw' hg' => exact .passed hp (hu.trans hu') (hw.trans hw') (hg.trans hg')
  | counted hp hu' hw' hg' => exact .counted hp (by omega) (hw.trans hw') (hg.trans hg')
  | woke hp hu' hw' hg' => exact .woke hp (hu.trans hu') (by omega) (hg'.imp hg.trans hg.trans)

/-- A `handleItem` that the action `a` runs in one step, in a consumer that has the same delayed jobs. -/
theorem moved_handled {s : State} {a : Act} {msg : Job} {c : Consumer} {r : Outcome × Consumer}
    (h : Handled msg c r) (hp : Passes s a ↔ s.c.goroutines < goroutinesMax ∧ isDelayed msg = true)
    (hspawned : c.spawned = s.c.spawned) (hsleeping : c.sleeping = s.c.sleeping)
    (hgoroutines : c.goroutines = s.c.goroutines) : Moved s a { s with c := r.2 } := by
  cases h with
  | rejected hd hmax =>
    refine .same (fun hpass => hmax ?_) ?_ (congrArg List.length hsleeping) hgoroutines
    · rw [hgoroutines]; exact (hp.mp hpass).1
    · rw [State.uncounted, State.uncounted, hspawned]
  | spawned hd hmax =>
    refine .passed (hp.mpr ⟨hgoroutines ▸ hmax, hd⟩) ?_ (congrArg List.length hsleeping) hgoroutines
    simp only [State.uncounted, hspawned, List.length_append, List.length_singleton]
    omega
  | queued hd =>
    refine .same (fun hpass => ?_) ?_ (congrArg List.length hsleeping) hgoroutines
    · exact Bool.false_ne_true (hd.symm.trans (hp.mp hpass).2)
    · rw [State.uncounted, State.uncounted, hspawned]
  | blocked hd =>
    refine .same (fun hpass => ?_) ?_ (congrArg List.length hsleeping) hgoroutines
    · exact Bool.false_ne_true (hd.symm.trans (hp.mp hpass).2)
    · rw [State.uncounted, State.uncounted, hspawned]

theorem moved_check (s : State) (msg : Job) : Moved s (.check msg) (step s (.check msg)) := by
  simp only [step, check]
  split
  case isTrue hd =>
    split
    case isTrue hmax => exact .same (fun hp => UInt64.not_lt.mpr hmax hp.1) rfl rfl rfl
    case isFalse hmax =>
      refine .passed ⟨UInt64.not_le.mp hmax, hd⟩ ?_ rfl rfl
      simp only [State.uncounted, List.length_append, List.length_singleton]
      omega
  case isFalse hd => exact .same (fun hp => hd hp.2) rfl rfl rfl

theorem moved_spawn (s : State) (n : Nat) : Moved s (.spawn n) (step s (.spawn n)) := by
  simp only [step]
  split
  case h_1 => exact .same (fun hp => hp.2) rfl rfl rfl
  case h_2 msg hn =>
    have hlt := (List.getElem?_eq_some_iff.mp hn).1
    refine .same (fun hp => hp.2) ?_ rfl rfl
    simp only [State.uncounted, List.length_eraseIdx_of_lt hlt, List.length_append, List.length_singleton]
    omega

theorem moved_push (s : State) (registered ready : Bool) (job : Job) :
    Moved s (.op (.push registered ready job)) (step s (.op (.push registered ready job))) := by
  cases registered with
  | false => exact .same (fun hp => Bool.false_ne_true hp.2.1) rfl rfl rfl
  | true =>
    have hr := handleItem_handled true ready job s.c
    have hpush : (s.c.push true ready job).2 = (s.c.handleItem true ready job).2 := by
      simp only [push, ↓reduceIte]
      split
      case h_1 heq => rw [heq]
      case h_2 => rfl
    simp only [step, Memory.step, hpush]
    exact moved_handled hr ⟨fun hp => ⟨hp.1, hp.2.2⟩, fun h => ⟨h.1, rfl, h.2⟩⟩ rfl rfl rfl

theorem moved_requeue (s : State) (n : Nat) (headers : Headers) (delay : Int64) (ready : Bool) :
    Moved s (.op (.requeue n headers delay ready)) (step s (.op (.requeue n headers delay ready))) := by
  have hstep := stepped s.c (.requeue n headers delay ready)
  simp only [step]
  generalize Memory.step s.c (.requeue n headers delay ready) = c' at hstep
  cases hstep with
  | idle _ hidle =>
    refine .same (fun hp => ?_) rfl rfl rfl
    obtain ⟨i, hi, -⟩ := hp.2
    rw [hidle n headers delay ready rfl] at hi
    cases hi
  | requeued hn hr =>
    have hmoved := moved_handled (s := s) (a := .op (.requeue n headers delay ready)) hr
      ⟨fun ⟨hmax, i, hi, hd⟩ => ⟨hmax, (Option.some.inj (hn.symm.trans hi)) ▸ hd⟩,
        fun ⟨hmax, hd⟩ => ⟨hmax, _, hn, hd⟩⟩
      (by unfold atomicallyReduceCount; split <;> rfl) (by unfold atomicallyReduceCount; split <;> rfl)
      (by unfold atomicallyReduceCount; split <;> rfl)
    refine hmoved.of_eq ?_ ?_ ?_
    all_goals cases hr <;> rfl

theorem moved_begin (s : State) (n : Nat) : Moved s (.op (.begin n)) (step s (.op (.begin n))) := by
  have hstep := stepped s.c (.begin n)
  simp only [step]
  generalize Memory.step s.c (.begin n) = c' at hstep
  cases hstep with
  | idle => exact .same (fun hp => hp.2) rfl rfl rfl
  | began hn =>
    have hlt := (List.getElem?_eq_some_iff.mp hn).1
    refine .counted (fun hp => hp.2) ?_ ?_ rfl
    · simp only [State.uncounted, Consumer.begin, List.length_eraseIdx_of_lt hlt]
      omega
    · simp [State.waiting, Consumer.begin]

theorem moved_wake (s : State) (n : Nat) (ready : Bool) :
    Moved s (.op (.wake n ready)) (step s (.op (.wake n ready))) := by
  have hstep := stepped s.c (.wake n ready)
  simp only [step]
  generalize Memory.step s.c (.wake n ready) = c' at hstep
  cases hstep with
  | idle => exact .same (fun hp => hp.2) rfl rfl rfl
  | woke hn =>
    have hlt := (List.getElem?_eq_some_iff.mp hn).1
    -- the new counter as a variable, so that it is not computed where the records are compared
    obtain ⟨g, hg⟩ : ∃ g, g = s.c.goroutines + ~~~0 := ⟨_, rfl⟩
    rw [← hg]
    refine .woke (fun hp => hp.2) rfl ?_ (.inl hg)
    simp only [State.waiting, List.length_eraseIdx_of_lt hlt]
    omega
  | dropped hn =>
    have hlt := (List.getElem?_eq_some_iff.mp hn).1
    refine .woke (fun hp => hp.2) rfl ?_ (.inr rfl)
    simp only [State.waiting, List.length_eraseIdx_of_lt hlt]
    omega

theorem moved_op (s : State) (op : Op) : Moved s (.op op) (step s (.op op)) := by
  have hstep := stepped s.c op
  cases op with
  | push registered ready job => exact moved_push s registered ready job
  | requeue n headers delay ready => exact moved_requeue s n headers delay ready
  | begin n => exact moved_begin s n
  | wake n ready => exact moved_wake s n ready
  | consume =>
    simp only [step]
    generalize Memory.step s.c .consume = c' at hstep
    cases hstep <;> exact .same (fun hp => hp.2) rfl rfl rfl
  | enter n ready =>
    simp only [step]
    generalize Memory.step s.c (.enter n ready) = c' at hstep
    cases hstep <;> exact .same (fun hp => hp.2) rfl rfl rfl
  | expire n =>
    simp only [step]
    generalize Memory.step s.c (.expire n) = c' at hstep
    cases hstep <;> exact .same (fun hp => hp.2) rfl rfl rfl
  | ack n =>
    simp only [step]
    generalize Memory.step s.c (.ack n) = c' at hstep
    cases hstep with
    | idle => exact .same (fun hp => hp.2) rfl rfl rfl
    | acked =>
      unfold atomicallyReduceCount
      split <;> exact .same (fun hp => hp.2) rfl rfl rfl

theorem moved (s : State) (a : Act) : Moved s a (step s a) := by
  cases a with
  | check msg => exact moved_check s msg
  | spawn n => exact moved_spawn s n
  | op op => exact moved_op s op

/-- However the goroutines that are started are run, no more than `goroutinesMax` jobs wait at a time. -/
def Bounded (s : State) : Prop :=
  ∀ rest, (∀ a ∈ rest, Starts a) → (Run.exec step s rest).waiting ≤ goroutinesMax.toNat

/-- A call that passes the test finds fewer than `goroutinesMax` jobs started. -/
def FindsRoom (s : State) (a : Act) : Prop := Passes s a → s.started < goroutinesMax.toNat

/-- In every state of a run no more than `goroutinesMax` delayed jobs can come to wait at a time, if and only
if every call that passes the test finds fewer delayed jobs that wait or have passed it before. -/
theorem waiting_le_everywhere_iff (cfg : Option Config) (prefetch : Nat) (priority : Int64) (acts : List Act) :
    (∀ pre post, acts = pre ++ post → Bounded (Run.exec step ⟨{ cfg, prefetch, priority }, []⟩ pre)) ↔
      Run.Along step FindsRoom ⟨{ cfg, prefetch, priority }, []⟩ acts := by
  have hall : ∀ s : State, Bounded s ↔ s.started ≤ goroutinesMax.toNat :=
    fun s => waiting_le_iff_started_le s _
  refine Run.Along.always_iff (I := fun _ => True) ?_ ?_ trivial ((hall _).mpr (Nat.zero_le _))
  · intro s a _ hs hroom
    rw [hall, State.started] at hs
    rw [FindsRoom, State.started] at hroom
    refine ⟨trivial, (hall _).mpr ?_⟩
    rw [State.started]
    cases moved s a with
    | same _ hu hw => omega
    | passed hp hu hw =>
      have := hroom hp
      omega
    | counted _ hu hw => omega
    | woke _ hu hw => omega
  · intro s a _ _ hs hp
    rw [hall, State.started] at hs
    rw [State.started]
    cases moved s a with
    | passed _ hu hw => omega
    | same hnot => exact absurd hp hnot
    | counted hnot => exact absurd hp hnot
    | woke hnot => exact absurd hp hnot

/-! ## Calls that overlap -/

/-- `n` calls make the test one after the other, and then their goroutines run. -/
def overlapping (n : Nat) (msg : Job) : List Act :=
  List.replicate n (.check msg) ++ List.replicate n (.spawn 0) ++ List.replicate n (.op (.begin 0))

theorem exec_check {msg : Job} (hd : isDelayed msg = true) {c : Consumer} (hmax : c.goroutines < goroutinesMax)
    (checked : List Job) (n : Nat) :
    Run.exec step ⟨c, checked⟩ (List.replicate n (.check msg)) = ⟨c, checked ++ List.replicate n msg⟩ := by
  induction n generalizing checked with
  | zero => simp
  | succ n ih =>
    have hstep : step ⟨c, checked⟩ (.check msg) = ⟨c, checked ++ [msg]⟩ := by
      simp [step, check, hd, UInt64.not_le.mpr hmax]
    rw [List.replicate_succ, Run.exec_cons, hstep, ih, List.append_assoc]
    rfl

/-- All of them wait, whatever their number. -/
theorem waiting_overlapping (n : Nat) {msg : Job} (hd : isDelayed msg = true) (cfg : Option Config)
    (prefetch : Nat) (priority : Int64) :
    (Run.exec step ⟨{ cfg, prefetch, priority }, []⟩ (overlapping n msg)).waiting = n := by
  have hzero : (0 : UInt64) < goroutinesMax := by decide
  have hspawn := exec_spawn { cfg, prefetch, priority } (List.replicate n msg)
  have hbegin := exec_begin { cfg, prefetch, priority, spawned := List.replicate n msg } [] _ rfl
  rw [List.length_replicate] at hspawn hbegin
  rw [overlapping, Run.exec, List.foldl_append, List.foldl_append, ← Run.exec, ← Run.exec, ← Run.exec,
    exec_check hd hzero, List.nil_append, hspawn]
  refine hbegin.trans ?_
  simp

/-- 1001 calls make the test before the first goroutine runs: 1001 jobs wait. -/
theorem limit_exceeded :
    let s := Run.exec step ⟨{ cfg := none, prefetch := 10, priority := 10 }, []⟩
      (overlapping 1001 (plainJob (ascii "1") 5))
    s.waiting = 1001 ∧ goroutinesMax.toNat < s.waiting := by
  intro s
  have hs : s.waiting = 1001 := waiting_overlapping 1001 (by decide) none 10 10
  exact ⟨hs, hs ▸ by decide⟩

end RoadRunner.Memory.Limit
