import RoadRunner.Basic
import RoadRunner.Lib.Run

/-!
# Run, Pause and Resume of the NATS consumer

The model of the three calls of `nats/natsjobs/consumer.go`, one at a time, with `listenerInit` and the
life of the goroutine of `listenerStart`: it is started by `Run` or `Resume` and ends when it receives
from `stopCh`. That channel is unbuffered, so the send in `Pause` waits for a goroutine to receive.

`Run` counts the listener before it subscribes and `Resume` after. When the subscription of `Run` fails,
the listener is counted and none is there.

* `inStep_iff_runs_subscribe`: it holds after every call exactly if no `Run` fails to subscribe.
-/

namespace RoadRunner.Nats.Lifecycle

/-- The part of the consumer that the calls read and write. -/
structure State where
  /-- The name of the registered pipeline. -/
  pipeline : Bytes
  listeners : UInt32 := 0
  /-- Whether `sub` is set. -/
  sub : Bool := false
  /-- How many goroutines of `listenerStart` run. -/
  goroutines : Nat := 0
  /-- A `Pause` sends on `stopCh`, and nobody receives. -/
  waits : Bool := false
  deriving DecidableEq

/-- A call, with whether its subscription, if it makes one, succeeds. -/
inductive Call where
  | run (p : Bytes) (subscribes : Bool)
  | pause (p : Bytes)
  | resume (p : Bytes) (subscribes : Bool)
  deriving DecidableEq

namespace State

/-- `listenerInit`. -/
def listenerInit (subscribes : Bool) (s : State) : Option Err × State :=
  (if subscribes then none else some (.lib "ChanSubscribe"), { s with sub := subscribes })

/-- `go c.listenerStart()`. -/
def listenerStart (s : State) : State := { s with goroutines := s.goroutines + 1 }

/-- `Run`. -/
def run (p : Bytes) (subscribes : Bool) (s : State) : Option Err × State :=
  if s.pipeline ≠ p then
    (some (.op "nats_run" (.errorf "no such pipeline registered: %s" (.str s.pipeline.text))), s)
  else if s.listeners = 1 then (none, s)
  else
    match listenerInit subscribes { s with listeners := s.listeners + 1 } with
    | (some err, s) => (some (.op "nats_run" err), s)
    | (none, s) => (none, s.listenerStart)

/-- `Pause`. A name that is not the pipeline's is logged, and the call goes on; so does it when `Drain`
fails. -/
def pause (s : State) : State :=
  if s.listeners = 0 then s
  else if s.goroutines = 0 then { s with listeners := s.listeners + ~~~0, waits := true }
  else { s with listeners := s.listeners + ~~~0, goroutines := s.goroutines - 1, sub := false }

/-- `Resume`, where a wrong name is only logged, too. -/
def resume (subscribes : Bool) (s : State) : State :=
  if s.listeners = 1 then s
  else
    match s.listenerInit subscribes with
    | (some _, s) => s
    | (none, s) => { s.listenerStart with listeners := s.listeners + 1 }

end State

/-- The next call, if the last one has returned. -/
def step (s : State) (call : Call) : State :=
  if s.waits then s
  else match call with
    | .run p subscribes => (s.run p subscribes).2
    | .pause _ => s.pause
    | .resume _ subscribes => s.resume subscribes

/-- The counter and the goroutines are in step, and the last call has returned. -/
structure InStep (s : State) : Prop where
  returned : s.waits = false
  listens : s.listeners = 1 ↔ 0 < s.goroutines
  idle : s.listeners ≠ 1 → s.listeners = 0

/-- A `Run` that gets as far as its subscription makes it. -/
def Subscribes (s : State) : Call → Prop
  | .run p subscribes => s.pipeline = p → s.listeners ≠ 1 → subscribes = true
  | _ => True

instance (s : State) (call : Call) : Decidable (Subscribes s call) := by
  cases call <;> unfold Subscribes <;> infer_instance

/-- At most one goroutine listens. -/
def Single (s : State) : Prop := s.goroutines ≤ 1

variable {s : State}

/-- What a state in step looks like. -/
theorem InStep.cases (h : InStep s) (hone : Single s) :
    (s.listeners = 0 ∧ s.goroutines = 0) ∨ (s.listeners = 1 ∧ s.goroutines = 1) := by
  unfold Single at hone
  by_cases hl : s.listeners = 1
  · have := h.listens.mp hl
    exact .inr ⟨hl, by omega⟩
  · have := mt h.listens.mpr hl
    exact .inl ⟨h.idle hl, by omega⟩

theorem inStep_idle (hw : s.waits = false) (hl : s.listeners = 0) (hg : s.goroutines = 0) : InStep s :=
  ⟨hw, by simp [hl, hg], fun _ => hl⟩

theorem inStep_listening (hw : s.waits = false) (hl : s.listeners = 1) (hg : s.goroutines = 1) : InStep s :=
  ⟨hw, by simp [hl, hg], fun hne => absurd hl hne⟩

/-! ### One call -/

theorem inStep_run (h : InStep s) (hone : Single s) (p : Bytes) (subscribes : Bool)
    (hsub : Subscribes s (.run p subscribes)) :
    Single (s.run p subscribes).2 ∧ InStep (s.run p subscribes).2 := by
  by_cases hp : s.pipeline = p
  · rcases h.cases hone with ⟨hl, hg⟩ | ⟨hl, hg⟩
    · obtain rfl : subscribes = true := hsub hp (by simp [hl])
      have hrun : (s.run p true).2 = { s with listeners := 1, goroutines := 1, sub := true } := by
        simp [State.run, State.listenerInit, State.listenerStart, hp, hl, hg]
      rw [hrun]
      exact ⟨Nat.le_refl 1, inStep_listening h.returned rfl rfl⟩
    · have hrun : (s.run p subscribes).2 = s := by simp [State.run, hp, hl]
      rw [hrun]
      exact ⟨hone, h⟩
  · have hrun : (s.run p subscribes).2 = s := by simp [State.run, hp]
    rw [hrun]
    exact ⟨hone, h⟩

/-- A `Run` that fails to subscribe leaves a listener counted that is not there. -/
theorem subscribes_of_run {p : Bytes} {subscribes : Bool} (h : InStep s)
    (h' : InStep (s.run p subscribes).2) : Subscribes s (.run p subscribes) := by
  intro hp hl
  by_contra hfails
  obtain rfl : subscribes = false := Bool.not_eq_true _ ▸ hfails
  have hnone : ¬ 0 < s.goroutines := mt h.listens.mpr hl
  have hlistens := h'.listens
  simp [State.run, State.listenerInit, hp, h.idle hl] at hlistens
  omega

theorem inStep_pause (h : InStep s) (hone : Single s) : Single s.pause ∧ InStep s.pause := by
  rcases h.cases hone with ⟨hl, hg⟩ | ⟨hl, hg⟩
  · rw [State.pause, if_pos hl]
    exact ⟨hone, h⟩
  · have hpause : s.pause = { s with listeners := 0, goroutines := 0, sub := false } := by
      have hdec : s.listeners + ~~~0 = 0 := by rw [hl]; decide
      rw [State.pause, if_neg (by simp [hl]), if_neg (by simp [hg]), hdec, hg]
    rw [hpause]
    exact ⟨Nat.zero_le 1, inStep_idle h.returned rfl rfl⟩

theorem inStep_resume (h : InStep s) (hone : Single s) (subscribes : Bool) :
    Single (s.resume subscribes) ∧ InStep (s.resume subscribes) := by
  rcases h.cases hone with ⟨hl, hg⟩ | ⟨hl, hg⟩
  · cases subscribes with
    | false =>
      have hresume : s.resume false = { s with sub := false } := by
        simp [State.resume, State.listenerInit, hl]
      rw [hresume]
      exact ⟨hone, inStep_idle h.returned hl hg⟩
    | true =>
      have hresume : s.resume true = { s with listeners := 1, goroutines := 1, sub := true } := by
        simp [State.resume, State.listenerInit, State.listenerStart, hl, hg]
      rw [hresume]
      exact ⟨Nat.le_refl 1, inStep_listening h.returned rfl rfl⟩
  · rw [State.resume, if_pos hl]
    exact ⟨hone, h⟩

/-- After every call of a run the counter and the goroutines are in step, and the call has returned,
exactly if every `Run` that gets as far as its subscription makes it. -/
theorem inStep_iff_runs_subscribe (pipeline : Bytes) (calls : List Call) :
    (∀ pre post, calls = pre ++ post → InStep (Run.exec step { pipeline } pre)) ↔
      Run.Along step Subscribes { pipeline } calls := by
  refine Run.Along.always_iff (I := Single) ?_ ?_ (Nat.zero_le 1) (inStep_idle rfl rfl rfl)
  · intro s call hone h hsub
    simp only [step, h.returned]
    cases call with
    | run p subscribes => exact inStep_run h hone p subscribes hsub
    | pause p => exact inStep_pause h hone
    | resume p subscribes => exact inStep_resume h hone subscribes
  · intro s call _ h h'
    simp only [step, h.returned] at h'
    cases call with
    | run p subscribes => exact subscribes_of_run h h'
    | pause p => trivial
    | resume p subscribes => trivial

/-- The subscription of `Run` fails. `Resume` takes the listener for a running one, and `Pause` waits for
it for ever. -/
theorem failed_run_blocks_pause :
    Run.exec step { pipeline := ascii "q" } [.run (ascii "q") false, .resume (ascii "q") true] =
        { pipeline := ascii "q", listeners := 1 } ∧
      (Run.exec step { pipeline := ascii "q" }
        [.run (ascii "q") false, .resume (ascii "q") true, .pause (ascii "q")]).waits = true := by
  decide

end RoadRunner.Nats.Lifecycle
