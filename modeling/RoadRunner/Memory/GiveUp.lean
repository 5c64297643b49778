import RoadRunner.Memory.Jobs
import RoadRunner.Broker.Item
import RoadRunner.Lib.Run

/-!
# A `Push` of the in-memory jobs driver that gives up

When the context of a `Push` expires while the local queue is full, `handleItem` returns an error. It has
counted the job as active before, and the text of the error reads the prefetch limit from the configuration,
which a consumer that `FromPipeline` built does not have.

* `cleanFailure_iff`: a call is clean exactly if it does not give up.
-/

namespace RoadRunner.Memory

open Consumer

/-- How a consumer is built. -/
inductive Build where
  | config (configKey : String) (unmarshalled : Except Err (Option Config))
  | pipeline (priority : Int64) (prefetch : Option Nat)

/-- One of the two constructors. -/
def Build.run : Build → Except Err Consumer
  | .config key unmarshalled => fromConfig key unmarshalled
  | .pipeline priority prefetch => .ok (fromPipeline priority prefetch)

/-- The constructor is the one for a pipeline. -/
def Build.isPipeline : Build → Bool
  | .config .. => false
  | .pipeline .. => true

namespace Consumer

/-- The return of `handleItem` once `ctx.Done()` is closed, for the context's error `ctxErr`: `c.cfg` is
dereferenced. -/
def contextError (ctxErr : Err) (c : Consumer) : Broker.Result Err := do
  let cfg ← .deref c.cfg
  return .op "ephemeral_handle_request" (.errorf₂
    "local pipeline is full, consider to increase prefetch number, current limit: %d, context error: %v"
    (.str (toString cfg.prefetch)) ctxErr)

/-- The call of `handleItem` that waits for the local queue until its context expires: the error, or a
panic, and the consumer after it. `none` if the call does not come to wait. -/
def giveUp (ctxErr : Err) (ready : Bool) (msg : Job) (c : Consumer) : Option (Broker.Result Err × Consumer) :=
  match c.handleItem true ready msg with
  | (.blocks, c') => some (c'.contextError ctxErr, step c' (.expire c.blocked.length))
  | _ => none

/-- If the call gives up, it returns an error, and the counters and the local queue are as before. -/
def CleanFailure (ctxErr : Err) (ready : Bool) (msg : Job) (c : Consumer) : Prop :=
  ∀ r c', c.giveUp ctxErr ready msg = some (r, c') →
    (∃ err, r = .ok err) ∧ c'.active = c.active ∧ c'.delayed = c.delayed ∧ c'.goroutines = c.goroutines ∧
      c'.localPrefetch = c.localPrefetch

end Consumer

/-- Only a job without a delay waits, and only for a queue that is full. It leaves with one job more counted
as active. -/
theorem giveUp_eq (ctxErr : Err) (ready : Bool) (msg : Job) (c : Consumer) :
    c.giveUp ctxErr ready msg =
      if isDelayed msg || c.room ready then none
      else some (c.contextError ctxErr, { c with active := c.active + 1 }) := by
  unfold giveUp handleItem
  by_cases hd : 0 < msg.options.delay
  · by_cases hmax : goroutinesMax ≤ c.goroutines <;> simp [isDelayed, hd, hmax]
  · have hroom : { c with active := c.active + 1 }.room ready = c.room ready := rfl
    cases hr : c.room ready with
    | true => simp [isDelayed, hd, hroom, hr]
    | false => simp [isDelayed, hd, hroom, hr, step, contextError, List.eraseIdx_append_of_length_le]

theorem panics_contextError {ctxErr : Err} {c : Consumer} : (c.contextError ctxErr).Panics ↔ c.cfg = none := by
  unfold contextError
  rw [Broker.Result.panics_bind]
  simp

theorem cfg_step (c : Consumer) (op : Op) : (step c op).cfg = c.cfg := by
  have hhandled : ∀ {msg : Job} {d : Consumer} {r : Outcome × Consumer}, Handled msg d r → r.2.cfg = d.cfg := by
    intro msg d r h
    cases h <;> rfl
  have hreduce : ∀ (d : Consumer) (i : Job), (d.atomicallyReduceCount i).cfg = d.cfg := by
    intro d i
    unfold atomicallyReduceCount
    split <;> rfl
  have hstep := stepped c op
  generalize step c op = c' at hstep ⊢
  cases hstep with
  | idle => rfl
  | pushed h => exact hhandled h
  | began => rfl
  | woke => rfl
  | dropped => rfl
  | consumed => rfl
  | entered => rfl
  | expired => rfl
  | acked => rw [hreduce]
  | requeued hn h =>
    have hr := hhandled h
    rw [hreduce] at hr
    rename_i r
    rw [← hr]
    obtain ⟨(_ | _) | _, d⟩ := r <;> rfl

/-- A consumer has a configuration exactly if it was not built from a pipeline. -/
theorem Build.cfg_eq_none {b : Build} {c : Consumer} (h : b.run = .ok c) : c.cfg = none ↔ b.isPipeline = true := by
  cases b with
  | config key unmarshalled =>
    obtain err | _ | cfg := unmarshalled
    · cases h
    · cases h
    · cases h
      simp [isPipeline]
  | pipeline priority prefetch =>
    cases h
    exact iff_of_true rfl rfl

/-- **A failed `Push` is never clean.** In every state of a consumer that one of the constructors built, a call
of `handleItem` is clean exactly if it does not give up: the job is delayed, or the local queue has room. One
that gives up panics exactly if the consumer was built from a pipeline, and counts the job as active. -/
theorem cleanFailure_iff {b : Build} {c₀ : Consumer} (hb : b.run = .ok c₀) (ops : List Op) (ctxErr : Err)
    (ready : Bool) (msg : Job) :
    let c := Run.exec step c₀ ops
    (c.CleanFailure ctxErr ready msg ↔ isDelayed msg = true ∨ c.room ready = true) ∧
      ∀ r c', c.giveUp ctxErr ready msg = some (r, c') →
        (r.Panics ↔ b.isPipeline = true) ∧ c' = { c with active := c.active + 1 } := by
  intro c
  have hcfg : c.cfg = none ↔ b.isPipeline = true := by
    rw [← Build.cfg_eq_none hb]
    have hkeep : c.cfg = c₀.cfg :=
      Run.exec_invariant (I := fun d => d.cfg = c₀.cfg) (fun d op h => (cfg_step d op).trans h) ops rfl
    rw [hkeep]
  constructor
  · unfold CleanFailure
    rw [giveUp_eq]
    by_cases hwaits : isDelayed msg = true ∨ c.room ready = true
    · rw [if_pos (by simpa using hwaits)]
      exact iff_of_true nofun hwaits
    · rw [if_neg (by simpa using hwaits)]
      refine iff_of_false (fun h => ?_) hwaits
      -- the counter has moved
      have hactive : c.active + 1 = c.active := (h _ _ rfl).2.1
      omega
  · intro r c' h
    rw [giveUp_eq] at h
    split at h
    · cases h
    · obtain ⟨rfl, rfl⟩ := Prod.mk.inj (Option.some.inj h)
      exact ⟨panics_contextError.trans hcfg, rfl⟩

/-- A consumer with a limit of one job takes one. -/
theorem cleanFailure_with_room :
    let b := Build.config "jobs" (.ok (some ⟨10, 1⟩))
    ∃ c₀, b.run = .ok c₀ ∧ c₀.CleanFailure (.lib "context deadline exceeded") false (plainJob (ascii "1") 0) := by
  intro b
  refine ⟨_, rfl, ?_⟩
  exact (cleanFailure_iff (b := b) rfl [] _ false (plainJob (ascii "1") 0)).1.mpr (.inr rfl)

/-- Two consumers with a limit of one job that have one. A second `Push` to either whose context expires leaves
two jobs counted as active with one in the queue; the consumer that was built from a pipeline panics. -/
theorem failures_not_clean :
    let push := [Op.push true false (plainJob (ascii "1") 0)]
    let c := (fromConfig "jobs" (.ok (some ⟨10, 1⟩))).toOption.map fun c => Run.exec step c push
    let d := Run.exec step (fromPipeline 10 (some 1)) push
    let ctxErr := Err.lib "context deadline exceeded"
    let msg := plainJob (ascii "2") 0
    (c.bind fun c => c.giveUp ctxErr false msg).map (fun x => (x.2.active, x.2.localPrefetch.length)) = some (2, 1) ∧
      c.map (fun c => (c.active, c.localPrefetch.length)) = some (1, 1) ∧
      (d.giveUp ctxErr false msg).map Prod.fst = some (.panicked .nilDereference) ∧
      ¬ d.CleanFailure ctxErr false msg := by
  intro push c d ctxErr msg
  refine ⟨by decide, by decide, by decide, fun h => ?_⟩
  obtain ⟨⟨err, herr⟩, -⟩ := h _ _ rfl
  cases herr

end RoadRunner.Memory
