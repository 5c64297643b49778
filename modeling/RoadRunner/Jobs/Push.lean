import RoadRunner.Basic
import RoadRunner.Lib.Counter

/-!
# Pushing jobs

The model of `Push` and `PushBatch` of `jobs/plugin.go` and of the calls of `jobs/rpc.go` over them. The
consumers (`D`) and what stands behind them (`W`) are arbitrary: `driver d j w` is the result of `Push` of
the consumer `d`, with what it leaves behind.

* `batch_same_iff`: when a batch does the same as `pushEach`.

The contexts with their timeout are part of what a consumer does.
-/

namespace RoadRunner.Jobs.Pipelines

/-- What the plugin reads of a `pipeline.Pipeline`. -/
structure Pipeline where
  name : Bytes
  driver : Bytes
  priority : Int64 := 10
  deriving DecidableEq

/-- The two `sync.Map`s of the plugin. -/
structure Registry (D : Type) where
  pipelines : Bytes → Option Pipeline
  consumers : Bytes → Option D

/-- The consumer for the name of a pipeline, with the pipeline. -/
def Registry.route {D : Type} (r : Registry D) (pipeline : Bytes) : Except Err (Pipeline × D) :=
  match r.pipelines pipeline with
  | none => .error (.errorf "no such pipeline, requested: %s" (.str pipeline.text))
  | some ppl =>
    match r.consumers ppl.name with
    | none => .error (.errorf "consumer not registered for the requested driver: %s" (.str ppl.driver.text))
    | some d => .ok (ppl, d)

/-- If a job has no priority, it inherits it from the pipeline. -/
def Pipeline.inherit (ppl : Pipeline) (j : Job) : Job :=
  if j.options.priority = 0 then { j with options := { j.options with priority := ppl.priority } } else j

/-- The plugin: its registry and its metrics. -/
structure Plugin (D W : Type) extends Registry D where
  pushOk : UInt64 := 0
  pushErr : UInt64 := 0
  /-- What stands behind the consumers. -/
  world : W
  /-- The jobs that reached a consumer, the first one first. -/
  reached : List (D × Job) := []

namespace Plugin

variable {D W : Type} (driver : D → Job → W → Option Err × W)

/-- `Push` of a consumer. -/
def deliver (p : Plugin D W) (d : D) (j : Job) : Option Err × Plugin D W :=
  ((driver d j p.world).1, { p with world := (driver d j p.world).2, reached := p.reached ++ [(d, j)] })

/-- Find the consumer of a job and push to it: what it returns, or an error of the lookups. -/
def attempt (p : Plugin D W) (j : Job) : Except Err (Option Err × Plugin D W) :=
  (p.route j.options.pipeline).map fun (ppl, d) => p.deliver driver d (ppl.inherit j)

/-- `Push`. -/
def push (p : Plugin D W) (j : Job) : Option Err × Plugin D W :=
  match p.attempt driver j with
  | .error err => (some (.op "jobs_plugin_push" err), p)
  | .ok (some err, p) => (some (.op "jobs_plugin_push" err), { p with pushErr := p.pushErr + 1 })
  | .ok (none, p) => (none, { p with pushOk := p.pushOk + 1 })

/-- `PushBatch`. -/
def pushBatch (p : Plugin D W) : List Job → Option Err × Plugin D W
  | [] => (none, p)
  | j :: js =>
    match p.attempt driver j with
    | .error err => (some (.op "jobs_plugin_push" err), p)
    | .ok (some err, p) => (some (.op "jobs_plugin_push" err), { p with pushErr := p.pushErr + 1 })
    | .ok (none, p) => pushBatch p js

end Plugin

/-! ## RPC -/

/-- `jobsv1beta.Job`; `options` is a pointer. -/
structure Message where
  id : Bytes
  job : Bytes := []
  payload : Bytes := []
  headers : List (Bytes × List Bytes) := []
  options : Option JobOptions := none

/-- `from`. -/
def Message.toJob (j : Message) : Job where
  job := j.job
  headers := some j.headers
  ident := j.id
  payload := j.payload
  options := j.options.getD ⟨0, [], 0⟩

section Rpc

variable {D W : Type} (driver : D → Job → W → Option Err × W)

/-- `rpc.Push`. -/
def rpcPush (p : Plugin D W) (j : Message) : Option Err × Plugin D W :=
  if j.id = [] then (some (.op "rpc_push" (.str "empty ID field not allowed")), p)
  else ((p.push driver j.toJob).1.map (.op "rpc_push"), (p.push driver j.toJob).2)

/-- `rpc.PushBatch`. -/
def rpcPushBatch (p : Plugin D W) (js : List Message) : Option Err × Plugin D W :=
  let r := p.pushBatch driver (js.map Message.toJob)
  (r.1.map (.op "rpc_push_batch"), r.2)

/-- `Push` of one job after the other, up to the first error. -/
def pushEach (p : Plugin D W) : List Message → Option Err × Plugin D W
  | [] => (none, p)
  | j :: js =>
    match rpcPush driver p j with
    | (some err, p) => (some err, p)
    | (none, p) => pushEach p js

/-- How many jobs `pushEach` pushes without an error. -/
def accepted (p : Plugin D W) : List Message → Nat
  | [] => 0
  | j :: js =>
    match rpcPush driver p j with
    | (some _, _) => 0
    | (none, p) => accepted p js + 1

/-- The job with which `pushEach` stops. -/
def stopsAt (p : Plugin D W) : List Message → Option Message
  | [] => none
  | j :: js =>
    match rpcPush driver p j with
    | (some _, _) => some j
    | (none, p) => stopsAt p js

end Rpc

/-! ## A batch and its jobs one by one -/

section Batch

variable {D W : Type} {driver : D → Job → W → Option Err × W}

/-- Both calls fail, or neither does, and they leave the same behind. -/
structure SameEffect (a b : Option Err × Plugin D W) : Prop where
  fails : a.1.isSome = b.1.isSome
  reached : a.2.reached = b.2.reached
  world : a.2.world = b.2.world
  pushOk : a.2.pushOk = b.2.pushOk
  pushErr : a.2.pushErr = b.2.pushErr

/-- There is a consumer for the job. -/
def Registry.Routes (r : Registry D) (j : Message) : Prop :=
  ∃ route, r.route j.toJob.options.pipeline = .ok route

/-- The plugin after `n` more successful pushes have been counted. -/
def Plugin.counted (p : Plugin D W) (n : Nat) : Plugin D W :=
  { p with pushOk := p.pushOk + UInt64.ofNat n }

theorem Plugin.counted_succ (p : Plugin D W) (n : Nat) :
    { p.counted n with pushOk := (p.counted n).pushOk + 1 } = p.counted (n + 1) := by
  simp only [Plugin.counted, Counter.ofNat_succ, UInt64.add_assoc]

/-- The metrics play no part in an attempt. -/
theorem Plugin.attempt_counted (p : Plugin D W) (n : Nat) (j : Job) :
    (p.counted n).attempt driver j =
      (p.attempt driver j).map fun r => (r.1, r.2.counted n) := by
  change Except.map _ (p.route j.options.pipeline) = Except.map _ (Except.map _ (p.route j.options.pipeline))
  cases p.route j.options.pipeline <;> rfl

/-- What an attempt can do: a lookup fails, or one job reaches a consumer. -/
theorem Plugin.attempt_cases (driver : D → Job → W → Option Err × W) (p : Plugin D W) (j : Message) :
    (∃ err, p.attempt driver j.toJob = .error err ∧ ¬ p.Routes j) ∨
      ∃ err p' d job, p.attempt driver j.toJob = .ok (err, p') ∧ p.Routes j ∧
        p'.toRegistry = p.toRegistry ∧ p'.reached = p.reached ++ [(d, job)] := by
  unfold Plugin.attempt Registry.Routes
  cases hroute : p.route j.toJob.options.pipeline with
  | error err => exact .inl ⟨err, rfl, fun ⟨_, h⟩ => nomatch h⟩
  | ok route =>
    obtain ⟨ppl, d⟩ := route
    exact .inr ⟨_, _, d, ppl.inherit j.toJob, rfl, ⟨_, rfl⟩, rfl, rfl⟩

/-- Jobs that have reached a consumer stay so. -/
theorem Plugin.length_reached_le (driver : D → Job → W → Option Err × W) (p : Plugin D W) (js : List Message) :
    p.reached.length ≤ (p.pushBatch driver (js.map Message.toJob)).2.reached.length := by
  induction js generalizing p with
  | nil => exact le_rfl
  | cons j js ih =>
    rw [List.map_cons, Plugin.pushBatch]
    obtain ⟨err, h, -⟩ | ⟨err, p', d, job, h, -, -, hreached⟩ := p.attempt_cases driver j
    · rw [h]
    · have hle : p.reached.length ≤ p'.reached.length := by rw [hreached]; simp
      cases err with
      | some err => rw [h]; exact hle
      | none => rw [h]; exact hle.trans (ih p')

/-- The first job of a batch reaches a consumer if it has one. -/
theorem Plugin.length_reached_lt (driver : D → Job → W → Option Err × W) {p : Plugin D W} {j : Message}
    (hroutes : p.Routes j) (js : List Message) :
    p.reached.length < (p.pushBatch driver ((j :: js).map Message.toJob)).2.reached.length := by
  rw [List.map_cons, Plugin.pushBatch]
  obtain ⟨err, -, hno⟩ | ⟨err, p', d, job, h, -, -, hreached⟩ := p.attempt_cases driver j
  · exact absurd hroutes hno
  · have hlt : p.reached.length < p'.reached.length := by rw [hreached]; simp
    cases err with
    | some err => rw [h]; exact hlt
    | none => rw [h]; exact hlt.trans_le (p'.length_reached_le driver js)

/-- The two calls end in states that differ by `n` in `pushOk`, at most. -/
theorem sameEffect_counted_iff (p : Plugin D W) (n : Nat) {e e' : Option Err} (h : e.isSome = e'.isSome) :
    SameEffect (e, p) (e', p.counted n) ↔ UInt64.ofNat n = 0 := by
  constructor
  · intro hsame
    have hok : p.pushOk = p.pushOk + UInt64.ofNat n := hsame.pushOk
    simpa using hok.symm
  · intro hn
    refine ⟨h, rfl, rfl, ?_, rfl⟩
    change p.pushOk = p.pushOk + UInt64.ofNat n
    rw [hn, UInt64.add_zero]

/-- The result of a batch, without the wrapping of its error. -/
theorem sameEffect_batch_iff (p : Plugin D W) (js : List Message) (b : Option Err × Plugin D W) :
    SameEffect (rpcPushBatch driver p js) b ↔ SameEffect (p.pushBatch driver (js.map Message.toJob)) b := by
  constructor
  · rintro ⟨h₁, h₂, h₃, h₄, h₅⟩
    exact ⟨by simpa [rpcPushBatch] using h₁, h₂, h₃, h₄, h₅⟩
  · rintro ⟨h₁, h₂, h₃, h₄, h₅⟩
    exact ⟨by simpa [rpcPushBatch] using h₁, h₂, h₃, h₄, h₅⟩

/-- The batch has counted `n` pushes less so far than `pushEach`. -/
theorem sameEffect_pushBatch_iff (driver : D → Job → W → Option Err × W) (js : List Message) (p : Plugin D W)
    (n : Nat) :
    SameEffect (p.pushBatch driver (js.map Message.toJob)) (pushEach driver (p.counted n) js) ↔
      UInt64.ofNat (n + accepted driver (p.counted n) js) = 0 ∧
        ∀ j, stopsAt driver (p.counted n) js = some j → j.id = [] → ¬ p.Routes j := by
  induction js generalizing p n with
  | nil =>
    have hnone : SameEffect (none, p) (none, p.counted n) ↔ UInt64.ofNat n = 0 := sameEffect_counted_iff p n rfl
    simpa [Plugin.pushBatch, pushEach, accepted, stopsAt] using hnone
  | cons j js ih =>
    rw [List.map_cons, Plugin.pushBatch, pushEach, accepted, stopsAt]
    have hroute := p.attempt_cases driver j
    by_cases hid : j.id = []
    · -- `pushEach` stops here; the batch does not look at the id
      have hpush : ∃ err, rpcPush driver (p.counted n) j = (some err, p.counted n) :=
        ⟨_, by rw [rpcPush, if_pos hid]⟩
      obtain ⟨err, hpush⟩ := hpush
      simp only [hpush, Option.some.injEq, forall_eq', hid, forall_const, Nat.add_zero]
      obtain ⟨err', h, hno⟩ | ⟨_, _, _, _, -, hroutes, -, -⟩ := hroute
      · simp only [h, hno, not_false_eq_true, and_true]
        exact sameEffect_counted_iff p n rfl
      · refine iff_of_false (fun hsame => ?_) fun hc => hc.2 hroutes
        have hlt := Plugin.length_reached_lt driver hroutes js
        rw [List.map_cons, Plugin.pushBatch, hsame.reached] at hlt
        exact lt_irrefl _ hlt
    · have hpush : rpcPush driver (p.counted n) j =
          (((p.counted n).push driver j.toJob).1.map (.op "rpc_push"), ((p.counted n).push driver j.toJob).2) := by
        rw [rpcPush, if_neg hid]
      rw [hpush, Plugin.push, Plugin.attempt_counted]
      obtain ⟨err, h, -⟩ | ⟨err, p', d, job, h, -, hregistry, -⟩ := hroute
      · rw [h]
        simp only [Except.map, Option.map_some, Option.some.injEq, forall_eq', hid, false_imp_iff, and_true,
          Nat.add_zero]
        exact sameEffect_counted_iff p n rfl
      · cases err with
        | some err =>
          rw [h]
          simp only [Except.map, Option.map_some, Option.some.injEq, forall_eq', hid, false_imp_iff, and_true,
            Nat.add_zero]
          exact sameEffect_counted_iff { p' with pushErr := p'.pushErr + 1 } n rfl
        | none =>
          rw [h]
          simp only [Except.map, Option.map_none, Plugin.counted_succ]
          rw [ih p' (n + 1), hregistry, Nat.add_right_comm n 1, Nat.add_assoc n]

theorem sameEffect_iff_accepted (p : Plugin D W) (js : List Message) :
    SameEffect (rpcPushBatch driver p js) (pushEach driver p js) ↔
      UInt64.ofNat (accepted driver p js) = 0 ∧
        ∀ j, stopsAt driver p js = some j → j.id = [] → ¬ p.Routes j := by
  have hcounted : p.counted 0 = p := by
    change { p with pushOk := p.pushOk + 0 } = p
    rw [UInt64.add_zero]
  have h := sameEffect_pushBatch_iff driver js p 0
  rw [hcounted, Nat.zero_add] at h
  exact (sameEffect_batch_iff p js _).trans h

theorem accepted_le_length (driver : D → Job → W → Option Err × W) (p : Plugin D W) (js : List Message) :
    accepted driver p js ≤ js.length := by
  induction js generalizing p with
  | nil => exact Nat.zero_le _
  | cons j js ih =>
    rw [accepted]
    split
    · exact Nat.zero_le _
    · exact Nat.succ_le_succ (ih _)

/-- Neither call does anything with the first job: `Push` fails, and if the job has no id, it has no consumer. -/
def Plugin.Refuses (driver : D → Job → W → Option Err × W) (p : Plugin D W) (j : Message) : Prop :=
  (p.push driver j.toJob).1 ≠ none ∧ (j.id = [] → ¬ p.Routes j)

/-- A job without a consumer is refused. -/
theorem push_of_not_routes {p : Plugin D W} {j : Message} (h : ¬ p.Routes j) : (p.push driver j.toJob).1 ≠ none := by
  obtain ⟨err, herr, -⟩ | ⟨_, _, _, _, -, hroutes, -⟩ := p.attempt_cases driver j
  · rw [Plugin.push, herr]
    exact Option.some_ne_none _
  · exact absurd hroutes h

/-- `pushEach` accepts no job exactly if the first is not accepted, and then it stops there. -/
theorem refuses_head_iff (p : Plugin D W) (js : List Message) :
    (accepted driver p js = 0 ∧ ∀ j, stopsAt driver p js = some j → j.id = [] → ¬ p.Routes j) ↔
      ∀ j ∈ js.head?, p.Refuses driver j := by
  cases js with
  | nil => simp [accepted, stopsAt]
  | cons j js =>
    rw [accepted, stopsAt, rpcPush]
    simp only [List.head?_cons, Option.mem_some_iff, forall_eq']
    by_cases hid : j.id = []
    · simp only [hid, ↓reduceIte, Option.some.injEq, forall_eq', forall_const, true_and, Plugin.Refuses]
      exact ⟨fun h => ⟨push_of_not_routes h, h⟩, And.right⟩
    · rcases hpush : p.push driver j.toJob with ⟨err, p'⟩
      cases err <;> simp [hid, Plugin.Refuses, hpush]

/-- A batch does the same as its jobs pushed one by one exactly if none of these is accepted (up to the range of the
counter), and the one they stop with, if it has no id, has no consumer either. For a batch of less than `2 ^ 64` jobs:
exactly if `Push` of the first job fails, and if that has no id, it has no consumer either. -/
theorem batch_same_iff (p : Plugin D W) (js : List Message) :
    (SameEffect (rpcPushBatch driver p js) (pushEach driver p js) ↔
      UInt64.ofNat (accepted driver p js) = 0 ∧
        ∀ j, stopsAt driver p js = some j → j.id = [] → ¬ p.Routes j) ∧
    (js.length < 2 ^ 64 →
      (SameEffect (rpcPushBatch driver p js) (pushEach driver p js) ↔ ∀ j ∈ js.head?, p.Refuses driver j)) := by
  refine ⟨sameEffect_iff_accepted p js, fun hlength => ?_⟩
  have hzero : UInt64.ofNat (accepted driver p js) = 0 ↔ accepted driver p js = 0 := by
    have hlt := (accepted_le_length driver p js).trans_lt hlength
    rw [← UInt64.toNat_inj, UInt64.toNat_ofNat', Nat.mod_eq_of_lt hlt, UInt64.toNat_zero]
  rw [sameEffect_iff_accepted, hzero, refuses_head_iff]

end Batch

/-! ## A pipeline whose consumer takes every job -/

/-- The pipeline `p` with the one consumer there is. -/
def onePipeline : Plugin Unit Unit where
  pipelines := fun name => if name = ascii "p" then some ⟨ascii "p", ascii "memory", 10⟩ else none
  consumers := fun name => if name = ascii "p" then some () else none
  world := ()

/-- The consumer takes every job. -/
def takesAll : Unit → Job → Unit → Option Err × Unit := fun _ _ _ => (none, ())

/-- A job with an id for the pipeline `p`. -/
def pushed (id : String) : Message := { id := ascii id, options := some ⟨0, ascii "p", 0⟩ }

/-- A batch of one job is not counted, and a batch takes a job without an id. -/
theorem batch_differs :
    (pushEach takesAll onePipeline [pushed "1"]).2.pushOk = 1 ∧
      (rpcPushBatch takesAll onePipeline [pushed "1"]).2.pushOk = 0 ∧
      (pushEach takesAll onePipeline [pushed ""]).1.isSome = true ∧
      (rpcPushBatch takesAll onePipeline [pushed ""]).1.isSome = false ∧
      (rpcPushBatch takesAll onePipeline [pushed ""]).2.reached.length = 1 := by
  decide +kernel

end RoadRunner.Jobs.Pipelines
