import RoadRunner.Basic

/-!
# The in-memory jobs driver

The model of `memory/memoryjobs`. An `Item` has the fields of a job, and `fromJob` copies them, so an
item is a `Job`. A `Push` with a delay starts a goroutine that counts itself, sleeps, and then offers the
job to the local queue.

* `Consumer`: the counters, and the jobs by where they are. `lost` has those that were accepted and
  neither acked nor nacked, and that the driver has let go.
* `step`: an operation is run, with the `n`-th of the jobs that it can be run for. The counters `active` and
  `delayed` are integers; a step changes them by one at most (`step_near`), so the `int64` of the source has the same
  value in a run of less than `2 ^ 63` steps.
* `Handled`, `Stepped`: what `handleItem` and a step can do. Every proof about runs goes through them.

A local queue without a buffer (`prefetch` is 0) takes a job when the listener is waiting for one: `ready`
says so.
-/

namespace RoadRunner.Memory

/-- `Config`. -/
structure Config where
  priority : Int64
  prefetch : Nat
  deriving DecidableEq

/-- `goroutinesMax`. -/
def goroutinesMax : UInt64 := 1000

/-- `consumer`, with the jobs that are on their way. -/
structure Consumer where
  cfg : Option Config
  prefetch : Nat
  priority : Int64
  goroutines : UInt64 := 0
  delayed : Int := 0
  active : Int := 0
  /-- Delayed jobs whose goroutine has not run yet. -/
  spawned : List Job := []
  /-- Delayed jobs that wait. -/
  sleeping : List Job := []
  /-- Jobs without a delay whose `handleItem` waits for the local queue, and whether its context can
  expire. -/
  blocked : List (Job × Bool) := []
  localPrefetch : List Job := []
  /-- The jobs in the priority queue and those being processed. -/
  pq : List Job := []
  lost : List Job := []
  deriving DecidableEq

namespace Consumer

/-- `FromConfig`, with what `UnmarshalKey` returns for the key. -/
def fromConfig (configKey : String) : Except Err (Option Config) → Except Err Consumer
  | .error err => .error (.op "new_ephemeral_pipeline" err)
  | .ok none => .error (.op "new_ephemeral_pipeline" (.errorf "config not found by provided key: %s" (.str configKey)))
  | .ok (some cfg) =>
    let cfg := if cfg.prefetch = 0 then { cfg with prefetch := 100000 } else cfg
    let cfg := if cfg.priority = 0 then { cfg with priority := 10 } else cfg
    .ok { cfg := some cfg, prefetch := cfg.prefetch, priority := cfg.priority }

/-- `FromPipeline`, with the pipeline's options. -/
def fromPipeline (priority : Int64) (prefetch : Option Nat) : Consumer :=
  { cfg := none, prefetch := prefetch.getD 100000, priority }

/-- The local queue takes one more job. -/
def room (c : Consumer) (ready : Bool) : Bool :=
  c.localPrefetch.length < c.prefetch || ready && c.localPrefetch.isEmpty

/-- How `handleItem` goes. -/
inductive Outcome where
  | returns (err : Option Err)
  /-- It waits for the local queue. -/
  | blocks
  deriving DecidableEq

/-- `handleItem`; `expires` if the context can. -/
def handleItem (expires ready : Bool) (msg : Job) (c : Consumer) : Outcome × Consumer :=
  if 0 < msg.options.delay then
    if goroutinesMax ≤ c.goroutines then
      (.returns (some (.op "ephemeral_handle_request" (.str "max concurrency number reached"))), c)
    else (.returns none, { c with spawned := c.spawned ++ [msg] })
  else
    let c := { c with active := c.active + 1 }
    if c.room ready then (.returns none, { c with localPrefetch := c.localPrefetch ++ [msg] })
    else (.blocks, { c with blocked := c.blocked ++ [(msg, expires)] })

/-- `Push`; `registered` if a pipeline is. -/
def push (registered ready : Bool) (job : Job) (c : Consumer) : Outcome × Consumer :=
  if registered then
    match c.handleItem true ready job with
    | (.returns (some err), c) => (.returns (some (.op "ephemeral_push" err)), c)
    | r => r
  else
    (.returns (some (.op "ephemeral_push"
      (.errorf "no such pipeline: %s" (.str (Bytes.text job.options.pipeline))))), c)

/-- The goroutine of a delayed job, up to the sleep. -/
def begin (jj : Job) (c : Consumer) : Consumer :=
  { c with
    goroutines := c.goroutines + 1
    delayed := c.delayed + 1
    sleeping := c.sleeping ++ [jj] }

/-- The goroutine of a delayed job, after the sleep. -/
def wake (ready : Bool) (jj : Job) (c : Consumer) : Consumer :=
  if c.room ready then
    { c with localPrefetch := c.localPrefetch ++ [jj], goroutines := c.goroutines + ~~~0 }
  else { c with lost := c.lost ++ [jj] }

/-- `atomicallyReduceCount`. -/
def atomicallyReduceCount (i : Job) (c : Consumer) : Consumer :=
  if 0 < i.options.delay then { c with delayed := c.delayed - 1 } else { c with active := c.active - 1 }

/-- `Ack` and `Nack`. -/
def ack (i : Job) (c : Consumer) : Consumer := c.atomicallyReduceCount i

/-- The item as `Requeue` leaves it. -/
def requeued (headers : Headers) (delay : Int64) (i : Job) : Job :=
  { i with headers, options := { i.options with delay } }

/-- `Item.Requeue`. -/
def requeue (headers : Headers) (delay : Int64) (ready : Bool) (i : Job) (c : Consumer) : Outcome × Consumer :=
  let i := requeued headers delay i
  (c.atomicallyReduceCount i).handleItem false ready i

/-- The item as the listener passes it on. -/
def withPriority (priority : Int64) (item : Job) : Job :=
  if item.options.priority = 0 then { item with options := { item.options with priority } } else item

/-- One turn of the loop of `consume`. -/
def consume (c : Consumer) : Consumer :=
  match c.localPrefetch with
  | [] => c
  | item :: rest => { c with localPrefetch := rest, pq := c.pq ++ [withPriority c.priority item] }

end Consumer

/-! ## Runs -/

/-- What can happen. -/
inductive Op where
  | push (registered ready : Bool) (job : Job)
  /-- The goroutine of the `n`-th job in `spawned` runs. -/
  | begin (n : Nat)
  /-- The sleep of the `n`-th job in `sleeping` is over. -/
  | wake (n : Nat) (ready : Bool)
  | consume
  /-- The `n`-th `handleItem` that waits gets its job into the local queue. -/
  | enter (n : Nat) (ready : Bool)
  /-- Its context expires. -/
  | expire (n : Nat)
  /-- The `n`-th delivered job is acked or nacked. -/
  | ack (n : Nat)
  | requeue (n : Nat) (headers : Headers) (delay : Int64) (ready : Bool)
  deriving DecidableEq

open Consumer

/-- One operation. -/
def step (c : Consumer) : Op → Consumer
  | .push registered ready job => (c.push registered ready job).2
  | .begin n =>
    match c.spawned[n]? with
    | none => c
    | some jj => { c with spawned := c.spawned.eraseIdx n }.begin jj
  | .wake n ready =>
    match c.sleeping[n]? with
    | none => c
    | some jj => { c with sleeping := c.sleeping.eraseIdx n }.wake ready jj
  | .consume => c.consume
  | .enter n ready =>
    match c.blocked[n]? with
    | none => c
    | some (msg, _) =>
      if c.room ready then
        { c with blocked := c.blocked.eraseIdx n, localPrefetch := c.localPrefetch ++ [msg] }
      else c
  | .expire n =>
    match c.blocked[n]? with
    | some (_, true) => { c with blocked := c.blocked.eraseIdx n }
    | _ => c
  | .ack n =>
    match c.pq[n]? with
    | none => c
    | some i => { c with pq := c.pq.eraseIdx n }.ack i
  | .requeue n headers delay ready =>
    match c.pq[n]? with
    | none => c
    | some i =>
      match { c with pq := c.pq.eraseIdx n }.requeue headers delay ready i with
      | (.returns (some _), c) => { c with lost := c.lost ++ [requeued headers delay i] }
      | (_, c) => c

/-- The jobs that were accepted and neither acked nor nacked. -/
def Consumer.live (c : Consumer) : List Job :=
  c.spawned ++ c.sleeping ++ c.blocked.map Prod.fst ++ c.localPrefetch ++ c.pq ++ c.lost

/-! ## What a step can do -/

/-- The job has a delay. -/
def isDelayed (j : Job) : Bool := 0 < j.options.delay

/-- What `handleItem` can do. -/
inductive Handled (msg : Job) (c : Consumer) : Outcome × Consumer → Prop where
  | rejected (hd : isDelayed msg = true) (hmax : ¬ c.goroutines < goroutinesMax) (err : Err) :
    Handled msg c (.returns (some err), c)
  | spawned (hd : isDelayed msg = true) (hmax : c.goroutines < goroutinesMax) :
    Handled msg c (.returns none, { c with spawned := c.spawned ++ [msg] })
  | queued (hd : isDelayed msg = false) :
    Handled msg c (.returns none,
      { c with active := c.active + 1, localPrefetch := c.localPrefetch ++ [msg] })
  | blocked (hd : isDelayed msg = false) (expires : Bool) :
    Handled msg c (.blocks, { c with active := c.active + 1, blocked := c.blocked ++ [(msg, expires)] })

theorem handleItem_handled (expires ready : Bool) (msg : Job) (c : Consumer) :
    Handled msg c (c.handleItem expires ready msg) := by
  unfold handleItem
  split
  case isTrue hd =>
    have hd : isDelayed msg = true := decide_eq_true hd
    split
    case isTrue hmax => exact .rejected hd (UInt64.not_lt.mpr hmax) _
    case isFalse hmax => exact .spawned hd (UInt64.not_le.mp hmax)
  case isFalse hd =>
    have hd : isDelayed msg = false := decide_eq_false hd
    dsimp only
    split
    · exact .queued hd
    · exact .blocked hd expires

/-- The consumer after a `Requeue` of the job `i`. -/
def afterRequeue (i : Job) : Outcome × Consumer → Consumer
  | (.returns (some _), c) => { c with lost := c.lost ++ [i] }
  | (_, c) => c

/-- What an operation can do. -/
inductive Stepped (c : Consumer) : Op → Consumer → Prop where
  /-- There is nothing to run the operation for. -/
  | idle {op : Op} (hwake : ∀ n ready, op = .wake n ready → c.sleeping[n]? = none)
    (hrequeue : ∀ n headers delay ready, op = .requeue n headers delay ready → c.pq[n]? = none) :
    Stepped c op c
  | pushed {registered ready : Bool} {job : Job} {r : Outcome × Consumer} (h : Handled job c r) :
    Stepped c (.push registered ready job) r.2
  | began {n : Nat} {jj : Job} (hn : c.spawned[n]? = some jj) :
    Stepped c (.begin n) ({ c with spawned := c.spawned.eraseIdx n }.begin jj)
  | woke {n : Nat} {ready : Bool} {jj : Job} (hn : c.sleeping[n]? = some jj) (hroom : c.room ready = true) :
    Stepped c (.wake n ready)
      { c with
        sleeping := c.sleeping.eraseIdx n
        localPrefetch := c.localPrefetch ++ [jj]
        goroutines := c.goroutines + ~~~0 }
  | dropped {n : Nat} {ready : Bool} {jj : Job} (hn : c.sleeping[n]? = some jj) (hroom : c.room ready = false) :
    Stepped c (.wake n ready) { c with sleeping := c.sleeping.eraseIdx n, lost := c.lost ++ [jj] }
  | consumed {item : Job} {rest : List Job} (h : c.localPrefetch = item :: rest) :
    Stepped c .consume { c with localPrefetch := rest, pq := c.pq ++ [withPriority c.priority item] }
  | entered {n : Nat} {ready expires : Bool} {msg : Job} (hn : c.blocked[n]? = some (msg, expires)) :
    Stepped c (.enter n ready)
      { c with blocked := c.blocked.eraseIdx n, localPrefetch := c.localPrefetch ++ [msg] }
  | expired {n : Nat} {msg : Job} (hn : c.blocked[n]? = some (msg, true)) :
    Stepped c (.expire n) { c with blocked := c.blocked.eraseIdx n }
  | acked {n : Nat} {i : Job} (hn : c.pq[n]? = some i) :
    Stepped c (.ack n) ({ c with pq := c.pq.eraseIdx n }.atomicallyReduceCount i)
  | requeued {n : Nat} {headers : Headers} {delay : Int64} {ready : Bool} {i : Job}
    {r : Outcome × Consumer} (hn : c.pq[n]? = some i)
    (h : Handled (requeued headers delay i)
      ({ c with pq := c.pq.eraseIdx n }.atomicallyReduceCount (requeued headers delay i)) r) :
    Stepped c (.requeue n headers delay ready) (afterRequeue (requeued headers delay i) r)

theorem stepped (c : Consumer) (op : Op) : Stepped c op (step c op) := by
  cases op with
  | push registered ready job =>
    have hr := handleItem_handled true ready job c
    simp only [step, push]
    cases registered with
    | false => exact .idle nofun nofun
    | true =>
      simp only [↓reduceIte]
      split
      case h_1 err c' heq => exact .pushed (r := (.returns (some err), c')) (heq ▸ hr)
      case h_2 => exact .pushed hr
  | begin n =>
    simp only [step]
    split
    · exact .idle nofun nofun
    · exact .began ‹_›
  | wake n ready =>
    simp only [step]
    split
    case h_1 hn => exact .idle (fun _ _ h => by cases h; exact hn) nofun
    case h_2 hn =>
      unfold wake
      split
      case isTrue hroom => exact .woke hn hroom
      case isFalse hroom => exact .dropped hn (eq_false_of_ne_true hroom)
  | consume =>
    simp only [step, Consumer.consume]
    split
    · exact .idle nofun nofun
    · exact .consumed ‹_›
  | enter n ready =>
    simp only [step]
    split
    · exact .idle nofun nofun
    · split
      · exact .entered ‹_›
      · exact .idle nofun nofun
  | expire n =>
    simp only [step]
    split
    · exact .expired ‹_›
    · exact .idle nofun nofun
  | ack n =>
    simp only [step]
    split
    · exact .idle nofun nofun
    · exact .acked ‹_›
  | requeue n headers delay ready =>
    simp only [step]
    split
    case h_1 hn => exact .idle nofun fun _ _ _ _ h => by cases h; exact hn
    case h_2 i hn =>
      have hr := handleItem_handled false ready (requeued headers delay i)
        ({ c with pq := c.pq.eraseIdx n }.atomicallyReduceCount (requeued headers delay i))
      exact .requeued hn hr

/-! ## The size of the counters -/

/-- Each counter is the same, or one more or less. -/
def Near (c c' : Consumer) : Prop := (c'.active - c.active).natAbs ≤ 1 ∧ (c'.delayed - c.delayed).natAbs ≤ 1

theorem near_reduce (i : Job) (c : Consumer) : Near c (c.atomicallyReduceCount i) := by
  unfold atomicallyReduceCount Near
  split
  · exact ⟨by simp, by simp⟩
  · exact ⟨by simp, by simp⟩

theorem near_handled {msg : Job} {c : Consumer} {r : Outcome × Consumer} (h : Handled msg c r) : Near c r.2 := by
  cases h <;> simp [Near]

/-- A `Requeue` takes one off the counter of the new delay, and may add one to it. -/
theorem near_requeued {msg : Job} {c : Consumer} {r : Outcome × Consumer}
    (h : Handled msg (c.atomicallyReduceCount msg) r) : Near c (afterRequeue msg r) := by
  cases h with
  | rejected | spawned => exact near_reduce msg c
  | queued hd | blocked hd =>
    have hactive : c.atomicallyReduceCount msg = { c with active := c.active - 1 } := if_neg (of_decide_eq_false hd)
    simp [afterRequeue, hactive, Near]

theorem step_near (c : Consumer) (op : Op) : Near c (step c op) := by
  have hstep := stepped c op
  generalize step c op = c' at hstep ⊢
  cases hstep with
  | pushed h => exact near_handled h
  | acked hn => exact near_reduce _ { c with pq := c.pq.eraseIdx _ }
  | @requeued n headers delay ready i r hn h => exact near_requeued (c := { c with pq := c.pq.eraseIdx n }) h
  | _ => simp [Near, Consumer.begin]

end RoadRunner.Memory
