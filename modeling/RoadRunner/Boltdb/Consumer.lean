import RoadRunner.Boltdb.Item

/-!
# The boltdb jobs consumer

The model of `boltdb/boltjobs/consumer.go`, `config.go` and `listener.go`: how a consumer is built
on a file that a previous process left, how a job is pushed, and one tick of each of the two
listeners.

* `newBoltDBJobs`, `fromPipeline`: the two constructors. Both run the recovery transaction, which
  copies every entry of `InQueueBucket` into `PushBucket` and leaves it in `InQueueBucket` too, and
  both start with the counters at 0.
* `Consumer.delayedTick`: one tick of `delayedJobsListener`, which moves every job that is due, in
  one transaction. Once that transaction is rolled back inside the loop, the loop goes on, and
  every further call on it fails.
-/

namespace RoadRunner.Boltdb

/-! ## Construction -/

/-- The section of the configuration. -/
structure Config where
  permissions : Int64 := 0
  file : String := ""
  priority : Int64 := 0
  prefetch : Int64 := 0

/-- `Config.InitDefaults`. -/
def Config.initDefaults (c : Config) : Config where
  file := if c.file = "" then "rr.db" else c.file
  priority := if c.priority = 0 then 10 else c.priority
  prefetch := if c.prefetch = 0 then 1000 else c.prefetch
  permissions := if c.permissions = 0 then 0o777 else c.permissions

/-- What the configuration plugin answers: which sections there are, and the global and the local
section decoded over one another (`none` if a decode fails). -/
structure Configurer where
  hasKey : Bool
  hasGlobal : Bool
  unmarshal : Option Config

/-- The options that `FromPipeline` reads from a declared pipeline. -/
structure Pipeline where
  priority : Int64
  prefetch : Option Int64

/-- Which calls fail while a file is opened: the open, the creation of the buckets, the puts of
the recovery loop (by their keys), the commit. -/
structure OpenFaults where
  openFile : Bool := false
  beginTx : Bool := false
  createBucket : Bool := false
  put : List Bytes := []
  commit : Bool := false
  deriving DecidableEq

section

variable {V : Type}

/-- The file with the entries of `InQueueBucket` copied into `PushBucket`. -/
def DB.recovered (db : DB V) : DB V := { db with push := db.push.overlay db.inQueue }

/-- The recovery transaction: the entries of `InQueueBucket` are put into `PushBucket`. -/
def recover (f : OpenFaults) (db : DB V) : Except Err (DB V) :=
  if f.openFile then .error (.op "init_boltdb_jobs" (.lib "Open"))
  else if f.beginTx then .error (.op "init_boltdb_jobs" (.lib "Begin"))
  else if f.createBucket then
    .error (.op "init_boltdb_jobs" (.op "boltdb_plugin_update" (.str "")))
  else if db.inQueue.keys.any (· ∈ f.put) then
    .error (.op "init_boltdb_jobs" (.op "init_boltdb_jobs" (.lib "Put")))
  else if f.commit then .error (.op "init_boltdb_jobs" (.lib "Commit"))
  else .ok db.recovered

/-- A consumer on a recovered file. -/
def fresh (priority prefetch : Int64) (db : DB V) : Consumer V where
  db := db
  active := 0
  delayed := 0
  priority := priority
  prefetch := prefetch
  pq := []

/-- `NewBoltDBJobs`. -/
def newBoltDBJobs (configKey : String) (cfg : Configurer) (f : OpenFaults) (db : DB V) :
    Except Err (Consumer V) :=
  if !cfg.hasKey then
    .error (.op "init_boltdb_jobs" (.errorf "no configuration by provided key: %s" (.str configKey)))
  else if !cfg.hasGlobal then
    .error (.op "init_boltdb_jobs" (.str "no global boltdb configuration"))
  else
    match cfg.unmarshal with
    | none => .error (.op "init_boltdb_jobs" (.lib "UnmarshalKey"))
    | some localCfg =>
      let localCfg := localCfg.initDefaults
      (recover f db).map (fresh localCfg.priority localCfg.prefetch)

/-- `FromPipeline`. The decoded global section is given by value, so only its failure is seen. -/
def fromPipeline (pipe : Pipeline) (cfg : Configurer) (f : OpenFaults) (db : DB V) :
    Except Err (Consumer V) :=
  if !cfg.hasGlobal then
    .error (.op "init_boltdb_jobs" (.str "no global boltdb configuration"))
  else
    match cfg.unmarshal with
    | none => .error (.op "init_boltdb_jobs" (.lib "UnmarshalKey"))
    | some _ => (recover f db).map (fresh pipe.priority (pipe.prefetch.getD 1000))

/-- How a consumer is built on a file: by `NewBoltDBJobs` or by `FromPipeline`. -/
inductive Build where
  | config (configKey : String) (cfg : Configurer) (f : OpenFaults)
  | pipeline (pipe : Pipeline) (cfg : Configurer) (f : OpenFaults)

/-- One of the two constructors. -/
def Build.run (b : Build) (db : DB V) : Except Err (Consumer V) :=
  match b with
  | .config key cfg f => newBoltDBJobs key cfg f db
  | .pipeline pipe cfg f => fromPipeline pipe cfg f db

theorem recover_eq_ok {f : OpenFaults} {db db' : DB V} (h : recover f db = .ok db') :
    db' = db.recovered := by
  unfold recover at h
  repeat' split at h
  all_goals first | cases h; rfl | cases h

/-- Either constructor gives a consumer with zero counters and an empty queue on the recovered
file. -/
theorem Build.run_eq_ok {b : Build} {db : DB V} {c : Consumer V} (h : b.run db = .ok c) :
    ∃ priority prefetch, c = fresh priority prefetch db.recovered := by
  have hmap : ∀ {f : OpenFaults} {p q : Int64}, (recover f db).map (fresh p q) = .ok c →
      c = fresh p q db.recovered := by
    intro f p q h
    cases hr : recover f db with
    | error e => rw [hr] at h; cases h
    | ok db' => rw [hr] at h; cases h; rw [recover_eq_ok hr]
  cases b with
  | config key cfg f =>
    simp only [run, newBoltDBJobs] at h
    repeat' split at h
    all_goals first | cases h | exact ⟨_, _, hmap h⟩
  | pipeline pipe cfg f =>
    simp only [run, fromPipeline] at h
    repeat' split at h
    all_goals first | cases h | exact ⟨_, _, hmap h⟩

end

namespace Consumer

variable {V : Type} (gob : Gob V)

/-! ## Push -/

/-- `Push`. The error of the inner function and the one of `db.Update` are both wrapped. -/
def pushJob (job : Job) (now : Int) (f : Faults) (c : Consumer V) : Option Err × Consumer V :=
  let op := Err.op "boltdb_jobs_push"
  if f.beginTx then (some (op (.lib "Begin")), c)
  else
    let item := fromJob job
    if f.encode then (some (op (op (.lib "Encode"))), c)
    else
      let value := gob.encode item
      if f.put then (some (op (op (.lib "Put"))), c)
      else if 0 < item.options.delay then
        let c := { c with delayed := c.delayed + 1 }
        if f.commit then (some (op (.lib "Commit")), c)
        else (none, { c with db := { c.db with
          delay := c.db.delay.put (tKey now item.options.delay) value } })
      else
        let c := { c with active := c.active + 1 }
        if f.commit then (some (op (.lib "Commit")), c)
        else (none, { c with db := { c.db with push := c.db.push.put item.ident value } })

/-- The consumer after a `Push` that returned nil. -/
def pushed (i : Item) (now : Int) (c : Consumer V) : Consumer V :=
  { c with
    db := { c.db with
      push := if 0 < i.options.delay then c.db.push else c.db.push.put i.ident (gob.encode i)
      delay := if 0 < i.options.delay then c.db.delay.put (tKey now i.options.delay) (gob.encode i)
        else c.db.delay }
    active := if 0 < i.options.delay then c.active else c.active + 1
    delayed := if 0 < i.options.delay then c.delayed + 1 else c.delayed }

/-- `Push` fails and leaves the buckets and the queue, or does what `pushed` says. -/
theorem pushJob_cases (job : Job) (now : Int) (f : Faults) (c : Consumer V) :
    ((c.pushJob gob job now f).1 ≠ none ∧ (c.pushJob gob job now f).2.db = c.db ∧
        (c.pushJob gob job now f).2.pq = c.pq) ∨
      c.pushJob gob job now f = (none, c.pushed gob (fromJob job) now) := by
  cases hb : f.beginTx with
  | true => simp [pushJob, hb]
  | false =>
    cases he : f.encode with
    | true => simp [pushJob, hb, he]
    | false =>
      cases hp : f.put with
      | true => simp [pushJob, hb, he, hp]
      | false =>
        cases hc : f.commit <;> by_cases hd : 0 < (fromJob job).options.delay <;>
          simp [pushJob, pushed, hb, he, hp, hc, hd]

theorem pushJob_ok (job : Job) (now : Int) (c : Consumer V) :
    c.pushJob gob job now {} = (none, c.pushed gob (fromJob job) now) := by
  by_cases hd : 0 < (fromJob job).options.delay <;> simp [pushJob, pushed, hd]

/-! ## The listener -/

/-- An item with priority 0 gets the priority of the pipeline. -/
def withPriority (priority : Int64) (i : Item) : Item :=
  if i.options.priority = 0 then { i with options := { i.options with priority := priority } } else i

@[simp] theorem withPriority_ident (priority : Int64) (i : Item) :
    (withPriority priority i).ident = i.ident := by
  unfold withPriority; split <;> rfl

@[simp] theorem withPriority_delay (priority : Int64) (i : Item) :
    (withPriority priority i).options.delay = i.options.delay := by
  unfold withPriority; split <;> rfl

/-- The gate of `listener`: more jobs are counted as active than may be prefetched. -/
def gated (c : Consumer V) : Prop := c.prefetch.toUInt64 < c.active

instance (c : Consumer V) : Decidable c.gated :=
  inferInstanceAs (Decidable (c.prefetch.toUInt64 < c.active))

/-- One tick of `listener`. -/
def listenerTick (f : Faults) (c : Consumer V) : Consumer V :=
  if c.gated then c
  else if f.beginTx then c
  else
    match c.db.push.first with
    | none => c
    | some (k, v) =>
      match gob.decode v with
      | none => c
      | some item =>
        let item := withPriority c.priority item
        if f.put then c
        else if f.delete then c
        else if f.commit then c
        else { c with
          db := { c.db with push := c.db.push.delete k, inQueue := c.db.inQueue.put item.ident v }
          pq := c.pq ++ [item] }

/-- The consumer after the entry `k ↦ v`, which decodes to `i`, was moved out of `PushBucket`. -/
def delivered (k : Bytes) (v : V) (i : Item) (c : Consumer V) : Consumer V :=
  { c with
    db := { c.db with push := c.db.push.delete k, inQueue := c.db.inQueue.put i.ident v }
    pq := c.pq ++ [withPriority c.priority i] }

/-- A tick of `listener` does nothing, or moves the first job of `PushBucket`. -/
theorem listenerTick_cases (f : Faults) (c : Consumer V) :
    c.listenerTick gob f = c ∨
      ∃ k v i, c.db.push.first = some (k, v) ∧ gob.decode v = some i ∧ ¬ c.gated ∧
        c.listenerTick gob f = c.delivered k v i := by
  unfold listenerTick
  split
  · exact .inl rfl
  rename_i hg
  split
  · exact .inl rfl
  split
  · exact .inl rfl
  rename_i k v hkv
  split
  · exact .inl rfl
  rename_i i hi
  dsimp only
  repeat' split
  · exact .inl rfl
  · exact .inl rfl
  · exact .inl rfl
  · exact .inr ⟨k, v, i, hkv, hi, hg, by simp [delivered]⟩

/-- A tick whose transaction does not fail and that the gate lets through moves the first job. -/
theorem listenerTick_delivers {c : Consumer V} {k : Bytes} {v : V} {i : Item} (hg : ¬ c.gated)
    (hkv : c.db.push.first = some (k, v)) (hi : gob.decode v = some i) :
    c.listenerTick gob {} = c.delivered k v i := by
  simp [listenerTick, delivered, hg, hkv, hi]

/-! ## The listener of delayed jobs -/

/-- Which calls fail in one tick of `delayedJobsListener`: the begin, the puts and deletes of the
entries (by their keys), the commit. -/
structure DelayFaults where
  beginTx : Bool := false
  put : List Bytes := []
  delete : List Bytes := []
  commit : Bool := false
  deriving DecidableEq

/-- The loop of `delayedJobsListener`: the transaction's view of the buckets, whether it is still
open, and the items sent to the queue so far. -/
structure Scan (V : Type) where
  db : DB V
  active : Bool
  sent : List Item

/-- The body of the loop, for the entry `e`. -/
def scanStep (priority : Int64) (f : DelayFaults) (s : Scan V) (e : Bytes × V) : Scan V :=
  match gob.decode e.2 with
  | none => { s with active := false }
  | some item =>
    let item := withPriority priority item
    if !s.active || e.1 ∈ f.put then { s with active := false }
    else if e.1 ∈ f.delete then { s with active := false }
    else
      { s with
        db := { s.db with inQueue := s.db.inQueue.put item.ident e.2, delay := s.db.delay.delete e.1 }
        sent := s.sent ++ [item] }

/-- `time.Date(1990, 1, 1, 0, 0, 0, 0, UTC)`. -/
def startDate : Bytes := Calendar.rfc3339 631152000

/-- The entries that a tick at `now` (nanoseconds) visits. -/
def dueEntries (now : Int) (c : Consumer V) : List (Bytes × V) :=
  c.db.delay.range startDate (Calendar.rfc3339 (now / 1000000000))

/-- The loop of a tick, from the open transaction to the end of the cursor. -/
def scan (now : Int) (f : DelayFaults) (c : Consumer V) : Scan V :=
  (c.dueEntries now).foldl (scanStep gob c.priority f) ⟨c.db, true, []⟩

/-- One tick of `delayedJobsListener`: the items that its committed transaction moved, and the
consumer after it. Items are sent to the queue from inside the loop, before the commit. -/
def delayedTick (now : Int) (f : DelayFaults) (c : Consumer V) : List Item × Consumer V :=
  if f.beginTx then ([], c)
  else
    let s := c.scan gob now f
    if s.active && !f.commit then (s.sent, { c with db := s.db, pq := c.pq ++ s.sent })
    else ([], { c with pq := c.pq ++ s.sent })

/-- The consumer after the due entry `k ↦ v`, which decodes to `i`, was moved. -/
def dueDelivered (k : Bytes) (v : V) (i : Item) (c : Consumer V) : Consumer V :=
  { c with
    db := { c.db with inQueue := c.db.inQueue.put i.ident v, delay := c.db.delay.delete k }
    pq := c.pq ++ [withPriority c.priority i] }

end Consumer

end RoadRunner.Boltdb
