import RoadRunner.Basic
import RoadRunner.Lib.Calendar

/-!
# Items of the boltdb jobs driver

The model of `boltdb/boltjobs/item.go`: the record a job is stored as, and the three ways a job
that was delivered is settled.

* `DB`: the three buckets of the file. A stored value is whatever the gob codec makes of an item
  (`Gob`), so `V` is any type; decoding inverts encoding, and a value of no bytes does not decode.
* `Consumer`: the driver's state that the operations read and write. The pointers `db`, `active`
  and `delayed` in an item's options point into it. `pq` is the part of the priority queue that
  came from this consumer, with the items that a poller holds.
* `Faults`: which calls into bbolt (and the encoder) fail in one operation. A transaction that
  fails or is rolled back leaves the file as it was; the counters are plain memory and are not
  rolled back.
-/

namespace RoadRunner.Boltdb

/-- `Options`, without the pointers into the consumer. -/
structure Options where
  priority : Int64
  pipeline : Bytes
  delay : Int64
  deriving DecidableEq

/-- A job as the driver stores it. -/
structure Item where
  job : Bytes
  ident : Bytes
  payload : Bytes
  headers : Headers
  options : Options
  deriving DecidableEq

/-- `fromJob`. -/
def fromJob (job : Job) : Item where
  job := job.job
  ident := job.ident
  payload := job.payload
  headers := job.headers
  options :=
    { priority := job.options.priority
      pipeline := job.options.pipeline
      delay := job.options.delay }

/-- The gob codec for items, with values of type `V`. -/
structure Gob (V : Type) where
  encode : Item → V
  decode : V → Option Item
  /-- The value of no bytes, which a `Put` of a nil slice stores. -/
  nil : V
  decode_encode : ∀ i, decode (encode i) = some i
  decode_nil : decode nil = none

/-- The codec whose values are the items themselves, beside the value of no bytes. -/
def Gob.plain : Gob (Option Item) where
  encode := some
  decode := id
  nil := none
  decode_encode _ := rfl
  decode_nil := rfl

theorem Gob.encode_injective {V : Type} (gob : Gob V) {i j : Item} (h : gob.encode i = gob.encode j) :
    i = j := by
  have := congrArg gob.decode h
  rwa [gob.decode_encode, gob.decode_encode, Option.some.injEq] at this

/-- The encoding of an item decodes to that item only. -/
theorem Gob.eq_of_decode_encode {V : Type} (gob : Gob V) {i j : Item}
    (h : gob.decode (gob.encode i) = some j) : i = j := by
  rwa [gob.decode_encode, Option.some.injEq] at h

/-- The buckets `PushBucket`, `InQueueBucket` and `DelayBucket`. -/
structure DB (V : Type) where
  push : Bucket Bytes V
  inQueue : Bucket Bytes V
  delay : Bucket Bytes V
  deriving DecidableEq

/-- The file with three empty buckets. -/
def DB.empty {V : Type} : DB V := ⟨.empty, .empty, .empty⟩

/-- The state of a consumer. -/
structure Consumer (V : Type) where
  db : DB V
  active : UInt64
  delayed : UInt64
  priority : Int64
  prefetch : Int64
  pq : List Item
  deriving DecidableEq

/-- Which calls fail in one operation. -/
structure Faults where
  beginTx : Bool := false
  encode : Bool := false
  put : Bool := false
  delete : Bool := false
  commit : Bool := false
  rollback : Bool := false
  deriving DecidableEq

/-- Nanoseconds of `time.Second * time.Duration(delay)`: an `int64` product, which wraps. -/
def delayNanos (delay : Int64) : Int := (1000000000 * delay).toInt

/-- The whole second at which a job that was stored at `now` (nanoseconds) is due. -/
def dueSec (now : Int) (delay : Int64) : Int := (now + delayNanos delay) / 1000000000

/-- The key of a delayed job: its due second in RFC 3339. -/
def tKey (now : Int) (delay : Int64) : Bytes := Calendar.rfc3339 (dueSec now delay)

namespace Item

variable {V : Type} (gob : Gob V)

/-- `Ack`: the item leaves `InQueueBucket`. The counter is decremented before the commit. -/
def ack (i : Item) (f : Faults) (c : Consumer V) : Option Err × Consumer V :=
  if f.beginTx then
    (some (.op "boltdb_item_ack" (.errorf "can't open transaction, error: %v" (.lib "Begin"))), c)
  else if f.delete then (some (.op "boltdb_item_ack" (.lib "Delete")), c)
  else
    let c :=
      if 0 < i.options.delay then { c with delayed := c.delayed + ~~~0 }
      else { c with active := c.active + ~~~0 }
    if f.commit then (some (.lib "Commit"), c)
    else (none, { c with db := { c.db with inQueue := c.db.inQueue.delete i.ident } })

/-- `Nack`: the stored value moves from `InQueueBucket` back to `PushBucket`. `Get` of a missing
key is nil. -/
def nack (i : Item) (f : Faults) (c : Consumer V) : Option Err × Consumer V :=
  if f.beginTx then
    (some (.op "boltdb_item_ack" (.errorf "can't open transaction, error: %v" (.lib "Begin"))), c)
  else
    let v := (c.db.inQueue.get i.ident).getD gob.nil
    if f.put then (some (.op "boltdb_item_ack" (.lib "Put")), c)
    else if f.delete then (some (.op "boltdb_item_ack" (.lib "Delete")), c)
    else if f.commit then (some (.lib "Commit"), c)
    else
      (none, { c with db := { c.db with
        push := c.db.push.put i.ident v
        inQueue := c.db.inQueue.delete i.ident } })

/-- `rollback`: the error of a transaction that is given up. -/
def rollback (err : Err) (f : Faults) : Err :=
  if f.rollback then
    .errorf₂ "transaction commit error: %v, rollback failed: %v" err (.lib "Rollback")
  else .errorf "transaction commit error: %v" err

/-- The item with the headers and the delay that a `Requeue` gives it. -/
def rewrite (i : Item) (headers : Headers) (delay : Int64) : Item :=
  { i with headers := headers, options := { i.options with delay := delay } }

/-- `Requeue`: the item is rewritten in memory first; then it leaves `InQueueBucket` and is stored
again, in `DelayBucket` under its due second or in `PushBucket` under its id. The result holds
the rewritten item. -/
def requeue (i : Item) (headers : Headers) (delay : Int64) (now : Int) (f : Faults)
    (c : Consumer V) : Option Err × Item × Consumer V :=
  let i := i.rewrite headers delay
  if f.beginTx then (some (.op "boltdb_item_requeue" (.lib "Begin")), i, c)
  else if f.delete then (some (.op "boltdb_item_requeue" (rollback (.lib "Delete") f)), i, c)
  else if f.encode then (some (.op "boltdb_item_requeue" (rollback (.lib "Encode") f)), i, c)
  else if f.put then (some (.op "boltdb_item_requeue" (rollback (.lib "Put") f)), i, c)
  else if f.commit then (some (.lib "Commit"), i, c)
  else
    let val := gob.encode i
    let inQueue := c.db.inQueue.delete i.ident
    if 0 < delay then
      (none, i, { c with db := { c.db with
        inQueue := inQueue, delay := c.db.delay.put (tKey now delay) val } })
    else
      (none, i, { c with db := { c.db with
        inQueue := inQueue, push := c.db.push.put i.ident val } })

/-! ## What the operations can do -/

/-- The consumer after an `Ack` that returned nil. -/
def acked (i : Item) (c : Consumer V) : Consumer V :=
  { c with
    db := { c.db with inQueue := c.db.inQueue.delete i.ident }
    active := if 0 < i.options.delay then c.active else c.active + ~~~0
    delayed := if 0 < i.options.delay then c.delayed + ~~~0 else c.delayed }

/-- The consumer after a `Nack` that returned nil. -/
def nacked (i : Item) (c : Consumer V) : Consumer V :=
  { c with db := { c.db with
      push := c.db.push.put i.ident ((c.db.inQueue.get i.ident).getD gob.nil)
      inQueue := c.db.inQueue.delete i.ident } }

/-- The consumer after a `Requeue` of the rewritten item `i` that returned nil. -/
def requeued (i : Item) (now : Int) (c : Consumer V) : Consumer V :=
  { c with db :=
      { push := if 0 < i.options.delay then c.db.push else c.db.push.put i.ident (gob.encode i)
        inQueue := c.db.inQueue.delete i.ident
        delay := if 0 < i.options.delay then c.db.delay.put (tKey now i.options.delay) (gob.encode i)
          else c.db.delay } }

/-- `Ack` fails and leaves the buckets and the queue, or does what `acked` says. -/
theorem ack_cases (i : Item) (f : Faults) (c : Consumer V) :
    ((i.ack f c).1 ≠ none ∧ (i.ack f c).2.db = c.db ∧ (i.ack f c).2.pq = c.pq) ∨
      i.ack f c = (none, i.acked c) := by
  cases hb : f.beginTx with
  | true => simp [ack, hb]
  | false =>
    cases hdel : f.delete with
    | true => simp [ack, hb, hdel]
    | false =>
      cases hc : f.commit <;> by_cases hd : 0 < i.options.delay <;>
        simp [ack, acked, hb, hdel, hc, hd]

theorem ack_ok (i : Item) (c : Consumer V) : i.ack {} c = (none, i.acked c) := by
  by_cases hd : 0 < i.options.delay <;> simp [ack, acked, hd]

/-- `Nack` fails and leaves the consumer, or does what `nacked` says. -/
theorem nack_cases (i : Item) (f : Faults) (c : Consumer V) :
    ((i.nack gob f c).1 ≠ none ∧ (i.nack gob f c).2 = c) ∨
      i.nack gob f c = (none, i.nacked gob c) := by
  unfold nack nacked
  split
  · exact .inl ⟨nofun, rfl⟩
  dsimp only
  repeat' split
  · exact .inl ⟨nofun, rfl⟩
  · exact .inl ⟨nofun, rfl⟩
  · exact .inl ⟨nofun, rfl⟩
  · exact .inr rfl

/-- `Requeue` fails and leaves the consumer, or does what `requeued` says. -/
theorem requeue_cases (i : Item) (headers : Headers) (delay : Int64) (now : Int) (f : Faults)
    (c : Consumer V) :
    ((i.requeue gob headers delay now f c).1 ≠ none ∧
        (i.requeue gob headers delay now f c).2 = (i.rewrite headers delay, c)) ∨
      i.requeue gob headers delay now f c =
        (none, i.rewrite headers delay, (i.rewrite headers delay).requeued gob now c) := by
  unfold requeue requeued
  dsimp only [rewrite]
  repeat' split
  · exact .inl ⟨nofun, rfl⟩
  · exact .inl ⟨nofun, rfl⟩
  · exact .inl ⟨nofun, rfl⟩
  · exact .inl ⟨nofun, rfl⟩
  · exact .inl ⟨nofun, rfl⟩
  · rename_i hd; simp only [hd, ↓reduceIte, or_true]
  · rename_i hd; simp only [hd, ↓reduceIte, or_true]

/-- `Requeue` returns nil exactly when none of its calls fails. -/
theorem requeue_eq_none (i : Item) (headers : Headers) (delay : Int64) (now : Int) (f : Faults)
    (c : Consumer V) :
    (i.requeue gob headers delay now f c).1 = none ↔
      f.beginTx = false ∧ f.delete = false ∧ f.encode = false ∧ f.put = false ∧
        f.commit = false := by
  unfold requeue
  dsimp only
  repeat' split
  all_goals simp_all

theorem requeue_ok (i : Item) (headers : Headers) (delay : Int64) (now : Int) (c : Consumer V) :
    i.requeue gob headers delay now {} c =
      (none, i.rewrite headers delay, (i.rewrite headers delay).requeued gob now c) := by
  rcases requeue_cases gob i headers delay now {} c with ⟨h, -⟩ | h
  · exact absurd ((requeue_eq_none gob i headers delay now {} c).mpr (by simp)) h
  · exact h

end Item

end RoadRunner.Boltdb
