import RoadRunner.Boltdb.Consumer

/-!
# Operations of the boltdb jobs driver that fail

An operation that returns an error should have done nothing: the three buckets, the counters and
the delay of the item are what they were. The buckets are safe, as bbolt rolls a transaction back.
The counters and the item are plain memory: `Push` and `Ack` move a counter before the commit, and
`Requeue` rewrites the item before it opens the transaction.

* `Call.atomic_iff`: the exact faults under which an operation is atomic.
-/

namespace RoadRunner.Boltdb

/-- An operation on a consumer, with its arguments. -/
inductive Call where
  | push (job : Job) (now : Int)
  | ack (i : Item)
  | nack (i : Item)
  | requeue (i : Item) (headers : Headers) (delay : Int64) (now : Int)
  deriving DecidableEq

namespace Call

/-- The item that the operation is called on, with the delay it has then. A `Push` has none. -/
def item? : Call → Option Item
  | push .. => none
  | ack i => some i
  | nack i => some i
  | requeue i .. => some i

section

variable {V : Type} (gob : Gob V)

/-- The operation: its error, the item after it, and the consumer after it. -/
def run (f : Faults) (c : Consumer V) : Call → Option Err × Option Item × Consumer V
  | push job now => ((c.pushJob gob job now f).1, none, (c.pushJob gob job now f).2)
  | ack i => ((i.ack f c).1, some i, (i.ack f c).2)
  | nack i => ((i.nack gob f c).1, some i, (i.nack gob f c).2)
  | requeue i headers delay now =>
    ((i.requeue gob headers delay now f c).1, some (i.requeue gob headers delay now f c).2.1,
      (i.requeue gob headers delay now f c).2.2)

/-- If the operation returns an error, then the buckets, the counters and the item's delay are the
same as before the call. -/
def Atomic (f : Faults) (c : Consumer V) (call : Call) : Prop :=
  (call.run gob f c).1 ≠ none →
    (call.run gob f c).2.2.db = c.db ∧
      (call.run gob f c).2.2.active = c.active ∧ (call.run gob f c).2.2.delayed = c.delayed ∧
      (call.run gob f c).2.1.map (·.options.delay) = call.item?.map (·.options.delay)

end

/-- The operation fails after it has changed something that is not in the file: `Push` and `Ack` at
their commit, `Requeue` anywhere, if the item gets another delay. -/
def Leaks (f : Faults) : Call → Prop
  | push .. => f.beginTx = false ∧ f.encode = false ∧ f.put = false ∧ f.commit = true
  | ack _ => f.beginTx = false ∧ f.delete = false ∧ f.commit = true
  | nack _ => False
  | requeue i _ delay _ =>
    delay ≠ i.options.delay ∧
      (f.beginTx = true ∨ f.delete = true ∨ f.encode = true ∨ f.put = true ∨ f.commit = true)

instance (f : Faults) : (call : Call) → Decidable (call.Leaks f)
  | push .. => inferInstanceAs (Decidable (_ ∧ _ ∧ _ ∧ _))
  | ack _ => inferInstanceAs (Decidable (_ ∧ _ ∧ _))
  | nack _ => inferInstanceAs (Decidable False)
  | requeue .. => inferInstanceAs (Decidable (_ ∧ (_ ∨ _ ∨ _ ∨ _ ∨ _)))

section

variable {V : Type} (gob : Gob V) (c : Consumer V) (f : Faults)

theorem atomic_push (job : Job) (now : Int) :
    Atomic gob f c (push job now) ↔ ¬ (push job now).Leaks f := by
  cases hb : f.beginTx with
  | true => simp [Atomic, run, Leaks, item?, Consumer.pushJob, hb]
  | false =>
    cases he : f.encode with
    | true => simp [Atomic, run, Leaks, item?, Consumer.pushJob, hb, he]
    | false =>
      cases hp : f.put with
      | true => simp [Atomic, run, Leaks, item?, Consumer.pushJob, hb, he, hp]
      | false =>
        -- the counter has moved by now
        cases hc : f.commit <;> by_cases hd : 0 < (fromJob job).options.delay <;>
          simp [Atomic, run, Leaks, item?, Consumer.pushJob, hb, he, hp, hc, hd]

theorem atomic_ack (i : Item) : Atomic gob f c (ack i) ↔ ¬ (ack i).Leaks f := by
  cases hb : f.beginTx with
  | true => simp [Atomic, run, Leaks, item?, Item.ack, hb]
  | false =>
    cases hdel : f.delete with
    | true => simp [Atomic, run, Leaks, item?, Item.ack, hb, hdel]
    | false =>
      cases hc : f.commit <;> by_cases hd : 0 < i.options.delay <;>
        simp [Atomic, run, Leaks, item?, Item.ack, hb, hdel, hc, hd]

theorem atomic_nack (i : Item) : Atomic gob f c (nack i) := by
  intro herr
  rcases Item.nack_cases gob i f c with ⟨-, h⟩ | h
  · simp only [run, h, item?, and_self]
  · exact absurd (congrArg Prod.fst h) herr

theorem atomic_requeue (i : Item) (headers : Headers) (delay : Int64) (now : Int) :
    Atomic gob f c (requeue i headers delay now) ↔ ¬ (requeue i headers delay now).Leaks f := by
  -- the call fails exactly if one of the faults that `Leaks` lists is there
  have hfails : (i.requeue gob headers delay now f c).1 ≠ none ↔
      f.beginTx = true ∨ f.delete = true ∨ f.encode = true ∨ f.put = true ∨ f.commit = true := by
    rw [Ne, Item.requeue_eq_none]
    grind
  simp only [Atomic, Leaks, run, item?, ← hfails]
  rcases Item.requeue_cases gob i headers delay now f c with ⟨herr, h⟩ | h
  · simp [herr, h, Item.rewrite]
  · simp [h]

/-- An operation is atomic exactly if it does not fail where `Leaks` says. -/
theorem atomic_iff (call : Call) : call.Atomic gob f c ↔ ¬ call.Leaks f := by
  cases call with
  | push job now => exact atomic_push gob c f job now
  | ack i => exact atomic_ack gob c f i
  | nack i => exact iff_of_true (atomic_nack gob c f i) id
  | requeue i headers delay now => exact atomic_requeue gob c f i headers delay now

end

/-- A consumer with one job in its queue. A `Push` whose commit fails counts a job that is nowhere;
an `Ack` whose commit fails takes a job off the count that is still in `InQueueBucket`; a `Requeue`
that cannot open its transaction leaves a delay of 5 seconds on an item that is not delayed. -/
theorem failures_not_atomic :
    let job := plainJob (ascii "1") 0
    let c := ((fresh 10 1000 .empty).pushJob Gob.plain job 0 {}).2.listenerTick Gob.plain {}
    ¬ (push (plainJob (ascii "2") 0) 0).Atomic Gob.plain { commit := true } c ∧
      ¬ (ack (fromJob job)).Atomic Gob.plain { commit := true } c ∧
      ¬ (requeue (fromJob job) none 5 0).Atomic Gob.plain { beginTx := true } c := by
  intro job c
  refine ⟨?_, ?_, ?_⟩
  · rw [atomic_push]
    decide
  · rw [atomic_ack]
    decide
  · rw [atomic_requeue]
    decide

end Call

end RoadRunner.Boltdb
