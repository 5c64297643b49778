import RoadRunner.Boltdb.System

/-!
# Stored jobs stay readable

A value that does not decode stops `listener` for good once it is the first of `PushBucket`: each
tick rolls back and the next one meets it again. The two buckets of ready jobs never hold one, but
for `Nack`, which moves the value that `InQueueBucket` has for the job's id. Two delivered items with
one id share that entry; when the first is settled, the other's `Nack` finds nothing and stores a
value of no bytes.

* `readable_iff_nackFinds`: along a run, with restarts and failing calls as well, the buckets stay
  readable exactly if every `Nack` that goes through finds its entry.
-/

namespace RoadRunner.Boltdb

open Consumer

section

variable {V : Type} (gob : Gob V)

/-- The entry holds the encoding of a job with its key as id. -/
def Encodes (e : Bytes × V) : Prop := ∃ i : Item, i.ident = e.1 ∧ e.2 = gob.encode i

/-- Every value of `PushBucket` and of `InQueueBucket` encodes a job whose id is its key. -/
structure Readable (db : DB V) : Prop where
  push : ∀ e ∈ db.push, Encodes gob e
  inQueue : ∀ e ∈ db.inQueue, Encodes gob e

/-- The values of `DelayBucket`, which are stored under due seconds, encode jobs. -/
def DelayReadable (db : DB V) : Prop := ∀ e ∈ db.delay, ∃ i, e.2 = gob.encode i

/-- A `Nack` that goes through finds the job's entry in `InQueueBucket`. -/
def NackFinds (w : World V) : Op → Prop
  | .nack n f => ∀ i, w.c.pq[n]? = some i → (i.nack gob f w.c).1 = none → i.ident ∈ w.c.db.inQueue.keys
  | _ => True

variable {gob}

theorem encodes_item (i : Item) : Encodes gob (i.ident, gob.encode i) := ⟨i, rfl, rfl⟩

/-- An encoding, stored under the id of the job that it decodes to. -/
theorem encodes_of_decode {i j : Item} (h : gob.decode (gob.encode j) = some i) :
    Encodes gob (i.ident, gob.encode j) := by
  obtain rfl := gob.eq_of_decode_encode h
  exact encodes_item j

theorem Encodes.decodes {e : Bytes × V} (h : Encodes gob e) : ∃ i, gob.decode e.2 = some i ∧ i.ident = e.1 := by
  obtain ⟨i, hid, hv⟩ := h
  exact ⟨i, by rw [hv, gob.decode_encode], hid⟩

theorem not_encodes_nil (k : Bytes) : ¬ Encodes gob (k, gob.nil) := by
  intro h
  obtain ⟨i, hi, -⟩ := h.decodes
  rw [gob.decode_nil] at hi
  cases hi

/-! ### Buckets -/

theorem encodes_put {b : Bucket Bytes V} (hb : ∀ e ∈ b, Encodes gob e) {k : Bytes} {v : V}
    (h : Encodes gob (k, v)) : ∀ e ∈ b.put k v, Encodes gob e := by
  intro e he
  rcases Bucket.mem_put.mp he with rfl | ⟨_, he⟩
  · exact h
  · exact hb e he

theorem encodes_delete {b : Bucket Bytes V} (hb : ∀ e ∈ b, Encodes gob e) (k : Bytes) :
    ∀ e ∈ b.delete k, Encodes gob e :=
  fun e he => hb e (Bucket.mem_delete.mp he).2

theorem delayReadable_put {db : DB V} (h : DelayReadable gob db) (k : Bytes) (i : Item) :
    ∀ e ∈ db.delay.put k (gob.encode i), ∃ j, e.2 = gob.encode j := by
  intro e he
  rcases Bucket.mem_put.mp he with rfl | ⟨_, he⟩
  · exact ⟨i, rfl⟩
  · exact h e he

/-- A first value that does not decode stays where it is. -/
theorem listenerTick_stuck {c : Consumer V} {k : Bytes} {v : V} (hfirst : c.db.push.first = some (k, v))
    (hdec : gob.decode v = none) (f : Faults) : c.listenerTick gob f = c := by
  rcases listenerTick_cases gob f c with h | ⟨k', v', i, hfirst', hdec', -, -⟩
  · exact h
  · rw [hfirst] at hfirst'
    cases hfirst'
    rw [hdec] at hdec'
    cases hdec'

/-! ### One step -/

theorem readable_dueMove {w w' : World V} (h : DueMove gob w w') (hr : Readable gob w.c.db)
    (hd : DelayReadable gob w.c.db) : Readable gob w'.c.db ∧ DelayReadable gob w'.c.db := by
  obtain ⟨k, v, i, hmem, hdec⟩ := h
  obtain ⟨j, rfl⟩ := hd _ hmem
  refine ⟨⟨hr.push, encodes_put hr.inQueue (encodes_of_decode hdec)⟩, fun e he => ?_⟩
  exact hd e (Bucket.mem_delete.mp he).2

/-- Every step but a `Nack` keeps the buckets readable. -/
theorem readable_effect {w w' : World V} {op : Op} (heff : Effect gob w op w')
    (hop : ∀ n f, op ≠ .nack n f) (hr : Readable gob w.c.db) (hd : DelayReadable gob w.c.db) :
    Readable gob w'.c.db ∧ DelayReadable gob w'.c.db := by
  cases heff with
  | quiet hdb => exact hdb ▸ ⟨hr, hd⟩
  | @pushed job now _ =>
    refine ⟨⟨?_, hr.inQueue⟩, ?_⟩
    · simp only [pushed]
      split
      · exact hr.push
      · exact encodes_put hr.push (encodes_item _)
    · simp only [pushed, DelayReadable]
      split
      · exact delayReadable_put hd _ _
      · exact hd
  | @delivered _ k v i hfirst hdec =>
    obtain ⟨j, -, hv⟩ := hr.push _ (Bucket.mem_of_first hfirst)
    dsimp only at hv
    subst hv
    exact ⟨⟨encodes_delete hr.push k, encodes_put hr.inQueue (encodes_of_decode hdec)⟩, hd⟩
  | due hmoves =>
    induction hmoves with
    | refl => exact ⟨hr, hd⟩
    | tail _ hmove ih => exact readable_dueMove hmove ih.1 ih.2
  | aborted => exact ⟨hr, hd⟩
  | acked hi => exact ⟨⟨hr.push, encodes_delete hr.inQueue _⟩, hd⟩
  | @nacked n f => exact absurd rfl (hop n f)
  | @requeued n headers delay now f i hi =>
    refine ⟨⟨?_, encodes_delete hr.inQueue _⟩, ?_⟩
    · simp only [settle, Item.requeued]
      split
      · exact hr.push
      · exact encodes_put hr.push (encodes_item _)
    · simp only [settle, Item.requeued, DelayReadable]
      split
      · exact delayReadable_put hd _ _
      · exact hd
  | reopened priority prefetch =>
    refine ⟨⟨fun e he => ?_, hr.inQueue⟩, hd⟩
    exact (Bucket.mem_overlay he).elim (hr.inQueue e) (hr.push e)
  | ended => exact ⟨hr, hd⟩

/-- The value that a `Nack` stores encodes the job exactly if its entry is there. -/
theorem readable_nacked_iff {c : Consumer V} {i : Item} (hr : Readable gob c.db) :
    Readable gob (i.nacked gob c).db ↔ i.ident ∈ c.db.inQueue.keys := by
  constructor
  · intro h
    by_contra hmem
    have hnil : (i.ident, gob.nil) ∈ (i.nacked gob c).db.push := by
      simp only [Item.nacked, Bucket.get_eq_none.mpr hmem, Option.getD_none]
      exact Bucket.mem_put_self _ _ _
    exact not_encodes_nil i.ident (h.push _ hnil)
  · intro hmem
    obtain ⟨v, hv⟩ := Bucket.mem_keys.mp hmem
    refine ⟨?_, encodes_delete hr.inQueue _⟩
    simp only [Item.nacked, Bucket.get_eq_some.mpr hv, Option.getD_some]
    exact encodes_put hr.push (hr.inQueue _ hv)

/-- A step of a readable file leaves it readable exactly if a `Nack` finds its entry. -/
theorem readable_step_iff {w : World V} (op : Op) (hr : Readable gob w.c.db) (hd : DelayReadable gob w.c.db) :
    DelayReadable gob (step gob w op).c.db ∧
      (Readable gob (step gob w op).c.db ↔ NackFinds gob w op) := by
  by_cases hop : ∀ n f, op ≠ .nack n f
  · obtain ⟨hr', hd'⟩ := readable_effect (step_effect gob w op) hop hr hd
    refine ⟨hd', iff_of_true hr' ?_⟩
    cases op with
    | nack n f => exact absurd rfl (hop n f)
    | _ => trivial
  · obtain ⟨n, f, rfl⟩ : ∃ n f, op = .nack n f := by simpa using hop
    cases hi : w.c.pq[n]? with
    | none =>
      simp only [step, NackFinds, hi]
      exact ⟨hd, iff_of_true hr fun _ h => by cases h⟩
    | some i =>
      have hfinds : NackFinds gob w (.nack n f) ↔
          ((i.nack gob f w.c).1 = none → i.ident ∈ w.c.db.inQueue.keys) := by
        simp [NackFinds, hi]
      rw [hfinds]
      simp only [step, hi]
      rcases Item.nack_cases gob i f w.c with ⟨herr, hc⟩ | h
      · obtain ⟨e, he⟩ := Option.ne_none_iff_exists'.mp herr
        rw [← Prod.eta (i.nack gob f w.c), he, hc]
        exact ⟨hd, iff_of_true hr fun hnone => by cases hnone⟩
      · rw [h]
        refine ⟨hd, (readable_nacked_iff hr).trans ?_⟩
        simp

end

/-- Along every run, with restarts and failing calls as well, the buckets of ready jobs stay readable
exactly if every `Nack` that goes through finds its entry. -/
theorem readable_iff_nackFinds {V : Type} (gob : Gob V) (priority prefetch : Int64) (ops : List Op) :
    (∀ pre post, ops = pre ++ post →
        Readable gob (Run.exec (step gob) (World.init priority prefetch) pre).c.db) ↔
      Run.Along (step gob) (NackFinds gob) (World.init priority prefetch) ops := by
  refine Run.Along.always_iff (I := fun w : World V => DelayReadable gob w.c.db)
    (P := fun w : World V => Readable gob w.c.db) ?_ ?_ ?_ ?_
  · intro w op hd hr hC
    obtain ⟨hd', hiff⟩ := readable_step_iff op hr hd
    exact ⟨hd', hiff.mpr hC⟩
  · intro w op hd hr hr'
    exact (readable_step_iff op hr hd).2.mp hr'
  · intro e he
    cases he
  · constructor
    all_goals
      intro e he
      cases he

/-- A job is delivered, pushed and delivered again; the first is acknowledged and the second rejected. -/
def rejectSecond : List Op :=
  [.push (plainJob (ascii "a") 0) 0 {}, .tick {}, .push (plainJob (ascii "a") 0) 0 {}, .tick {}, .ack 0 {},
    .nack 0 {}]

/-- The world after it. -/
def rejectedSecond : World (Option Item) := Run.exec (step Gob.plain) (World.init 10 1000) rejectSecond

/-- No call fails, the value left in `PushBucket` has no bytes, and no tick gets past it. -/
theorem rejectSecond_stuck :
    (∀ op ∈ rejectSecond, op.Faultless) ∧ ¬ Readable Gob.plain rejectedSecond.c.db ∧
      ∀ f, rejectedSecond.c.listenerTick Gob.plain f = rejectedSecond.c := by
  have hfirst : rejectedSecond.c.db.push.first = some (ascii "a", Gob.plain.nil) := by decide +kernel
  refine ⟨by decide, fun h => ?_, listenerTick_stuck hfirst rfl⟩
  exact not_encodes_nil _ (h.push _ (Bucket.mem_of_first hfirst))

end RoadRunner.Boltdb
