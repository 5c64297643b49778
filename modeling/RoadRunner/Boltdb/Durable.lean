import RoadRunner.Boltdb.Tracked

/-!
# Jobs without a delay are not lost

A run in which nothing is delayed keeps every live job in `PushBucket` or in `InQueueBucket` under
its id, whatever transaction fails and wherever the process ends and is started again. The
recovery does not clear `InQueueBucket`, so a job may be in both; a delivery overwrites the copy in
`InQueueBucket` with the same value, and an `Ack` finds no copy in `PushBucket`.

* `Durable`: the invariant. `DelayBucket` is empty, so a live job is in one of the other two.
* `live_stored`: the result, over whole runs.
-/

namespace RoadRunner.Boltdb

open Consumer

variable {V : Type} (gob : Gob V)

/-- A `Push` and a `Requeue` have no delay, and a pushed id belongs to no live job. -/
def Undelayed (w : World V) : Op → Prop
  | .push job _ _ => job.options.delay ≤ 0 ∧ job.ident ∉ w.liveIds
  | .requeue _ _ delay _ _ => delay ≤ 0
  | _ => True

instance (w : World V) (op : Op) : Decidable (Undelayed w op) :=
  match op with
  | .push .. => inferInstanceAs (Decidable (_ ∧ _))
  | .requeue _ _ delay _ _ => inferInstanceAs (Decidable (delay ≤ 0))
  | .tick _ | .ack .. | .nack .. | .delayedTick .. | .reopen _ => inferInstanceAs (Decidable True)

/-- The id has an entry in `PushBucket` or in `InQueueBucket`. -/
def DB.Holds (db : DB V) (id : Bytes) : Prop := id ∈ db.push.keys ∨ id ∈ db.inQueue.keys

/-- Every live job has its entry, and nothing is delayed. -/
structure Durable (w : World V) : Prop extends Tracked gob w where
  no_delay : w.c.db.delay.entries = []
  holds : ∀ id ∈ w.liveIds, w.c.db.Holds id

variable {gob}

theorem orderly_of_undelayed {w : World V} {op : Op} (h : Durable gob w) (hu : Undelayed w op) :
    Orderly w op := by
  cases op with
  | push job now f => exact hu.2
  | delayedTick now f => exact .inr h.no_delay
  | _ => exact trivial

/-- A tick of `delayedJobsListener` moves nothing. -/
theorem Durable.eq_of_dueMoves {w w' : World V} (h : Durable gob w)
    (hm : Relation.ReflTransGen (DueMove gob) w w') : w' = w := by
  rcases hm.cases_head with rfl | ⟨w₁, hm, -⟩
  · rfl
  · obtain ⟨k, v, i, hmem, -⟩ := hm
    rw [Bucket.mem_def, h.no_delay] at hmem
    exact absurd hmem List.not_mem_nil

/-- The delayed jobs and the entries of the live ones, after one step. -/
theorem Effect.durable {w w' : World V} {op : Op} (h : Durable gob w) (hu : Undelayed w op)
    (heff : Effect gob w op w') :
    w'.c.db.delay.entries = [] ∧ ∀ id ∈ w'.liveIds, w'.c.db.Holds id := by
  cases heff with
  | quiet hdb _ hlive _ _ =>
    rw [hdb, World.liveIds, hlive]
    exact ⟨h.no_delay, h.holds⟩
  | @pushed job now f =>
    have hd : ¬ 0 < (fromJob job).options.delay := Int64.not_lt.mpr hu.1
    simp only [Consumer.pushed, hd, ↓reduceIte]
    refine ⟨h.no_delay, fun id hid => ?_⟩
    rw [World.liveIds, List.map_append, List.mem_append, List.map_singleton, List.mem_singleton]
      at hid
    rw [DB.Holds, Bucket.mem_keys_put]
    rcases hid with hid | rfl
    · exact (h.holds id hid).imp .inr (fun hq => hq)
    · exact .inl (.inl rfl)
  | @delivered f k v i hfirst hdec =>
    obtain ⟨-, rfl, -⟩ := h.push_entry (Bucket.mem_of_first hfirst) hdec
    refine ⟨h.no_delay, fun id hid => ?_⟩
    simp only [Consumer.delivered, DB.Holds, Bucket.mem_keys_put, Bucket.mem_keys_delete]
    by_cases hx : id = i.ident
    · exact .inr (.inl hx)
    · exact (h.holds id hid).imp (fun hp => ⟨hx, hp⟩) .inr
  | due hm => rw [h.eq_of_dueMoves hm]; exact ⟨h.no_delay, h.holds⟩
  | aborted => exact ⟨h.no_delay, h.holds⟩
  | @acked n f i hi =>
    refine ⟨h.no_delay, fun id hid => ?_⟩
    obtain ⟨x, hx, rfl⟩ := List.mem_map.mp hid
    obtain ⟨hx, hne⟩ := List.mem_filter.mp hx
    simp only [Consumer.settle, Item.acked, DB.Holds, Bucket.mem_keys_delete]
    exact (h.holds _ (List.mem_map_of_mem hx)).imp_right fun hq => ⟨by simpa using hne, hq⟩
  | @nacked n f i hi =>
    refine ⟨h.no_delay, fun id hid => ?_⟩
    simp only [Consumer.settle, Item.nacked, DB.Holds, Bucket.mem_keys_put, Bucket.mem_keys_delete]
    by_cases hx : id = i.ident
    · exact .inl (.inl hx)
    · exact (h.holds id hid).imp .inr fun hq => ⟨hx, hq⟩
  | @requeued n headers delay now f i hi =>
    have hd : ¬ 0 < (i.rewrite headers delay).options.delay := Int64.not_lt.mpr hu
    simp only [Consumer.settle, Item.requeued, hd, ↓reduceIte]
    refine ⟨h.no_delay, fun id hid => ?_⟩
    simp only [DB.Holds, Bucket.mem_keys_put, Bucket.mem_keys_delete]
    by_cases hx : id = (i.rewrite headers delay).ident
    · exact .inl (.inl hx)
    · rw [World.liveIds, replace_ident] at hid
      exact (h.holds id hid).imp .inr fun hq => ⟨hx, hq⟩
  | reopened priority prefetch =>
    refine ⟨h.no_delay, fun id hid => ?_⟩
    simp only [fresh, DB.recovered, DB.Holds, Bucket.mem_keys_overlay]
    exact (h.holds id hid).elim (fun hp => .inl (.inr hp)) .inr
  | ended => exact ⟨h.no_delay, h.holds⟩

theorem step_durable {w : World V} {op : Op} (h : Durable gob w) (hu : Undelayed w op) :
    Durable gob (step gob w op) := by
  obtain ⟨hdelay, hholds⟩ := (step_effect gob w op).durable h hu
  exact ⟨step_tracked h.toTracked (orderly_of_undelayed h hu), hdelay, hholds⟩

variable (gob)

/-- **No job is lost without delays.** In every state of a run without delays, over any failing
transactions and any restarts, a live job is in `PushBucket` or in `InQueueBucket`, under its id and
as its last `Push` or `Requeue` left it; the id of an acknowledged job is in neither. -/
theorem live_stored (priority prefetch : Int64) (ops : List Op)
    (h : Run.Along (step gob) Undelayed (World.init priority prefetch) ops) :
    let w := Run.exec (step gob) (World.init priority prefetch) ops
    (∀ x ∈ w.live, (x.ident, gob.encode x) ∈ w.c.db.push ∨ (x.ident, gob.encode x) ∈ w.c.db.inQueue) ∧
      ∀ id ∉ w.live.map Item.ident, id ∉ w.c.db.push.keys ∧ id ∉ w.c.db.inQueue.keys := by
  intro w
  have hw : Durable gob w := by
    refine h.invariant (fun w op hw hu => step_durable hw hu) ?_
    exact ⟨init_tracked priority prefetch, rfl, fun id hid => absurd hid List.not_mem_nil⟩
  refine ⟨fun x hx => ?_, fun id hid => ⟨fun hp => hid (hw.push_keys hp), fun hq => hid (hw.inQueue_keys hq)⟩⟩
  -- the value under the id is that of a live job with this id, and there is only one
  have hval : ∀ {y : Item} {v : V}, y ∈ w.live → (x.ident, v) = keyed gob y → v = gob.encode x := by
    intro y v hy he
    obtain ⟨hid, rfl⟩ := Prod.mk.inj he
    rw [hw.live_ext hx hy hid]
  rcases hw.holds x.ident (List.mem_map_of_mem hx) with hp | hq
  · obtain ⟨v, hv⟩ := Bucket.mem_keys.mp hp
    obtain ⟨y, hy, he⟩ := hw.push _ hv
    exact .inl (hval hy he ▸ hv)
  · obtain ⟨v, hv⟩ := Bucket.mem_keys.mp hq
    obtain ⟨y, hy, he⟩ := hw.inQueue _ hv
    exact .inr (hval hy he ▸ hv)

/-- The jobs `a` and `b` are pushed and `a` is delivered; the process is restarted, `a` is delivered
again, and its second `Ack` is committed. -/
theorem live_stored_restart :
    let ops := [.push (plainJob [97] 0) 0 {}, .push (plainJob [98] 0) 0 {}, .tick {},
      .reopen (.pipeline ⟨10, none⟩ ⟨true, true, some {}⟩ {}), .tick {}, .ack 0 { commit := true },
      .ack 0 {}]
    let w := Run.exec (step .plain) (World.init 10 1000) ops
    Run.Along (step .plain) Undelayed (World.init 10 1000) ops ∧
      w.live.map Item.ident = [[98]] ∧
      (∀ x ∈ w.live, (x.ident, some x) ∈ w.c.db.push ∨ (x.ident, some x) ∈ w.c.db.inQueue) ∧
      ∀ id ∉ w.live.map Item.ident, id ∉ w.c.db.push.keys ∧ id ∉ w.c.db.inQueue.keys :=
  ⟨by decide +kernel, by decide +kernel, live_stored .plain 10 1000 _ (by decide +kernel)⟩

end RoadRunner.Boltdb
