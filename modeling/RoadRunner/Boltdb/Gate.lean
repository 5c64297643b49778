import RoadRunner.Lib.Counter
import RoadRunner.Lib.Update
import RoadRunner.Boltdb.System

/-!
# The gate of the listener

A tick of `listener` does nothing while `active > prefetch`. But `active` counts every job that was
pushed without a delay and not acknowledged, not the ones in flight; and a consumer that is built on
a file with jobs starts it at 0, so the first `Ack` of such a job wraps it.

* `NoWrap`, `KeepsGateOpen`: the steps that do not take one off an `active` of 0, and those that do
  not push it over `prefetch` either.
* `listener_moves_first`: a tick with a job to deliver delivers it exactly if the gate is open, and
  the gate is open in every state of a run whose steps keep it open.
* `recovered_never_wraps_iff`: when a consumer on the file of a previous process keeps its counter.
-/

namespace RoadRunner.Boltdb

open Consumer Counter

variable {V : Type} (gob : Gob V)

/-- A tick without failing calls moves the first entry `k ↦ v` of `PushBucket` to `InQueueBucket` and
inserts the item `i` into the queue. -/
def Moved (c : Consumer V) (k : Bytes) (v : V) (i : Item) : Prop :=
  k ∉ (c.listenerTick gob {}).db.push.keys ∧ (i.ident, v) ∈ (c.listenerTick gob {}).db.inQueue ∧
    (c.listenerTick gob {}).pq = c.pq ++ [withPriority c.priority i]

/-- An `Ack` that takes one off `active` finds it positive. -/
def NoWrap (w : World V) : Op → Prop
  | .ack n f => ∀ i ∈ w.c.pq[n]?,
    0 < i.options.delay ∨ f.beginTx = true ∨ f.delete = true ∨ 0 < w.c.active
  | _ => True

instance (w : World V) (op : Op) : Decidable (NoWrap w op) :=
  match op with
  | .ack n f =>
    inferInstanceAs (Decidable (∀ i ∈ w.c.pq[n]?,
      0 < i.options.delay ∨ f.beginTx = true ∨ f.delete = true ∨ 0 < w.c.active))
  | .push .. | .tick _ | .nack .. | .requeue .. | .delayedTick .. | .reopen _ => inferInstanceAs (Decidable True)

/-- Moreover, a `Push` that adds one to `active` finds it below `prefetch`. -/
def KeepsGateOpen (w : World V) : Op → Prop
  | .push job _ f => 0 < job.options.delay ∨ f.beginTx = true ∨ f.encode = true ∨ f.put = true ∨
    w.c.active < w.c.prefetch.toUInt64
  | op => NoWrap w op

instance (w : World V) (op : Op) : Decidable (KeepsGateOpen w op) :=
  match op with
  | .push .. => inferInstanceAs (Decidable (_ ∨ _))
  | .ack n f => inferInstanceAs (Decidable (NoWrap w (.ack n f)))
  | .tick _ | .nack .. | .requeue .. | .delayedTick .. | .reopen _ => inferInstanceAs (Decidable True)

variable {gob}

/-! ## The counter after one step -/

theorem pushJob_active (gob : Gob V) (job : Job) (now : Int) (f : Faults) (c : Consumer V) :
    (c.pushJob gob job now f).2.prefetch = c.prefetch ∧
      ((c.pushJob gob job now f).2.active = c.active ∨
        (c.pushJob gob job now f).2.active = c.active + 1 ∧ ¬ 0 < job.options.delay ∧
          f.beginTx = false ∧ f.encode = false ∧ f.put = false) := by
  by_cases hd : 0 < job.options.delay <;> cases hb : f.beginTx <;> cases he : f.encode <;>
    cases hp : f.put <;> cases hc : f.commit <;> simp [pushJob, fromJob, hd, hb, he, hp, hc]

theorem ack_active (i : Item) (f : Faults) (c : Consumer V) :
    (i.ack f c).2.prefetch = c.prefetch ∧
      ((i.ack f c).2.active = c.active ∨
        (i.ack f c).2.active = c.active + ~~~0 ∧ ¬ 0 < i.options.delay ∧
          f.beginTx = false ∧ f.delete = false) := by
  by_cases hd : 0 < i.options.delay <;> cases hb : f.beginTx <;> cases he : f.delete <;>
    cases hc : f.commit <;> simp [Item.ack, hd, hb, he, hc]

theorem listenerTick_active (f : Faults) (c : Consumer V) :
    (c.listenerTick gob f).active = c.active ∧ (c.listenerTick gob f).prefetch = c.prefetch := by
  rcases listenerTick_cases gob f c with h | ⟨k, v, i, -, -, -, h⟩ <;> rw [h] <;> exact ⟨rfl, rfl⟩

theorem delayedTick_active (now : Int) (f : DelayFaults) (c : Consumer V) :
    (c.delayedTick gob now f).2.active = c.active ∧
      (c.delayedTick gob now f).2.prefetch = c.prefetch := by
  unfold delayedTick
  split
  · exact ⟨rfl, rfl⟩
  · dsimp only
    split <;> exact ⟨rfl, rfl⟩

variable (gob)

/-- What a step does to `active`: nothing, a reset to 0, one more for a `Push`, one less for an
`Ack`. -/
theorem active_effect (w : World V) (op : Op) :
    let w' := step gob w op
    (w'.c.active = w.c.active ∧ w'.c.prefetch = w.c.prefetch) ∨ w'.c.active = 0 ∨
      (∃ job now f, op = .push job now f ∧ w'.c.active = w.c.active + 1 ∧
        w'.c.prefetch = w.c.prefetch ∧ ¬ 0 < job.options.delay ∧ f.beginTx = false ∧
        f.encode = false ∧ f.put = false) ∨
      ∃ n f i, op = .ack n f ∧ w.c.pq[n]? = some i ∧ w'.c.active = w.c.active + ~~~0 ∧
        w'.c.prefetch = w.c.prefetch ∧ ¬ 0 < i.options.delay ∧ f.beginTx = false ∧
        f.delete = false := by
  intro w'
  cases op with
  | push job now f =>
    have hc : w'.c = (w.c.pushJob gob job now f).2 := by
      simp only [w', step]
      split <;> (rename_i h; rw [h])
    obtain ⟨hp, ha | ⟨ha, hd⟩⟩ := pushJob_active gob job now f w.c
    · exact .inl ⟨by rw [hc, ha], by rw [hc, hp]⟩
    · exact .inr (.inr (.inl ⟨job, now, f, rfl, by rw [hc, ha], by rw [hc, hp], hd⟩))
  | tick f => exact .inl (listenerTick_active f w.c)
  | delayedTick now f => exact .inl (delayedTick_active now f w.c)
  | ack n f =>
    cases hi : w.c.pq[n]? with
    | none =>
      have hw : w' = w := by simp only [w', step, hi]
      rw [hw]
      exact .inl ⟨rfl, rfl⟩
    | some i =>
      have hc : w'.c.active = (i.ack f w.c).2.active ∧ w'.c.prefetch = (i.ack f w.c).2.prefetch := by
        simp only [w', step, hi]
        split <;> (rename_i h; rw [h]) <;> exact ⟨rfl, rfl⟩
      obtain ⟨hp, ha | ⟨ha, hd⟩⟩ := ack_active i f w.c
      · exact .inl ⟨by rw [hc.1, ha], by rw [hc.2, hp]⟩
      · exact .inr (.inr (.inr ⟨n, f, i, rfl, hi, by rw [hc.1, ha], by rw [hc.2, hp], hd⟩))
  | nack n f =>
    refine .inl ?_
    cases hi : w.c.pq[n]? with
    | none => simp only [w', step, hi, and_self]
    | some i =>
      rcases step_nack gob f hi with h | h <;> (rw [show w' = _ from h]; exact ⟨rfl, rfl⟩)
  | requeue n headers delay now f =>
    refine .inl ?_
    cases hi : w.c.pq[n]? with
    | none => simp only [w', step, hi, and_self]
    | some i =>
      rcases step_requeue gob headers delay now f hi with ⟨-, h⟩ | ⟨-, h⟩ <;>
        (rw [show w' = _ from h]; exact ⟨rfl, rfl⟩)
  | reopen b =>
    cases hb : b.run w.c.db with
    | error e => exact .inl (by simp [w', step, hb])
    | ok c =>
      obtain ⟨priority, prefetch, rfl⟩ := b.run_eq_ok hb
      exact .inr (.inl (by simp only [w', step, hb]; rfl))

/-- A step that keeps the gate open. -/
theorem step_not_gated {w : World V} {op : Op} (h : ¬ w.c.gated) (hk : KeepsGateOpen w op) :
    ¬ (step gob w op).c.gated := by
  unfold gated at h ⊢
  rcases active_effect gob w op with ⟨ha, hp⟩ | ha | ⟨job, now, f, rfl, ha, hp, hd, hb, he, hput⟩ |
    ⟨n, f, i, rfl, hi, ha, hp, hd, hb, hdel⟩
  · rw [ha, hp]; exact h
  · rw [ha]; exact UInt64.not_lt_zero
  · have hlt : w.c.active < w.c.prefetch.toUInt64 := by
      rcases hk with hk | hk | hk | hk | hk <;> simp_all
    rw [ha, hp]
    exact add_one_not_gt hlt
  · have hpos : 0 < w.c.active := by
      rcases hk i hi with hk | hk | hk | hk <;> simp_all
    rw [ha, hp]
    exact dec_not_gt hpos h

/-! ## Back-pressure -/

/-- A tick with a job to deliver delivers it exactly if the gate is open. -/
theorem moved_iff {c : Consumer V} {k : Bytes} {v : V} {i : Item}
    (hfirst : c.db.push.first = some (k, v)) (hdec : gob.decode v = some i) :
    Moved gob c k v i ↔ ¬ c.gated := by
  constructor
  · rintro ⟨hk, -, -⟩ hg
    rw [listenerTick, if_pos hg] at hk
    exact hk (Bucket.mem_keys.mpr ⟨v, Bucket.mem_of_first hfirst⟩)
  · intro hg
    rw [Moved, listenerTick_delivers gob hg hfirst hdec]
    exact ⟨fun hk => (Bucket.mem_keys_delete.mp hk).1 rfl, Bucket.mem_put_self _ _ _, rfl⟩

/-- **When the listener delivers.** In every state of every run, with any failures and restarts, in
which `PushBucket` has a first job that decodes and fewer than `prefetch` jobs are in flight, a tick
delivers that job exactly if `active` is not over `prefetch`. This is so in every state of a run in
which every `Push` that is counted as active finds `active` below `prefetch`, and every `Ack` that is
finds it positive. -/
theorem listener_moves_first (priority prefetch : Int64) (ops : List Op) :
    let w := Run.exec (step gob) (World.init priority prefetch) ops
    ∀ k v i, w.c.db.push.first = some (k, v) → gob.decode v = some i →
      (w.c.db.inQueue.length : Int) < w.c.prefetch.toInt →
      (Moved gob w.c k v i ↔ w.c.active ≤ w.c.prefetch.toUInt64) ∧
        (Run.Along (step gob) KeepsGateOpen (World.init priority prefetch) ops →
          Moved gob w.c k v i) := by
  intro w k v i hfirst hdec _
  refine ⟨(moved_iff gob hfirst hdec).trans UInt64.not_lt, fun h => ?_⟩
  refine (moved_iff gob hfirst hdec).mpr ?_
  exact h.invariant (I := fun w => ¬ w.c.gated) (fun _ _ hg hk => step_not_gated gob hg hk)
    UInt64.not_lt_zero

/-- Two jobs are pushed with a `prefetch` of 2, and the first one is delivered and acknowledged. -/
theorem listener_moves_first_two :
    let ops := [.push (plainJob [97] 0) 0 {}, .push (plainJob [98] 0) 0 {}, .tick {}, .ack 0 {}]
    let w := Run.exec (step .plain) (World.init 10 2) ops
    Run.Along (step .plain) KeepsGateOpen (World.init 10 2) ops ∧
      Moved .plain w.c [98] (some (fromJob (plainJob [98] 0))) (fromJob (plainJob [98] 0)) :=
  ⟨by decide +kernel, (listener_moves_first .plain 10 2 _ _ _ _ (by decide +kernel)
    (by decide +kernel) (by decide +kernel)).2 (by decide +kernel)⟩

/-- Two jobs are pushed with a `prefetch` of 1. Nothing is in flight, and no tick delivers a job. -/
theorem listener_stuck :
    let ops := [.push (plainJob [97] 0) 0 {}, .push (plainJob [98] 0) 0 {}]
    let w := Run.exec (step .plain) (World.init 10 1) ops
    w.c.db.push.first = some ([97], some (fromJob (plainJob [97] 0))) ∧
      (w.c.db.inQueue.length : Int) < w.c.prefetch.toInt ∧ w.c.listenerTick .plain {} = w.c ∧
      ¬ Moved .plain w.c [97] (some (fromJob (plainJob [97] 0))) (fromJob (plainJob [97] 0)) := by
  refine ⟨by decide +kernel, by decide +kernel, by decide +kernel, ?_⟩
  rintro ⟨hk, -, -⟩
  revert hk
  decide +kernel

/-! ## Recovery -/

/-- The entries that ticks can deliver: the first ones, up to a value that does not decode. -/
def deliverable (db : DB V) : List (Bytes × V) :=
  db.push.entries.takeWhile fun e => (gob.decode e.2).isSome

/-- Every entry that ticks can deliver is a job with a positive delay. -/
def AllDelayed (db : DB V) : Prop :=
  ∀ e ∈ deliverable gob db, ∀ i ∈ gob.decode e.2, 0 < i.options.delay

instance (db : DB V) : Decidable (AllDelayed gob db) :=
  inferInstanceAs (Decidable (∀ e ∈ deliverable gob db, ∀ i ∈ gob.decode e.2, 0 < i.options.delay))

/-- The operation is a tick of `listener` or an `Ack`. -/
def Op.TickOrAck : Op → Prop
  | .tick _ | .ack _ _ => True
  | _ => False

instance (op : Op) : Decidable op.TickOrAck :=
  match op with
  | .tick _ | .ack .. => inferInstanceAs (Decidable True)
  | .push .. | .nack .. | .requeue .. | .delayedTick .. | .reopen _ => inferInstanceAs (Decidable False)

/-- The world of a consumer that was just built on a file. -/
def World.ofConsumer (c : Consumer V) : World V := ⟨c, [], []⟩

/-- Nothing was counted, and every job that is delivered or can be is delayed. -/
structure Uncounted (w : World V) : Prop where
  active : w.c.active = 0
  sent : ∀ i ∈ w.c.pq, 0 < i.options.delay
  rest : AllDelayed gob w.c.db

variable {gob}

/-- The first entry goes, and the others can still be delivered. -/
theorem deliverable_delivered {c : Consumer V} {k : Bytes} {v : V} {i : Item}
    (hfirst : c.db.push.first = some (k, v)) (hdec : gob.decode v = some i) :
    deliverable gob c.db = (k, v) :: deliverable gob (c.delivered k v i).db := by
  rw [deliverable, Bucket.entries_of_first hfirst, List.takeWhile_cons_of_pos (by rw [hdec]; rfl)]
  rfl

/-- The first entry that can be delivered is the first of `PushBucket`, and decodes. -/
theorem first_of_deliverable {db : DB V} {e : Bytes × V} {es : List (Bytes × V)}
    (h : deliverable gob db = e :: es) :
    db.push.first = some e ∧ ∃ i, gob.decode e.2 = some i := by
  rw [deliverable] at h
  cases hes : db.push.entries with
  | nil => rw [hes] at h; cases h
  | cons e' es' =>
    rw [hes, List.takeWhile_cons] at h
    split at h
    · rename_i hdec
      obtain ⟨rfl, -⟩ := List.cons.inj h
      exact ⟨by rw [Bucket.first, hes]; rfl, Option.isSome_iff_exists.mp hdec⟩
    · cases h

theorem Uncounted.not_gated {w : World V} (h : Uncounted gob w) : ¬ w.c.gated := by
  rw [gated, h.active]
  exact UInt64.not_lt_zero

/-- Ticks and `Ack`s leave `active` alone as long as they meet delayed jobs only. -/
theorem step_uncounted {w : World V} {op : Op} (h : Uncounted gob w) (hop : op.TickOrAck) :
    Uncounted gob (step gob w op) := by
  cases op with
  | tick f =>
    rw [step]
    rcases listenerTick_cases gob f w.c with ht | ⟨k, v, i, hfirst, hdec, -, ht⟩
    · rw [ht]; exact h
    rw [ht]
    have hrest := h.rest
    rw [AllDelayed, deliverable_delivered hfirst hdec] at hrest
    refine ⟨h.active, Update.forall_concat h.sent ?_, fun e he => hrest e (List.mem_cons_of_mem _ he)⟩
    rw [withPriority_delay]
    exact hrest (k, v) List.mem_cons_self i hdec
  | ack n f =>
    cases hi : w.c.pq[n]? with
    | none => simpa only [step, hi] using h
    | some i =>
      have hd := h.sent i (List.mem_of_getElem? hi)
      have hactive : (i.ack f w.c).2.active = 0 := by
        rcases (ack_active i f w.c).2 with ha | ⟨-, hnot, -⟩
        · rw [ha, h.active]
        · exact absurd hd hnot
      rcases Item.ack_cases i f w.c with ⟨herr, hdb, hpq⟩ | hack
      · rw [step_ack_failed gob hi herr]
        exact ⟨hactive, by rw [hpq]; exact h.sent, by rw [hdb]; exact h.rest⟩
      · rw [hack] at hactive
        simp only [step, hi, hack]
        exact ⟨hactive, fun j hj => h.sent j (List.mem_of_mem_eraseIdx hj), h.rest⟩
  | _ => exact absurd hop id

/-- As many ticks as there are entries to deliver put all their items into the queue. -/
theorem exec_ticks (gob : Gob V) {w : World V} (hactive : w.c.active = 0) :
    let ops := (deliverable gob w.c.db).map fun _ => Op.tick {}
    let w' := Run.exec (step gob) w ops
    w'.c.active = 0 ∧ (∀ i ∈ w.c.pq, i ∈ w'.c.pq) ∧
      ∀ e ∈ deliverable gob w.c.db, ∀ i ∈ gob.decode e.2,
        withPriority w.c.priority i ∈ w'.c.pq := by
  generalize hes : deliverable gob w.c.db = es
  induction es generalizing w with
  | nil => exact ⟨hactive, fun i hi => hi, fun e he => absurd he List.not_mem_nil⟩
  | cons e es ih =>
    obtain ⟨hfirst, i, hdec⟩ := first_of_deliverable hes
    have hgate : ¬ w.c.gated := by rw [gated, hactive]; exact UInt64.not_lt_zero
    have htick : step gob w (.tick {}) = { w with c := w.c.delivered e.1 e.2 i } := by
      rw [step, listenerTick_delivers gob hgate hfirst hdec]
    have hrest : deliverable gob (w.c.delivered e.1 e.2 i).db = es := by
      rw [deliverable_delivered hfirst hdec] at hes
      exact (List.cons.inj hes).2
    intro ops w'
    obtain ⟨hactive', hold, hnew⟩ := ih (w := { w with c := w.c.delivered e.1 e.2 i }) hactive hrest
    have hw' : w' = Run.exec (step gob) { w with c := w.c.delivered e.1 e.2 i }
        (es.map fun _ => Op.tick {}) := by
      simp only [w', ops, List.map_cons, Run.exec_cons, htick]
    rw [hw']
    refine ⟨hactive', fun j hj => hold j (List.mem_append_left _ hj), fun e' he' j hj => ?_⟩
    rcases List.mem_cons.mp he' with rfl | he'
    · rw [hdec] at hj
      cases hj
      exact hold _ (List.mem_append_right _ List.mem_cons_self)
    · exact hnew e' he' j hj

variable (gob)

/-- **When the counter survives a restart.** A consumer that `NewBoltDBJobs` or `FromPipeline` built on
any file never wraps `active` and never closes its gate, over all runs of ticks and `Ack`s with any
failures, exactly if every job that a tick can deliver from the recovered file has a positive
delay. -/
theorem recovered_never_wraps_iff (db : DB V) (b : Build) (c : Consumer V) (h : b.run db = .ok c) :
    (∀ ops : List Op, (∀ op ∈ ops, op.TickOrAck) →
        Run.Along (step gob) NoWrap (World.ofConsumer c) ops ∧
          ¬ (Run.exec (step gob) (World.ofConsumer c) ops).c.gated) ↔
      AllDelayed gob db.recovered := by
  obtain ⟨priority, prefetch, rfl⟩ := b.run_eq_ok h
  constructor
  · intro hall e he i hi
    -- deliver everything, then acknowledge the item of this entry
    obtain ⟨hactive, -, hnew⟩ :=
      exec_ticks gob (w := World.ofConsumer (fresh priority prefetch db.recovered)) rfl
    obtain ⟨n, hn⟩ := List.mem_iff_getElem?.mp (hnew e he i hi)
    obtain ⟨hrun, -⟩ := hall ((deliverable gob db.recovered).map (fun _ => Op.tick {}) ++ [.ack n {}])
      fun op hop => by
        rcases List.mem_append.mp hop with hop | hop
        · obtain ⟨_, -, rfl⟩ := List.mem_map.mp hop; trivial
        · rw [List.mem_singleton.mp hop]; trivial
    obtain ⟨-, hack, -⟩ := Run.Along.append.mp hrun
    rcases hack _ hn with hd | hb | hdel | hpos
    · rwa [withPriority_delay] at hd
    · cases hb
    · cases hdel
    · exact absurd (hpos.trans_eq hactive) UInt64.not_lt_zero
  · intro hdb ops hops
    have hinit : Uncounted gob (World.ofConsumer (fresh priority prefetch db.recovered)) :=
      ⟨rfl, fun i hi => absurd hi List.not_mem_nil, hdb⟩
    have hrun : Run.Along (step gob) (fun _ op => op.TickOrAck)
        (World.ofConsumer (fresh priority prefetch db.recovered)) ops := .of_forall _ hops
    refine ⟨hrun.imp (I := Uncounted gob) (fun w op hw hop => ⟨?_, step_uncounted hw hop⟩) hinit, ?_⟩
    · cases op with
      | ack n f => exact fun i hi => .inl (hw.sent i (List.mem_of_getElem? hi))
      | _ => trivial
    · exact (hrun.invariant (I := Uncounted gob) (fun w op hw hop => step_uncounted hw hop) hinit).not_gated

/-- A file with one delayed job, which was delivered and not acknowledged. -/
def delayedFile : DB (Option Item) where
  push := .empty
  inQueue := Bucket.empty.put [97] (some (fromJob (plainJob [97] 5)))
  delay := .empty

/-- A tick delivers the job of `delayedFile` again, and its `Ack` leaves `active`. -/
theorem recovered_never_wraps_delayed :
    let c := fresh 10 1000 delayedFile.recovered
    Build.run (.pipeline ⟨10, none⟩ ⟨true, true, some {}⟩ {}) delayedFile = .ok c ∧
      ¬ (Run.exec (step .plain) (World.ofConsumer c) [.tick {}, .ack 0 {}]).c.gated :=
  ⟨rfl, ((recovered_never_wraps_iff .plain delayedFile
    (.pipeline ⟨10, none⟩ ⟨true, true, some {}⟩ {}) _ rfl).mpr (by decide +kernel) _
    (by decide +kernel)).2⟩

/-- A file with two jobs without a delay. -/
def twoJobsFile : DB (Option Item) where
  push := (Bucket.empty.put [97] (some (fromJob (plainJob [97] 0)))).put [98]
    (some (fromJob (plainJob [98] 0)))
  inQueue := .empty
  delay := .empty

/-- The first job of `twoJobsFile` is delivered and acknowledged: `active` wraps, and the second job
stays where it is. -/
theorem recovered_counter_wraps :
    let c := fresh 10 1000 twoJobsFile.recovered
    let w := Run.exec (step .plain) (World.ofConsumer c) [.tick {}, .ack 0 {}]
    Build.run (.pipeline ⟨10, none⟩ ⟨true, true, some {}⟩ {}) twoJobsFile = .ok c ∧
      w.c.active = 18446744073709551615 ∧ w.c.gated ∧ w.c.listenerTick .plain {} = w.c ∧
      w.c.db.push.keys = [[98]] :=
  ⟨rfl, by decide +kernel, by decide +kernel, by decide +kernel, by decide +kernel⟩

end RoadRunner.Boltdb
