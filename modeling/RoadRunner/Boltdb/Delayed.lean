import RoadRunner.Boltdb.System

/-!
# Delayed jobs

A delayed job is stored in `DelayBucket` under the text of its due second, not under its id. So
two jobs that are due in one second share a key, and the second one replaces the first.

* `DelayEffect`, `step_delayEffect`: what one step does to `DelayBucket` and to the waiting jobs.
* `allPresent_iff_freshDue`: in a run over distinct ids, `AllPresent` holds in every state exactly
  if no job is stored with the due second of another one that still waits.
-/

namespace RoadRunner.Boltdb

open Consumer Calendar

variable {V : Type} (gob : Gob V)

/-- The delayed job that an operation stores: a `Push` or a `Requeue` with a positive delay that
returns nil, with the due second. -/
def stored (w : World V) : Op → Option (Int × Item)
  | .push job now f =>
    if 0 < job.options.delay ∧ (w.c.pushJob gob job now f).1 = none then
      some (dueSec now job.options.delay, fromJob job)
    else none
  | .requeue n headers delay now f =>
    match w.c.pq[n]? with
    | none => none
    | some i =>
      if 0 < delay ∧ (i.requeue gob headers delay now f w.c).1 = none then
        some (dueSec now delay, i.rewrite headers delay)
      else none
  | _ => none

/-- The ids of the jobs that wait are distinct: a delayed job is not stored while it waits. -/
def DistinctIds (w : World V) (op : Op) : Prop :=
  ∀ x ∈ stored gob w op, x.2.ident ∉ w.waiting.map fun y => y.2.ident

instance (w : World V) (op : Op) : Decidable (DistinctIds gob w op) :=
  inferInstanceAs (Decidable (∀ x ∈ stored gob w op, x.2.ident ∉ w.waiting.map fun y => y.2.ident))

/-- A delayed job is stored with a due second that no waiting job has. -/
def FreshDue (w : World V) (op : Op) : Prop :=
  ∀ x ∈ stored gob w op, x.1 ∉ w.waiting.map Prod.fst

instance (w : World V) (op : Op) : Decidable (FreshDue gob w op) :=
  inferInstanceAs (Decidable (∀ x ∈ stored gob w op, x.1 ∉ w.waiting.map Prod.fst))

/-- The entry of a waiting job. -/
def entryOf (x : Int × Item) : Bytes × V := (rfc3339 x.1, gob.encode x.2)

/-- `DelayBucket` has exactly one entry for each waiting job. -/
def AllPresent (w : World V) : Prop := w.c.db.delay.entries.Perm (w.waiting.map (entryOf gob))

instance [DecidableEq V] (w : World V) : Decidable (AllPresent gob w) :=
  inferInstanceAs (Decidable (w.c.db.delay.entries.Perm (w.waiting.map (entryOf gob))))

variable {gob}

theorem mem_delay {w : World V} (h : AllPresent gob w) {e : Bytes × V} :
    e ∈ w.c.db.delay ↔ ∃ x ∈ w.waiting, entryOf gob x = e := by
  rw [Bucket.mem_def, h.mem_iff, List.mem_map]

/-- The key of a due second is in `DelayBucket` exactly if a job waits for that second. -/
theorem mem_delay_keys {w : World V} (h : AllPresent gob w) {t : Int} :
    rfc3339 t ∈ w.c.db.delay.keys ↔ t ∈ w.waiting.map Prod.fst := by
  rw [Bucket.mem_keys, List.mem_map]
  constructor
  · rintro ⟨v, hv⟩
    obtain ⟨x, hx, he⟩ := (mem_delay h).mp hv
    exact ⟨x, hx, rfc3339_injective (Prod.mk.inj he).1⟩
  · rintro ⟨x, hx, rfl⟩
    exact ⟨gob.encode x.2, (mem_delay h).mpr ⟨x, hx, rfl⟩⟩

/-- One job that a tick moves: its entry goes, and it waits no more. -/
theorem DueMove.allPresent {w w' : World V} (hm : DueMove gob w w') (h : AllPresent gob w)
    (hids : (w.waiting.map fun y => y.2.ident).Nodup) :
    AllPresent gob w' ∧ (w'.waiting.map fun y => y.2.ident).Nodup := by
  obtain ⟨k, v, i, hmem, hdec⟩ := hm
  obtain ⟨x, hx, he⟩ := (mem_delay h).mp hmem
  obtain ⟨rfl, rfl⟩ := Prod.mk.inj he
  obtain rfl : x.2 = i := gob.eq_of_decode_encode hdec
  refine ⟨?_, (List.filter_sublist.map _).nodup hids⟩
  -- the entries and the waiting jobs lose the same one: its key and its id are both unique
  have hkey : ∀ y ∈ w.waiting, (rfc3339 y.1 ≠ rfc3339 x.1 ↔ y.2.ident ∉ [x.2.ident]) := by
    intro y hy
    rw [List.mem_singleton, not_iff_not]
    constructor
    · intro hk
      have hy' : (rfc3339 x.1, gob.encode y.2) ∈ w.c.db.delay :=
        (mem_delay h).mpr ⟨y, hy, by rw [entryOf, hk]⟩
      rw [gob.encode_injective (Bucket.eq_of_mem hy' hmem)]
    · intro hid
      rw [List.inj_on_of_nodup_map hids hy hx hid]
  refine (Bucket.delete_perm h).trans (List.Perm.of_eq ?_)
  rw [List.filter_map]
  congr 1
  exact List.filter_congr fun y hy => decide_eq_decide.mpr (hkey y hy)

theorem DueMoves.allPresent {w w' : World V} (hm : Relation.ReflTransGen (DueMove gob) w w')
    (h : AllPresent gob w) (hids : (w.waiting.map fun y => y.2.ident).Nodup) :
    AllPresent gob w' ∧ (w'.waiting.map fun y => y.2.ident).Nodup := by
  induction hm with
  | refl => exact ⟨h, hids⟩
  | tail _ hstep ih => exact hstep.allPresent ih.1 ih.2

/-- A step that is no push and no requeue leaves `DelayBucket` and the waiting jobs, or is a
committed tick of `delayedJobsListener`. -/
theorem Effect.delay_other {w w' : World V} {op : Op} (h : Effect gob w op w')
    (hpush : ∀ job now f, op ≠ .push job now f)
    (hrequeue : ∀ n headers delay now f, op ≠ .requeue n headers delay now f) :
    (w'.c.db.delay = w.c.db.delay ∧ w'.waiting = w.waiting) ∨
      Relation.ReflTransGen (DueMove gob) w w' := by
  cases h with
  | quiet hdb _ _ hwait _ => exact .inl ⟨by rw [hdb], hwait⟩
  | pushed => exact absurd rfl (hpush _ _ _)
  | due h => exact .inr h
  | requeued => exact absurd rfl (hrequeue _ _ _ _ _)
  | _ => exact .inl ⟨rfl, rfl⟩

variable (gob)

/-- What one step does to `DelayBucket` and to the waiting jobs: it stores one job, it leaves both
as they are, or it is a committed tick of `delayedJobsListener`. -/
inductive DelayEffect (w : World V) (op : Op) : Prop where
  | stores (x : Int × Item) (hx : stored gob w op = some x)
      (hdelay : (step gob w op).c.db.delay = w.c.db.delay.put (entryOf gob x).1 (entryOf gob x).2)
      (hwait : (step gob w op).waiting = w.waiting ++ [x])
  | leaves (hnone : stored gob w op = none) (hdelay : (step gob w op).c.db.delay = w.c.db.delay)
      (hwait : (step gob w op).waiting = w.waiting)
  | moves (hnone : stored gob w op = none)
      (hmoves : Relation.ReflTransGen (DueMove gob) w (step gob w op))

theorem push_delayEffect (w : World V) (job : Job) (now : Int) (f : Faults) :
    DelayEffect gob w (.push job now f) := by
  rcases pushJob_cases gob job now f w.c with ⟨herr, hdb, -⟩ | h
  · obtain ⟨e, he⟩ := Option.ne_none_iff_exists'.mp herr
    refine .leaves (by simp [stored, he]) ?_ (by rw [step_push_failed gob herr])
    rw [step_push_failed gob herr, hdb]
  · by_cases hd : 0 < job.options.delay
    · refine .stores (dueSec now job.options.delay, fromJob job) (by simp [stored, hd, h]) ?_ ?_
      · simp [step, h, pushed, fromJob, hd, entryOf, tKey]
      · simp [step, h, wait, fromJob, hd]
    · refine .leaves (by simp [stored, hd]) ?_ ?_
      · simp [step, h, pushed, fromJob, hd]
      · simp [step, h, wait, fromJob, hd]

theorem requeue_delayEffect (w : World V) (n : Nat) (headers : Headers) (delay : Int64) (now : Int)
    (f : Faults) : DelayEffect gob w (.requeue n headers delay now f) := by
  cases hi : w.c.pq[n]? with
  | none => exact .leaves (by simp [stored, hi]) (by simp [step, hi]) (by simp [step, hi])
  | some i =>
    rcases step_requeue gob headers delay now f hi with ⟨herr, hstep⟩ | ⟨hok, hstep⟩
    · obtain ⟨e, he⟩ := Option.ne_none_iff_exists'.mp herr
      exact .leaves (by simp [stored, hi, he]) (by rw [hstep]) (by rw [hstep])
    · by_cases hd : 0 < delay
      · refine .stores (dueSec now delay, i.rewrite headers delay) (by simp [stored, hi, hd, hok]) ?_ ?_
        · simp [hstep, Consumer.settle, Item.requeued, Item.rewrite, hd, entryOf, tKey]
        · simp [hstep, wait, Item.rewrite, hd]
      · refine .leaves (by simp [stored, hi, hd]) ?_ ?_
        · simp [hstep, Consumer.settle, Item.requeued, Item.rewrite, hd]
        · simp [hstep, wait, Item.rewrite, hd]

theorem step_delayEffect (w : World V) (op : Op) : DelayEffect gob w op := by
  have heff := step_effect gob w op
  cases op with
  | push job now f => exact push_delayEffect gob w job now f
  | requeue n headers delay now f => exact requeue_delayEffect gob w n headers delay now f
  | _ =>
    rcases heff.delay_other (by simp) (by simp) with ⟨hdelay, hwait⟩ | hmoves
    · exact .leaves rfl hdelay hwait
    · exact .moves rfl hmoves

/-- A step that stores no job with the due second of a waiting one keeps one entry for each. -/
theorem step_allPresent {w : World V} {op : Op} (h : AllPresent gob w)
    (hids : (w.waiting.map fun y => y.2.ident).Nodup) (hid : DistinctIds gob w op)
    (hdue : FreshDue gob w op) :
    AllPresent gob (step gob w op) ∧ ((step gob w op).waiting.map fun y => y.2.ident).Nodup := by
  cases step_delayEffect gob w op with
  | stores x hx hdelay hwait =>
    have hkey : (entryOf gob x).1 ∉ w.c.db.delay.keys := fun hk => hdue x hx ((mem_delay_keys h).mp hk)
    rw [AllPresent, hdelay, hwait, List.map_append, List.map_append]
    refine ⟨(Bucket.put_perm hkey).trans (h.append_right _), ?_⟩
    have hconcat := hids.concat (hid x hx)
    rwa [List.concat_eq_append] at hconcat
  | leaves _ hdelay hwait =>
    rw [AllPresent, hdelay, hwait]
    exact ⟨h, hids⟩
  | moves _ hmoves => exact DueMoves.allPresent hmoves h hids

/-- A job that is stored with the due second of a waiting one replaces its entry. -/
theorem freshDue_of_step {w : World V} {op : Op} (h : AllPresent gob w)
    (h' : AllPresent gob (step gob w op)) : FreshDue gob w op := by
  intro x hx hdue
  cases step_delayEffect gob w op with
  | stores y hy hdelay hwait =>
    obtain rfl : x = y := by rw [hx, Option.some.injEq] at hy; exact hy
    have hlen := h'.length_eq
    have hput := Bucket.length_put_of_mem (v := (entryOf gob x).2) ((mem_delay_keys h).mpr hdue)
    have hold := h.length_eq
    rw [hdelay, hwait] at hlen
    simp only [Bucket.length, List.length_map, List.length_append, List.length_singleton, entryOf]
      at hlen hput hold
    omega
  | leaves hnone => rw [hnone] at hx; cases hx
  | moves hnone => rw [hnone] at hx; cases hx

/-- **Delayed jobs are kept apart exactly by their due seconds.** In a run from an empty file in
which no id is stored while it waits, `DelayBucket` has exactly one entry for each waiting job in
every state, if and only if no job is stored with the due second of another that still waits. -/
theorem allPresent_iff_freshDue (priority prefetch : Int64) (ops : List Op)
    (hids : Run.Along (step gob) (DistinctIds gob) (World.init priority prefetch) ops) :
    (∀ as bs, ops = as ++ bs → AllPresent gob (Run.exec (step gob) (World.init priority prefetch) as)) ↔
      Run.Along (step gob) (FreshDue gob) (World.init priority prefetch) ops := by
  refine Run.Along.everywhere_iff (I := fun w => (w.waiting.map fun y => y.2.ident).Nodup)
    ?_ ?_ List.nodup_nil List.Perm.nil hids
  · intro w op hw h hid hdue
    exact (step_allPresent gob h hw hid hdue).symm
  · intro w op _ h _ h'
    exact freshDue_of_step gob h h'

/-- Two jobs that are pushed in one second, one to wait 5 seconds and the other 6. -/
theorem allPresent_two_seconds :
    let ops := [.push (plainJob [97] 5) 1643673599000000000 {},
      .push (plainJob [98] 6) 1643673599900000000 {}]
    Run.Along (step .plain) (DistinctIds .plain) (World.init 10 1000) ops ∧
      AllPresent .plain (Run.exec (step .plain) (World.init 10 1000) ops) :=
  ⟨by decide +kernel, (allPresent_iff_freshDue .plain 10 1000 _ (by decide +kernel)).mpr
    (by decide +kernel) _ [] rfl⟩

/-- Two jobs `a` and `b` that are pushed in one second to wait 5 seconds each: two jobs wait, and
`DelayBucket` has one entry, that of `b`. -/
theorem delayed_job_overwritten :
    let ops := [.push (plainJob [97] 5) 1643673599000000000 {},
      .push (plainJob [98] 5) 1643673599900000000 {}]
    let w := Run.exec (step .plain) (World.init 10 1000) ops
    Run.Along (step .plain) (DistinctIds .plain) (World.init 10 1000) ops ∧
      w.waiting.length = 2 ∧
      w.c.db.delay.entries.map Prod.snd = [some (fromJob (plainJob [98] 5))] ∧
      ¬ AllPresent .plain w := by
  decide +kernel

end RoadRunner.Boltdb
