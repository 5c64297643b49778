import RoadRunner.Memory.Jobs
import RoadRunner.Lib.Run
import RoadRunner.Lib.Counter
import RoadRunner.Lib.Update

/-!
# Counters of the in-memory jobs driver

* `CountersOk`: `active` and `delayed` count the live jobs. `step_counted_iff`: which steps keep them right.
  `countersOk_everywhere_iff`: which runs do.
* `DelaysOk`: no delayed job is lost, and `goroutines` counts those that wait. `step_delaysOk_iff`,
  `delaysOk_everywhere_iff`: which steps and which runs keep it.
-/

namespace RoadRunner.Memory

open Consumer

/-- How many of the jobs are delayed, or are not. -/
def num (b : Bool) (js : List Job) : Nat := js.countP fun j => isDelayed j = b

@[simp] theorem num_nil (b : Bool) : num b [] = 0 := rfl

@[simp] theorem num_append (b : Bool) (js ks : List Job) : num b (js ++ ks) = num b js + num b ks :=
  List.countP_append

theorem num_eraseIdx {js : List Job} {n : Nat} {j : Job} (h : js[n]? = some j) (b : Bool) :
    num b js = num b (js.eraseIdx n) + num b [j] := by
  rw [num, Update.countP_eraseIdx _ h, ← Update.countP_concat]
  exact num_append b (js.eraseIdx n) [j]

theorem num_singleton (b : Bool) (j : Job) : num b [j] = if isDelayed j = b then 1 else 0 := by
  simp [num, List.countP_cons]

/-- The jobs that are to be counted as delayed are. -/
def AllDelayed (c : Consumer) : Prop :=
  (∀ j ∈ c.spawned, isDelayed j = true) ∧ ∀ j ∈ c.sleeping, isDelayed j = true

theorem AllDelayed.handled {msg : Job} {c : Consumer} {r : Outcome × Consumer} (h : AllDelayed c)
    (hr : Handled msg c r) : AllDelayed r.2 := by
  cases hr with
  | rejected | queued | blocked => exact h
  | spawned hd =>
    exact ⟨Update.forall_concat h.1 hd, h.2⟩

theorem step_allDelayed {c : Consumer} (h : AllDelayed c) (op : Op) : AllDelayed (step c op) := by
  have hstep := stepped c op
  generalize step c op = c' at hstep ⊢
  obtain ⟨hspawned, hsleeping⟩ := h
  cases hstep with
  | idle | consumed | entered | expired => exact ⟨hspawned, hsleeping⟩
  | pushed hr => exact AllDelayed.handled ⟨hspawned, hsleeping⟩ hr
  | began hn =>
    refine ⟨fun j hj => hspawned j (List.mem_of_mem_eraseIdx hj), Update.forall_concat hsleeping ?_⟩
    exact hspawned _ (List.mem_of_getElem? hn)
  | woke | dropped => exact ⟨hspawned, fun j hj => hsleeping j (List.mem_of_mem_eraseIdx hj)⟩
  | acked =>
    unfold atomicallyReduceCount
    split <;> exact ⟨hspawned, hsleeping⟩
  | requeued hn hr =>
    have hreduced := AllDelayed.handled (by
      unfold atomicallyReduceCount
      split <;> exact ⟨hspawned, hsleeping⟩) hr
    unfold afterRequeue
    split <;> exact hreduced

/-! ## `active` and `delayed` -/

/-- The counters are those of the live jobs. -/
structure CountersOk (c : Consumer) : Prop where
  active : c.active = num false c.live
  /-- The jobs in `spawned` have not been counted yet. -/
  delayed : c.delayed + c.spawned.length = num true c.live
  nonneg : 0 ≤ c.active ∧ 0 ≤ c.delayed
  settled : c.live = [] → c.active = 0 ∧ c.delayed = 0

/-- `Requeue` leaves a job with a delay or without one as it was, and does not come to the limit. -/
def KeepsSign (c : Consumer) : Op → Prop
  | .requeue n _ delay _ => ∀ i, c.pq[n]? = some i →
      (0 < delay ↔ 0 < i.options.delay) ∧ (0 < delay → c.goroutines < goroutinesMax)
  | _ => True

/-- The context of no `handleItem` expires. -/
def Patient : Op → Prop
  | .expire _ => False
  | _ => True

/-- The counters are what they are to be. -/
def Counted (c : Consumer) : Prop :=
  c.active = num false c.live ∧ c.delayed + c.spawned.length = num true c.live

theorem countersOk_iff {c : Consumer} (h : AllDelayed c) : CountersOk c ↔ Counted c := by
  constructor
  · exact fun hok => ⟨hok.active, hok.delayed⟩
  · rintro ⟨hactive, hdelayed⟩
    have hspawned : num true c.spawned = c.spawned.length := List.countP_eq_length.mpr (by simpa using h.1)
    have hle : num true c.spawned ≤ num true c.live := by
      simp only [live, num_append]
      omega
    refine ⟨hactive, hdelayed, ⟨by omega, by omega⟩, fun hnil => ?_⟩
    rw [hnil, num_nil] at hactive hdelayed hle
    exact ⟨by omega, by omega⟩

theorem Counted.handled {msg : Job} {c : Consumer} {r : Outcome × Consumer} (h : Counted c)
    (hr : Handled msg c r) : Counted r.2 := by
  obtain ⟨ha, hd⟩ := h
  cases hr with
  | rejected => exact ⟨ha, hd⟩
  | spawned hmsg | queued hmsg | blocked hmsg =>
    simp only [Counted, live, num_append, List.map_append, List.map_cons, List.map_nil, num_singleton, hmsg,
      List.length_append, List.length_singleton, reduceCtorEq, ↓reduceIte] at ha hd ⊢
    omega

/-- Jobs that are moved and not counted anew. -/
theorem Counted.moved {c c' : Consumer} (h : Counted c) (hactive : c'.active = c.active)
    (hdelayed : c'.delayed + c'.spawned.length = c.delayed + c.spawned.length)
    (hlive : ∀ b, num b c'.live = num b c.live) : Counted c' :=
  ⟨by rw [hactive, hlive, h.1], by rw [hdelayed, hlive, h.2]⟩

theorem isDelayed_withPriority (priority : Int64) (item : Job) :
    isDelayed (withPriority priority item) = isDelayed item := by
  unfold withPriority
  split <;> rfl

theorem atomicallyReduceCount_eq (j : Job) (c : Consumer) : c.atomicallyReduceCount j =
    { c with active := c.active - num false [j], delayed := c.delayed - num true [j] } := by
  unfold atomicallyReduceCount
  split
  case isTrue h =>
    have hj : isDelayed j = true := decide_eq_true h
    simp [num_singleton, hj]
  case isFalse h =>
    have hj : isDelayed j = false := decide_eq_false h
    simp [num_singleton, hj]

/-- A step other than a `Requeue` keeps the counters right. -/
theorem Counted.stepped {c c' : Consumer} {op : Op} (h : Counted c) (hpatient : Patient op)
    (hop : ∀ n headers delay ready, op ≠ .requeue n headers delay ready) (hstep : Stepped c op c') :
    Counted c' := by
  cases hstep with
  | idle => exact h
  | pushed hr => exact h.handled hr
  | began hn =>
    have hlen := List.length_eraseIdx_add_one (List.getElem?_eq_some_iff.mp hn).1
    refine h.moved rfl (by simp only [Consumer.begin]; omega) fun b => ?_
    have := num_eraseIdx hn b
    simp only [Consumer.begin, live, num_append]
    omega
  | woke hn | dropped hn =>
    refine h.moved rfl rfl fun b => ?_
    have := num_eraseIdx hn b
    simp only [live, num_append]
    omega
  | @consumed item rest hlocal =>
    refine h.moved rfl rfl fun b => ?_
    have hsplit : num b c.localPrefetch = num b [item] + num b rest := by
      rw [hlocal, ← List.singleton_append, num_append]
    simp only [live, num_append, num_singleton, isDelayed_withPriority] at hsplit ⊢
    omega
  | @entered n ready expires msg hn =>
    refine h.moved rfl rfl fun b => ?_
    have hmap : (c.blocked.map Prod.fst)[n]? = some msg := by rw [List.getElem?_map, hn]; rfl
    have := num_eraseIdx hmap b
    simp only [live, num_append, ← List.eraseIdx_map]
    omega
  | expired => exact absurd hpatient id
  | acked hn =>
    have hfalse := num_eraseIdx hn false
    have htrue := num_eraseIdx hn true
    simp only [Counted, live, num_append, atomicallyReduceCount_eq] at h ⊢
    omega
  | requeued => exact absurd rfl (hop _ _ _ _)

/-- A `Requeue` keeps the counters right exactly if it keeps the sign of the delay and is not rejected. -/
theorem Counted.requeued_iff {c : Consumer} {n : Nat} {headers : Headers} {delay : Int64} {i : Job}
    {r : Outcome × Consumer} (h : Counted c) (hn : c.pq[n]? = some i)
    (hr : Handled (requeued headers delay i)
      (({ c with pq := c.pq.eraseIdx n } : Consumer).atomicallyReduceCount (requeued headers delay i)) r) :
    Counted (afterRequeue (requeued headers delay i) r) ↔
      (0 < delay ↔ 0 < i.options.delay) ∧ (0 < delay → c.goroutines < goroutinesMax) := by
  have hfalse := num_eraseIdx hn false
  have htrue := num_eraseIdx hn true
  have hsign : (0 < delay ↔ 0 < i.options.delay) ↔ isDelayed (requeued headers delay i) = isDelayed i :=
    decide_eq_decide.symm
  have hdelay : 0 < delay ↔ isDelayed (requeued headers delay i) = true := decide_eq_true_iff.symm
  rw [atomicallyReduceCount_eq] at hr
  rw [hsign, hdelay]
  simp only [num_singleton] at hfalse htrue
  -- the counter of the new delay is reduced, and raised again if the job is taken
  cases hr with
  | rejected hd hmax err =>
    refine iff_of_false (fun hcounted => ?_) fun hkeeps => hmax (hkeeps.2 hd)
    simp only [Counted, afterRequeue, live, num_append, num_singleton, hd] at h hcounted
    cases hi : isDelayed i <;> simp [hi] at hfalse htrue h hcounted <;> omega
  | spawned hd hmax =>
    rw [and_iff_left fun _ => hmax, hd]
    simp only [Counted, afterRequeue, live, num_append, num_singleton, hd, List.length_append,
      List.length_singleton] at h ⊢
    cases hi : isDelayed i <;> simp [hi] at hfalse htrue h ⊢ <;> omega
  | queued hd | blocked hd =>
    rw [and_iff_left fun ht => absurd (hd.symm.trans ht) Bool.false_ne_true, hd]
    simp only [Counted, afterRequeue, live, num_append, num_singleton, hd, List.map_append, List.map_cons,
      List.map_nil] at h ⊢
    cases hi : isDelayed i <;> simp [hi] at hfalse htrue h ⊢ <;> omega

theorem step_counted_iff {c : Consumer} {op : Op} (h : Counted c) (hpatient : Patient op) :
    Counted (step c op) ↔ KeepsSign c op := by
  have hstep := stepped c op
  generalize step c op = c' at hstep ⊢
  by_cases hop : ∃ n headers delay ready, op = .requeue n headers delay ready
  · obtain ⟨n, headers, delay, ready, rfl⟩ := hop
    cases hstep with
    | idle _ hnone =>
      refine iff_of_true h fun i hi => ?_
      cases (hnone _ _ _ _ rfl).symm.trans hi
    | requeued hn hr =>
      rw [h.requeued_iff hn hr]
      simp only [KeepsSign, hn, Option.some.injEq, forall_eq']
  · have hother : ∀ n headers delay ready, op ≠ .requeue n headers delay ready :=
      fun n headers delay ready heq => hop ⟨n, headers, delay, ready, heq⟩
    refine iff_of_true (h.stepped hpatient hother hstep) ?_
    cases op with
    | requeue n headers delay ready => exact absurd rfl (hother n headers delay ready)
    | _ => trivial

theorem natAbs_counters_le (cfg : Option Config) (prefetch : Nat) (priority : Int64) (ops : List Op) :
    (Run.exec step { cfg, prefetch, priority } ops).active.natAbs ≤ ops.length ∧
      (Run.exec step { cfg, prefetch, priority } ops).delayed.natAbs ≤ ops.length := by
  have hactive := Run.natAbs_exec_le (I := fun _ => True) (f := Consumer.active)
    (fun c op _ => ⟨trivial, (step_near c op).1⟩) (s := { cfg, prefetch, priority }) trivial ops
  have hdelayed := Run.natAbs_exec_le (I := fun _ => True) (f := Consumer.delayed)
    (fun c op _ => ⟨trivial, (step_near c op).2⟩) (s := { cfg, prefetch, priority }) trivial ops
  exact ⟨by simpa using hactive, by simpa using hdelayed⟩

/-- In every run in which no context expires, the counters are right in every state, if and only if every
`Requeue` keeps the sign of the job's delay and, if it is positive, finds fewer goroutines than the limit. In every run,
no counter is larger than the run is long, so that it does not overflow in less than `2 ^ 63` steps. -/
theorem countersOk_everywhere_iff (cfg : Option Config) (prefetch : Nat) (priority : Int64) (ops : List Op)
    (hpatient : ∀ op ∈ ops, Patient op) :
    ((∀ pre post, ops = pre ++ post → CountersOk (Run.exec step { cfg, prefetch, priority } pre)) ↔
      Run.Along step KeepsSign { cfg, prefetch, priority } ops) ∧
    (Run.exec step { cfg, prefetch, priority } ops).active.natAbs ≤ ops.length ∧
    (Run.exec step { cfg, prefetch, priority } ops).delayed.natAbs ≤ ops.length := by
  refine ⟨?_, natAbs_counters_le cfg prefetch priority ops⟩
  have hdelayed : AllDelayed { cfg, prefetch, priority } := ⟨nofun, nofun⟩
  have hstart : CountersOk { cfg, prefetch, priority } := (countersOk_iff hdelayed).mpr ⟨rfl, rfl⟩
  refine Run.Along.everywhere_iff (I := AllDelayed) (D := fun _ => Patient) ?_ ?_ hdelayed hstart
    (Run.Along.of_forall _ hpatient)
  · intro c op hall hok hop hsign
    have hall' := step_allDelayed hall op
    exact ⟨hall', (countersOk_iff hall').mpr
      ((step_counted_iff ((countersOk_iff hall).mp hok) hop).mpr hsign)⟩
  · intro c op hall hok hop hok'
    have hall' := step_allDelayed hall op
    exact (step_counted_iff ((countersOk_iff hall).mp hok) hop).mp ((countersOk_iff hall').mp hok')

/-- A job without a delay is requeued without one, and acked. -/
def requeuedUndelayed : List Op :=
  [.push true false (plainJob (ascii "1") 0), .consume, .requeue 0 none 0 false, .consume, .ack 0]

theorem countersOk_requeued_undelayed :
    CountersOk (Run.exec step { cfg := none, prefetch := 10, priority := 10 } requeuedUndelayed) := by
  refine (countersOk_everywhere_iff none 10 10 requeuedUndelayed ?_).1.mpr
    ⟨trivial, trivial, ?_, trivial, trivial, trivial⟩ requeuedUndelayed [] (List.append_nil _).symm
  · simp [requeuedUndelayed, Patient]
  · intro i hi
    cases hi
    decide

/-- A job without a delay is requeued with one, and acked: no job is left, and the counters are not 0. -/
theorem requeued_with_delay_miscounted :
    let c := Run.exec step { cfg := none, prefetch := 10, priority := 10 }
      [.push true false (plainJob (ascii "1") 0), .consume, .requeue 0 none 5 false, .begin 0, .wake 0 false,
        .consume, .ack 0]
    c.live = [] ∧ c.active = 1 ∧ c.delayed = -1 := by
  decide +kernel

/-! ## Delayed jobs -/

/-- No delayed job is lost, and `goroutines` is right. -/
structure DelaysOk (c : Consumer) : Prop where
  /-- Each delayed job that was accepted and neither acked nor nacked is still somewhere. -/
  kept : ∀ j ∈ c.lost, isDelayed j = false
  goroutines : c.goroutines = UInt64.ofNat c.sleeping.length

/-- The local queue has room when a wait ends. -/
def Roomy (c : Consumer) : Op → Prop
  | .wake n ready => ∀ jj, c.sleeping[n]? = some jj → c.room ready = true
  | _ => True

/-- No job is requeued. -/
def Once : Op → Prop
  | .requeue _ _ _ _ => False
  | _ => True

theorem step_delaysOk_iff {c : Consumer} {op : Op} (hall : AllDelayed c) (h : DelaysOk c) (honce : Once op) :
    DelaysOk (step c op) ↔ Roomy c op := by
  have hstep := stepped c op
  generalize step c op = c' at hstep ⊢
  obtain ⟨hkept, hgoroutines⟩ := h
  cases hstep with
  | idle hnone =>
    refine iff_of_true ⟨hkept, hgoroutines⟩ ?_
    cases op with
    | wake n ready =>
      intro jj hjj
      cases (hnone n ready rfl).symm.trans hjj
    | _ => trivial
  | pushed hr =>
    refine iff_of_true ?_ trivial
    cases hr <;> exact ⟨hkept, hgoroutines⟩
  | began hn =>
    refine iff_of_true ⟨hkept, ?_⟩ trivial
    simp only [Consumer.begin, List.length_append, List.length_singleton]
    rw [Counter.ofNat_succ, hgoroutines]
  | woke hn hroom =>
    refine iff_of_true ⟨hkept, ?_⟩ fun _ _ => hroom
    have hlen := List.length_eraseIdx_add_one (List.getElem?_eq_some_iff.mp hn).1
    simp only [hgoroutines]
    rw [← hlen, Counter.ofNat_succ_dec]
  | @dropped n ready jj hn hroom =>
    refine iff_of_false (fun hok => ?_) fun hroomy => ?_
    · have hlost := hok.kept jj (List.mem_append_right _ List.mem_cons_self)
      exact Bool.false_ne_true (hlost.symm.trans (hall.2 jj (List.mem_of_getElem? hn)))
    · exact Bool.false_ne_true (hroom.symm.trans (hroomy jj hn))
  | consumed | entered | expired => exact iff_of_true ⟨hkept, hgoroutines⟩ trivial
  | acked hn =>
    rw [atomicallyReduceCount_eq]
    exact iff_of_true ⟨hkept, hgoroutines⟩ trivial
  | requeued => exact absurd honce id

/-- In every run without a `Requeue`, no delayed job is lost and `goroutines` counts those that wait in
every state, if and only if the local queue has room whenever a wait ends. -/
theorem delaysOk_everywhere_iff (cfg : Option Config) (prefetch : Nat) (priority : Int64) (ops : List Op)
    (honce : ∀ op ∈ ops, Once op) :
    (∀ pre post, ops = pre ++ post → DelaysOk (Run.exec step { cfg, prefetch, priority } pre)) ↔
      Run.Along step Roomy { cfg, prefetch, priority } ops := by
  refine Run.Along.everywhere_iff (I := AllDelayed) (D := fun _ => Once) ?_ ?_ ⟨nofun, nofun⟩
    ⟨nofun, rfl⟩ (Run.Along.of_forall _ honce)
  · intro c op hall hok hop hroomy
    exact ⟨step_allDelayed hall op, (step_delaysOk_iff hall hok hop).mpr hroomy⟩
  · intro c op hall hok hop hok'
    exact (step_delaysOk_iff hall hok hop).mp hok'

/-- A delayed job that finds room. -/
def delayedWithRoom : List Op := [.push true false (plainJob (ascii "1") 5), .begin 0, .wake 0 false, .consume]

theorem delaysOk_with_room :
    DelaysOk (Run.exec step { cfg := none, prefetch := 1, priority := 10 } delayedWithRoom) := by
  refine (delaysOk_everywhere_iff none 1 10 delayedWithRoom ?_).mpr ⟨trivial, trivial, ?_, trivial, trivial⟩
    delayedWithRoom [] (List.append_nil _).symm
  · simp [delayedWithRoom, Once]
  · intro jj _
    decide

/-- Two delayed jobs and a local queue for one: the second is gone, and its goroutine still counted. -/
theorem delayed_job_dropped :
    let c := Run.exec step { cfg := none, prefetch := 1, priority := 10 }
      [.push true false (plainJob (ascii "1") 5), .push true false (plainJob (ascii "2") 5), .begin 0, .begin 0,
        .wake 0 false, .wake 0 false]
    c.spawned = [] ∧ c.sleeping = [] ∧ c.localPrefetch = [plainJob (ascii "1") 5] ∧ c.pq = [] ∧
      c.goroutines = 1 := by
  decide +kernel

end RoadRunner.Memory
