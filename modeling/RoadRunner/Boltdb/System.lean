import RoadRunner.Lib.Run
import RoadRunner.Boltdb.Consumer

/-!
# Runs of the boltdb jobs driver

One consumer with its file, driven by pushes, the two listeners, the pollers that settle delivered
jobs, and restarts of the process. A run is a list of `Op`s (`RoadRunner.Lib.Run`); every
operation carries the calls that fail in it.

* `World`: the consumer, and two records of what the callers saw. `live` has the jobs whose `Push`
  returned nil and whose `Ack` did not, each as its last `Push` or `Requeue` left it; `waiting` has
  the delayed ones that no tick has moved yet, with their due seconds.
* `Op.ack n f`, `Op.nack n f`, `Op.requeue n ..`: a poller settles the `n`-th delivered item. An
  item whose settling fails stays delivered, and may be settled again or never.
* `Op.reopen b`: the process ends between two transactions and a consumer is built on its file.
  What was delivered is gone. If the build fails, the file is as it was.
* `Effect`, `step_effect`: what one step can do. Every proof about runs goes through it.
-/

namespace RoadRunner.Boltdb

open Consumer

/-- The driver and what its callers saw. -/
structure World (V : Type) where
  c : Consumer V
  live : List Item
  waiting : List (Int × Item)

/-- The operations of a run. -/
inductive Op where
  | push (job : Job) (now : Int) (f : Faults)
  | tick (f : Faults)
  | delayedTick (now : Int) (f : DelayFaults)
  | ack (n : Nat) (f : Faults)
  | nack (n : Nat) (f : Faults)
  | requeue (n : Nat) (headers : Headers) (delay : Int64) (now : Int) (f : Faults)
  | reopen (b : Build)

/-- The jobs that wait for their delay, after `i` was stored at `now`. -/
def wait (now : Int) (i : Item) (waiting : List (Int × Item)) : List (Int × Item) :=
  if 0 < i.options.delay then waiting ++ [(dueSec now i.options.delay, i)] else waiting

/-- The `n`-th delivered item is settled. -/
def Consumer.settle {V : Type} (n : Nat) (c : Consumer V) : Consumer V :=
  { c with pq := c.pq.eraseIdx n }

/-- The live jobs, after the one with the id of `i` was stored again as `i`. -/
def replace (i : Item) (live : List Item) : List Item :=
  live.map fun x => if x.ident = i.ident then i else x

/-- The jobs without those that have an id of `ids`. -/
def dropIds (ids : List Bytes) (waiting : List (Int × Item)) : List (Int × Item) :=
  waiting.filter fun x => x.2.ident ∉ ids

/-- The world with an empty file and a consumer on it. -/
def World.init {V : Type} (priority prefetch : Int64) : World V :=
  ⟨fresh priority prefetch .empty, [], []⟩

section

variable {V : Type} (gob : Gob V)

/-- One operation. -/
def step (w : World V) : Op → World V
  | .push job now f =>
    match w.c.pushJob gob job now f with
    | (some _, c) => { w with c := c }
    | (none, c) => ⟨c, w.live ++ [fromJob job], wait now (fromJob job) w.waiting⟩
  | .tick f => { w with c := w.c.listenerTick gob f }
  | .delayedTick now f =>
    let (moved, c) := w.c.delayedTick gob now f
    { w with c := c, waiting := dropIds (moved.map Item.ident) w.waiting }
  | .ack n f =>
    match w.c.pq[n]? with
    | none => w
    | some i =>
      match i.ack f w.c with
      | (some _, c) => { w with c := c }
      | (none, c) => { w with c := c.settle n, live := w.live.filter fun x => x.ident ≠ i.ident }
  | .nack n f =>
    match w.c.pq[n]? with
    | none => w
    | some i =>
      match i.nack gob f w.c with
      | (some _, c) => { w with c := c }
      | (none, c) => { w with c := c.settle n }
  | .requeue n headers delay now f =>
    match w.c.pq[n]? with
    | none => w
    | some i =>
      match i.requeue gob headers delay now f w.c with
      | (some _, i, c) => { w with c := { c with pq := c.pq.set n i } }
      | (none, i, c) => ⟨c.settle n, replace i w.live, wait now i w.waiting⟩
  | .reopen b =>
    match b.run w.c.db with
    | .error _ => { w with c := { w.c with pq := [] } }
    | .ok c => { w with c := c }

/-- A committed tick of `delayedJobsListener` moves the entry `k ↦ v`, which decodes to `i`. -/
inductive DueMove : World V → World V → Prop where
  | mk {w : World V} (k : Bytes) (v : V) (i : Item) (hmem : (k, v) ∈ w.c.db.delay)
      (hdec : gob.decode v = some i) :
      DueMove w { w with
        c := w.c.dueDelivered k v i
        waiting := dropIds [i.ident] w.waiting }

/-- No call fails in a tick of `delayedJobsListener`. -/
def Consumer.DelayFaults.Clean (f : DelayFaults) : Prop :=
  f.put = [] ∧ f.delete = [] ∧ f.commit = false

instance (f : DelayFaults) : Decidable f.Clean :=
  inferInstanceAs (Decidable (f.put = [] ∧ f.delete = [] ∧ f.commit = false))

/-- No call fails in the operation, and it is no restart. -/
def Op.Faultless : Op → Prop
  | .push _ _ f | .tick f | .ack _ f | .nack _ f | .requeue _ _ _ _ f => f = {}
  | .delayedTick _ f => f = {}
  | .reopen _ => False

instance (op : Op) : Decidable op.Faultless :=
  match op with
  | .push .. | .tick _ | .ack .. | .nack .. | .requeue .. | .delayedTick .. => inferInstanceAs (Decidable (_ = _))
  | .reopen _ => inferInstanceAs (Decidable False)

/-- What one operation can do to a world. -/
inductive Effect (w : World V) : Op → World V → Prop where
  /-- Nothing, as far as the buckets, the delivered jobs and the callers are concerned, and nothing
  at all if no call failed. -/
  | quiet {op : Op} {w' : World V} (hdb : w'.c.db = w.c.db)
      (hpq : w'.c.pq.map Item.ident = w.c.pq.map Item.ident) (hlive : w'.live = w.live)
      (hwait : w'.waiting = w.waiting) (hok : op.Faultless → w' = w) : Effect w op w'
  | pushed {job : Job} {now : Int} {f : Faults} : Effect w (.push job now f)
      ⟨w.c.pushed gob (fromJob job) now, w.live ++ [fromJob job], wait now (fromJob job) w.waiting⟩
  | delivered {f : Faults} {k : Bytes} {v : V} {i : Item} (hfirst : w.c.db.push.first = some (k, v))
      (hdec : gob.decode v = some i) : Effect w (.tick f) { w with c := w.c.delivered k v i }
  | due {now : Int} {f : DelayFaults} {w' : World V} (h : Relation.ReflTransGen (DueMove gob) w w') :
      Effect w (.delayedTick now f) w'
  /-- A tick of `delayedJobsListener` that sent jobs to the queue and was not committed. -/
  | aborted {now : Int} {f : DelayFaults} (sent : List Item)
      (hsent : w.c.db.delay.entries = [] → sent = [])
      (hf : ¬ (f.Clean ∧ ∀ e ∈ w.c.db.delay.entries, gob.decode e.2 ≠ none)) :
      Effect w (.delayedTick now f) { w with c := { w.c with pq := w.c.pq ++ sent } }
  | acked {n : Nat} {f : Faults} {i : Item} (hi : w.c.pq[n]? = some i) : Effect w (.ack n f)
      { w with c := (i.acked w.c).settle n, live := w.live.filter fun x => x.ident ≠ i.ident }
  | nacked {n : Nat} {f : Faults} {i : Item} (hi : w.c.pq[n]? = some i) : Effect w (.nack n f)
      { w with c := (i.nacked gob w.c).settle n }
  | requeued {n : Nat} {headers : Headers} {delay : Int64} {now : Int} {f : Faults} {i : Item}
      (hi : w.c.pq[n]? = some i) : Effect w (.requeue n headers delay now f)
      ⟨((i.rewrite headers delay).requeued gob now w.c).settle n,
        replace (i.rewrite headers delay) w.live, wait now (i.rewrite headers delay) w.waiting⟩
  | reopened {b : Build} (priority prefetch : Int64) : Effect w (.reopen b)
      { w with c := fresh priority prefetch w.c.db.recovered }
  /-- The process ended and no consumer could be built on the file. -/
  | ended {b : Build} : Effect w (.reopen b) { w with c := { w.c with pq := [] } }

end

/-! ## A tick of `delayedJobsListener` is a chain of moves -/

section

variable {V : Type} {gob : Gob V}

theorem dropIds_nil (waiting : List (Int × Item)) : dropIds [] waiting = waiting := by
  simp [dropIds]

theorem dropIds_append (as bs : List Bytes) (waiting : List (Int × Item)) :
    dropIds (as ++ bs) waiting = dropIds bs (dropIds as waiting) := by
  simp only [dropIds, List.filter_filter]
  congr 1
  funext x
  simp [Bool.and_comm]

/-- The world in the middle of a tick, as if its transaction were committed there. -/
def World.ofScan (w : World V) (s : Scan V) : World V :=
  { w with
    c := { w.c with db := s.db, pq := w.c.pq ++ s.sent }
    waiting := dropIds (s.sent.map Item.ident) w.waiting }

/-- The loop never opens a transaction again. -/
theorem foldl_scanStep_closed {priority : Int64} {f : DelayFaults} (es : List (Bytes × V))
    {s : Scan V} (h : s.active = false) :
    (es.foldl (scanStep gob priority f) s).active = false := by
  induction es generalizing s with
  | nil => exact h
  | cons e es ih =>
    refine ih ?_
    unfold scanStep
    split
    · rfl
    · simp [h]

/-- One turn of the loop that leaves the transaction open. -/
theorem scanStep_move {w : World V} {f : DelayFaults} {s : Scan V} {e : Bytes × V}
    (he : e ∈ s.db.delay) (h : (scanStep gob w.c.priority f s e).active = true) :
    DueMove gob (w.ofScan s) (w.ofScan (scanStep gob w.c.priority f s e)) ∧
      ∀ e' ∈ s.db.delay, e'.1 ≠ e.1 → e' ∈ (scanStep gob w.c.priority f s e).db.delay := by
  unfold scanStep at h ⊢
  split at h
  · cases h
  rename_i i hdec
  dsimp only at h ⊢
  split at h
  · cases h
  rename_i hput
  split at h
  · cases h
  rename_i hdel
  rw [if_neg hput, if_neg hdel]
  refine ⟨?_, fun e' he' hne => Bucket.mem_delete.mpr ⟨hne, he'⟩⟩
  have hmove := DueMove.mk (w := w.ofScan s) e.1 e.2 i he hdec
  simpa [World.ofScan, dueDelivered, dropIds_append] using hmove

theorem scan_moves {w : World V} {f : DelayFaults} (es : List (Bytes × V)) {s : Scan V}
    (hmem : ∀ e ∈ es, e ∈ s.db.delay) (hkeys : es.Pairwise fun a b => a.1 < b.1)
    (h : (es.foldl (scanStep gob w.c.priority f) s).active = true) :
    Relation.ReflTransGen (DueMove gob) (w.ofScan s)
      (w.ofScan (es.foldl (scanStep gob w.c.priority f) s)) := by
  induction es generalizing s with
  | nil => exact .refl
  | cons e es ih =>
    rw [List.foldl_cons] at h ⊢
    obtain ⟨hlt, hkeys⟩ := List.pairwise_cons.mp hkeys
    have hact : (scanStep gob w.c.priority f s e).active = true := by
      by_contra hc
      rw [foldl_scanStep_closed es (Bool.eq_false_of_not_eq_true hc)] at h
      cases h
    obtain ⟨hmove, hkeep⟩ := scanStep_move (hmem e List.mem_cons_self) hact
    refine .head hmove (ih (fun e' he' => ?_) hkeys h)
    exact hkeep e' (hmem e' (List.mem_cons_of_mem _ he')) (hlt e' he').ne'

/-- A tick without a failing call, over values that decode, keeps its transaction. -/
theorem foldl_scanStep_clean {priority : Int64} {f : DelayFaults} (hf : f.Clean)
    (es : List (Bytes × V)) (hdec : ∀ e ∈ es, gob.decode e.2 ≠ none) {s : Scan V}
    (hs : s.active = true) : (es.foldl (scanStep gob priority f) s).active = true := by
  induction es generalizing s with
  | nil => exact hs
  | cons e es ih =>
    refine ih (fun e' he' => hdec e' (List.mem_cons_of_mem _ he')) ?_
    have he := hdec e List.mem_cons_self
    unfold scanStep
    split
    · rename_i hnone; exact absurd hnone he
    · simp [hs, hf.1, hf.2.1]

theorem dueEntries_sorted (now : Int) (c : Consumer V) :
    (c.dueEntries now).Pairwise fun a b => a.1 < b.1 :=
  (c.db.delay.sorted.sublist (List.dropWhile_sublist _)).sublist (List.takeWhile_sublist _)

theorem scan_sent_eq_nil {now : Int} {f : DelayFaults} {c : Consumer V}
    (h : c.db.delay.entries = []) : (c.scan gob now f).sent = [] := by
  simp [scan, dueEntries, Bucket.range, h]

variable (gob)

theorem step_delayedTick (w : World V) (now : Int) (f : DelayFaults) :
    Effect gob w (.delayedTick now f) (step gob w (.delayedTick now f)) := by
  have h0 : w.ofScan ⟨w.c.db, true, []⟩ = w := by simp [World.ofScan, dropIds_nil]
  have haborted : ¬ (f.Clean ∧ ∀ e ∈ w.c.db.delay.entries, gob.decode e.2 ≠ none) →
      Effect gob w (.delayedTick now f)
        { w with c := { w.c with pq := w.c.pq ++ (w.c.scan gob now f).sent } } :=
    .aborted _ scan_sent_eq_nil
  simp only [step, delayedTick]
  split
  · rename_i hb
    refine .quiet rfl rfl rfl (dropIds_nil _) fun hf => ?_
    rw [show f = {} from hf] at hb
    cases hb
  by_cases hact : (w.c.scan gob now f).active = true
  · cases hc : f.commit with
    | false =>
      have hmoves : Relation.ReflTransGen (DueMove gob) (w.ofScan ⟨w.c.db, true, []⟩)
          (w.ofScan (w.c.scan gob now f)) :=
        scan_moves _ (fun e he => Bucket.mem_of_mem_range he) (dueEntries_sorted now w.c) hact
      rw [h0] at hmoves
      have heff : Effect gob w (.delayedTick now f) (w.ofScan (w.c.scan gob now f)) := .due hmoves
      simpa [hact, World.ofScan] using heff
    | true =>
      have heff := haborted fun h => by rw [h.1.2.2] at hc; cases hc
      simpa [hact, dropIds_nil] using heff
  · have heff := haborted fun h => hact (foldl_scanStep_clean h.1 _
      (fun e he => h.2 e (Bucket.mem_of_mem_range he)) rfl)
    simpa [hact, dropIds_nil] using heff

section

variable {w : World V} {n : Nat} {i : Item}

theorem step_push_failed {job : Job} {now : Int} {f : Faults}
    (h : (w.c.pushJob gob job now f).1 ≠ none) :
    step gob w (.push job now f) = { w with c := (w.c.pushJob gob job now f).2 } := by
  obtain ⟨e, he⟩ := Option.ne_none_iff_exists'.mp h
  rw [step, ← Prod.eta (w.c.pushJob gob job now f), he]

theorem step_ack_failed {f : Faults} (hi : w.c.pq[n]? = some i) (h : (i.ack f w.c).1 ≠ none) :
    step gob w (.ack n f) = { w with c := (i.ack f w.c).2 } := by
  obtain ⟨e, he⟩ := Option.ne_none_iff_exists'.mp h
  simp only [step, hi]
  rw [← Prod.eta (i.ack f w.c), he]

/-- A `Nack` that fails changes nothing. -/
theorem step_nack (f : Faults) (hi : w.c.pq[n]? = some i) :
    step gob w (.nack n f) = w ∨
      step gob w (.nack n f) = { w with c := (i.nacked gob w.c).settle n } := by
  simp only [step, hi]
  rcases Item.nack_cases gob i f w.c with ⟨herr, hc⟩ | h
  · obtain ⟨e, he⟩ := Option.ne_none_iff_exists'.mp herr
    rw [← Prod.eta (i.nack gob f w.c), he, hc]
    exact .inl rfl
  · rw [h]
    exact .inr rfl

/-- A `Requeue` that fails has changed the item already. -/
theorem step_requeue (headers : Headers) (delay : Int64) (now : Int) (f : Faults)
    (hi : w.c.pq[n]? = some i) :
    ((i.requeue gob headers delay now f w.c).1 ≠ none ∧
      step gob w (.requeue n headers delay now f) =
        { w with c := { w.c with pq := w.c.pq.set n (i.rewrite headers delay) } }) ∨
    ((i.requeue gob headers delay now f w.c).1 = none ∧
      step gob w (.requeue n headers delay now f) =
        ⟨((i.rewrite headers delay).requeued gob now w.c).settle n,
          replace (i.rewrite headers delay) w.live, wait now (i.rewrite headers delay) w.waiting⟩) := by
  simp only [step, hi]
  rcases Item.requeue_cases gob i headers delay now f w.c with ⟨herr, hc⟩ | h
  · obtain ⟨e, he⟩ := Option.ne_none_iff_exists'.mp herr
    rw [← Prod.eta (i.requeue gob headers delay now f w.c), he, hc]
    exact .inl ⟨nofun, rfl⟩
  · rw [h]
    exact .inr ⟨rfl, rfl⟩

/-- Changing the item, a failed `Requeue` leaves its id. -/
theorem set_rewrite_idents {pq : List Item} (hi : pq[n]? = some i) (headers : Headers) (delay : Int64) :
    (pq.set n (i.rewrite headers delay)).map Item.ident = pq.map Item.ident := by
  obtain ⟨hn, rfl⟩ := List.getElem?_eq_some_iff.mp hi
  have hn' : n < (pq.map Item.ident).length := by simpa using hn
  have hident : (pq[n].rewrite headers delay).ident = (pq.map Item.ident)[n] := by simp [Item.rewrite]
  rw [List.map_set, hident]
  exact List.set_getElem_self hn'

end

/-- **What one step can do.** -/
theorem step_effect (w : World V) (op : Op) : Effect gob w op (step gob w op) := by
  cases op with
  | push job now f =>
    rcases pushJob_cases gob job now f w.c with ⟨herr, hdb, hpq⟩ | h
    · rw [step_push_failed gob herr]
      refine .quiet hdb (by rw [hpq]) rfl rfl fun hf => ?_
      rw [show f = {} from hf, pushJob_ok] at herr
      exact absurd rfl herr
    · rw [step, h]; exact .pushed
  | tick f =>
    rcases listenerTick_cases gob f w.c with h | ⟨k, v, i, hfirst, hdec, -, h⟩
    · rw [step, h]; exact .quiet rfl rfl rfl rfl fun _ => rfl
    · rw [step, h]; exact .delivered hfirst hdec
  | delayedTick now f => exact step_delayedTick gob w now f
  | ack n f =>
    cases hi : w.c.pq[n]? with
    | none => simp only [step, hi]; exact .quiet rfl rfl rfl rfl fun _ => rfl
    | some i =>
      rcases Item.ack_cases i f w.c with ⟨herr, hdb, hpq⟩ | h
      · rw [step_ack_failed gob hi herr]
        refine .quiet hdb (by rw [hpq]) rfl rfl fun hf => ?_
        rw [show f = {} from hf, Item.ack_ok] at herr
        exact absurd rfl herr
      · simp only [step, hi, h]; exact .acked hi
  | nack n f =>
    cases hi : w.c.pq[n]? with
    | none => simp only [step, hi]; exact .quiet rfl rfl rfl rfl fun _ => rfl
    | some i =>
      rcases step_nack gob f hi with h | h
      · rw [h]; exact .quiet rfl rfl rfl rfl fun _ => rfl
      · rw [h]; exact .nacked hi
  | requeue n headers delay now f =>
    cases hi : w.c.pq[n]? with
    | none => simp only [step, hi]; exact .quiet rfl rfl rfl rfl fun _ => rfl
    | some i =>
      rcases step_requeue gob headers delay now f hi with ⟨herr, h⟩ | ⟨-, h⟩
      · rw [h]
        refine .quiet rfl (set_rewrite_idents hi headers delay) rfl rfl fun hf => ?_
        rw [show f = {} from hf, Item.requeue_ok] at herr
        exact absurd rfl herr
      · rw [h]; exact .requeued hi
  | reopen b =>
    rw [step]
    cases hb : b.run w.c.db with
    | error e => exact .ended
    | ok c =>
      obtain ⟨priority, prefetch, rfl⟩ := b.run_eq_ok hb
      exact .reopened priority prefetch

end

end RoadRunner.Boltdb
