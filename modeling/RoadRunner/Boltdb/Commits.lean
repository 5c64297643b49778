import RoadRunner.Boltdb.System

/-!
# Delivery and the commit

A tick should send a job to the priority queue exactly if its committed transaction moved the job to
`InQueueBucket`. What a transaction moved is read off the file: the entries that have left the
bucket the tick reads, with their jobs in `InQueueBucket`.

`listener` sends its job after the commit, so it meets this under every failure. `delayedJobsListener`
sends the jobs from inside its loop: what it has sent before a call fails, or before a commit that
fails, is delivered although the file still has it as waiting, and is delivered again by the next
tick.

* `foldl_scanStep`: the loop of the delayed tick sends the entries before the first that fails.
* `delivery_follows_commit_iff`: the delayed tick meets this exactly if it commits, or sends nothing.
-/

namespace RoadRunner.Boltdb

open Consumer

section

variable {V : Type} (gob : Gob V)

/-- The entries of `b` that are not in `b'` any more. -/
def left (b b' : Bucket Bytes V) : List (Bytes × V) := b.entries.filter fun e => e.1 ∉ b'.keys

/-- The items of stored entries, as they are sent to the queue. -/
def items (priority : Int64) (es : List (Bytes × V)) : List Item :=
  es.filterMap fun e => (gob.decode e.2).map (withPriority priority)

/-- Between `c` and `c'` the jobs that left the bucket `src`, and no others, were sent to the queue, and
all of them are in `InQueueBucket`. -/
structure FollowsCommit (src : DB V → Bucket Bytes V) (c c' : Consumer V) : Prop where
  sent : c'.pq = c.pq ++ items gob c.priority (left (src c.db) (src c'.db))
  stored : ∀ e ∈ left (src c.db) (src c'.db), ∃ i, gob.decode e.2 = some i ∧ i.ident ∈ c'.db.inQueue.keys

/-- No call of the loop fails for the entry. -/
def Moves (f : DelayFaults) (e : Bytes × V) : Prop :=
  (gob.decode e.2).isSome ∧ e.1 ∉ f.put ∧ e.1 ∉ f.delete

instance (f : DelayFaults) (e : Bytes × V) : Decidable (Moves gob f e) :=
  inferInstanceAs (Decidable (_ ∧ _ ∧ _))

variable {gob}

/-! ### What left a bucket -/

theorem left_self (b : Bucket Bytes V) : left b b = [] := by
  rw [left, List.filter_eq_nil_iff]
  intro e he
  simpa using Bucket.mem_keys.mpr ⟨e.2, he⟩

/-- Of a list with distinct keys, the entries whose key is in a sublist are that sublist. -/
theorem filter_keys_sublist {es l : List (Bytes × V)} (h : es.Sublist l) (hl : (l.map Prod.fst).Nodup) :
    l.filter (fun e => e.1 ∈ es.map Prod.fst) = es := by
  induction h with
  | slnil => rfl
  | @cons es l a h ih =>
    rw [List.map_cons, List.nodup_cons] at hl
    have ha : a.1 ∉ es.map Prod.fst := fun hmem => hl.1 ((h.map Prod.fst).subset hmem)
    rw [List.filter_cons_of_neg (by simpa using ha)]
    exact ih hl.2
  | @cons_cons es l a h ih =>
    rw [List.map_cons, List.nodup_cons] at hl
    rw [List.filter_cons_of_pos (by simp)]
    congr 1
    rw [← ih hl.2]
    refine List.filter_congr fun e he => ?_
    have hne : e.1 ≠ a.1 := fun heq => hl.1 (heq ▸ List.mem_map_of_mem he)
    simp [hne, ih hl.2]

/-- A bucket from which the keys of some of its entries were deleted. -/
theorem left_eq {b b' : Bucket Bytes V} {es : List (Bytes × V)} (hsub : es.Sublist b.entries)
    (hkeys : ∀ k, k ∈ b'.keys ↔ k ∈ b.keys ∧ k ∉ es.map Prod.fst) : left b b' = es := by
  rw [← filter_keys_sublist hsub b.keys_nodup]
  unfold left
  refine List.filter_congr fun e he => ?_
  have hb : e.1 ∈ b.keys := Bucket.mem_keys.mpr ⟨e.2, he⟩
  refine decide_eq_decide.mpr ?_
  rw [hkeys, and_iff_right hb, not_not]

/-! ### The listener -/

theorem listenerTick_followsCommit (f : Faults) (c : Consumer V) :
    FollowsCommit gob DB.push c (c.listenerTick gob f) := by
  rcases listenerTick_cases gob f c with h | ⟨k, v, i, hfirst, hdec, -, h⟩
  · rw [h]
    constructor
    · simp [left_self, items]
    · simp [left_self]
  · rw [h]
    have hleft : left c.db.push (c.delivered k v i).db.push = [(k, v)] := by
      refine left_eq ?_ fun j => ?_
      · exact List.singleton_sublist.mpr (Bucket.mem_of_first hfirst)
      · simp only [delivered, Bucket.mem_keys_delete, List.map_cons, List.map_nil, List.mem_singleton]
        exact and_comm
    constructor
    · rw [hleft]
      simp [items, hdec, delivered]
    · rw [hleft]
      intro e he
      obtain rfl := List.mem_singleton.mp he
      exact ⟨i, hdec, Bucket.mem_keys_put.mpr (.inl rfl)⟩

/-! ### The loop of the delayed tick -/

variable {priority : Int64} {f : DelayFaults}

variable (priority) in
theorem scanStep_of_moves {s : Scan V} (hs : s.active = true) {e : Bytes × V} (he : Moves gob f e) :
    ∃ i, gob.decode e.2 = some i ∧ scanStep gob priority f s e =
      ⟨{ s.db with inQueue := s.db.inQueue.put i.ident e.2, delay := s.db.delay.delete e.1 }, true,
        s.sent ++ [withPriority priority i]⟩ := by
  obtain ⟨hdec, hput, hdel⟩ := he
  obtain ⟨i, hi⟩ := Option.isSome_iff_exists.mp hdec
  exact ⟨i, hi, by simp [scanStep, hi, hs, hput, hdel]⟩

theorem scanStep_of_not_moves {s : Scan V} {e : Bytes × V} (he : ¬ Moves gob f e) :
    scanStep gob priority f s e = { s with active := false } := by
  unfold scanStep
  cases hdec : gob.decode e.2 with
  | none => rfl
  | some i =>
    have hfault : e.1 ∉ f.put → e.1 ∈ f.delete := by
      intro hput
      by_contra hdel
      exact he ⟨by rw [hdec]; rfl, hput, hdel⟩
    by_cases hput : e.1 ∈ f.put
    · simp [hput]
    · simp [hfault hput]

theorem scanStep_closed {s : Scan V} (hs : s.active = false) (e : Bytes × V) :
    scanStep gob priority f s e = s := by
  unfold scanStep
  obtain ⟨db, active, sent⟩ := s
  obtain rfl : active = false := hs
  cases gob.decode e.2 <;> simp

/-- The loop sends the entries before the first that fails, and the transaction stays open exactly if
none does. -/
theorem foldl_scanStep (es : List (Bytes × V)) {s : Scan V} (hs : s.active = true) :
    (es.foldl (scanStep gob priority f) s).sent =
        s.sent ++ items gob priority (es.takeWhile fun e => Moves gob f e) ∧
      ((es.foldl (scanStep gob priority f) s).active = true ↔ ∀ e ∈ es, Moves gob f e) := by
  induction es generalizing s with
  | nil => simp [items, hs]
  | cons e es ih =>
    rw [List.foldl_cons]
    by_cases he : Moves gob f e
    · obtain ⟨i, hi, hstep⟩ := scanStep_of_moves priority hs he
      rw [hstep]
      obtain ⟨hsent, hactive⟩ := ih (s := ⟨_, true, s.sent ++ [withPriority priority i]⟩) rfl
      refine ⟨?_, ?_⟩
      · rw [hsent, List.takeWhile_cons_of_pos (by simpa using he)]
        simp [items, hi]
      · rw [hactive, List.forall_mem_cons, and_iff_right he]
    · -- from here on the transaction is closed, and the loop does nothing
      have hclosed : ∀ (es : List (Bytes × V)) (s : Scan V), s.active = false →
          es.foldl (scanStep gob priority f) s = s := by
        intro es s hs
        induction es with
        | nil => rfl
        | cons e es ih => rw [List.foldl_cons, scanStep_closed hs, ih]
      rw [scanStep_of_not_moves he, hclosed _ _ rfl, List.takeWhile_cons_of_neg (by simpa using he)]
      simp [items, he]

/-- The buckets, in the view of a transaction that stays open. -/
theorem foldl_scanStep_db (es : List (Bytes × V)) {s : Scan V} (hs : s.active = true)
    (hall : ∀ e ∈ es, Moves gob f e) :
    (∀ k, k ∈ (es.foldl (scanStep gob priority f) s).db.delay.keys ↔
        k ∈ s.db.delay.keys ∧ k ∉ es.map Prod.fst) ∧
      (∀ k ∈ s.db.inQueue.keys, k ∈ (es.foldl (scanStep gob priority f) s).db.inQueue.keys) ∧
      ∀ e ∈ es, ∃ i, gob.decode e.2 = some i ∧
        i.ident ∈ (es.foldl (scanStep gob priority f) s).db.inQueue.keys := by
  induction es generalizing s with
  | nil => simp
  | cons e es ih =>
    obtain ⟨he, hes⟩ := List.forall_mem_cons.mp hall
    obtain ⟨i, hi, hstep⟩ := scanStep_of_moves priority hs he
    rw [List.foldl_cons, hstep]
    obtain ⟨hdelay, hkeep, hstored⟩ := ih (s := ⟨_, true, _⟩) rfl hes
    refine ⟨fun k => ?_, fun k hk => ?_, List.forall_mem_cons.mpr ⟨⟨i, hi, ?_⟩, hstored⟩⟩
    · rw [hdelay]
      simp only [Bucket.mem_keys_delete, List.map_cons, List.mem_cons, not_or]
      tauto
    · exact hkeep k (Bucket.mem_keys_put.mpr (.inr hk))
    · exact hkeep _ (Bucket.mem_keys_put.mpr (.inl rfl))

variable (priority) in
theorem items_takeWhile_eq_nil_iff {es : List (Bytes × V)} :
    items gob priority (es.takeWhile fun e => Moves gob f e) = [] ↔ ∀ e ∈ es.head?, ¬ Moves gob f e := by
  cases es with
  | nil => simp [items]
  | cons e es =>
    by_cases he : Moves gob f e
    · obtain ⟨i, hi⟩ := Option.isSome_iff_exists.mp he.1
      simp [items, he, hi]
    · simp [items, he]

theorem dueEntries_sublist (now : Int) (c : Consumer V) : (c.dueEntries now).Sublist c.db.delay.entries :=
  (List.takeWhile_sublist _).trans (List.dropWhile_sublist _)

section

variable (now : Int) (c : Consumer V)

theorem scan_sent : (c.scan gob now f).sent =
    items gob c.priority ((c.dueEntries now).takeWhile fun e => Moves gob f e) :=
  (foldl_scanStep _ rfl).1

theorem scan_active_iff : (c.scan gob now f).active = true ↔ ∀ e ∈ c.dueEntries now, Moves gob f e :=
  (foldl_scanStep _ rfl).2

theorem scan_db (hall : ∀ e ∈ c.dueEntries now, Moves gob f e) :
    (∀ k, k ∈ (c.scan gob now f).db.delay.keys ↔
        k ∈ c.db.delay.keys ∧ k ∉ (c.dueEntries now).map Prod.fst) ∧
      ∀ e ∈ c.dueEntries now, ∃ i, gob.decode e.2 = some i ∧ i.ident ∈ (c.scan gob now f).db.inQueue.keys :=
  have h := foldl_scanStep_db (c.dueEntries now) rfl hall
  ⟨h.1, h.2.2⟩

/-- A tick that does not fail sends what it moved. -/
theorem delayedTick_committed (hbegin : f.beginTx = false) (hcommit : f.commit = false)
    (hall : ∀ e ∈ c.dueEntries now, Moves gob f e) :
    FollowsCommit gob DB.delay c (c.delayedTick gob now f).2 := by
  obtain ⟨hdelay, hstored⟩ := scan_db now c hall
  have hleft : left c.db.delay (c.scan gob now f).db.delay = c.dueEntries now :=
    left_eq (dueEntries_sublist now c) hdelay
  have htick : (c.delayedTick gob now f).2 =
      { c with db := (c.scan gob now f).db, pq := c.pq ++ (c.scan gob now f).sent } := by
    simp [delayedTick, hbegin, hcommit, (scan_active_iff now c).mpr hall]
  have hwhole : (c.dueEntries now).takeWhile (fun e => Moves gob f e) = c.dueEntries now :=
    List.takeWhile_eq_self_iff.mpr fun e he => decide_eq_true (hall e he)
  rw [htick]
  constructor
  · dsimp only
    rw [hleft, scan_sent, hwhole]
  · dsimp only
    rw [hleft]
    exact hstored

/-- A tick that does not commit moves nothing, and sends what comes before the first failure. -/
theorem delayedTick_not_committed (hbegin : f.beginTx = false)
    (h : ¬ ((∀ e ∈ c.dueEntries now, Moves gob f e) ∧ f.commit = false)) :
    FollowsCommit gob DB.delay c (c.delayedTick gob now f).2 ↔
      ∀ e ∈ (c.dueEntries now).head?, ¬ Moves gob f e := by
  have htick : (c.delayedTick gob now f).2 = { c with pq := c.pq ++ (c.scan gob now f).sent } := by
    have hopen : ((c.scan gob now f).active && !f.commit) = false := by
      rw [Bool.eq_false_iff]
      intro hopen
      rw [Bool.and_eq_true, scan_active_iff, Bool.not_eq_true'] at hopen
      exact h hopen
    simp [delayedTick, hbegin, hopen]
  rw [htick, ← items_takeWhile_eq_nil_iff c.priority, ← scan_sent]
  constructor
  · intro hfollows
    have hsent := hfollows.sent
    simpa [left_self, items] using hsent
  · intro hnil
    constructor
    · simp [left_self, items, hnil]
    · simp [left_self]

end

end

/-- Under every failure a tick of `listener` sends to the queue what its committed transaction moved. A
tick of `delayedJobsListener` does so exactly if the transaction was not begun, no call fails, or the
first due entry, if there is one, fails. -/
theorem delivery_follows_commit_iff {V : Type} (gob : Gob V) (c : Consumer V) :
    (∀ f : Faults, FollowsCommit gob DB.push c (c.listenerTick gob f)) ∧
      ∀ (now : Int) (f : DelayFaults), FollowsCommit gob DB.delay c (c.delayedTick gob now f).2 ↔
        f.beginTx = true ∨ ((∀ e ∈ c.dueEntries now, Moves gob f e) ∧ f.commit = false) ∨
          ∀ e ∈ (c.dueEntries now).head?, ¬ Moves gob f e := by
  refine ⟨fun f => listenerTick_followsCommit f c, fun now f => ?_⟩
  cases hbegin : f.beginTx with
  | true =>
    refine iff_of_true ?_ (.inl rfl)
    simp only [delayedTick, hbegin, if_true]
    constructor
    · simp [left_self, items]
    · simp [left_self]
  | false =>
    by_cases h : (∀ e ∈ c.dueEntries now, Moves gob f e) ∧ f.commit = false
    · exact iff_of_true (delayedTick_committed now c hbegin h.2 h.1) (.inr (.inl h))
    · rw [delayedTick_not_committed now c hbegin h, or_iff_right Bool.false_ne_true, or_iff_right h]

/-- One delayed job, due at the second of the tick. -/
def oneDue : Consumer (Option Item) :=
  fresh 10 1000 { DB.empty with delay := Bucket.empty.put startDate (some (fromJob (plainJob (ascii "a") 5))) }

/-- The commit fails: the job is delivered, and the file has it as it was. -/
theorem uncommitted_delivery :
    let c := (oneDue.delayedTick Gob.plain 631152000000000000 { commit := true }).2
    c.pq.map Item.ident = [ascii "a"] ∧ c.db = oneDue.db ∧ ¬ FollowsCommit Gob.plain DB.delay oneDue c := by
  have hpq : (oneDue.delayedTick Gob.plain 631152000000000000 { commit := true }).2.pq.map Item.ident =
      [ascii "a"] := by
    decide +kernel
  have hdb : (oneDue.delayedTick Gob.plain 631152000000000000 { commit := true }).2.db = oneDue.db := by
    decide +kernel
  refine ⟨hpq, hdb, fun h => ?_⟩
  have hsent := congrArg (List.map Item.ident) h.sent
  rw [hpq, hdb] at hsent
  simp [left_self, items, oneDue, fresh] at hsent

end RoadRunner.Boltdb
