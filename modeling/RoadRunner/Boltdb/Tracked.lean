import RoadRunner.Boltdb.System

/-!
# Where a live job is

The invariant that ties the buckets and the priority queue to the live jobs. Every stored value is
the encoding of a live job as its last `Push` or `Requeue` left it; a delivered job has its entry
in `InQueueBucket` and none in `PushBucket`; a job in `DelayBucket` is nowhere else and is there
once. After a restart a job may be in `PushBucket` and in `InQueueBucket`, and then it is not
delivered.

* `Orderly`: the steps it needs: a pushed id belongs to no live job, and a tick of
  `delayedJobsListener` that meets delayed jobs has no failing put, delete or commit.
-/

namespace RoadRunner.Boltdb

open Consumer

variable {V : Type} (gob : Gob V)

/-- The entry of a job in `PushBucket` or `InQueueBucket`. -/
def keyed (x : Item) : Bytes × V := (x.ident, gob.encode x)

/-- The ids of the live jobs. -/
def World.liveIds (w : World V) : List Bytes := w.live.map Item.ident

/-- The ids of the delivered jobs. -/
def World.sentIds (w : World V) : List Bytes := w.c.pq.map Item.ident

/-- Where the live jobs are (module doc). -/
structure Tracked (w : World V) : Prop where
  nodup : w.liveIds.Nodup
  push : ∀ e ∈ w.c.db.push, ∃ x ∈ w.live, e = keyed gob x
  inQueue : ∀ e ∈ w.c.db.inQueue, ∃ x ∈ w.live, e = keyed gob x
  delay : ∀ e ∈ w.c.db.delay, ∃ x ∈ w.live, e.2 = gob.encode x
  sent_nodup : w.sentIds.Nodup
  sent_inQueue : ∀ id ∈ w.sentIds, id ∈ w.c.db.inQueue.keys
  sent_push : ∀ id ∈ w.sentIds, id ∉ w.c.db.push.keys
  delay_push : ∀ k x, (k, gob.encode x) ∈ w.c.db.delay → x.ident ∉ w.c.db.push.keys
  delay_inQueue : ∀ k x, (k, gob.encode x) ∈ w.c.db.delay → x.ident ∉ w.c.db.inQueue.keys
  delay_once : ∀ k k' x, (k, gob.encode x) ∈ w.c.db.delay → (k', gob.encode x) ∈ w.c.db.delay → k = k'

/-- A job is stored again under its id. -/
theorem replace_ident (i : Item) (live : List Item) :
    (replace i live).map Item.ident = live.map Item.ident := by
  rw [replace, List.map_map]
  refine List.map_congr_left fun x _ => ?_
  rw [Function.comp_apply]
  split
  · rename_i hx; exact hx.symm
  · rfl

/-- The steps that keep `Tracked`. -/
def Orderly (w : World V) : Op → Prop
  | .push job _ _ => job.ident ∉ w.liveIds
  | .delayedTick _ f => f.Clean ∨ w.c.db.delay.entries = []
  | _ => True

variable {gob}

namespace Tracked

variable {w : World V} (h : Tracked gob w)

include h

/-- Two live jobs with one id are one. -/
theorem live_ext {x y : Item} (hx : x ∈ w.live) (hy : y ∈ w.live) (hid : x.ident = y.ident) :
    x = y := List.inj_on_of_nodup_map h.nodup hx hy hid

theorem push_keys {id : Bytes} (hid : id ∈ w.c.db.push.keys) : id ∈ w.liveIds := by
  obtain ⟨v, hv⟩ := Bucket.mem_keys.mp hid
  obtain ⟨x, hx, he⟩ := h.push _ hv
  exact List.mem_map.mpr ⟨x, hx, (Prod.mk.inj he).1.symm⟩

theorem inQueue_keys {id : Bytes} (hid : id ∈ w.c.db.inQueue.keys) : id ∈ w.liveIds := by
  obtain ⟨v, hv⟩ := Bucket.mem_keys.mp hid
  obtain ⟨x, hx, he⟩ := h.inQueue _ hv
  exact List.mem_map.mpr ⟨x, hx, (Prod.mk.inj he).1.symm⟩

theorem sent_live {id : Bytes} (hid : id ∈ w.sentIds) : id ∈ w.liveIds :=
  h.inQueue_keys (h.sent_inQueue id hid)

theorem delay_live {k : Bytes} {x : Item} (hx : (k, gob.encode x) ∈ w.c.db.delay) : x ∈ w.live := by
  obtain ⟨y, hy, he⟩ := h.delay _ hx
  rwa [gob.encode_injective he]

theorem delay_sent {k : Bytes} {x : Item} (hx : (k, gob.encode x) ∈ w.c.db.delay) :
    x.ident ∉ w.sentIds := fun hid => h.delay_inQueue k x hx (h.sent_inQueue _ hid)

/-- An entry of `PushBucket` that decodes is that of its live job. -/
theorem push_entry {k : Bytes} {v : V} {i : Item} (hmem : (k, v) ∈ w.c.db.push)
    (hdec : gob.decode v = some i) : i ∈ w.live ∧ k = i.ident ∧ v = gob.encode i := by
  obtain ⟨x, hx, he⟩ := h.push _ hmem
  obtain ⟨rfl, rfl⟩ := Prod.mk.inj he
  obtain rfl := gob.eq_of_decode_encode hdec
  exact ⟨hx, rfl, rfl⟩

theorem delay_entry {k : Bytes} {v : V} {i : Item} (hmem : (k, v) ∈ w.c.db.delay)
    (hdec : gob.decode v = some i) : i ∈ w.live ∧ v = gob.encode i := by
  obtain ⟨x, hx, he⟩ := h.delay _ hmem
  obtain rfl : v = gob.encode x := he
  obtain rfl := gob.eq_of_decode_encode hdec
  exact ⟨hx, rfl⟩

/-- A tick of `delayedJobsListener` meets no value that does not decode. -/
theorem delay_decodes {e : Bytes × V} (he : e ∈ w.c.db.delay) : gob.decode e.2 ≠ none := by
  obtain ⟨x, -, hex⟩ := h.delay e he
  rw [hex, gob.decode_encode]
  exact nofun

/-- A delivered job is live. -/
theorem exists_live {n : Nat} {i : Item} (hi : w.c.pq[n]? = some i) :
    ∃ x ∈ w.live, x.ident = i.ident := by
  have hid := h.sent_live (List.mem_map_of_mem (List.mem_of_getElem? hi))
  obtain ⟨x, hx, he⟩ := List.mem_map.mp hid
  exact ⟨x, hx, he⟩

/-- The other delivered jobs have other ids. -/
theorem ne_of_mem_eraseIdx {n : Nat} {i : Item} (hi : w.c.pq[n]? = some i) {id : Bytes}
    (hid : id ∈ (w.c.pq.eraseIdx n).map Item.ident) : id ∈ w.sentIds ∧ id ≠ i.ident := by
  obtain ⟨hn, rfl⟩ := List.getElem?_eq_some_iff.mp hi
  have hn' : n < w.sentIds.length := by simpa [World.sentIds] using hn
  rw [← List.eraseIdx_map] at hid
  refine ⟨List.mem_of_mem_eraseIdx hid, fun he => ?_⟩
  obtain ⟨m, hm, hid⟩ := List.mem_eraseIdx_iff_getElem?.mp hid
  have hsame : w.sentIds[n]? = w.sentIds[m]? := by
    rw [World.sentIds, hid, he]; simp [hn]
  exact hm ((List.getElem?_inj hn' h.sent_nodup).mp hsame).symm

/-! ## One lemma for each effect -/

theorem quiet {w' : World V} (hdb : w'.c.db = w.c.db) (hpq : w'.sentIds = w.sentIds)
    (hlive : w'.live = w.live) : Tracked gob w' := by
  have hids : w'.liveIds = w.liveIds := by rw [World.liveIds, hlive]; rfl
  constructor
  all_goals simp only [hdb, hpq, hlive, hids]
  exacts [h.nodup, h.push, h.inQueue, h.delay, h.sent_nodup, h.sent_inQueue, h.sent_push,
    h.delay_push, h.delay_inQueue, h.delay_once]

end Tracked

/-- The job `i` is stored again: in `w'` it stands for any live job of `w` with its id, it is not
delivered, and `InQueueBucket` has no entry of it. -/
structure Restored (gob : Gob V) (w w' : World V) (i : Item) : Prop where
  old : ∀ x ∈ w.live, x.ident ≠ i.ident → x ∈ w'.live
  mem : i ∈ w'.live
  nodup : w'.liveIds.Nodup
  inQueue : ∀ e, e ∈ w'.c.db.inQueue ↔ e.1 ≠ i.ident ∧ e ∈ w.c.db.inQueue
  sent_nodup : w'.sentIds.Nodup
  sent : ∀ id ∈ w'.sentIds, id ∈ w.sentIds ∧ id ≠ i.ident
  not_push : i.ident ∉ w.c.db.push.keys
  not_delay : ∀ k x, (k, gob.encode x) ∈ w.c.db.delay → x.ident ≠ i.ident

namespace Restored

variable {w w' : World V} {i : Item} (r : Restored gob w w' i) (h : Tracked gob w)

include r h

theorem inQueue_tracked : ∀ e ∈ w'.c.db.inQueue, ∃ x ∈ w'.live, e = keyed gob x := by
  intro e he
  obtain ⟨hne, he⟩ := (r.inQueue e).mp he
  obtain ⟨x, hx, rfl⟩ := h.inQueue e he
  exact ⟨x, r.old x hx hne, rfl⟩

theorem sent_inQueue : ∀ id ∈ w'.sentIds, id ∈ w'.c.db.inQueue.keys := by
  intro id hid
  obtain ⟨hsent, hne⟩ := r.sent id hid
  obtain ⟨v, hv⟩ := Bucket.mem_keys.mp (h.sent_inQueue id hsent)
  exact Bucket.mem_keys.mpr ⟨v, (r.inQueue _).mpr ⟨hne, hv⟩⟩

theorem delay_tracked : ∀ e ∈ w.c.db.delay, ∃ x ∈ w'.live, e.2 = gob.encode x := by
  intro e he
  obtain ⟨x, hx, hex⟩ := h.delay e he
  exact ⟨x, r.old x hx (r.not_delay e.1 x (by rw [← hex]; exact he)), hex⟩

theorem delay_not_inQueue {k : Bytes} {x : Item} (hx : (k, gob.encode x) ∈ w.c.db.delay) :
    x.ident ∉ w'.c.db.inQueue.keys := by
  intro hid
  obtain ⟨v, hv⟩ := Bucket.mem_keys.mp hid
  exact h.delay_inQueue k x hx (Bucket.mem_keys.mpr ⟨v, ((r.inQueue _).mp hv).2⟩)

/-- Stored in `PushBucket`, under its id. -/
theorem tracked_push (hpush : w'.c.db.push = w.c.db.push.put i.ident (gob.encode i))
    (hdelay : w'.c.db.delay = w.c.db.delay) : Tracked gob w' := by
  refine ⟨r.nodup, ?_, r.inQueue_tracked h, ?_, r.sent_nodup, r.sent_inQueue h, ?_, ?_, ?_, ?_⟩
  · intro e he
    rw [hpush, Bucket.mem_put] at he
    rcases he with rfl | ⟨hne, he⟩
    · exact ⟨i, r.mem, rfl⟩
    · obtain ⟨x, hx, rfl⟩ := h.push e he
      exact ⟨x, r.old x hx hne, rfl⟩
  · rw [hdelay]; exact r.delay_tracked h
  · intro id hid
    obtain ⟨hsent, hne⟩ := r.sent id hid
    rw [hpush, Bucket.mem_keys_put]
    exact not_or.mpr ⟨hne, h.sent_push id hsent⟩
  · intro k x hx
    rw [hdelay] at hx
    rw [hpush, Bucket.mem_keys_put]
    exact not_or.mpr ⟨r.not_delay k x hx, h.delay_push k x hx⟩
  · intro k x hx
    rw [hdelay] at hx
    exact r.delay_not_inQueue h hx
  · rw [hdelay]; exact h.delay_once

/-- Stored in `DelayBucket`, under any key. -/
theorem tracked_delay (key : Bytes) (hpush : w'.c.db.push = w.c.db.push)
    (hdelay : w'.c.db.delay = w.c.db.delay.put key (gob.encode i)) : Tracked gob w' := by
  have hmem : ∀ {k : Bytes} {x : Item}, (k, gob.encode x) ∈ w'.c.db.delay →
      (k = key ∧ x = i) ∨ ((k, gob.encode x) ∈ w.c.db.delay ∧ x ≠ i) := by
    intro k x hx
    rw [hdelay, Bucket.mem_put] at hx
    rcases hx with he | ⟨-, hx⟩
    · exact .inl ⟨(Prod.mk.inj he).1, gob.encode_injective (Prod.mk.inj he).2⟩
    · exact .inr ⟨hx, fun he => r.not_delay k x hx (by rw [he])⟩
  refine ⟨r.nodup, ?_, r.inQueue_tracked h, ?_, r.sent_nodup, r.sent_inQueue h, ?_, ?_, ?_, ?_⟩
  · intro e he
    rw [hpush] at he
    obtain ⟨x, hx, rfl⟩ := h.push e he
    refine ⟨x, r.old x hx fun hid => r.not_push ?_, rfl⟩
    rw [← hid]
    exact Bucket.mem_keys.mpr ⟨_, he⟩
  · intro e he
    rw [hdelay, Bucket.mem_put] at he
    rcases he with rfl | ⟨-, he⟩
    · exact ⟨i, r.mem, rfl⟩
    · exact r.delay_tracked h e he
  · intro id hid
    rw [hpush]
    exact h.sent_push id (r.sent id hid).1
  · intro k x hx
    rw [hpush]
    rcases hmem hx with ⟨-, rfl⟩ | ⟨hx, -⟩
    · exact r.not_push
    · exact h.delay_push k x hx
  · intro k x hx
    rcases hmem hx with ⟨-, rfl⟩ | ⟨hx, -⟩
    · intro hid
      obtain ⟨v, hv⟩ := Bucket.mem_keys.mp hid
      exact ((r.inQueue _).mp hv).1 rfl
    · exact r.delay_not_inQueue h hx
  · intro k k' x hx hx'
    rcases hmem hx with ⟨rfl, rfl⟩ | ⟨hx, hne⟩ <;> rcases hmem hx' with ⟨rfl, he⟩ | ⟨hx', hne'⟩
    · rfl
    · exact absurd rfl hne'
    · exact absurd he hne
    · exact h.delay_once k k' x hx hx'

end Restored

namespace Tracked

variable {w : World V} (h : Tracked gob w)

include h

/-- A `Push` of an id that no live job has. -/
theorem pushed {i : Item} (hfresh : i.ident ∉ w.liveIds) (now : Int) :
    Tracked gob ⟨w.c.pushed gob i now, w.live ++ [i], wait now i w.waiting⟩ := by
  have r : Restored gob w ⟨w.c.pushed gob i now, w.live ++ [i], wait now i w.waiting⟩ i :=
    { old := fun x hx _ => List.mem_append_left _ hx
      mem := List.mem_append_right _ List.mem_cons_self
      nodup := by
        rw [World.liveIds, List.map_append, List.map_singleton, ← List.concat_eq_append]
        exact h.nodup.concat hfresh
      inQueue := fun e => by
        refine ⟨fun he => ⟨fun hid => hfresh ?_, he⟩, And.right⟩
        exact h.inQueue_keys (Bucket.mem_keys.mpr ⟨e.2, hid ▸ he⟩)
      sent_nodup := h.sent_nodup
      sent := fun id hid => ⟨hid, fun he => hfresh (he ▸ h.sent_live hid)⟩
      not_push := fun hid => hfresh (h.push_keys hid)
      not_delay := fun k x hx hid => hfresh (hid ▸ List.mem_map_of_mem (h.delay_live hx)) }
  by_cases hd : 0 < i.options.delay
  · refine r.tracked_delay h (tKey now i.options.delay) ?_ ?_ <;>
      simp [Consumer.pushed, hd]
  · exact r.tracked_push h (by simp [Consumer.pushed, hd]) (by simp [Consumer.pushed, hd])

/-- The `n`-th delivered job is stored again as `i`. -/
theorem restored {w' : World V} {n : Nat} {j i : Item} (hj : w.c.pq[n]? = some j)
    (hid : i.ident = j.ident) (hold : ∀ x ∈ w.live, x.ident ≠ i.ident → x ∈ w'.live)
    (hmem : i ∈ w'.live) (hnodup : w'.liveIds.Nodup)
    (hinQueue : w'.c.db.inQueue = w.c.db.inQueue.delete j.ident)
    (hpq : w'.c.pq = w.c.pq.eraseIdx n) : Restored gob w w' i where
  old := hold
  mem := hmem
  nodup := hnodup
  inQueue := fun e => by rw [hinQueue, Bucket.mem_delete, hid]
  sent_nodup := by
    rw [World.sentIds, hpq, ← List.eraseIdx_map]; exact h.sent_nodup.eraseIdx n
  sent := fun id hmem => by
    rw [World.sentIds, hpq] at hmem
    rw [hid]
    exact h.ne_of_mem_eraseIdx hj hmem
  not_push := by
    rw [hid]
    exact h.sent_push _ (List.mem_map_of_mem (List.mem_of_getElem? hj))
  not_delay := fun k x hx he => by
    refine h.delay_sent hx ?_
    rw [he, hid]
    exact List.mem_map_of_mem (List.mem_of_getElem? hj)

theorem nacked {n : Nat} {i : Item} (hi : w.c.pq[n]? = some i) :
    Tracked gob { w with c := (i.nacked gob w.c).settle n } := by
  -- the value that goes back to `PushBucket` is that of the live job with this id
  obtain ⟨v, hv⟩ := Bucket.mem_keys.mp
    (h.sent_inQueue _ (List.mem_map_of_mem (List.mem_of_getElem? hi)))
  obtain ⟨x, hx, he⟩ := h.inQueue _ hv
  obtain ⟨hid, rfl⟩ := Prod.mk.inj he
  have r : Restored gob w { w with c := (i.nacked gob w.c).settle n } x :=
    h.restored hi hid.symm (fun y hy _ => hy) hx h.nodup rfl rfl
  refine r.tracked_push h ?_ rfl
  rw [hid] at hv
  simp [Consumer.settle, Item.nacked, hid, Bucket.get_eq_some.mpr hv]

theorem requeued {n : Nat} {j : Item} (hj : w.c.pq[n]? = some j) {i : Item}
    (hid : i.ident = j.ident) (now : Int) :
    Tracked gob ⟨(i.requeued gob now w.c).settle n, replace i w.live, wait now i w.waiting⟩ := by
  obtain ⟨x, hx, hxid⟩ := h.exists_live hj
  have r : Restored gob w
      ⟨(i.requeued gob now w.c).settle n, replace i w.live, wait now i w.waiting⟩ i :=
    h.restored hj hid (fun y hy hne => List.mem_map.mpr ⟨y, hy, if_neg hne⟩)
      (List.mem_map.mpr ⟨x, hx, if_pos (hxid.trans hid.symm)⟩) (by rw [World.liveIds, replace_ident]; exact h.nodup)
      (by rw [← hid]; rfl) rfl
  by_cases hd : 0 < i.options.delay
  · refine r.tracked_delay h (tKey now i.options.delay) ?_ ?_ <;>
      simp [Consumer.settle, Item.requeued, hd]
  · exact r.tracked_push h (by simp [Consumer.settle, Item.requeued, hd])
      (by simp [Consumer.settle, Item.requeued, hd])

/-- The live job `x` leaves its bucket and is delivered. -/
theorem sent {w' : World V} {x : Item} (hx : x ∈ w.live) (hnew : x.ident ∉ w.sentIds)
    (hlive : w'.live = w.live) (hsent : w'.sentIds = w.sentIds ++ [x.ident])
    (hinQueue : w'.c.db.inQueue = w.c.db.inQueue.put x.ident (gob.encode x))
    (hpush : ∀ e ∈ w'.c.db.push, e ∈ w.c.db.push) (hnot : x.ident ∉ w'.c.db.push.keys)
    (hdelay : ∀ e ∈ w'.c.db.delay, e ∈ w.c.db.delay)
    (hapart : ∀ k y, (k, gob.encode y) ∈ w'.c.db.delay → y.ident ≠ x.ident) : Tracked gob w' := by
  have hkeys : ∀ id ∈ w'.c.db.push.keys, id ∈ w.c.db.push.keys := by
    intro id hid
    obtain ⟨v, hv⟩ := Bucket.mem_keys.mp hid
    exact Bucket.mem_keys.mpr ⟨v, hpush _ hv⟩
  refine ⟨by rw [World.liveIds, hlive]; exact h.nodup, ?_, ?_, ?_, ?_, ?_, ?_, ?_, ?_, ?_⟩
  · rw [hlive]; exact fun e he => h.push e (hpush e he)
  · intro e he
    rw [hlive]
    rw [hinQueue, Bucket.mem_put] at he
    rcases he with rfl | ⟨-, he⟩
    · exact ⟨x, hx, rfl⟩
    · exact h.inQueue e he
  · rw [hlive]; exact fun e he => h.delay e (hdelay e he)
  · rw [hsent, ← List.concat_eq_append]
    exact h.sent_nodup.concat hnew
  · intro id hid
    rw [hsent, List.mem_append, List.mem_singleton] at hid
    rw [hinQueue, Bucket.mem_keys_put]
    exact hid.symm.imp (fun he => he) (h.sent_inQueue id)
  · intro id hid hk
    rw [hsent, List.mem_append, List.mem_singleton] at hid
    rcases hid with hid | rfl
    · exact h.sent_push id hid (hkeys id hk)
    · exact hnot hk
  · exact fun k y hy hk => h.delay_push k y (hdelay _ hy) (hkeys _ hk)
  · intro k y hy
    rw [hinQueue, Bucket.mem_keys_put]
    exact not_or.mpr ⟨hapart k y hy, h.delay_inQueue k y (hdelay _ hy)⟩
  · exact fun k k' y hy hy' => h.delay_once k k' y (hdelay _ hy) (hdelay _ hy')

theorem delivered {k : Bytes} {v : V} {i : Item} (hmem : (k, v) ∈ w.c.db.push)
    (hdec : gob.decode v = some i) : Tracked gob { w with c := w.c.delivered k v i } := by
  obtain ⟨hx, rfl, rfl⟩ := h.push_entry hmem hdec
  have hkey : i.ident ∈ w.c.db.push.keys := Bucket.mem_keys.mpr ⟨_, hmem⟩
  refine h.sent hx (fun hid => h.sent_push _ hid hkey) rfl ?_ rfl ?_ ?_ (fun _ he => he) ?_
  · simp [World.sentIds, Consumer.delivered]
  · exact fun e he => (Bucket.mem_delete.mp he).2
  · exact fun hid => (Bucket.mem_keys_delete.mp hid).1 rfl
  · exact fun k y hy hid => h.delay_push k y hy (hid ▸ hkey)

theorem dueMove {w' : World V} (hm : DueMove gob w w') : Tracked gob w' := by
  obtain ⟨k, v, i, hmem, hdec⟩ := hm
  obtain ⟨hx, rfl⟩ := h.delay_entry hmem hdec
  refine h.sent hx (h.delay_sent hmem) rfl ?_ rfl (fun _ he => he) (h.delay_push k i hmem) ?_ ?_
  · simp [World.sentIds, dueDelivered]
  · exact fun e he => (Bucket.mem_delete.mp he).2
  · intro k' y hy hid
    obtain ⟨hne, hy'⟩ := Bucket.mem_delete.mp hy
    obtain rfl := h.live_ext (h.delay_live hy') hx hid
    exact hne (h.delay_once k' k y hy' hmem)

theorem acked {n : Nat} {i : Item} (hi : w.c.pq[n]? = some i) :
    Tracked gob { w with
      c := (i.acked w.c).settle n, live := w.live.filter fun x => x.ident ≠ i.ident } := by
  have hsent : i.ident ∈ w.sentIds := List.mem_map_of_mem (List.mem_of_getElem? hi)
  have hlive : ∀ x ∈ w.live, x.ident ≠ i.ident → x ∈ w.live.filter fun x => x.ident ≠ i.ident :=
    fun x hx hne => List.mem_filter.mpr ⟨hx, by simpa using hne⟩
  refine ⟨(List.filter_sublist.map _).nodup h.nodup, ?_, ?_, ?_, ?_, ?_, ?_, h.delay_push, ?_,
    h.delay_once⟩
  · intro e he
    obtain ⟨x, hx, rfl⟩ := h.push e he
    refine ⟨x, hlive x hx fun hid => h.sent_push _ hsent ?_, rfl⟩
    rw [← hid]
    exact Bucket.mem_keys.mpr ⟨_, he⟩
  · intro e he
    obtain ⟨hne, he⟩ := Bucket.mem_delete.mp he
    obtain ⟨x, hx, rfl⟩ := h.inQueue e he
    exact ⟨x, hlive x hx hne, rfl⟩
  · intro e he
    obtain ⟨x, hx, hex⟩ := h.delay e he
    have hx' : (e.1, gob.encode x) ∈ w.c.db.delay := by rw [← hex]; exact he
    exact ⟨x, hlive x hx fun hid => h.delay_sent hx' (hid ▸ hsent), hex⟩
  · rw [World.sentIds, Consumer.settle, ← List.eraseIdx_map]
    exact h.sent_nodup.eraseIdx n
  · intro id hid
    obtain ⟨hid, hne⟩ := h.ne_of_mem_eraseIdx hi hid
    exact Bucket.mem_keys_delete.mpr ⟨hne, h.sent_inQueue id hid⟩
  · exact fun id hid => h.sent_push id (h.ne_of_mem_eraseIdx hi hid).1
  · exact fun k x hx hid => h.delay_inQueue k x hx (Bucket.mem_keys_delete.mp hid).2

/-- A restart copies `InQueueBucket` into `PushBucket`, and nothing is delivered any more. -/
theorem reopened (priority prefetch : Int64) :
    Tracked gob { w with c := fresh priority prefetch w.c.db.recovered } := by
  refine ⟨h.nodup, ?_, h.inQueue, h.delay, List.nodup_nil, ?_, ?_, ?_, h.delay_inQueue, h.delay_once⟩
  · exact fun e he => (Bucket.mem_overlay he).elim (h.inQueue e) (h.push e)
  · exact fun id hid => absurd hid List.not_mem_nil
  · exact fun id hid => absurd hid List.not_mem_nil
  · intro k x hx hid
    exact (Bucket.mem_keys_overlay.mp hid).elim (h.delay_inQueue k x hx) (h.delay_push k x hx)

/-- Nothing is delivered any more. -/
theorem ended : Tracked gob { w with c := { w.c with pq := [] } } :=
  { h with
    sent_nodup := List.nodup_nil
    sent_inQueue := fun _ hid => absurd hid List.not_mem_nil
    sent_push := fun _ hid => absurd hid List.not_mem_nil }

end Tracked

/-- **Every orderly step keeps track of the live jobs.** -/
theorem step_tracked {w : World V} {op : Op} (h : Tracked gob w) (ho : Orderly w op) :
    Tracked gob (step gob w op) := by
  have heff := step_effect gob w op
  generalize step gob w op = w' at heff
  cases heff with
  | quiet hdb hpq hlive _ _ => exact h.quiet hdb hpq hlive
  | @pushed job now => exact h.pushed (show (fromJob job).ident ∉ w.liveIds from ho) now
  | delivered hfirst hdec => exact h.delivered (Bucket.mem_of_first hfirst) hdec
  | due hmoves =>
    induction hmoves with
    | refl => exact h
    | tail _ hm ih => exact ih.dueMove hm
  | aborted sent hsent hf =>
    rcases ho with hclean | hempty
    · exact absurd ⟨hclean, fun e he => h.delay_decodes he⟩ hf
    · rw [hsent hempty, List.append_nil]; exact h
  | acked hi => exact h.acked hi
  | nacked hi => exact h.nacked hi
  | @requeued n headers delay now f i hi =>
    exact h.requeued hi (show (i.rewrite headers delay).ident = i.ident from rfl) now
  | reopened priority prefetch => exact h.reopened priority prefetch
  | ended => exact h.ended

theorem init_tracked (priority prefetch : Int64) :
    Tracked gob (World.init (V := V) priority prefetch) := by
  constructor <;> simp [World.init, World.liveIds, World.sentIds, fresh, DB.empty, Bucket.keys,
    Bucket.empty, Bucket.mem_def]

end RoadRunner.Boltdb
