import RoadRunner.Lib.Counter
import RoadRunner.Lib.Update
import RoadRunner.Boltdb.Tracked

/-!
# The counters of the driver

`Push` counts a job as active or as delayed by its delay, and `Ack` takes one off the counter that
the item's delay names by then. `Requeue` rewrites the delay and touches no counter. So the counters
tell the live jobs exactly as long as no `Requeue` changes the sign of a delay.

* `CountersOk`: `active` and `delayed` are the numbers of live jobs without and with a delay, and
  no `Ack` of a delivered item can wrap them. The counters are `uint64`, so the numbers are taken
  with `UInt64.ofNat`, which is the number itself below 2^64.
* `countersOk_iff_keepsSign`: in a run without failures over distinct ids, `CountersOk` holds in
  every state exactly if every `Requeue` keeps the sign of the delay.
-/

namespace RoadRunner.Boltdb

open Consumer Counter

variable {V : Type} (gob : Gob V)

/-- The number of live jobs with a positive delay. -/
def World.numDelayed (w : World V) : Nat := w.live.countP fun x => 0 < x.options.delay

/-- The number of live jobs without a positive delay. -/
def World.numActive (w : World V) : Nat := w.live.countP fun x => ¬ 0 < x.options.delay

/-- The counters tell the live jobs. -/
structure CountersOk (w : World V) : Prop where
  active : w.c.active = UInt64.ofNat w.numActive
  delayed : w.c.delayed = UInt64.ofNat w.numDelayed
  no_wrap : ∀ i ∈ w.c.pq, w.live.length < 2 ^ 64 →
    if 0 < i.options.delay then 0 < w.c.delayed else 0 < w.c.active

/-- No call fails, no restart, and a pushed id belongs to no live job. -/
def Clean (w : World V) : Op → Prop
  | .push job _ f => f = {} ∧ job.ident ∉ w.liveIds
  | op => op.Faultless

instance (w : World V) (op : Op) : Decidable (Clean w op) :=
  match op with
  | .push .. => inferInstanceAs (Decidable (_ ∧ _))
  | .tick _ | .ack .. | .nack .. | .requeue .. | .delayedTick .. => inferInstanceAs (Decidable (_ = _))
  | .reopen _ => inferInstanceAs (Decidable False)

/-- A `Requeue` gives a delivered item a positive delay exactly if it has one. -/
def KeepsSign (w : World V) : Op → Prop
  | .requeue n _ delay _ _ => ∀ i ∈ w.c.pq[n]?, (0 < delay ↔ 0 < i.options.delay)
  | _ => True

instance (w : World V) (op : Op) : Decidable (KeepsSign w op) :=
  match op with
  | .requeue n _ delay _ _ =>
    inferInstanceAs (Decidable (∀ i ∈ w.c.pq[n]?, (0 < delay ↔ 0 < i.options.delay)))
  | .push .. | .tick _ | .ack .. | .nack .. | .delayedTick .. | .reopen _ => inferInstanceAs (Decidable True)

/-- A delivered item has the delay of its live job. -/
structure Accounted (w : World V) : Prop extends Tracked gob w where
  sent_delay : ∀ i ∈ w.c.pq, ∃ x ∈ w.live, x.ident = i.ident ∧ x.options.delay = i.options.delay

variable {gob}

theorem Clean.faultless {w : World V} {op : Op} (h : Clean w op) : op.Faultless := by
  cases op with
  | push job now f => exact h.1
  | _ => exact h

theorem Clean.orderly {w : World V} {op : Op} (h : Clean w op) : Orderly w op := by
  cases op with
  | push job now f => exact h.2
  | delayedTick now f =>
    rw [show f = {} from h]
    exact .inl ⟨rfl, rfl, rfl⟩
  | _ => exact trivial

/-! ## The live jobs as one job and the others -/

/-- The live jobs are the one with a given id and the others. -/
theorem Tracked.live_perm {w : World V} (h : Tracked gob w) {x : Item} (hx : x ∈ w.live) :
    w.live.Perm (x :: w.live.filter fun y => y.ident ≠ x.ident) := by
  refine (List.perm_ext_iff_of_nodup h.nodup.of_map ?_).mpr fun y => ?_
  · refine List.nodup_cons.mpr ⟨fun hmem => ?_, h.nodup.of_map.filter _⟩
    have := (List.mem_filter.mp hmem).2
    simp at this
  · rw [List.mem_cons, List.mem_filter]
    constructor
    · intro hy
      by_cases hid : y.ident = x.ident
      · exact .inl (h.live_ext hy hx hid)
      · exact .inr ⟨hy, by simpa using hid⟩
    · rintro (rfl | ⟨hy, -⟩)
      · exact hx
      · exact hy

/-- After a job was stored again, the live jobs are it and the others. -/
theorem Tracked.replace_perm {w : World V} (h : Tracked gob w) {i x : Item} (hx : x ∈ w.live)
    (hid : x.ident = i.ident) :
    (replace i w.live).Perm (i :: w.live.filter fun y => y.ident ≠ i.ident) := by
  have hp := (h.live_perm hx).map fun y => if y.ident = i.ident then i else y
  rw [List.map_cons, if_pos hid, hid] at hp
  refine hp.trans (List.Perm.of_eq ?_)
  congr 1
  refine (List.map_congr_left fun y hy => ?_).trans (List.map_id _)
  have hne := (List.mem_filter.mp hy).2
  rw [if_neg (by simpa using hne)]
  rfl

/-! ## Delivered items and their live jobs -/

namespace Accounted

variable {w : World V} (h : Accounted gob w)

include h

/-- The other delivered items, and their live jobs. -/
theorem sent_other {n : Nat} {i j : Item} (hi : w.c.pq[n]? = some i) (hj : j ∈ w.c.pq.eraseIdx n) :
    j.ident ≠ i.ident ∧ ∃ x ∈ w.live, x.ident = j.ident ∧ x.options.delay = j.options.delay :=
  ⟨(h.ne_of_mem_eraseIdx hi (List.mem_map_of_mem hj)).2, h.sent_delay j (List.mem_of_mem_eraseIdx hj)⟩

/-- The live job `x` is delivered. -/
theorem sent_append {x : Item} (hx : x ∈ w.live) (priority : Int64) :
    ∀ i ∈ w.c.pq ++ [withPriority priority x],
      ∃ y ∈ w.live, y.ident = i.ident ∧ y.options.delay = i.options.delay := by
  exact Update.forall_concat h.sent_delay ⟨x, hx, by simp, by simp⟩

theorem dueMove {w' : World V} (hm : DueMove gob w w') : Accounted gob w' := by
  refine ⟨h.toTracked.dueMove hm, ?_⟩
  obtain ⟨k, v, i, hmem, hdec⟩ := hm
  exact h.sent_append (h.delay_entry hmem hdec).1 w.c.priority

end Accounted

theorem Effect.sent_delay {w w' : World V} {op : Op} (h : Accounted gob w) (hc : Clean w op)
    (heff : Effect gob w op w') :
    ∀ i ∈ w'.c.pq, ∃ x ∈ w'.live, x.ident = i.ident ∧ x.options.delay = i.options.delay := by
  cases heff with
  | quiet _ _ _ _ hok => rw [hok hc.faultless]; exact h.sent_delay
  | pushed =>
    intro i hi
    obtain ⟨x, hx, he⟩ := h.sent_delay i hi
    exact ⟨x, List.mem_append_left _ hx, he⟩
  | delivered hfirst hdec =>
    exact h.sent_append (h.push_entry (Bucket.mem_of_first hfirst) hdec).1 w.c.priority
  | due hm =>
    have hw : Accounted gob w' := by
      induction hm with
      | refl => exact h
      | tail _ hm ih => exact ih.dueMove hm
    exact hw.sent_delay
  | @aborted now f sent _ hf =>
    rw [show f = {} from hc] at hf
    exact absurd ⟨⟨rfl, rfl, rfl⟩, fun e he => h.delay_decodes he⟩ hf
  | acked hi =>
    intro j hj
    obtain ⟨hne, x, hx, hid, hd⟩ := h.sent_other hi hj
    exact ⟨x, List.mem_filter.mpr ⟨hx, by simpa [hid] using hne⟩, hid, hd⟩
  | nacked hi => exact fun j hj => (h.sent_other hi hj).2
  | requeued hi =>
    intro j hj
    obtain ⟨hne, x, hx, hid, hd⟩ := h.sent_other hi hj
    exact ⟨x, List.mem_map.mpr ⟨x, hx, if_neg (by rw [hid]; exact hne)⟩, hid, hd⟩
  | reopened => exact absurd hc.faultless id
  | ended => exact absurd hc.faultless id

theorem step_accounted {w : World V} {op : Op} (h : Accounted gob w) (hc : Clean w op) :
    Accounted gob (step gob w op) :=
  ⟨step_tracked h.toTracked hc.orderly, (step_effect gob w op).sent_delay h hc⟩

/-! ## The counters -/

/-- Where the counters tell the live jobs, no `Ack` of a delivered item wraps them. -/
theorem Accounted.countersOk {w : World V} (h : Accounted gob w)
    (ha : w.c.active = UInt64.ofNat w.numActive) (hd : w.c.delayed = UInt64.ofNat w.numDelayed) :
    CountersOk w := by
  refine ⟨ha, hd, fun i hi hlen => ?_⟩
  obtain ⟨x, hx, -, hdelay⟩ := h.sent_delay i hi
  split
  · rename_i hpos
    rw [hd]
    refine ofNat_pos (List.countP_pos_iff.mpr ⟨x, hx, ?_⟩) (List.countP_le_length.trans_lt hlen)
    rw [hdelay]
    exact decide_eq_true hpos
  · rename_i hpos
    rw [ha]
    refine ofNat_pos (List.countP_pos_iff.mpr ⟨x, hx, ?_⟩) (List.countP_le_length.trans_lt hlen)
    rw [hdelay]
    exact decide_eq_true hpos

/-- The numbers of jobs, of one job and the others. -/
theorem numActive_perm {w : World V} {x : Item} {xs : List Item} (h : w.live.Perm (x :: xs)) :
    w.numActive = (xs.countP fun y => ¬ 0 < y.options.delay) +
      if 0 < x.options.delay then 0 else 1 := by
  rw [World.numActive, h.countP_eq, List.countP_cons]
  by_cases hx : 0 < x.options.delay <;> simp [hx]

theorem numDelayed_perm {w : World V} {x : Item} {xs : List Item} (h : w.live.Perm (x :: xs)) :
    w.numDelayed = (xs.countP fun y => 0 < y.options.delay) +
      if 0 < x.options.delay then 1 else 0 := by
  rw [World.numDelayed, h.countP_eq, List.countP_cons]
  by_cases hx : 0 < x.options.delay <;> simp [hx]

/-- A tick of `delayedJobsListener` leaves the counters and the live jobs. -/
theorem DueMoves.counters {w w' : World V} (hm : Relation.ReflTransGen (DueMove gob) w w') :
    w'.c.active = w.c.active ∧ w'.c.delayed = w.c.delayed ∧ w'.live = w.live := by
  induction hm with
  | refl => exact ⟨rfl, rfl, rfl⟩
  | tail _ hm ih => obtain ⟨k, v, i, -, -⟩ := hm; exact ih

section

variable {w : World V} (h : Accounted gob w) (ho : CountersOk w)

include ho

theorem CountersOk.pushed (i : Item) (now : Int) (waiting : List (Int × Item)) :
    let w' : World V := ⟨w.c.pushed gob i now, w.live ++ [i], waiting⟩
    w'.c.active = UInt64.ofNat w'.numActive ∧ w'.c.delayed = UInt64.ofNat w'.numDelayed := by
  intro w'
  have hp : w'.live.Perm (i :: w.live) := List.perm_append_singleton i w.live
  rw [numActive_perm hp, numDelayed_perm hp]
  have ha := ho.active
  have hd := ho.delayed
  simp only [World.numActive, World.numDelayed] at ha hd
  by_cases hpos : 0 < i.options.delay
  · simp [w', Consumer.pushed, hpos, ha, hd, ofNat_succ]
  · simp [w', Consumer.pushed, hpos, ha, hd, ofNat_succ]

include h

theorem CountersOk.acked {n : Nat} {i : Item} (hi : w.c.pq[n]? = some i) :
    let w' : World V := { w with
      c := (i.acked w.c).settle n, live := w.live.filter fun x => x.ident ≠ i.ident }
    w'.c.active = UInt64.ofNat w'.numActive ∧ w'.c.delayed = UInt64.ofNat w'.numDelayed := by
  intro w'
  obtain ⟨x, hx, hid, hdelay⟩ := h.sent_delay i (List.mem_of_getElem? hi)
  have hp := h.live_perm hx
  rw [hid] at hp
  have ha := ho.active
  have hd := ho.delayed
  rw [numActive_perm hp, hdelay] at ha
  rw [numDelayed_perm hp, hdelay] at hd
  by_cases hpos : 0 < i.options.delay
  · simp only [hpos, ↓reduceIte, Nat.add_zero] at ha hd
    simp only [w', Consumer.settle, Item.acked, hpos, ↓reduceIte, ha, hd, ofNat_succ_dec]
    exact ⟨rfl, rfl⟩
  · simp only [hpos, ↓reduceIte, Nat.add_zero] at ha hd
    simp only [w', Consumer.settle, Item.acked, hpos, ↓reduceIte, ha, hd, ofNat_succ_dec]
    exact ⟨rfl, rfl⟩

/-- A `Requeue` leaves the counters, so they stay right exactly if the sign of the delay does. -/
theorem CountersOk.requeued_iff {n : Nat} {j i : Item} (hj : w.c.pq[n]? = some j)
    (hid : i.ident = j.ident) (now : Int) (waiting : List (Int × Item)) :
    let w' : World V := ⟨(i.requeued gob now w.c).settle n, replace i w.live, waiting⟩
    (w'.c.active = UInt64.ofNat w'.numActive ∧ w'.c.delayed = UInt64.ofNat w'.numDelayed) ↔
      (0 < i.options.delay ↔ 0 < j.options.delay) := by
  intro w'
  obtain ⟨x, hx, hxid, hdelay⟩ := h.sent_delay j (List.mem_of_getElem? hj)
  have hp := h.live_perm hx
  have hp' : w'.live.Perm _ := h.replace_perm hx (hxid.trans hid.symm)
  have ha := ho.active
  have hd := ho.delayed
  rw [numActive_perm hp, hdelay, hxid, ← hid] at ha
  rw [numDelayed_perm hp, hdelay, hxid, ← hid] at hd
  rw [numActive_perm hp', numDelayed_perm hp']
  change w.c.active = _ ∧ w.c.delayed = _ ↔ _
  rw [ha, hd]
  by_cases hold : 0 < j.options.delay <;> by_cases hnew : 0 < i.options.delay
  · simp [hold, hnew]
  · refine iff_of_false (fun he => ?_) fun hs => hnew (hs.mpr hold)
    rw [if_pos hold, if_neg hnew, if_pos hold, if_neg hnew] at he
    exact ofNat_succ_ne _ he.2
  · refine iff_of_false (fun he => ?_) fun hs => hold (hs.mp hnew)
    rw [if_neg hold, if_pos hnew, if_neg hold, if_pos hnew] at he
    exact ofNat_succ_ne _ he.1
  · simp [hold, hnew]

/-- A step without failures that is no `Requeue` keeps the counters right. -/
theorem Effect.countersOk {w' : World V} {op : Op} (hc : Clean w op) (heff : Effect gob w op w')
    (hop : ∀ n headers delay now f, op ≠ .requeue n headers delay now f)
    (h' : Accounted gob w') : CountersOk w' := by
  suffices hcount : w'.c.active = UInt64.ofNat w'.numActive ∧
      w'.c.delayed = UInt64.ofNat w'.numDelayed from h'.countersOk hcount.1 hcount.2
  cases heff with
  | quiet _ _ _ _ hok => rw [hok hc.faultless]; exact ⟨ho.active, ho.delayed⟩
  | pushed => exact ho.pushed _ _ _
  | delivered => exact ⟨ho.active, ho.delayed⟩
  | due hm =>
    obtain ⟨ha, hd, hlive⟩ := DueMoves.counters hm
    rw [ha, hd, World.numActive, World.numDelayed, hlive]
    exact ⟨ho.active, ho.delayed⟩
  | aborted => exact ⟨ho.active, ho.delayed⟩
  | acked hi => exact ho.acked h hi
  | nacked => exact ⟨ho.active, ho.delayed⟩
  | requeued => exact absurd rfl (hop _ _ _ _ _)
  | reopened => exact absurd hc.faultless id
  | ended => exact absurd hc.faultless id

/-- A step without failures keeps the counters right exactly if it keeps the sign of a delay. -/
theorem step_countersOk_iff {op : Op} (hc : Clean w op) :
    CountersOk (step gob w op) ↔ KeepsSign w op := by
  have h' := step_accounted h hc
  have heff := step_effect gob w op
  cases op with
  | requeue n headers delay now f =>
    obtain rfl : f = {} := hc
    cases hi : w.c.pq[n]? with
    | none =>
      have hstep : step gob w (.requeue n headers delay now {}) = w := by simp only [step, hi]
      rw [hstep]
      exact iff_of_true ho fun i hmem => by rw [hi] at hmem; cases hmem
    | some j =>
      have hstep : step gob w (.requeue n headers delay now {}) =
          ⟨((j.rewrite headers delay).requeued gob now w.c).settle n,
            replace (j.rewrite headers delay) w.live, wait now (j.rewrite headers delay) w.waiting⟩ := by
        simp only [step, hi, Item.requeue_ok]
      rw [hstep] at h' ⊢
      have hiff := ho.requeued_iff h hi (show (j.rewrite headers delay).ident = j.ident from rfl) now
        (wait now (j.rewrite headers delay) w.waiting)
      refine ⟨fun ho' i hmem => ?_, fun hsign => ?_⟩
      · rw [hi] at hmem
        cases hmem
        exact hiff.mp ⟨ho'.active, ho'.delayed⟩
      · obtain ⟨ha, hd⟩ := hiff.mpr (hsign j hi)
        exact h'.countersOk ha hd
  | _ => exact iff_of_true (heff.countersOk h ho hc (by simp) h') trivial

end

variable (gob)

/-- **The counters tell the live jobs exactly if no `Requeue` changes the sign of a delay.** This is
for every run from an empty file without failing calls and restarts in which a pushed id belongs to
no live job. -/
theorem countersOk_iff_keepsSign (priority prefetch : Int64) (ops : List Op)
    (hc : Run.Along (step gob) Clean (World.init priority prefetch) ops) :
    (∀ as bs, ops = as ++ bs → CountersOk (Run.exec (step gob) (World.init priority prefetch) as)) ↔
      Run.Along (step gob) KeepsSign (World.init priority prefetch) ops := by
  have hinit : Accounted gob (World.init priority prefetch) :=
    ⟨init_tracked priority prefetch, fun i hi => absurd hi List.not_mem_nil⟩
  refine Run.Along.everywhere_iff (I := Accounted gob) ?_ ?_ hinit (hinit.countersOk rfl rfl) hc
  · intro w op h ho hc hsign
    exact ⟨step_accounted h hc, (step_countersOk_iff h ho hc).mpr hsign⟩
  · intro w op h ho hc ho'
    exact (step_countersOk_iff h ho hc).mp ho'

/-- A delayed job `a` and a job `b` without a delay; `b` is requeued without a delay, and `a` is
acknowledged. -/
theorem countersOk_requeue_undelayed :
    let ops := [.push (plainJob [97] 5) 1643673599000000000 {}, .push (plainJob [98] 0) 0 {},
      .tick {}, .requeue 0 none 0 0 {}, .delayedTick 1643673605000000000 {}, .ack 0 {}]
    Run.Along (step .plain) Clean (World.init 10 1000) ops ∧
      CountersOk (Run.exec (step .plain) (World.init 10 1000) ops) :=
  ⟨by decide +kernel, (countersOk_iff_keepsSign .plain 10 1000 _ (by decide +kernel)).mpr
    (by decide +kernel) _ [] rfl⟩

/-- A job without a delay is delivered, requeued with a delay of 5 seconds, delivered again and
acknowledged. No job is live, `active` is 1 and `delayed` has wrapped. -/
theorem delayed_counter_wraps :
    let ops := [.push (plainJob [97] 0) 1643673599000000000 {}, .tick {},
      .requeue 0 none 5 1643673599000000000 {}, .delayedTick 1643673605000000000 {}, .ack 0 {}]
    let w := Run.exec (step .plain) (World.init 10 1000) ops
    Run.Along (step .plain) Clean (World.init 10 1000) ops ∧ w.live = [] ∧ w.c.active = 1 ∧
      w.c.delayed = 18446744073709551615 ∧ ¬ CountersOk w := by
  refine ⟨by decide +kernel, by decide +kernel, by decide +kernel, by decide +kernel, fun h => ?_⟩
  have hactive := h.active
  revert hactive
  decide +kernel

end RoadRunner.Boltdb
