import RoadRunner.Boltdb.Consumer
import RoadRunner.Lib.Timestamps

/-!
# When a delayed job of the boltdb jobs driver is due

`Push` and `Requeue` write a delayed job under the text of its due second, and a tick of
`delayedJobsListener` scans the texts from 1990 to its own second. For dates of four-digit years
byte order is time order, so a tick visits exactly the jobs whose second has come.

* `due_iff`: the key of such a delay is scanned from its due second on.
-/

namespace RoadRunner.Boltdb

/-- A time (nanoseconds) from 1990-01-01T00:00:00Z to the end of 9999. -/
structure Era (now : Int) : Prop where
  start : 631152000 * 1000000000 ≤ now
  stop : now < 253402300800 * 1000000000

/-- The whole second of a time. -/
def wholeSec (now : Int) : Int := now / 1000000000

/-- The time at which a delay that was asked for at `now` is over. -/
def dueTime (now : Int) (delay : Int64) : Int := now + 1000000000 * delay.toInt

/-- A delay that was asked for at `now`: positive, its nanoseconds in the range of an `int64`, and
both dates in the era. -/
structure Dated (now : Int) (delay : Int64) : Prop where
  positive : 0 < delay
  fits : 1000000000 * delay.toInt < 2 ^ 63
  stored : Era now
  due : Era (dueTime now delay)

theorem Era.wholeSec_mem {now : Int} (h : Era now) :
    wholeSec now ∈ {t : Int | -62135596800 ≤ t ∧ t < 253402300800} := by
  obtain ⟨hstart, hstop⟩ := h
  show -62135596800 ≤ wholeSec now ∧ wholeSec now < 253402300800
  unfold wholeSec
  omega

/-- Within the range of an `int64` the product does not wrap. -/
theorem delayNanos_eq {now : Int} {delay : Int64} (h : Dated now delay) :
    delayNanos delay = 1000000000 * delay.toInt := by
  have hpos : 0 < delay.toInt := Int64.lt_iff_toInt_lt.mp h.positive
  have hfits := h.fits
  rw [delayNanos, Int64.toInt_mul]
  apply Int.bmod_eq_of_le
  · rw [show (1000000000 : Int64).toInt = 1000000000 from rfl]
    omega
  · rw [show (1000000000 : Int64).toInt = 1000000000 from rfl]
    omega

theorem tKey_eq {now : Int} {delay : Int64} (h : Dated now delay) :
    tKey now delay = Calendar.rfc3339 (wholeSec (dueTime now delay)) := by
  rw [tKey, dueSec, delayNanos_eq h]
  rfl

/-- The keys of two delays are ordered as their whole seconds. -/
theorem tKey_le_iff {now now' : Int} {delay delay' : Int64} (h : Dated now delay) (h' : Dated now' delay') :
    tKey now delay ≤ tKey now' delay' ↔ wholeSec (dueTime now delay) ≤ wholeSec (dueTime now' delay') := by
  rw [tKey_eq h, tKey_eq h']
  exact Calendar.rfc3339_strictMonoOn.le_iff_le h.due.wholeSec_mem h'.due.wholeSec_mem

section

variable {V : Type} (gob : Gob V)

/-- A tick visits an entry exactly if its key is the text of a second from 1990 to now. -/
theorem mem_dueEntries_iff {c : Consumer V} {tick : Int} {k : Bytes} {v : V} (hmem : (k, v) ∈ c.db.delay) :
    (k, v) ∈ c.dueEntries tick ↔ Consumer.startDate ≤ k ∧ k ≤ Calendar.rfc3339 (wholeSec tick) := by
  rw [Consumer.dueEntries, Bucket.mem_range]
  exact and_iff_right hmem

/-- A key in the bucket is scanned by a tick exactly if its second is not after the tick's. -/
theorem scanned_iff {now tick : Int} {delay : Int64} (h : Dated now delay) (htick : Era tick) {c : Consumer V}
    {v : V} (hmem : (tKey now delay, v) ∈ c.db.delay) :
    (tKey now delay, v) ∈ c.dueEntries tick ↔ wholeSec (dueTime now delay) ≤ wholeSec tick := by
  rw [mem_dueEntries_iff hmem, tKey_eq h,
    Calendar.rfc3339_strictMonoOn.le_iff_le h.due.wholeSec_mem htick.wholeSec_mem]
  apply and_iff_right
  -- the scan starts in 1990, before every key
  have hdue := h.due.start
  rw [Consumer.startDate, Calendar.rfc3339_strictMonoOn.le_iff_le (by decide) h.due.wholeSec_mem, wholeSec]
  omega

theorem mem_delay_of_push {job : Job} {now : Int} {f : Faults} {c : Consumer V} (hd : 0 < job.options.delay)
    (h : (c.pushJob gob job now f).1 = none) :
    (tKey now job.options.delay, gob.encode (fromJob job)) ∈ (c.pushJob gob job now f).2.db.delay := by
  rcases Consumer.pushJob_cases gob job now f c with ⟨herr, -⟩ | hok
  · exact absurd h herr
  · have hd' : 0 < (fromJob job).options.delay := hd
    simp only [hok, Consumer.pushed, hd', ↓reduceIte]
    exact Bucket.mem_put_self _ _ _

theorem mem_delay_of_requeue {i : Item} {headers : Headers} {delay : Int64} {now : Int} {f : Faults}
    {c : Consumer V} (hd : 0 < delay) (h : (i.requeue gob headers delay now f c).1 = none) :
    (tKey now delay, gob.encode (i.rewrite headers delay)) ∈
      (i.requeue gob headers delay now f c).2.2.db.delay := by
  rcases Item.requeue_cases gob i headers delay now f c with ⟨herr, -⟩ | hok
  · exact absurd h herr
  · have hd' : 0 < (i.rewrite headers delay).options.delay := hd
    simp only [hok, Item.requeued, hd', ↓reduceIte]
    exact Bucket.mem_put_self _ _ _

/-- **Delayed jobs become due at the right second.** A `Push` and a `Requeue` that succeed write the
job under `tKey`; while it is there, a tick scans it exactly if the second of its due time is not
after the second of the tick; and the keys are ordered as their seconds. -/
theorem due_iff {now tick : Int} {delay : Int64} (h : Dated now delay) (htick : Era tick) :
    (∀ (job : Job) (f : Faults) (c : Consumer V), job.options.delay = delay →
        (c.pushJob gob job now f).1 = none →
        (tKey now delay, gob.encode (fromJob job)) ∈ (c.pushJob gob job now f).2.db.delay) ∧
      (∀ (i : Item) (headers : Headers) (f : Faults) (c : Consumer V),
        (i.requeue gob headers delay now f c).1 = none →
        (tKey now delay, gob.encode (i.rewrite headers delay)) ∈
          (i.requeue gob headers delay now f c).2.2.db.delay) ∧
      (∀ (c : Consumer V) (v : V), (tKey now delay, v) ∈ c.db.delay →
        ((tKey now delay, v) ∈ c.dueEntries tick ↔ wholeSec (dueTime now delay) ≤ wholeSec tick)) ∧
      ∀ (now' : Int) (delay' : Int64), Dated now' delay' →
        (tKey now delay ≤ tKey now' delay' ↔
          wholeSec (dueTime now delay) ≤ wholeSec (dueTime now' delay')) := by
  refine ⟨?_, ?_, ?_, ?_⟩
  · rintro job f c rfl hok
    exact mem_delay_of_push gob h.positive hok
  · intro i headers f c hok
    exact mem_delay_of_requeue gob h.positive hok
  · intro c v hmem
    exact scanned_iff h htick hmem
  · intro now' delay' h'
    exact tKey_le_iff h h'

/-- A job with a delay of 5 seconds that is pushed in the last second of January 2022 is scanned by
a tick five seconds later. -/
theorem due_in_february :
    let now := 1643673599 * 1000000000
    let c := ((Consumer.mk DB.empty 0 0 10 1000 []).pushJob Gob.plain (plainJob (ascii "1") 5) now {}).2
    Dated now 5 ∧ Era (now + 5000000000) ∧
      (tKey now 5, some (fromJob (plainJob (ascii "1") 5))) ∈ c.dueEntries (now + 5000000000) := by
  intro now c
  have h : Dated now 5 := ⟨by decide, by decide, ⟨by decide, by decide⟩, ⟨by decide, by decide⟩⟩
  have htick : Era (now + 5000000000) := ⟨by decide, by decide⟩
  obtain ⟨hpush, -, hscan, -⟩ := due_iff Gob.plain h htick
  refine ⟨h, htick, (hscan c _ (hpush _ _ _ rfl ?_)).mpr (by decide)⟩
  rw [Consumer.pushJob_ok]

end

end RoadRunner.Boltdb
