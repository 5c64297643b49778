import RoadRunner.Boltdb.Item
import RoadRunner.Jobs.Poller

/-!
# A worker that asks for a requeue

The poller takes every error of `Handle` for a malformed response and acknowledges the job, also when
the response was fine and the driver's `Requeue` failed.

* `requeue_kept_iff`: for a response that asks for a requeue, over any driver, that is so exactly if
  `Requeue` returns nil; and over boltdb the job is then stored.
-/

namespace RoadRunner.Jobs

open Boltdb

/-- The calls that fail in the operations on one item. -/
structure SettleFaults where
  ack : Faults := {}
  nack : Faults := {}
  requeue : Faults := {}

/-- An item of the boltdb driver with its consumer. `Respond` does nothing. -/
def boltdb {V : Type} (gob : Gob V) (now : Int) (f : SettleFaults) :
    Acknowledger (Item × Consumer V) where
  ack s := ((s.1.ack f.ack s.2).1, s.1, (s.1.ack f.ack s.2).2)
  nack s := ((s.1.nack gob f.nack s.2).1, s.1, (s.1.nack gob f.nack s.2).2)
  requeue headers delay s := s.1.requeue gob headers delay now f.requeue s.2
  respond _ _ s := (none, s)

/-- No `Ack` goes with a `Requeue` that returned an error. -/
def NoAckAfterError (log : Log) : Prop :=
  ∀ headers delay e, (.requeue headers delay, some e) ∈ log → ∀ err, (.ack, err) ∉ log

/-- A job with the id is stored in one of the buckets. -/
def Stores {V : Type} (gob : Gob V) (db : DB V) (id : Bytes) : Prop :=
  ∃ k v i, ((k, v) ∈ db.push ∨ (k, v) ∈ db.inQueue ∨ (k, v) ∈ db.delay) ∧
    gob.decode v = some i ∧ i.ident = id

/-- What a response asks for is the same after any history, if it is a requeue. -/
theorem reply_requeue {json : Json} {body : Bytes} {headers : Headers} {delay : Int64}
    (h : json.reply [] body = .requeue headers delay) (stale : Bytes) :
    json.reply stale body = .requeue headers delay := by
  have hresp : ¬ json.IsResponse body := by
    intro hresp
    rw [Json.reply_of_isResponse hresp] at h
    cases h
  rw [(Json.reply_of_not_isResponse hresp stale).1, h]

/-- The log of a turn that requeues. -/
theorem turn_requeue {σ : Type} (jb : Acknowledger σ) (headers : Headers) (delay : Int64) (s : σ) :
    NoAckAfterError ((Reply.requeue headers delay).turn jb.logged (s, [])).2 ↔
      (jb.requeue headers delay s).1 = none := by
  cases hr : (jb.requeue headers delay s).1 with
  | none =>
    refine iff_of_true ?_ rfl
    simp [NoAckAfterError, Reply.turn, Reply.run, Acknowledger.logged, hr]
  | some e =>
    refine iff_of_false (fun h => ?_) (Option.some_ne_none e)
    refine h headers delay e ?_ (jb.ack (jb.requeue headers delay s).2).1 ?_ <;>
      simp [Reply.turn, Reply.run, Acknowledger.logged, hr]

/-- A `Requeue` that returned nil stored the job. -/
theorem stores_requeued {V : Type} (gob : Gob V) (i : Item) (now : Int) (c : Consumer V) :
    Stores gob (i.requeued gob now c).db i.ident := by
  by_cases hd : 0 < i.options.delay
  · refine ⟨tKey now i.options.delay, gob.encode i, i, .inr (.inr ?_), gob.decode_encode i, rfl⟩
    simp only [Item.requeued, hd, ↓reduceIte]
    exact Bucket.mem_put_self _ _ _
  · refine ⟨i.ident, gob.encode i, i, .inl ?_, gob.decode_encode i, rfl⟩
    simp only [Item.requeued, hd, ↓reduceIte]
    exact Bucket.mem_put_self _ _ _

/-- **When a job that is to be requeued is kept.** After any history, a turn on a response that asks
for a requeue acknowledges the job after a failed `Requeue`, over every driver. So it keeps the job
exactly if `Requeue` returns nil; over boltdb, exactly if none of the calls of `Requeue` fails, and
then the job is stored. -/
theorem requeue_kept_iff (json : Json) (history : List Turn) (r : Response) (headers : Headers)
    (delay : Int64) (hr : json.reply [] r.body = .requeue headers delay) :
    let p := Run.exec (Plugin.after json) .init history
    (∀ {σ : Type} (jb : Acknowledger σ) (s : σ), ∃ p' s' log,
      poll json ⟨some jb.logged, none, .resp r.body, r.pickP, r.pickE, r.pickQ⟩ p (s, []) =
        some (p', s', log) ∧
      (NoAckAfterError log ↔ (jb.requeue headers delay s).1 = none)) ∧
    ∀ {V : Type} (gob : Gob V) (now : Int) (f : SettleFaults) (i : Item) (c : Consumer V),
      ∃ p' i' c' log,
        poll json ⟨some (boltdb gob now f).logged, none, .resp r.body, r.pickP, r.pickE, r.pickQ⟩ p
          ((i, c), []) = some (p', (i', c'), log) ∧
        (NoAckAfterError log ∧ Stores gob c'.db i.ident ↔
          f.requeue.beginTx = false ∧ f.requeue.delete = false ∧ f.requeue.encode = false ∧
            f.requeue.put = false ∧ f.requeue.commit = false) := by
  intro p
  have hturn : ∀ {σ : Type} (jb : Acknowledger σ) (s : σ), ∃ p',
      poll json ⟨some jb, none, .resp r.body, r.pickP, r.pickE, r.pickQ⟩ p s =
        some (p', (Reply.requeue headers delay).turn jb s) := by
    intro σ jb s
    obtain ⟨p', -, hpoll⟩ := poll_resp json (reset_plugin json history) jb r s
    rw [reply_requeue hr] at hpoll
    exact ⟨p', hpoll⟩
  constructor
  · intro σ jb s
    obtain ⟨p', hpoll⟩ := hturn jb.logged (s, [])
    exact ⟨p', _, _, hpoll, turn_requeue jb headers delay s⟩
  · intro V gob now f i c
    obtain ⟨p', hpoll⟩ := hturn (boltdb gob now f).logged ((i, c), [])
    have hlog := turn_requeue (boltdb gob now f) headers delay (i, c)
    obtain ⟨⟨⟨i', c'⟩, log⟩, hout⟩ : ∃ out,
        (Reply.requeue headers delay).turn (boltdb gob now f).logged ((i, c), []) = out := ⟨_, rfl⟩
    rw [hout] at hpoll hlog
    refine ⟨p', i', c', log, hpoll, ?_⟩
    rw [hlog, ← Item.requeue_eq_none gob i headers delay now f.requeue c]
    refine ⟨And.left, fun hok => ⟨hok, ?_⟩⟩
    rcases Item.requeue_cases gob i headers delay now f.requeue c with ⟨herr, -⟩ | hreq
    · exact absurd hok herr
    · simp only [Reply.turn, Reply.run, Acknowledger.logged, boltdb, hreq, Option.map_none,
        Option.isSome_none, Bool.false_eq_true, ↓reduceIte, Prod.mk.injEq] at hout
      rw [← hout.1.2]
      exact stores_requeued gob (i.rewrite headers delay) now c

/-- A consumer with one job without a delay, which was delivered. -/
def oneDelivered : Consumer (Option Item) where
  db := ⟨.empty, Bucket.empty.put [97] (some (fromJob (plainJob [97] 0))), .empty⟩
  active := 1
  delayed := 0
  priority := 10
  prefetch := 1000
  pq := [fromJob (plainJob [97] 0)]

/-- The worker answers `{"type":1,"data":{"requeue":true}}`, and nothing fails. -/
theorem requeue_kept_sample :
    sampleJson.reply [] requeueMessage = .requeue none 0 ∧
      ∃ p' i' c' log,
        poll sampleJson ⟨some (boltdb .plain 0 {}).logged, none, .resp requeueMessage, none, none, none⟩
          .init ((fromJob (plainJob [97] 0), oneDelivered), []) = some (p', (i', c'), log) ∧
        NoAckAfterError log ∧ Stores .plain c'.db [97] := by
  have hr : sampleJson.reply [] requeueMessage = .requeue none 0 := by decide +kernel
  obtain ⟨-, hbolt⟩ := requeue_kept_iff sampleJson [] { body := requeueMessage } none 0 hr
  obtain ⟨p', i', c', log, hpoll, hiff⟩ := hbolt .plain 0 {} (fromJob (plainJob [97] 0)) oneDelivered
  exact ⟨hr, p', i', c', log, hpoll, hiff.mpr ⟨rfl, rfl, rfl, rfl, rfl⟩⟩

/-- The worker answers `{"type":1,"data":{"requeue":true}}`, the commit of `Requeue` fails, and the
`Ack` that follows removes the job: no bucket has it. -/
theorem requeued_job_lost :
    (poll sampleJson ⟨some (boltdb .plain 0 { requeue := { commit := true } }).logged, none,
        .resp requeueMessage, none, none, none⟩ .init
        ((fromJob (plainJob [97] 0), oneDelivered), [])).map (fun out => (out.2.1.2.db, out.2.2)) =
      some (DB.empty, [(.requeue none 0, some (.lib "Commit")), (.ack, none)]) := by
  decide +kernel

end RoadRunner.Jobs
