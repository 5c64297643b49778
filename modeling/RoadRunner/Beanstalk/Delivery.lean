import RoadRunner.Beanstalk.Item
import RoadRunner.Broker.Delivery

/-!
# No job of the beanstalk driver is lost before it is acked or nacked

`Push` and `handleItem` of `beanstalk/beanstalkjobs/consumer.go`, `Ack`, `Nack` and `Requeue` of `item.go` and the
listener, with the jobs of the tube. A reserved job stays in the tube until it is deleted, and is handed out again
when its time to run is over or its connection is lost. `Put` of the pool tries a second time on a new connection, so
that a job may be put twice. `Requeue` puts the job before it deletes the old one, and `Nack` deletes it as `Ack`
does.

* `put_kept`: in every run, with any requests failing, a job whose `Push` returned nil and that was neither acked nor
  nacked is in the tube, and the listener reads it as the job.
-/

namespace RoadRunner.Beanstalk

open Broker

/-- What gob writes: the exported fields. -/
def Item.exported (i : Item) : Item := { i with options := i.options.map fun o => { o with id := 0 } }

/-- An item whose `Options` are there can be sent. -/
def Item.kept (i : Item) : Option Kept := i.options.map fun _ => ⟨i.job, i.ident, i.payload⟩

/-- A gob codec for items. Only exported fields are encoded. -/
structure Gob where
  encode : Item → Bytes
  decode : Bytes → Option Item
  decode_encode : ∀ i, decode (encode i) = some i.exported

/-- The exported fields of an item. -/
abbrev Fields := Bytes × Bytes × Bytes × Headers × Option (Int × Bytes × Int)

/-- A value as as many bytes as its number. -/
def tally {β : Type} [Encodable β] (x : β) : Bytes := List.replicate (Encodable.encode x) 0

theorem decode_tally {β : Type} [Encodable β] (x : β) : Encodable.decode (tally x).length = some x := by
  rw [tally, List.length_replicate, Encodable.encodek]

/-- The item with the fields. -/
def ofFields (x : Fields) : Item :=
  ⟨x.1, x.2.1, x.2.2.1, x.2.2.2.1,
    x.2.2.2.2.map fun o => { priority := .ofInt o.1, pipeline := o.2.1, delay := .ofInt o.2.2 }⟩

/-- A codec that writes the number of a value. -/
def Gob.plain : Gob where
  encode i := tally ((i.job, i.ident, i.payload, i.headers,
    i.options.map fun o => (o.priority.toInt, o.pipeline, o.delay.toInt)) : Fields)
  decode b := (Encodable.decode b.length).map ofFields
  decode_encode i := by
    rw [decode_tally, Option.map_some, ofFields, Item.exported]
    cases i.options <;> simp [Int64.ofInt_toInt]

/-- `fromJob`. -/
def fromJob (job : Job) : Item where
  job := job.job
  ident := job.ident
  payload := job.payload
  headers := job.headers
  options := some { priority := job.options.priority, pipeline := job.options.pipeline, delay := job.options.delay }

end RoadRunner.Beanstalk

namespace RoadRunner.Beanstalk.Delivery

open Broker Broker.Delivery Calls Letters

/-- The consumer with the name of its pipeline. -/
structure Driver extends Consumer where
  pipeline : Bytes

/-- The outcomes of the requests of a call. -/
structure Requests where
  put : Outcome := .done
  /-- The second try of `Put`, after a redial. -/
  again : Option Outcome := none
  delete : Outcome := .done

/-- The tries of `Put`. -/
def Requests.tries (r : Requests) : List Outcome := if r.put.fails then r.put :: r.again.toList else [r.put]

/-- `Put` returns the error of the last try. -/
def Requests.putFails (r : Requests) : Bool := r.put.fails && (r.again.map Outcome.fails).getD true

/-- `handleItem`: the error, and the requests that take effect. After a failed `Put` the job with the id 0 is deleted,
which no tube has. -/
def handleItem (gob : Gob) (i : Item) (r : Requests) : Option Err × List (Step Bytes Kept) :=
  (if r.putFails then
      some (.op "beanstalk_handle_item" (.errorf₂ "%s:%s" (.lib "Put") (.lib "Delete")))
    else none,
    r.tries.flatMap fun o => request o (.put (gob.encode i)))

/-- `consumer.Push`. -/
def push (gob : Gob) (c : Driver) (jb : Job) (r : Requests) : Option Err × List (Step Bytes Kept) :=
  if c.pipeline ≠ jb.options.pipeline then
    (some (.op "beanstalk_push" (.errorf₂ "no such pipeline: %s, actual: %s" (.str jb.options.pipeline.text)
      (.str c.pipeline.text))), [])
  else
    let out := handleItem gob (fromJob jb) r
    (out.1.map (.op "beanstalk_push"), out.2)

/-- An operation. Jobs of the tube and items are named by their places. -/
inductive Op where
  | push (jb : Job) (r : Requests)
  /-- The listener reserves the job at the place `n`. -/
  | reserve (n : Nat) (r : Requests)
  | ack (n : Nat) (r : Requests)
  | nack (n : Nat) (r : Requests)
  | requeue (n : Nat) (headers : Headers) (delay : Int64) (r : Requests)
  /-- Another client puts a job. -/
  | foreign (body : Bytes)
  /-- The process ends, and is started again. -/
  | restart

/-- The id of the job at a place. -/
def jobID (n : Nat) : UInt64 := UInt64.ofNat (n + 1)

/-- The turn of the listener for a job. A panic ends the process. -/
def listen (gob : Gob) (c : Driver) (s : Shared Bytes Item) (n : Nat) (body : Bytes) (r : Requests) :
    Shared Bytes Item × List (Step Bytes Kept) :=
  match c.unpack gob.decode (jobID n) body with
  | .ok i => ({ s with items := s.items ++ [(n, i)] }, [])
  | .error _ => (s, request r.delete (.drop n))
  | .panicked _ => ({ s with items := [] }, [])

/-- `Ack` and `Nack`: the job is deleted. -/
def settle (s : Shared Bytes Item) (n : Nat) (r : Requests) : Shared Bytes Item × List (Step Bytes Kept) :=
  match s.items[n]? with
  | none => (s, [])
  | some x =>
    ({ s with ledger := { s.ledger with settled := s.ledger.settled ++ x.2.kept.toList } },
      request r.delete (.drop x.1))

/-- `Requeue` of an item with the new headers and delay. -/
def requeueSteps (gob : Gob) (n : Nat) (i : Item) (r : Requests) : List (Step Bytes Kept) :=
  let out := handleItem gob i r
  out.2 ++ if out.1 = none then request r.delete (.drop n) else []

/-- How an operation begins, and its further steps. -/
def start (gob : Gob) (c : Driver) (s : Shared Bytes Item) : Op → Shared Bytes Item × List (Step Bytes Kept)
  | .push jb r =>
    let out := push gob c jb r
    (s, out.2 ++ if out.1 = none then [.owe jb.kept] else [])
  | .reserve n r =>
    match s.ledger.box.get? n with
    | none => (s, [])
    | some body => listen gob c s n body r
  | .ack n r | .nack n r => settle s n r
  | .requeue n headers delay r =>
    match s.items[n]? with
    | none => (s, [])
    | some x =>
      let i := { x.2 with headers, options := x.2.options.map fun o => { o with delay } }
      ({ s with items := s.items.set n (x.1, i) }, requeueSteps gob x.1 i r)
  | .foreign body => (s, [.put body])
  | .restart => ({ s with items := [] }, [])

/-! ## The job of a body -/

/-- The job that `unpack` makes of a body. -/
def key (gob : Gob) (c : Driver) (body : Bytes) : Option Kept :=
  match c.unpack gob.decode 0 body with
  | .ok i => i.kept
  | _ => none

section

variable {gob : Gob} {c : Driver}

/-- What `unpack` reads: the decoded item with its options. -/
theorem unpack_eq_ok_iff {id : UInt64} {body : Bytes} {i : Item} :
    c.unpack gob.decode id body = .ok i ↔
      ∃ out o, gob.decode body = some out ∧ out.options = some o ∧
        i = { out with
          options := some { (if o.priority = 0 then { o with priority := c.priority } else o) with id } } := by
  simp only [Consumer.unpack, Result.bind_eq_ok, Result.orElse_eq_ok, Result.deref_eq_ok]
  constructor
  · rintro ⟨out, hout, o, ho, hi⟩
    exact ⟨out, o, hout, ho, (Result.ok.inj hi).symm⟩
  · rintro ⟨out, o, hout, ho, rfl⟩
    exact ⟨out, hout, o, ho, rfl⟩

theorem unpack_id {id : UInt64} {body : Bytes} {i : Item} (h : c.unpack gob.decode id body = .ok i) (id' : UInt64) :
    ∃ i', c.unpack gob.decode id' body = .ok i' ∧ i'.kept = i.kept := by
  obtain ⟨out, o, hout, ho, rfl⟩ := unpack_eq_ok_iff.mp h
  exact ⟨_, unpack_eq_ok_iff.mpr ⟨out, o, hout, ho, rfl⟩, rfl⟩

theorem key_of_unpack {id : UInt64} {body : Bytes} {i : Item} (h : c.unpack gob.decode id body = .ok i) :
    key gob c body = i.kept := by
  obtain ⟨i', hi', hkept⟩ := unpack_id h 0
  rw [key, hi', ← hkept]

theorem unpack_of_key {body : Bytes} {k : Kept} (h : key gob c body = some k) (id : UInt64) :
    ∃ i, c.unpack gob.decode id body = .ok i ∧ i.kept = some k := by
  unfold key at h
  split at h
  · rename_i i hi
    obtain ⟨i', hi', hkept⟩ := unpack_id hi id
    exact ⟨i', hi', hkept.trans h⟩
  · cases h

/-- What is put for an item is read as the item. -/
theorem key_encode {i : Item} {k : Kept} (h : i.kept = some k) : key gob c (gob.encode i) = some k := by
  obtain ⟨o, ho, -⟩ := Option.map_eq_some_iff.mp h
  have hout : i.exported.options = some { o with id := 0 } := by rw [Item.exported, ho]; rfl
  have hkey : key gob c (gob.encode i) = _ :=
    key_of_unpack (unpack_eq_ok_iff.mpr ⟨_, _, gob.decode_encode i, hout, rfl⟩ : c.unpack gob.decode 0 _ = .ok _)
  rw [hkey, ← h, Item.kept, Item.kept, ho]
  rfl

/-! ## The calls -/

variable {s : Shared Bytes Item}

/-- The tries of a `Put`: if it returns nil, the last of them has put the body. -/
theorem handleItem_cases (gob : Gob) (i : Item) (r : Requests) :
    (handleItem gob i r).1 = none ∧
        ((handleItem gob i r).2 = [.put (gob.encode i)] ∨
          (handleItem gob i r).2 = [.put (gob.encode i), .put (gob.encode i)]) ∨
      (handleItem gob i r).1 ≠ none ∧ ∀ e ∈ (handleItem gob i r).2, e = .put (gob.encode i) := by
  obtain ⟨_ | _ | _, _ | _ | _ | _, _⟩ := r <;> simp [handleItem, Requests.putFails, Requests.tries, Outcome.fails]

theorem known_of_puts {b : Box Bytes} {es : List (Step Bytes Kept)} {body : Bytes} (h : ∀ e ∈ es, e = .put body) :
    Known b es := fun n hn => by cases h _ hn

theorem need_of_puts {label : Nat → Option Kept} {es : List (Step Bytes Kept)} {body : Bytes}
    (h : ∀ e ∈ es, e = .put body) (k : Kept) : need (key gob c) label k es = 0 := by
  induction es with
  | nil => rfl
  | cons e es ih =>
    obtain rfl := h e List.mem_cons_self
    exact need_put (ih fun e he => h e (List.mem_cons_of_mem _ he))

/-- A call that goes on, after its item was put, with steps that the new message makes up for. -/
theorem handled_free {i : Item} {es : List (Step Bytes Kept)} (r : Requests) (hknown : Known s.ledger.box es)
    (hneed : ∀ k, need (key gob c) (s.ledger.box.live (key gob c)) k (.put (gob.encode i) :: es) = 0) :
    Known s.ledger.box ((handleItem gob i r).2 ++ if (handleItem gob i r).1 = none then es else []) ∧
      ∀ k, need (key gob c) (s.ledger.box.live (key gob c)) k
        ((handleItem gob i r).2 ++ if (handleItem gob i r).1 = none then es else []) = 0 := by
  rcases handleItem_cases gob i r with ⟨hok, hes | hes⟩ | ⟨herr, hputs⟩
  · rw [hes, if_pos hok]
    exact ⟨known_put hknown, hneed⟩
  · rw [hes, if_pos hok]
    exact ⟨known_put (known_put hknown), fun k => need_put (hneed k)⟩
  · rw [if_neg herr, List.append_nil]
    exact ⟨known_of_puts hputs, need_of_puts hputs⟩

theorem starts_push (hs : ∀ x ∈ s.items, Refers (key gob c) Item.kept s.ledger.box x) (jb : Job) (r : Requests) :
    Starts (key gob c) Item.kept s s (start gob c s (.push jb r)).2 [] := by
  simp only [start, push]
  split
  · exact .of_need hs (fun n hn => by simp at hn) fun k => by simp [need]
  · have hpromise : ∀ k, need (key gob c) (s.ledger.box.live (key gob c)) k
        [.put (gob.encode (fromJob jb)), .owe jb.kept] = 0 := fun k => need_promise (key_encode rfl)
    obtain ⟨hknown, hneed⟩ := handled_free r (fun n hn => by simp at hn) hpromise
    simp only [Option.map_eq_none_iff]
    exact .of_need hs hknown hneed

theorem starts_reserve (hs : ∀ x ∈ s.items, Refers (key gob c) Item.kept s.ledger.box x) (n : Nat) (r : Requests) :
    Starts (key gob c) Item.kept s (start gob c s (.reserve n r)).1 (start gob c s (.reserve n r)).2 [] := by
  simp only [start]
  cases hbody : s.ledger.box.get? n with
  | none => exact .of_items hs
  | some body =>
    have hn := Box.lt_of_get? hbody
    have hlabel : s.ledger.box.label (key gob c) n = key gob c body := Box.label_of_get? hbody
    simp only [listen]
    split
    · rename_i i hi
      exact .of_items (Update.forall_concat hs ⟨hn, fun k hk => (key_of_unpack hi).symm.trans (hlabel.symm.trans hk)⟩)
    · rename_i err herr
      -- a body that cannot be unpacked is of no job
      have hnone : ∀ k, s.ledger.box.live (key gob c) n = some k → none = some k := by
        intro k hk
        obtain ⟨i, hi, -⟩ := unpack_of_key (hlabel.symm.trans (Box.label_of_live hk)) (jobID n)
        rw [hi] at herr
        cases herr
      exact .of_need hs ((drops_request _ n).known hn) fun k => Nat.le_zero.mp (need_delete (drops_request _ n) hnone)
    · exact .of_items (List.forall_mem_nil _)

theorem exists_starts_settle (hs : ∀ x ∈ s.items, Refers (key gob c) Item.kept s.ledger.box x) (n : Nat)
    (r : Requests) :
    ∃ ks, Starts (key gob c) Item.kept s (settle s n r).1 (settle s n r).2 ks := by
  unfold settle
  cases hi : s.items[n]? with
  | none => exact ⟨[], .of_items hs⟩
  | some x =>
    have hx := hs x (List.mem_of_getElem? hi)
    have hdrops := drops_request (α := Bytes) (κ := Kept) r.delete x.1
    exact ⟨x.2.kept.toList, rfl, hdrops.known hx.lt, fun k => need_delete hdrops fun k hk => hx.live hk, hs⟩

/-- No call takes more messages of a job than it brings or settles. -/
theorem exists_starts (hs : ∀ x ∈ s.items, Refers (key gob c) Item.kept s.ledger.box x) (op : Op) :
    ∃ ks, Starts (key gob c) Item.kept s (start gob c s op).1 (start gob c s op).2 ks := by
  cases op with
  | push jb r => exact ⟨[], starts_push hs jb r⟩
  | reserve n r => exact ⟨[], starts_reserve hs n r⟩
  | ack n r => exact exists_starts_settle hs n r
  | nack n r => exact exists_starts_settle hs n r
  | requeue n headers delay r =>
    simp only [start]
    cases hi : s.items[n]? with
    | none => exact ⟨[], .of_items hs⟩
    | some x =>
      have hmem := hs x (List.mem_of_getElem? hi)
      have hkept : Item.kept { x.2 with headers, options := x.2.options.map fun o => { o with delay } } = x.2.kept := by
        cases ho : x.2.options <;> simp [Item.kept, ho]
      have hx : Refers (key gob c) Item.kept s.ledger.box
          (x.1, { x.2 with headers, options := x.2.options.map fun o => { o with delay } }) :=
        ⟨hmem.lt, by rw [hkept]; exact hmem.label⟩
      have hdrops := drops_request (α := Bytes) (κ := Kept) r.delete x.1
      obtain ⟨hknown, hneed⟩ := handled_free r (hdrops.known hx.lt) fun k =>
        need_replace hdrops fun k hk => key_encode (hx.live hk)
      exact ⟨[], by rw [List.append_nil], hknown, fun k => (hneed k).le, Update.forall_set hs n hx⟩
  | foreign body => exact ⟨[], .of_need hs (known_put (known_nil _)) fun k => Nat.zero_sub _⟩
  | restart => exact ⟨[], .of_items (List.forall_mem_nil _)⟩

end

/-- **No job is lost before it is acked or nacked.** For every content of the tube at the start and every run of calls
side by side, with any requests failing, any `Put` tried twice, jobs reserved any number of times, jobs of other
clients and restarts: of each job the tube has at least as many as `Push` calls returned nil, less the `Ack` and
`Nack` calls for it. A job with more pushes than that is in the tube, and the listener reads it as the job whenever it
is reserved. -/
theorem put_kept (gob : Gob) (c : Driver) (b : Box Bytes) (ms : List (Move Op Unit)) (k : Kept) :
    let l := (Run.exec (system (start gob c)).step ⟨⟨⟨b, [], []⟩, []⟩, []⟩ ms).shared.ledger
    l.owed.count k ≤ l.box.count (key gob c) k + l.settled.count k ∧
      (l.settled.count k < l.owed.count k →
        ∃ n body, l.box.get? n = some body ∧
          ∀ id, ∃ i, c.unpack gob.decode id body = .ok i ∧ i.kept = some k) := by
  intro l
  have hle : l.owed.count k ≤ l.box.count (key gob c) k + l.settled.count k :=
    (covers_of_starts (C := fun _ => True) (fun s op _ hs => exists_starts hs op) b fun _ _ => trivial).covers.owed_le k
  refine ⟨hle, fun hlt => ?_⟩
  have hpos : 0 < l.box.count (key gob c) k := by omega
  obtain ⟨n, body, hbody, hkey⟩ := Box.exists_of_count_pos k hpos
  exact ⟨n, body, hbody, fun id => unpack_of_key hkey id⟩

end RoadRunner.Beanstalk.Delivery
