import RoadRunner.Broker.Delivery
import RoadRunner.Sqs.Delays

/-!
# No job of the SQS driver is lost

`Push`, `Ack`, `Nack` and `Requeue` of `sqs/sqsjobs` and the listener, with the messages of the queue. A message that
was received stays in the queue until it is deleted, and is handed out again after its visibility timeout. `Nack` and
`Requeue` send a new message and delete the old one after that; the listener deletes what it cannot unpack.

* `push_kept`: in every run, with any requests failing, a job whose `Push` returned nil and that was not acked has a
  message that the listener reads as the job.
-/

namespace RoadRunner.Sqs.Delivery

open Broker Broker.Delivery Calls Letters

/-- The outcomes of the requests of a call. -/
structure Requests where
  sendMessage : Outcome := .done
  deleteMessage : Outcome := .done

/-- The requests that fail. -/
def Requests.faults (r : Requests) : Faults := ⟨r.sendMessage.fails, r.deleteMessage.fails⟩

end RoadRunner.Sqs.Delivery

namespace RoadRunner.Sqs

/-- What an item keeps of a job. -/
def Item.kept (i : Item) : Option Broker.Kept := some ⟨i.job, i.ident, i.payload⟩

end RoadRunner.Sqs

namespace RoadRunner.Sqs.Delivery

open Broker Broker.Delivery Calls Letters

/-- What a receipt handle and a count leave of a message: the job that `unpack` makes of it. -/
def key (json : Json) (c : Consumer) (d : SendMessageInput) : Option Kept :=
  match c.unpack json (d.received 1 none) with
  | .ok i => i.kept
  | _ => none

/-- An operation. Messages and items are named by their places. -/
inductive Op where
  | push (jb : Job) (r : Requests)
  /-- The listener receives the message at the place `n`. -/
  | receive (n : Nat) (count : Int64) (receiptHandle : Option Bytes) (r : Requests)
  | ack (n : Nat) (r : Requests)
  | nack (n : Nat) (r : Requests)
  | requeue (n : Nat) (headers : Headers) (delay : Int64) (r : Requests)
  /-- Another client, or `Respond`, sends a message to the queue. -/
  | foreign (d : SendMessageInput)
  /-- The process ends, and is started again. -/
  | restart

/-- What is handed to `SendMessage`. -/
def sent (o : Outcome) (ds : List Handed) : List (Step SendMessageInput Kept) :=
  ds.flatMap fun d => request o (.put d.2)

/-- The steps of a `Nack` of an item with the message at the place `n`. -/
def nackSteps (json : Json) (c : Consumer) (n : Nat) (i : Item) (r : Requests) : List (Step SendMessageInput Kept) :=
  sent r.sendMessage (i.nack json c r.faults).2 ++
    if r.sendMessage.fails then [] else request r.deleteMessage (.drop n)

/-- The turn of the listener for a message. A panic ends the process. -/
def receive (json : Json) (c : Consumer) (s : Shared SendMessageInput Item) (n : Nat) (msg : Message) (r : Requests) :
    Shared SendMessageInput Item × List (Step SendMessageInput Kept) :=
  match c.unpack json msg with
  | .ok i => ({ s with items := s.items ++ [(n, i)] }, [])
  | .error _ => (s, request r.deleteMessage (.drop n))
  | .panicked _ => ({ s with items := [] }, [])

/-- How an operation begins, and its further steps. -/
def start (json : Json) (c : Consumer) (s : Shared SendMessageInput Item) :
    Op → Shared SendMessageInput Item × List (Step SendMessageInput Kept)
  | .push jb r =>
    let out := c.pushJob json jb r.faults
    (s, sent r.sendMessage out.2 ++ if out.1 = none then [.owe jb.kept] else [])
  | .receive n count receiptHandle r =>
    match s.ledger.box.get? n with
    | none => (s, [])
    | some d => receive json c s n (d.received count receiptHandle) r
  | .ack n r =>
    match s.items[n]? with
    | none => (s, [])
    | some x =>
      ({ s with ledger := { s.ledger with settled := s.ledger.settled ++ x.2.kept.toList } },
        request r.deleteMessage (.drop x.1))
  | .nack n r =>
    match s.items[n]? with
    | none => (s, [])
    | some x => (s, nackSteps json c x.1 x.2 r)
  | .requeue n headers delay r =>
    match s.items[n]? with
    | none => (s, [])
    | some x =>
      let i := (x.2.requeue json c headers delay r.faults).1
      ({ s with items := s.items.set n (x.1, i) }, nackSteps json c x.1 i r)
  | .foreign d => (s, [.put d])
  | .restart => ({ s with items := [] }, [])

/-! ## The job of a message -/

section

variable {json : Json} {c : Consumer}

theorem atoi_itoa (n : Int64) : Consumer.atoi (Decimal.itoa n) = .ok n := by
  rw [Consumer.atoi, Decimal.atoi_itoa]
  rfl

/-- The count and the receipt handle do not matter for the job. -/
theorem unpack_received {d : SendMessageInput} {count : Int64} {handle : Option Bytes} {i : Item}
    (h : c.unpack json (d.received count handle) = .ok i) (count' : Int64) (handle' : Option Bytes) :
    ∃ i', c.unpack json (d.received count' handle') = .ok i' ∧ i'.kept = i.kept := by
  have hlookup : ∀ count handle,
      (d.received count handle).attributes.lookup approximateReceiveCount = some (Decimal.itoa count) := by
    intro count handle
    simp [SendMessageInput.received]
  have hattributes : ∀ count handle, (d.received count handle).messageAttributes = d.messageAttributes :=
    fun _ _ => rfl
  simp only [Consumer.unpack, hlookup, hattributes] at h ⊢
  split at h
  · cases h
  · have hattr : ∀ count handle name, Consumer.attr (d.received count handle) name =
        (d.messageAttributes.lookup name).getD {} := fun _ _ _ => rfl
    have hbody : ∀ count handle, (d.received count handle).body = d.messageBody := fun _ _ => rfl
    simp only [Consumer.unpackAttributes, Result.bind_eq_ok, atoi_itoa, hattr, hbody] at h ⊢
    obtain ⟨headers, hheaders, delayText, hdelayText, delay, hdelay, priorityText, hpriorityText, priority, hpriority,
      _, -, job, hjob, ident, hident, payload, hpayload, hi⟩ := h
    obtain rfl := Result.ok.inj hi
    exact ⟨_, ⟨headers, hheaders, delayText, hdelayText, delay, hdelay, priorityText, hpriorityText, priority,
      hpriority, count', rfl, job, hjob, ident, hident, payload, hpayload, rfl⟩, rfl⟩

theorem key_of_unpack {d : SendMessageInput} {count : Int64} {handle : Option Bytes} {i : Item}
    (h : c.unpack json (d.received count handle) = .ok i) : key json c d = i.kept := by
  obtain ⟨i', hi', hkept⟩ := unpack_received h 1 none
  rw [key, hi', ← hkept]

theorem unpack_of_key {d : SendMessageInput} {k : Kept} (h : key json c d = some k) (count : Int64)
    (handle : Option Bytes) : ∃ i, c.unpack json (d.received count handle) = .ok i ∧ i.kept = some k := by
  unfold key at h
  split at h
  · rename_i i hi
    obtain ⟨i', hi', hkept⟩ := unpack_received hi count handle
    exact ⟨i', hi', hkept.trans h⟩
  · cases h

/-- What is sent for an item is read as the item, whatever its headers are. -/
theorem key_handleItem (i : Item) : key json c (c.handleItem json i) = i.kept := by
  obtain ⟨h, hh⟩ := Option.isSome_iff_exists.mp (json.isSome_unmarshal_marshal i.headers)
  have hunpack : c.unpack json ((c.handleItem json i).received 1 none) =
      (Result.orElse (.lib "Unmarshal") (json.unmarshal (json.marshal i.headers))).bind fun h =>
        (Consumer.atoi (Decimal.itoa i.options.delay)).bind fun delay =>
          (Consumer.atoi (Decimal.itoa i.options.priority)).bind fun priority =>
            (Consumer.atoi (Decimal.itoa 1)).bind fun recCount =>
              .ok ⟨i.job, i.ident, i.payload, h, ⟨priority, [], delay, recCount, c.queueURL, none⟩⟩ := rfl
  rw [key, hunpack, hh, atoi_itoa, atoi_itoa, atoi_itoa]
  rfl

/-! ## The calls -/

variable {s : Shared SendMessageInput Item}

theorem key_of_push {jb : Job} {d : SendMessageInput} (h : c.push json jb = .ok d) : key json c d = some jb.kept := by
  unfold Consumer.push at h
  split at h
  · cases h
  · split at h
    · cases h
    · obtain rfl := Except.ok.inj h
      exact key_handleItem (fromJob jb)

/-- What `Push` promises it has sent. -/
theorem starts_push (hs : ∀ x ∈ s.items, Refers (key json c) Item.kept s.ledger.box x) (jb : Job) (r : Requests) :
    Starts (key json c) Item.kept s s (start json c s (.push jb r)).2 [] := by
  have hknown : ∀ d : SendMessageInput, Known s.ledger.box [.put d, .owe jb.kept] := fun d n hn => by simp at hn
  cases hpush : c.push json jb with
  | error err =>
    have hes : (start json c s (.push jb r)).2 = [] := by simp [start, Consumer.pushJob, hpush, sent]
    rw [hes]
    exact .of_items hs
  | ok d =>
    cases ho : r.sendMessage with
    | done =>
      have hes : (start json c s (.push jb r)).2 = [.put d, .owe jb.kept] := by
        simp [start, Consumer.pushJob, hpush, sent, Requests.faults, ho, Outcome.fails]
      rw [hes]
      exact .of_need hs (hknown d) fun k => need_promise (key_of_push hpush)
    | refused =>
      have hes : (start json c s (.push jb r)).2 = [] := by
        simp [start, Consumer.pushJob, hpush, sent, Requests.faults, ho, Outcome.fails]
      rw [hes]
      exact .of_items hs
    | unanswered =>
      have hes : (start json c s (.push jb r)).2 = [.put d] := by
        simp [start, Consumer.pushJob, hpush, sent, Requests.faults, ho, Outcome.fails]
      rw [hes]
      exact .of_need hs (known_put (known_nil _)) fun k => Nat.zero_sub _

/-- A `Nack` puts a message for its job before it deletes one. -/
theorem nackSteps_free {n : Nat} {i : Item} (hx : Refers (key json c) Item.kept s.ledger.box (n, i)) (r : Requests) :
    Known s.ledger.box (nackSteps json c n i r) ∧
      ∀ k, need (key json c) (s.ledger.box.live (key json c)) k (nackSteps json c n i r) = 0 := by
  have hkey : ∀ k, s.ledger.box.live (key json c) n = some k → key json c (c.handleItem json i) = some k :=
    fun k hk => (key_handleItem i).trans (hx.live hk)
  cases ho : r.sendMessage with
  | done =>
    have hes : nackSteps json c n i r = .put (c.handleItem json i) :: request r.deleteMessage (.drop n) := by
      simp [nackSteps, sent, Item.nack, ho, Outcome.fails]
    rw [hes]
    exact ⟨known_put ((drops_request _ n).known hx.lt), fun k => need_replace (drops_request _ n) hkey⟩
  | refused =>
    have hes : nackSteps json c n i r = [] := by simp [nackSteps, sent, Item.nack, ho, Outcome.fails]
    rw [hes]
    exact ⟨known_nil _, fun k => rfl⟩
  | unanswered =>
    have hes : nackSteps json c n i r = [.put (c.handleItem json i)] := by
      simp [nackSteps, sent, Item.nack, ho, Outcome.fails]
    rw [hes]
    exact ⟨known_put (known_nil _), fun k => Nat.zero_sub _⟩

theorem starts_receive (hs : ∀ x ∈ s.items, Refers (key json c) Item.kept s.ledger.box x) (n : Nat) (count : Int64)
    (handle : Option Bytes) (r : Requests) :
    Starts (key json c) Item.kept s (start json c s (.receive n count handle r)).1
      (start json c s (.receive n count handle r)).2 [] := by
  simp only [start]
  cases hd : s.ledger.box.get? n with
  | none => exact .of_items hs
  | some d =>
    have hn := Box.lt_of_get? hd
    have hlabel : s.ledger.box.label (key json c) n = key json c d := Box.label_of_get? hd
    simp only [receive]
    split
    · rename_i i hi
      exact .of_items (Update.forall_concat hs ⟨hn, fun k hk => (key_of_unpack hi).symm.trans (hlabel.symm.trans hk)⟩)
    · rename_i err herr
      -- what cannot be unpacked is a message of no job
      have hnone : ∀ k, s.ledger.box.live (key json c) n = some k → none = some k := by
        intro k hk
        obtain ⟨i, hi, -⟩ := unpack_of_key (hlabel.symm.trans (Box.label_of_live hk)) count handle
        rw [hi] at herr
        cases herr
      exact .of_need hs ((drops_request _ n).known hn) fun k => Nat.le_zero.mp (need_delete (drops_request _ n) hnone)
    · exact .of_items (List.forall_mem_nil _)

/-- No call takes more messages of a job than it brings or settles. -/
theorem exists_starts (hs : ∀ x ∈ s.items, Refers (key json c) Item.kept s.ledger.box x) (op : Op) :
    ∃ ks, Starts (key json c) Item.kept s (start json c s op).1 (start json c s op).2 ks := by
  cases op with
  | push jb r => exact ⟨[], starts_push hs jb r⟩
  | receive n count handle r => exact ⟨[], starts_receive hs n count handle r⟩
  | ack n r =>
    simp only [start]
    cases hi : s.items[n]? with
    | none => exact ⟨[], .of_items hs⟩
    | some x =>
      have hx := hs x (List.mem_of_getElem? hi)
      have hdrops := drops_request (α := SendMessageInput) (κ := Kept) r.deleteMessage x.1
      exact ⟨x.2.kept.toList, rfl, hdrops.known hx.lt, fun k => need_delete hdrops fun k hk => hx.live hk, hs⟩
  | nack n r =>
    simp only [start]
    cases hi : s.items[n]? with
    | none => exact ⟨[], .of_items hs⟩
    | some x =>
      obtain ⟨hknown, hneed⟩ := nackSteps_free (hs x (List.mem_of_getElem? hi)) r
      exact ⟨[], .of_need hs hknown hneed⟩
  | requeue n headers delay r =>
    simp only [start]
    cases hi : s.items[n]? with
    | none => exact ⟨[], .of_items hs⟩
    | some x =>
      have hmem := hs x (List.mem_of_getElem? hi)
      have hx : Refers (key json c) Item.kept s.ledger.box (x.1, (x.2.requeue json c headers delay r.faults).1) :=
        ⟨hmem.lt, hmem.label⟩
      obtain ⟨hknown, hneed⟩ := nackSteps_free hx r
      exact ⟨[], by rw [List.append_nil], hknown, fun k => (hneed k).le, Update.forall_set hs n hx⟩
  | foreign d => exact ⟨[], .of_need hs (known_put (known_nil _)) fun k => Nat.zero_sub _⟩
  | restart => exact ⟨[], .of_items (List.forall_mem_nil _)⟩

end

/-- **No job is lost.** For every content of the queue at the start and every run of calls side by side, with any
requests failing, messages received any number of times, messages of other clients and restarts: of each job there are
at least as many messages as `Push` calls returned nil, less the `Ack` calls for it. A job with more pushes than acks
has a message which the listener reads as the job whenever it is received. -/
theorem push_kept (json : Json) (c : Consumer) (b : Box SendMessageInput) (ms : List (Move Op Unit)) (k : Kept) :
    let l := (Run.exec (system (start json c)).step ⟨⟨⟨b, [], []⟩, []⟩, []⟩ ms).shared.ledger
    l.owed.count k ≤ l.box.count (key json c) k + l.settled.count k ∧
      (l.settled.count k < l.owed.count k →
        ∃ n d, l.box.get? n = some d ∧
          ∀ count handle, ∃ i, c.unpack json (d.received count handle) = .ok i ∧ i.kept = some k) := by
  intro l
  have hle : l.owed.count k ≤ l.box.count (key json c) k + l.settled.count k :=
    (covers_of_starts (C := fun _ => True) (fun s op _ hs => exists_starts hs op) b fun _ _ => trivial).covers.owed_le k
  refine ⟨hle, fun hlt => ?_⟩
  have hpos : 0 < l.box.count (key json c) k := by omega
  obtain ⟨n, d, hd, hkey⟩ := Box.exists_of_count_pos k hpos
  exact ⟨n, d, hd, fun count handle => unpack_of_key hkey count handle⟩

end RoadRunner.Sqs.Delivery
