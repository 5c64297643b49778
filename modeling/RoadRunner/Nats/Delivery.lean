import RoadRunner.Broker.Delivery
import RoadRunner.Nats.Item

/-!
# No job of the NATS driver is lost

`Push`, `requeue` and `Stop` of `nats/natsjobs/consumer.go`, `Ack`, `Nack` and `Requeue` of `item.go` and the listener,
with the messages of the stream. A message that is neither acknowledged nor deleted is delivered again, also to a new
subscription. `Requeue` publishes a new message and deletes the old one after that; the listener leaves what it cannot
read. With `delete_stream_on_stop`, `Stop` deletes the stream with all its messages.

* `Codec`: the JSON of jobs and items. Texts that are not UTF-8 are not read back.
* `get?_stop`: what a `Stop` leaves of the stream.
* `publish_kept`: in every run in which no `Stop` deletes the stream, with any requests failing, a job with UTF-8 texts
  whose `Push` returned nil and that was not acked has a message in the stream that is neither acknowledged nor deleted,
  and the listener reads it as the job.
-/

namespace RoadRunner.Nats

open Broker

/-- An item whose `Options` are there can be published. -/
def Item.kept (i : Item) : Option Kept := i.options.map fun _ => ⟨i.job, i.ident, i.payload⟩

/-- The JSON codec for jobs and items. -/
structure Codec where
  marshalJob : Job → Bytes
  marshal : Item → Bytes
  decode : Bytes → Option Item
  decode_marshalJob : ∀ jb : Job, jb.kept.Utf8 → ∃ i, decode (marshalJob jb) = some i ∧ i.kept = some jb.kept
  decode_marshal : ∀ i k, i.kept = some k → k.Utf8 → ∃ i', decode (marshal i) = some i' ∧ i'.kept = some k

/-- A text with a mark before each byte, and one for its end. -/
def marked (text : Bytes) : Bytes := (text.flatMap fun x => [1, x]) ++ [0]

/-- The text that is marked at the start, and the rest. -/
def unmark : Bytes → Bytes × Bytes
  | mark :: x :: rest => if mark = 0 then ([], x :: rest) else (x :: (unmark rest).1, (unmark rest).2)
  | _ => ([], [])

theorem unmark_marked (text rest : Bytes) : unmark (marked text ++ rest) = (text, rest) := by
  induction text with
  | nil => cases rest <;> rfl
  | cons x text ih =>
    show (x :: (unmark (marked text ++ rest)).1, (unmark (marked text ++ rest)).2) = _
    rw [ih]

/-- The item whose texts are there one after the other. -/
def readTexts (data : Bytes) : Item :=
  let job := unmark data
  let ident := unmark job.2
  ⟨job.1, ident.1, (unmark ident.2).1, none, some { priority := 0, pipeline := [], delay := 0 }⟩

theorem kept_readTexts (job ident payload : Bytes) :
    (readTexts (marked job ++ (marked ident ++ (marked payload ++ [])))).kept = some ⟨job, ident, payload⟩ := by
  simp only [readTexts, unmark_marked, Item.kept, Option.map_some]

/-- A codec that writes the texts one after the other. -/
def Codec.plain : Codec where
  marshalJob jb := marked jb.job ++ (marked jb.ident ++ (marked jb.payload ++ []))
  marshal i := marked i.job ++ (marked i.ident ++ (marked i.payload ++ []))
  decode data := some (readTexts data)
  decode_marshalJob jb _ := ⟨_, rfl, kept_readTexts jb.job jb.ident jb.payload⟩
  decode_marshal i k h _ := by
    obtain ⟨o, -, rfl⟩ := Option.map_eq_some_iff.mp h
    exact ⟨_, rfl, kept_readTexts i.job i.ident i.payload⟩

end RoadRunner.Nats

namespace RoadRunner.Nats.Delivery

open Broker Broker.Delivery Calls Letters

/-- The outcomes of the requests of a call. -/
structure Requests where
  publish : Outcome := .done
  /-- The `DeleteMsg` of `requeue`, whose error is ignored. -/
  deleteOld : Outcome := .done
  ack : Outcome := .done
  /-- The `DeleteMsg` for `delete_after_ack`. -/
  delete : Outcome := .done

/-- The error for a delayed job. -/
def errDelayed (op : String) : Err :=
  .op op
    (.str "nats doesn't support delayed messages, see: https://github.com/nats-io/nats-streaming-server/issues/324")

/-- `consumer.Push`. -/
def push (codec : Codec) (jb : Job) (r : Requests) : Option Err × List (Step Bytes Kept) :=
  if 0 < jb.options.delay then (some (errDelayed "nats_consumer_push"), [])
  else
    (if r.publish.fails then some (.op "nats_consumer_push" (.lib "Publish")) else none,
      request r.publish (.put (codec.marshalJob jb)))

/-- `requeue` of an item with the message at the place `n`. -/
def requeue (codec : Codec) (n : Nat) (i : Item) (delay : Int64) (r : Requests) : Option Err × List (Step Bytes Kept) :=
  if 0 < delay then (some (errDelayed "nats_requeue"), [])
  else if r.publish.fails then
    (some (.op "nats_requeue" (.lib "Publish")), request r.publish (.put (codec.marshal i)))
  else (none, request r.publish (.put (codec.marshal i)) ++ request r.deleteOld (.drop n))

/-- The acknowledgement, and with `delete_after_ack` the deletion. -/
def ackSteps (n : Nat) (deleteAfterAck : Bool) (r : Requests) : List (Step Bytes Kept) :=
  request r.ack (.drop n) ++ if r.ack.fails || !deleteAfterAck then [] else request r.delete (.drop n)

/-- `Requeue` of an item with the new headers. If `requeue` fails, the message is negatively acknowledged, and stays. -/
def requeueSteps (codec : Codec) (n : Nat) (i : Item) (r : Requests) : List (Step Bytes Kept) :=
  match i.options with
  | none => []
  | some o =>
    let out := requeue codec n i o.delay r
    out.2 ++ if out.1 = none then ackSteps n o.deleteAfterAck r else []

/-- What `Stop` leaves of the stream, given what becomes of the `DeleteStream`. -/
def stop (c : Consumer) (b : Box Bytes) (o : Outcome) : Box Bytes :=
  if c.deleteStreamOnStop && o.takes then b.clear else b

/-- An operation. Messages and items are named by their places. -/
inductive Op where
  | push (jb : Job) (r : Requests)
  /-- The listener takes the message at the place `n`, which may have been acknowledged before this subscription. -/
  | receive (n : Nat) (metadata : Option UInt64) (inProgress : Bool)
  | ack (n : Nat) (r : Requests)
  | nack (n : Nat)
  | requeue (n : Nat) (headers : Headers) (r : Requests)
  /-- Another client publishes a message. -/
  | foreign (data : Bytes)
  /-- `Stop`, of a pipeline that is destroyed or when the process is to end. -/
  | stop (deleteStream : Outcome)
  /-- The process ends, and is started again. -/
  | restart

/-- The turn of the listener for a message. A panic ends the process. -/
def listen (codec : Codec) (c : Consumer) (s : Shared Bytes Item) (n : Nat) (m : Msg) :
    Shared Bytes Item × List (Step Bytes Kept) :=
  match c.receive codec.decode m with
  | .ok i => ({ s with items := s.items ++ [(n, i)] }, [])
  | .error _ => (s, [])
  | .panicked _ => ({ s with items := [] }, [])

/-- How an operation begins, and its further steps. -/
def start (codec : Codec) (c : Consumer) (s : Shared Bytes Item) : Op → Shared Bytes Item × List (Step Bytes Kept)
  | .push jb r =>
    let out := push codec jb r
    (s, out.2 ++ if out.1 = none then [.owe jb.kept] else [])
  | .receive n metadata inProgress =>
    match s.ledger.box.letters[n]? with
    | none => (s, [])
    | some l => listen codec c s n ⟨metadata, inProgress, l.1⟩
  | .ack n r =>
    match s.items[n]? with
    | none => (s, [])
    | some x =>
      ({ s with ledger := { s.ledger with settled := s.ledger.settled ++ x.2.kept.toList } },
        ackSteps x.1 ((x.2.options.map Options.deleteAfterAck).getD false) r)
  | .nack _ => (s, [])
  | .requeue n headers r =>
    match s.items[n]? with
    | none => (s, [])
    | some x =>
      let i := { x.2 with headers }
      ({ s with items := s.items.set n (x.1, i) }, requeueSteps codec x.1 i r)
  | .foreign data => (s, [.put data])
  | .stop deleteStream => ({ s with ledger := { s.ledger with box := stop c s.ledger.box deleteStream } }, [])
  | .restart => ({ s with items := [] }, [])

/-! ## The job of a message -/

open Classical in
/-- The job that the listener makes of a message, if its texts are UTF-8. -/
noncomputable def key (codec : Codec) (c : Consumer) (data : Bytes) : Option Kept :=
  match c.receive codec.decode ⟨some 0, true, data⟩ with
  | .ok i => i.kept.filter fun k => k.Utf8
  | _ => none

section

variable {codec : Codec} {c : Consumer}

/-- The item has the texts of what was decoded. -/
theorem kept_of_receive {m : Msg} {i : Item} (h : c.receive codec.decode m = .ok i) :
    ∃ out, codec.decode m.data = some out ∧ i.kept = out.kept ∧ out.kept.isSome := by
  simp only [Consumer.receive, Result.bind_eq_ok, Result.orElse_eq_ok, Result.deref_eq_ok] at h
  obtain ⟨seq, -, _, -, out, hout, o, ho, hi⟩ := h
  obtain rfl := Result.ok.inj hi
  refine ⟨out, hout, ?_, ?_⟩
  · rw [Item.kept, Item.kept, ho]
    rfl
  · rw [Item.kept, ho]
    rfl

theorem receive_of_kept {data : Bytes} {out : Item} (h : codec.decode data = some out) {k : Kept}
    (hk : out.kept = some k) (seq : UInt64) :
    ∃ i, c.receive codec.decode ⟨some seq, true, data⟩ = .ok i ∧ i.kept = some k := by
  obtain ⟨o, ho, -⟩ := Option.map_eq_some_iff.mp hk
  have hreceive : ∃ i, c.receive codec.decode ⟨some seq, true, data⟩ = .ok i := by
    simp only [Consumer.receive, Result.bind_eq_ok, Result.orElse_eq_ok, Result.deref_eq_ok]
    exact ⟨_, seq, rfl, (), rfl, out, h, o, ho, rfl⟩
  obtain ⟨i, hi⟩ := hreceive
  obtain ⟨out', hout', hkept, -⟩ := kept_of_receive hi
  obtain rfl : out = out' := Option.some.inj (h.symm.trans hout')
  exact ⟨i, hi, hkept.trans hk⟩

open Classical in
/-- The messages of a job are those that are decoded with its texts. -/
theorem key_eq_some_iff {data : Bytes} {k : Kept} :
    key codec c data = some k ↔ k.Utf8 ∧ ∃ out, codec.decode data = some out ∧ out.kept = some k := by
  constructor
  · intro h
    unfold key at h
    split at h
    · rename_i i hi
      obtain ⟨hk, hutf8⟩ := Option.filter_eq_some_iff.mp h
      obtain ⟨out, hout, hkept, -⟩ := kept_of_receive hi
      exact ⟨of_decide_eq_true hutf8, out, hout, hkept ▸ hk⟩
    · cases h
  · rintro ⟨hutf8, out, hout, hk⟩
    obtain ⟨i, hi, hkept⟩ := receive_of_kept (c := c) hout hk 0
    rw [key, hi]
    exact Option.filter_eq_some_iff.mpr ⟨hkept, decide_eq_true hutf8⟩

theorem key_marshalJob {jb : Job} (h : jb.kept.Utf8) : key codec c (codec.marshalJob jb) = some jb.kept :=
  key_eq_some_iff.mpr ⟨h, codec.decode_marshalJob jb h⟩

theorem key_marshal {i : Item} {k : Kept} (h : i.kept = some k) (hutf8 : k.Utf8) :
    key codec c (codec.marshal i) = some k :=
  key_eq_some_iff.mpr ⟨hutf8, codec.decode_marshal i k h hutf8⟩

/-! ## The calls -/

variable {s : Shared Bytes Item}

theorem drops_ackSteps (n : Nat) (deleteAfterAck : Bool) (r : Requests) : Drops n (ackSteps n deleteAfterAck r) := by
  refine (drops_request _ n).append ?_
  split
  · exact drops_nil n
  · exact drops_request _ n

theorem starts_push (hs : ∀ x ∈ s.items, Refers (key codec c) Item.kept s.ledger.box x) {jb : Job}
    (hutf8 : jb.kept.Utf8) (r : Requests) : Starts (key codec c) Item.kept s s (start codec c s (.push jb r)).2 [] := by
  have hrefused : ∀ es : List (Step Bytes Kept), es = [] → Starts (key codec c) Item.kept s s es [] := by
    rintro _ rfl
    exact .of_items hs
  by_cases hdelay : 0 < jb.options.delay
  · exact hrefused _ (by simp [start, push, hdelay])
  · cases ho : r.publish with
    | done =>
      have hes : (start codec c s (.push jb r)).2 = [.put (codec.marshalJob jb), .owe jb.kept] := by
        simp [start, push, hdelay, ho, Outcome.fails]
      rw [hes]
      exact .of_need hs (fun n hn => by simp at hn) fun k => need_promise (key_marshalJob hutf8)
    | refused => exact hrefused _ (by simp [start, push, hdelay, ho, Outcome.fails])
    | unanswered =>
      have hes : (start codec c s (.push jb r)).2 = [.put (codec.marshalJob jb)] := by
        simp [start, push, hdelay, ho, Outcome.fails]
      rw [hes]
      exact .of_need hs (known_put (known_nil _)) fun k => need_put rfl

/-- A `Requeue` publishes a message for its job before it deletes and acknowledges one. -/
theorem requeueSteps_free {n : Nat} {i : Item} (hx : Refers (key codec c) Item.kept s.ledger.box (n, i))
    (r : Requests) :
    Known s.ledger.box (requeueSteps codec n i r) ∧
      ∀ k, need (key codec c) (s.ledger.box.live (key codec c)) k (requeueSteps codec n i r) = 0 := by
  have hnil : ∀ es : List (Step Bytes Kept), es = [] → Known s.ledger.box es ∧
      ∀ k, need (key codec c) (s.ledger.box.live (key codec c)) k es = 0 := by
    rintro _ rfl
    exact ⟨known_nil _, fun k => rfl⟩
  cases hoptions : i.options with
  | none => exact hnil _ (by simp [requeueSteps, hoptions])
  | some o =>
    by_cases hdelay : 0 < o.delay
    · exact hnil _ (by simp [requeueSteps, hoptions, requeue, hdelay])
    · cases ho : r.publish with
      | refused => exact hnil _ (by simp [requeueSteps, hoptions, requeue, hdelay, ho, Outcome.fails])
      | unanswered =>
        have hes : requeueSteps codec n i r = [.put (codec.marshal i)] := by
          simp [requeueSteps, hoptions, requeue, hdelay, ho, Outcome.fails]
        rw [hes]
        exact ⟨known_put (known_nil _), fun k => need_put rfl⟩
      | done =>
        have hes : requeueSteps codec n i r =
            .put (codec.marshal i) :: (request r.deleteOld (.drop n) ++ ackSteps n o.deleteAfterAck r) := by
          simp [requeueSteps, hoptions, requeue, hdelay, ho, Outcome.fails]
        rw [hes]
        have hdrops := (drops_request r.deleteOld n).append (drops_ackSteps n o.deleteAfterAck r)
        refine ⟨known_put (hdrops.known hx.lt), fun k => need_replace hdrops fun k hk => ?_⟩
        obtain ⟨data, -, hkey⟩ := Option.bind_eq_some_iff.mp hk
        exact key_marshal (hx.live hk) (key_eq_some_iff.mp hkey).1

theorem starts_receive (hs : ∀ x ∈ s.items, Refers (key codec c) Item.kept s.ledger.box x) (n : Nat)
    (metadata : Option UInt64) (inProgress : Bool) :
    Starts (key codec c) Item.kept s (start codec c s (.receive n metadata inProgress)).1
      (start codec c s (.receive n metadata inProgress)).2 [] := by
  simp only [start]
  cases hl : s.ledger.box.letters[n]? with
  | none => exact .of_items hs
  | some l =>
    simp only [listen]
    split
    · rename_i i hi
      obtain ⟨out, hout, hkept, -⟩ := kept_of_receive hi
      refine .of_items (Update.forall_concat hs ⟨(List.getElem?_eq_some_iff.mp hl).1, fun k hk => ?_⟩)
      -- the item is decoded from the bytes of the message
      have hkey : key codec c l.1 = some k := by simpa [Box.label, hl] using hk
      obtain ⟨-, out', hout', hk'⟩ := key_eq_some_iff.mp hkey
      obtain rfl : out = out' := Option.some.inj (hout.symm.trans hout')
      exact hkept.trans hk'
    · exact .of_items hs
    · exact .of_items (List.forall_mem_nil _)

/-- The job of a push has UTF-8 texts, and a `Stop` does not delete the stream. -/
def Op.Keeps (c : Consumer) : Op → Prop
  | .push jb _ => jb.kept.Utf8
  | .stop deleteStream => ¬ (c.deleteStreamOnStop && deleteStream.takes)
  | _ => True

/-- No call takes more messages of a job than it brings or settles. -/
theorem exists_starts {op : Op} (hop : op.Keeps c) (hs : ∀ x ∈ s.items, Refers (key codec c) Item.kept s.ledger.box x) :
    ∃ ks, Starts (key codec c) Item.kept s (start codec c s op).1 (start codec c s op).2 ks := by
  cases op with
  | push jb r => exact ⟨[], starts_push hs hop r⟩
  | receive n metadata inProgress => exact ⟨[], starts_receive hs n metadata inProgress⟩
  | ack n r =>
    simp only [start]
    cases hi : s.items[n]? with
    | none => exact ⟨[], .of_items hs⟩
    | some x =>
      have hx := hs x (List.mem_of_getElem? hi)
      have hdrops := drops_ackSteps x.1 ((x.2.options.map Options.deleteAfterAck).getD false) r
      exact ⟨x.2.kept.toList, rfl, hdrops.known hx.lt, fun k => need_delete hdrops fun k hk => hx.live hk, hs⟩
  | nack n => exact ⟨[], .of_items hs⟩
  | requeue n headers r =>
    simp only [start]
    cases hi : s.items[n]? with
    | none => exact ⟨[], .of_items hs⟩
    | some x =>
      have hmem := hs x (List.mem_of_getElem? hi)
      have hx : Refers (key codec c) Item.kept s.ledger.box (x.1, { x.2 with headers }) := ⟨hmem.lt, hmem.label⟩
      obtain ⟨hknown, hneed⟩ := requeueSteps_free hx r
      exact ⟨[], by rw [List.append_nil], hknown, fun k => (hneed k).le, Update.forall_set hs n hx⟩
  | foreign data => exact ⟨[], .of_need hs (known_put (known_nil _)) fun k => need_put rfl⟩
  | stop deleteStream =>
    have hbox : stop c s.ledger.box deleteStream = s.ledger.box := if_neg hop
    simp only [start, hbox]
    exact ⟨[], .of_items hs⟩
  | restart => exact ⟨[], .of_items (List.forall_mem_nil _)⟩

end

/-- **No job is lost.** For every content of the stream at the start and every run of calls side by side in which the
jobs that are pushed have UTF-8 texts and no `Stop` deletes the stream, with any requests failing, messages delivered
any number of times, messages of other clients and restarts: of each job there are at least as many messages that are
neither acknowledged nor deleted as `Push` calls returned nil, less the `Ack` calls for it. A job with more pushes than
acks has such a message, and the listener reads it as the job. -/
theorem publish_kept (codec : Codec) (c : Consumer) (b : Box Bytes) (ms : List (Move Op Unit))
    (hops : ∀ op, .start op ∈ ms → op.Keeps c) (k : Kept) :
    let l := (Run.exec (system (start codec c)).step ⟨⟨⟨b, [], []⟩, []⟩, []⟩ ms).shared.ledger
    l.owed.count k ≤ l.box.count (key codec c) k + l.settled.count k ∧
      (l.settled.count k < l.owed.count k →
        ∃ n data, l.box.get? n = some data ∧
          ∀ seq, ∃ i, c.receive codec.decode ⟨some seq, true, data⟩ = .ok i ∧ i.kept = some k) := by
  intro l
  have hle : l.owed.count k ≤ l.box.count (key codec c) k + l.settled.count k :=
    (covers_of_starts (C := Op.Keeps c) (fun s op hop hs => exists_starts hop hs) b hops).covers.owed_le k
  refine ⟨hle, fun hlt => ?_⟩
  have hpos : 0 < l.box.count (key codec c) k := by omega
  obtain ⟨n, data, hdata, hkey⟩ := Box.exists_of_count_pos k hpos
  obtain ⟨-, out, hout, hk⟩ := key_eq_some_iff.mp hkey
  exact ⟨n, data, hdata, fun seq => receive_of_kept hout hk seq⟩

/-- A consumer that does not delete the stream. -/
def keeping : Consumer := ⟨10, true, ascii "default", false⟩

/-- A job with all its texts. -/
def greeting : Job :=
  ⟨ascii "mail", ascii "1", ascii "hello", some [(ascii "attempts", [ascii "1"])], ⟨5, ascii "q", 0⟩⟩

/-- The job is pushed, delivered and requeued, where the answer to the deletion of the old message is lost; the consumer
is stopped, and the process started again. -/
def requeued : List (Move Op Unit) :=
  [.start (.push greeting {}), .next 0 (), .next 0 (), .start (.receive 0 (some 7) true),
    .start (.requeue 0 (some [(ascii "attempts", [ascii "2"])]) { deleteOld := .unanswered }), .next 2 (), .next 2 (),
    .start (.stop .done), .next 2 (), .start .restart]

/-- The job is in the stream after that: the first message is gone, and the second one is there. -/
theorem publish_kept_requeued :
    let l := (Run.exec (system (start .plain keeping)).step ⟨⟨⟨{}, [], []⟩, []⟩, []⟩ requeued).shared.ledger
    l.owed = [greeting.kept] ∧ l.settled = [] ∧ l.box.letters.map Prod.snd = [false, true] ∧
      ∃ n data, l.box.get? n = some data ∧
        ∀ seq, ∃ i,
          keeping.receive Codec.plain.decode ⟨some seq, true, data⟩ = .ok i ∧ i.kept = some greeting.kept := by
  have howed : (Run.exec (system (start .plain keeping)).step ⟨⟨⟨{}, [], []⟩, []⟩, []⟩ requeued).shared.ledger.owed =
      [greeting.kept] := by
    decide +kernel
  have hsettled :
      (Run.exec (system (start .plain keeping)).step ⟨⟨⟨{}, [], []⟩, []⟩, []⟩ requeued).shared.ledger.settled = [] := by
    decide +kernel
  have hutf8 : greeting.kept.Utf8 :=
    ⟨⟨"mail".toList, by decide +kernel⟩, ⟨"1".toList, by decide +kernel⟩, ⟨"hello".toList, by decide +kernel⟩⟩
  have hops : ∀ op, .start op ∈ requeued → op.Keeps keeping := by
    intro op hop
    simp only [requeued, List.mem_cons, Move.start.injEq, reduceCtorEq, List.not_mem_nil, false_or, or_false] at hop
    rcases hop with rfl | rfl | rfl | rfl | rfl
    · exact hutf8
    · trivial
    · trivial
    · exact Bool.false_ne_true
    · trivial
  have hkept := (publish_kept .plain keeping {} requeued hops greeting.kept).2
  rw [howed, hsettled, List.count_singleton_self, List.count_nil] at hkept
  exact ⟨howed, hsettled, by decide +kernel, hkept Nat.one_pos⟩

end RoadRunner.Nats.Delivery
