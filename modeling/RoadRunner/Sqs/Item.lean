import RoadRunner.Broker.Item
import RoadRunner.Lib.Decimal

/-!
# Items of the SQS driver

The model of `sqs/sqsjobs/item.go`, and of `Push` and `handleItem` of `consumer.go`: how a job becomes a
message with attributes, and how a message that was received becomes a job again.

* `roundTrip_iff`: the job comes back, with the same context, exactly if it has no pipeline. `pack` has no
  attribute for it.
* `panics_unpack_iff`: which messages make `unpack` panic.
-/

namespace RoadRunner.Sqs

open Broker

/-- `StringType`. -/
def stringType : Bytes := ascii "String"

/-- `NumberType`. -/
def numberType : Bytes := ascii "Number"

/-- `BinaryType`. -/
def binaryType : Bytes := ascii "Binary"

/-- `ApproximateReceiveCount`. -/
def approximateReceiveCount : Bytes := ascii "ApproximateReceiveCount"

/-- The attributes that a message has to have. -/
def itemAttributes : List Bytes := [rrID, rrJob, rrDelay, rrPriority, rrHeaders]

/-- `types.MessageAttributeValue`, without the list values, which are not used. -/
structure AttributeValue where
  dataType : Option Bytes := none
  binaryValue : Bytes := []
  stringValue : Option Bytes := none
  deriving DecidableEq

/-- `sqs.SendMessageInput`. -/
structure SendMessageInput where
  messageBody : Option Bytes
  queueUrl : Option Bytes
  delaySeconds : Int32
  messageAttributes : List (Bytes × AttributeValue)
  deriving DecidableEq

/-- `types.Message`. -/
structure Message where
  attributes : List (Bytes × Bytes)
  body : Option Bytes
  messageAttributes : List (Bytes × AttributeValue)
  receiptHandle : Option Bytes
  deriving DecidableEq

/-- `Options`. -/
structure Options where
  priority : Int64
  pipeline : Bytes := []
  delay : Int64
  approxReceiveCount : Int64 := 0
  queue : Option Bytes := none
  receiptHandler : Option Bytes := none
  deriving DecidableEq

/-- `Item`. -/
structure Item where
  job : Bytes
  ident : Bytes
  payload : Bytes
  headers : Headers
  options : Options
  deriving DecidableEq

/-- The consumer, with the name of its pipeline. -/
structure Consumer where
  pipeline : Bytes
  queueURL : Option Bytes
  deriving DecidableEq

/-- `fromJob`. -/
def fromJob (job : Job) : Item where
  job := job.job
  ident := job.ident
  payload := job.payload
  headers := job.headers
  options :=
    { priority := job.options.priority
      pipeline := job.options.pipeline
      delay := job.options.delay }

namespace Item

/-- The fields that make up the job. -/
def toJob (i : Item) : Job :=
  ⟨i.job, i.ident, i.payload, i.headers, ⟨i.options.priority, i.options.pipeline, i.options.delay⟩⟩

/-- `Item.Context`. -/
def context (i : Item) : Context := ⟨i.ident, i.job, i.headers, i.options.pipeline⟩

/-- `pack`. -/
def pack (json : Json) (queue : Option Bytes) (i : Item) : SendMessageInput where
  messageBody := some i.payload
  queueUrl := queue
  delaySeconds := i.options.delay.toInt32
  messageAttributes :=
    [(rrID, { dataType := some stringType, stringValue := some i.ident }),
      (rrJob, { dataType := some stringType, stringValue := some i.job }),
      (rrDelay, { dataType := some stringType, stringValue := some (Decimal.itoa i.options.delay) }),
      (rrHeaders, { dataType := some binaryType, binaryValue := json.marshal i.headers }),
      (rrPriority, { dataType := some numberType, stringValue := some (Decimal.itoa i.options.priority) })]

end Item

namespace Consumer

/-- `handleItem`, with the message that is sent. -/
def handleItem (json : Json) (c : Consumer) (msg : Item) : SendMessageInput := msg.pack json c.queueURL

/-- `Push`, with the message that is sent. -/
def push (json : Json) (c : Consumer) (jb : Job) : Except Err SendMessageInput :=
  if c.pipeline ≠ jb.options.pipeline then
    .error (.op "sqs_push" (.errorf₂ "no such pipeline: %s, actual: %s" (.str jb.options.pipeline.text)
      (.str c.pipeline.text)))
  else if 900 < jb.options.delay then
    .error (.op "sqs_push" (.errorf
      "unable to push, maximum possible delay is 900 seconds (15 minutes), provided: %d"
      (.str (Bytes.text (Decimal.itoa jb.options.delay)))))
  else .ok (c.handleItem json (fromJob jb))

/-- The error for an attribute that is missing. -/
def missing (name : Bytes) : Err := .op "sqs_unpack" (.errorf "missing queue attribute: %s" (.str name.text))

/-- `strconv.Atoi`. -/
def atoi (b : Bytes) : Result Int64 := .orElse (.op "sqs_unpack" (.lib "Atoi")) (Decimal.atoi b)

/-- The attribute, once it is known to be there. -/
def attr (msg : Message) (name : Bytes) : AttributeValue := (msg.messageAttributes.lookup name).getD {}

/-- `unpack`, once all attributes are known to be there. -/
def unpackAttributes (json : Json) (c : Consumer) (msg : Message) (count : Bytes) : Result Item := do
  let h ← .orElse (.lib "Unmarshal") (json.unmarshal (attr msg rrHeaders).binaryValue)
  let delay ← .deref (attr msg rrDelay).stringValue
  let delay ← atoi delay
  let priority ← .deref (attr msg rrPriority).stringValue
  let priority ← atoi priority
  let recCount ← atoi count
  let job ← .deref (attr msg rrJob).stringValue
  let ident ← .deref (attr msg rrID).stringValue
  let payload ← .deref msg.body
  return {
    job, ident, payload, headers := h
    options := {
      delay, priority
      approxReceiveCount := recCount
      queue := c.queueURL
      receiptHandler := msg.receiptHandle } }

/-- `unpack`. -/
def unpack (json : Json) (c : Consumer) (msg : Message) : Result Item :=
  match msg.attributes.lookup approximateReceiveCount with
  | none => .error (.op "sqs_unpack" (.str "failed to unpack the ApproximateReceiveCount attribute"))
  | some count =>
    match itemAttributes.find? fun name => (msg.messageAttributes.lookup name).isNone with
    | some name => .error (missing name)
    | none => c.unpackAttributes json msg count

end Consumer

/-- The message as it is received for the `count`-th time. -/
def SendMessageInput.received (input : SendMessageInput) (count : Int64) (receiptHandle : Option Bytes) : Message where
  attributes := [(approximateReceiveCount, Decimal.itoa count)]
  body := input.messageBody
  messageAttributes := input.messageAttributes
  receiptHandle

/-! ## The round trip -/

/-- The item as it comes back. -/
def Consumer.received (c : Consumer) (i : Item) (count : Int64) (receiptHandle : Option Bytes) : Item :=
  { i with options := {
      priority := i.options.priority
      delay := i.options.delay
      approxReceiveCount := count
      queue := c.queueURL
      receiptHandler := receiptHandle } }

theorem unpack_pack {json : Json} {c : Consumer} {i : Item} (hutf8 : HeadersUtf8 i.headers) (queue : Option Bytes)
    (count : Int64) (receiptHandle : Option Bytes) :
    c.unpack json ((i.pack json queue).received count receiptHandle) =
      .ok (c.received i count receiptHandle) := by
  have hbind : c.unpack json ((i.pack json queue).received count receiptHandle) =
      (Result.orElse (.lib "Unmarshal") (json.unmarshal (json.marshal i.headers))).bind fun h =>
        (Consumer.atoi (Decimal.itoa i.options.delay)).bind fun delay =>
          (Consumer.atoi (Decimal.itoa i.options.priority)).bind fun priority =>
            (Consumer.atoi (Decimal.itoa count)).bind fun recCount =>
              .ok ⟨i.job, i.ident, i.payload, h, ⟨priority, [], delay, recCount, c.queueURL, receiptHandle⟩⟩ := rfl
  have hatoi : ∀ n, Consumer.atoi (Decimal.itoa n) = .ok n := by
    intro n
    rw [Consumer.atoi, Decimal.atoi_itoa]
    rfl
  rw [hbind, json.unmarshal_marshal _ hutf8, hatoi, hatoi, hatoi]
  rfl

/-- For every job that `Push` accepts, the message is read, and the job and its context come back exactly if the
job has no pipeline. -/
theorem roundTrip_iff (json : Json) (c : Consumer) (job : Job) (input : SendMessageInput)
    (hpush : c.push json job = .ok input) (hutf8 : (fromJob job).context.Utf8) (count : Int64)
    (receiptHandle : Option Bytes) :
    ∃ item, c.unpack json (input.received count receiptHandle) = .ok item ∧
      (item.toJob = job ↔ job.options.pipeline = []) ∧
      (json.marshalContext item.context = json.marshalContext (fromJob job).context ↔
        job.options.pipeline = []) := by
  obtain rfl : c.handleItem json (fromJob job) = input := by
    unfold Consumer.push at hpush
    split at hpush
    · cases hpush
    · split at hpush
      · cases hpush
      · exact Except.ok.inj hpush
  refine ⟨_, unpack_pack hutf8.headers _ count receiptHandle, ?_, ?_⟩
  · constructor
    · intro h
      exact (congrArg (fun j => j.options.pipeline) h).symm
    · intro h
      obtain ⟨name, ident, payload, headers, priority, pipeline, delay⟩ := job
      obtain rfl : pipeline = [] := h
      rfl
  · constructor
    · intro h
      have hctx := json.marshalContext_injective (c.received (fromJob job) count receiptHandle).context
        (fromJob job).context ⟨hutf8.id, hutf8.job, hutf8.headers, utf8_nil⟩ hutf8 h
      exact (congrArg Context.pipeline hctx).symm
    · intro h
      have hctx : (fromJob job).context = (c.received (fromJob job) count receiptHandle).context := by
        rw [Item.context, show (fromJob job).options.pipeline = [] from h]
        rfl
      rw [hctx]

/-- A job with all its texts, of a pipeline that has no name. -/
def unnamedJob : Job :=
  ⟨ascii "mail", ascii "1", ascii "hello", some [(ascii "attempts", [ascii "1"])], ⟨10, [], 5⟩⟩

theorem roundTrip_unnamed :
    let c : Consumer := ⟨[], none⟩
    ∃ item, c.unpack .plain (((fromJob unnamedJob).pack .plain none).received 1 none) = .ok item ∧
      item.toJob = unnamedJob := by
  intro c
  have hheaders : HeadersUtf8 (fromJob unnamedJob).headers := by
    rintro m ⟨⟩ e he
    rw [List.mem_singleton.mp he]
    refine ⟨⟨"attempts".toList, by decide +kernel⟩, fun v hv => ?_⟩
    rw [List.mem_singleton.mp hv]
    exact ⟨"1".toList, by decide +kernel⟩
  have hutf8 : (fromJob unnamedJob).context.Utf8 :=
    ⟨⟨"1".toList, by decide +kernel⟩, ⟨"mail".toList, by decide +kernel⟩, hheaders, utf8_nil⟩
  obtain ⟨item, hitem, hjob, -⟩ := roundTrip_iff .plain c unnamedJob _ rfl hutf8 1 none
  exact ⟨item, hitem, hjob.mpr rfl⟩

/-- The pipeline `sqs` is not in the item that comes back. -/
theorem pipeline_lost :
    let c : Consumer := ⟨ascii "sqs", none⟩
    let job : Job := ⟨ascii "job", ascii "1", ascii "payload", none, ⟨10, ascii "sqs", 5⟩⟩
    let input := (fromJob job).pack .plain none
    let item : Item := ⟨ascii "job", ascii "1", ascii "payload", none, ⟨10, [], 5, 1, none, none⟩⟩
    c.push .plain job = .ok input ∧ c.unpack .plain (input.received 1 none) = .ok item ∧
      item.toJob ≠ job ∧ item.context ≠ (fromJob job).context := by
  intro c job input item
  exact ⟨rfl, unpack_pack headersUtf8_none none 1 none, by decide, by decide⟩

/-! ## Panics -/

namespace Consumer

/-- What `unpack` reads before it needs a `StringValue`. -/
structure Readable (json : Json) (msg : Message) : Prop where
  count : (msg.attributes.lookup approximateReceiveCount).isSome
  attributes : ∀ name ∈ itemAttributes, (msg.messageAttributes.lookup name).isSome
  headers : (json.unmarshal (attr msg rrHeaders).binaryValue).isSome

/-- The text is there, and it is a number. -/
def IsNumber (b : Option Bytes) : Prop := ∃ text n, b = some text ∧ Decimal.atoi text = some n

/-- A pointer that `unpack` comes to is nil. -/
def MeetsNil (msg : Message) : Prop :=
  (attr msg rrDelay).stringValue = none ∨
    IsNumber (attr msg rrDelay).stringValue ∧
      ((attr msg rrPriority).stringValue = none ∨
        IsNumber (attr msg rrPriority).stringValue ∧ IsNumber (msg.attributes.lookup approximateReceiveCount) ∧
          ((attr msg rrJob).stringValue = none ∨ (attr msg rrID).stringValue = none ∨ msg.body = none))

theorem not_panics_atoi {b : Bytes} : ¬ (atoi b).Panics := Result.panics_orElse

theorem atoi_eq_ok {b : Bytes} {n : Int64} : atoi b = .ok n ↔ Decimal.atoi b = some n := Result.orElse_eq_ok

/-- A number is read through a pointer. -/
theorem panics_number {α : Type} {b : Option Bytes} {f : Int64 → Result α} {q : Prop}
    (hf : ∀ n, (f n).Panics ↔ q) :
    (Result.deref b >>= fun text => atoi text >>= f).Panics ↔ b = none ∨ IsNumber b ∧ q := by
  simp only [Result.panics_bind, Result.panics_deref, Result.deref_eq_ok, not_panics_atoi, atoi_eq_ok, false_or, hf]
  refine or_congr_right ⟨?_, ?_⟩
  · rintro ⟨text, htext, n, hn, hq⟩
    exact ⟨⟨text, n, htext, hn⟩, hq⟩
  · rintro ⟨⟨text, n, htext, hn⟩, hq⟩
    exact ⟨text, htext, n, hn, hq⟩

/-- A text is read through a pointer. -/
theorem panics_text {α : Type} {b : Option Bytes} {f : Bytes → Result α} {q : Prop}
    (hf : ∀ text, (f text).Panics ↔ q) : (Result.deref b >>= f).Panics ↔ b = none ∨ q := by
  cases b with
  | none => exact iff_of_true ⟨_, rfl⟩ (.inl rfl)
  | some text =>
    rw [show (Result.deref (some text) >>= f) = f text from rfl, hf text]
    simp

theorem panics_unpackAttributes_iff {json : Json} {c : Consumer} {msg : Message} {count : Bytes}
    (hcount : msg.attributes.lookup approximateReceiveCount = some count) :
    (c.unpackAttributes json msg count).Panics ↔
      (json.unmarshal (attr msg rrHeaders).binaryValue).isSome ∧ MeetsNil msg := by
  have hnumber : IsNumber (some count) ↔ ∃ n, Decimal.atoi count = some n := by simp [IsNumber]
  rw [MeetsNil, hcount, hnumber, unpackAttributes, Result.panics_bind]
  simp only [Result.panics_orElse, Result.orElse_eq_ok, false_or, Option.isSome_iff_exists, ← exists_and_right]
  refine exists_congr fun h => and_congr_right fun _ => ?_
  refine panics_number fun delay => panics_number fun priority => ?_
  simp only [Result.panics_bind (r := atoi count), not_panics_atoi, atoi_eq_ok, false_or]
  refine exists_congr fun recCount => and_congr_right fun _ => ?_
  refine panics_text fun job => panics_text fun ident => ?_
  rw [panics_text (q := False) fun payload => by simp]
  simp

theorem panics_unpack_iff {json : Json} {c : Consumer} {msg : Message} :
    (c.unpack json msg).Panics ↔ Readable json msg ∧ MeetsNil msg := by
  unfold unpack
  split
  case h_1 hcount =>
    refine iff_of_false (Result.panics_error _) fun h => ?_
    simpa [hcount] using h.1.count
  case h_2 count hcount =>
    split
    case h_1 name hname =>
      refine iff_of_false (Result.panics_error _) fun h => ?_
      have hmem := List.mem_of_find?_eq_some hname
      have hnone := List.find?_some hname
      have hsome := h.1.attributes name hmem
      rw [Option.isNone_iff_eq_none] at hnone
      rw [hnone] at hsome
      cases hsome
    case h_2 hfind =>
      have hattributes : ∀ name ∈ itemAttributes, (msg.messageAttributes.lookup name).isSome := by
        simpa using hfind
      rw [panics_unpackAttributes_iff hcount]
      constructor
      · rintro ⟨hheaders, hnil⟩
        exact ⟨⟨by rw [hcount]; rfl, hattributes, hheaders⟩, hnil⟩
      · rintro ⟨hreadable, hnil⟩
        exact ⟨hreadable.headers, hnil⟩

end Consumer

end RoadRunner.Sqs
