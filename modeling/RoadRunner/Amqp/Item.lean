import RoadRunner.Broker.Item

/-!
# Items of the AMQP driver

The model of `amqp/amqpjobs/item.go`: how a job becomes the header table of a message, and how a delivery
becomes a job again.

* `Value`: what a header can be, one constructor for each type of the AMQP table codec, and Go's `int`.
* `pack`, `unpack`, `fromDelivery`: the conversions. `Value.asserted` is the type switch that `unpack` makes for
  the delay and for the priority: it accepts four types and asserts one.
* `unpack_pack`: a message of `pack` is always read; `unpack_pack_eq`: it gives the job back.
* `panics_unpack_iff`: which deliveries make `unpack` panic.
-/

namespace RoadRunner.Amqp

open Broker

/-- A value of a header table. -/
inductive Value where
  | bool (b : Bool)
  | uint8 (v : UInt8)
  | int8 (v : Int8)
  | int16 (v : Int16)
  | int32 (v : Int32)
  | int64 (v : Int64)
  | int (v : Int64)
  | float32 (bits : UInt32)
  | float64 (bits : UInt64)
  | decimal (scale : UInt8) (value : Int32)
  | string (s : Bytes)
  | bytes (b : Bytes)
  | timestamp (seconds : Int64)
  | array (values : List Value)
  | table (fields : List (Bytes × Value))
  | void

/-- `amqp.Table`. -/
abbrev Table := List (Bytes × Value)

/-- `amqp.Delivery`. -/
structure Delivery where
  headers : Table
  body : Bytes

/-- `Options`. -/
structure Options where
  priority : Int64
  pipeline : Bytes
  delay : Int64
  multipleAsk : Bool := false
  requeue : Bool := false
  deriving DecidableEq

/-- `Item`. -/
structure Item where
  job : Bytes
  ident : Bytes
  payload : Bytes
  headers : Headers
  options : Options
  deriving DecidableEq

/-- What the conversions read of the consumer. -/
structure Consumer where
  priority : Int64 := 10
  multipleAck : Bool := false
  requeueOnFail : Bool := false
  deriving DecidableEq

/-- `fromJob`. -/
def fromJob (job : Job) : Item where
  job := job.job
  ident := job.ident
  payload := job.payload
  headers := job.headers
  options :=
    { priority := job.options.priority
      pipeline := job.options.pipeline
      delay := job.options.delay }

namespace Item

/-- `Body`. -/
def body (i : Item) : Bytes := i.payload

/-- Nanoseconds of `time.Second * time.Duration(o.Delay)`: an `int64` product, which wraps. -/
def delayDuration (i : Item) : Int64 := 1000000000 * i.options.delay

end Item

/-- Pack the job's metadata into headers. -/
def pack (json : Json) (id : Bytes) (j : Item) : Table :=
  [(rrID, .string id),
    (rrJob, .string j.job),
    (rrPipeline, .string j.options.pipeline),
    (rrHeaders, .bytes (json.marshal j.headers)),
    (rrDelay, .int64 j.options.delay),
    (rrPriority, .int64 j.options.priority)]

namespace Value

/-- The value of a header that is a string. -/
def string? : Option Value → Option Bytes
  | some (string s) => some s
  | _ => none

/-- The type switch on a delay or a priority: for `int`, `int16`, `int32` and `int64` it asserts `int64`, and
it leaves 0 for the rest. -/
def asserted : Value → Result Int64
  | int64 v => .ok v
  | int _ => .panicked (.typeAssertion "int" "int64")
  | int16 _ => .panicked (.typeAssertion "int16" "int64")
  | int32 _ => .panicked (.typeAssertion "int32" "int64")
  | _ => .ok 0

/-- A delay or a priority; `unset` if there is no header for it. -/
def integer (unset : Int64) : Option Value → Result Int64
  | none => .ok unset
  | some t => t.asserted

end Value

namespace Consumer

/-- The error for a header that is missing, or is no string. -/
def missing (name : Bytes) : Err := .errorf "missing header `%s`" (.str name.text)

/-- `json.Unmarshal` of the headers, where they are bytes. -/
def unmarshalHeaders (json : Json) : Option Value → Result Headers
  | some (.bytes h) => .orElse (.lib "Unmarshal") (json.unmarshal h)
  | _ => .ok none

/-- `unpack`. -/
def unpack (json : Json) (c : Consumer) (d : Delivery) : Result Item := do
  let ident ← .orElse (missing rrID) (Value.string? (d.headers.lookup rrID))
  let job ← .orElse (missing rrJob) (Value.string? (d.headers.lookup rrJob))
  let pipeline := (Value.string? (d.headers.lookup rrPipeline)).getD []
  let headers ← unmarshalHeaders json (d.headers.lookup rrHeaders)
  let delay ← Value.integer 0 (d.headers.lookup rrDelay)
  let priority ← Value.integer c.priority (d.headers.lookup rrPriority)
  return {
    job, ident, payload := d.body, headers
    options := { priority, pipeline, delay, multipleAsk := c.multipleAck, requeue := c.requeueOnFail } }

/-- `fromDelivery`. -/
def fromDelivery (json : Json) (c : Consumer) (d : Delivery) : Result Item :=
  match c.unpack json d with
  | .error err => .error (.op "from_delivery_convert" err)
  | r => r

/-- The item as it comes back: the consumer's settings are in its options. -/
def received (c : Consumer) (id : Bytes) (headers : Headers) (j : Item) : Item :=
  { j with
    ident := id
    headers
    options := { j.options with multipleAsk := c.multipleAck, requeue := c.requeueOnFail } }

variable {json : Json} {c : Consumer}

theorem unpack_pack_bind (id : Bytes) (j : Item) :
    c.unpack json ⟨pack json id j, j.body⟩ =
      (Result.orElse (.lib "Unmarshal") (json.unmarshal (json.marshal j.headers))).bind fun h =>
        .ok (c.received id h j) := rfl

/-- Every message of `pack` is read, with the headers that the codec makes of the job's. -/
theorem unpack_pack (id : Bytes) (j : Item) :
    ∃ h, c.unpack json ⟨pack json id j, j.body⟩ = .ok (c.received id h j) := by
  obtain ⟨h, hh⟩ := Option.isSome_iff_exists.mp (json.isSome_unmarshal_marshal j.headers)
  exact ⟨h, by rw [unpack_pack_bind, hh]; rfl⟩

theorem fromDelivery_pack (id : Bytes) (j : Item) :
    ∃ h, c.fromDelivery json ⟨pack json id j, j.body⟩ = .ok (c.received id h j) := by
  obtain ⟨h, hh⟩ : ∃ h, c.unpack json ⟨pack json id j, j.body⟩ = .ok (c.received id h j) := unpack_pack id j
  exact ⟨h, by rw [fromDelivery, hh]⟩

/-- An item acks as its consumer is configured. -/
theorem multipleAsk_of_fromDelivery {d : Delivery} {i : Item} (h : c.fromDelivery json d = .ok i) :
    i.options.multipleAsk = c.multipleAck := by
  have hunpack : c.unpack json d = .ok i := by
    unfold fromDelivery at h
    split at h
    case h_1 => cases h
    case h_2 => exact h
  simp only [unpack, Result.bind_eq_ok] at hunpack
  obtain ⟨ident, -, job, -, headers, -, delay, -, priority, -, hi⟩ := hunpack
  obtain rfl := Result.ok.inj hi
  rfl

/-- For every item, with any id, a job comes back as it was packed. -/
theorem unpack_pack_eq (json : Json) (c : Consumer) (id : Bytes) (j : Item) (hutf8 : HeadersUtf8 j.headers) :
    c.unpack json ⟨pack json id j, j.body⟩ =
      .ok { j with
        ident := id
        options := { j.options with multipleAsk := c.multipleAck, requeue := c.requeueOnFail } } := by
  rw [unpack_pack_bind, json.unmarshal_marshal _ hutf8]
  rfl

/-- A job with no headers, priority 0 and a negative delay. -/
def bareItem : Item := ⟨ascii "job", ascii "1", [0, 255], none, ⟨0, ascii "amqp", -5, false, false⟩⟩

theorem unpack_pack_bare :
    HeadersUtf8 bareItem.headers ∧
      unpack .plain {} ⟨pack .plain (ascii "1") bareItem, bareItem.body⟩ = .ok bareItem :=
  ⟨nofun, unpack_pack_eq .plain {} (ascii "1") bareItem nofun⟩

/-! ## Panics -/

/-- An integer of a type that the type switch takes for an `int64`. -/
def Narrow : Option Value → Prop
  | some (.int _) | some (.int16 _) | some (.int32 _) => True
  | _ => False

theorem panics_asserted {v : Value} : v.asserted.Panics ↔ Narrow (some v) := by
  cases v with
  | int v => exact iff_of_true ⟨_, rfl⟩ trivial
  | int16 v => exact iff_of_true ⟨_, rfl⟩ trivial
  | int32 v => exact iff_of_true ⟨_, rfl⟩ trivial
  | _ => exact iff_of_false nofun id

/-- The part of the table before the delay is read. -/
structure Readable (json : Json) (d : Delivery) : Prop where
  ident : (Value.string? (d.headers.lookup rrID)).isSome
  job : (Value.string? (d.headers.lookup rrJob)).isSome
  headers : ∃ h, unmarshalHeaders json (d.headers.lookup rrHeaders) = .ok h

theorem panics_integer {u : Int64} {o : Option Value} : (Value.integer u o).Panics ↔ Narrow o := by
  cases o with
  | none => exact iff_of_false nofun id
  | some v => exact panics_asserted

theorem integer_eq_ok {u : Int64} {o : Option Value} (h : ¬ Narrow o) : ∃ v, Value.integer u o = .ok v := by
  rw [← panics_integer (u := u)] at h
  cases hr : Value.integer u o with
  | ok v => exact ⟨v, rfl⟩
  | panicked p => exact absurd ⟨p, hr⟩ h
  | error err =>
    cases o with
    | none => cases hr
    | some v => cases v <;> cases hr

theorem panics_unpack_iff {d : Delivery} :
    (c.unpack json d).Panics ↔
      Readable json d ∧ (Narrow (d.headers.lookup rrDelay) ∨ Narrow (d.headers.lookup rrPriority)) := by
  have hheaders : ¬ (unmarshalHeaders json (d.headers.lookup rrHeaders)).Panics := by
    unfold unmarshalHeaders
    split <;> simp
  simp only [unpack, Result.panics_bind, Result.panics_orElse, Result.orElse_eq_ok, hheaders, panics_integer,
    Result.panics_pure, false_or, and_false, exists_false, or_false]
  constructor
  · rintro ⟨ident, hident, job, hjob, h, hh, hdelay | ⟨v, -, hpriority⟩⟩
    · exact ⟨⟨by rw [hident]; rfl, by rw [hjob]; rfl, h, hh⟩, .inl hdelay⟩
    · exact ⟨⟨by rw [hident]; rfl, by rw [hjob]; rfl, h, hh⟩, .inr hpriority⟩
  · rintro ⟨⟨hident, hjob, h, hh⟩, hnarrow⟩
    obtain ⟨ident, hident⟩ := Option.isSome_iff_exists.mp hident
    obtain ⟨job, hjob⟩ := Option.isSome_iff_exists.mp hjob
    refine ⟨ident, hident, job, hjob, h, hh, ?_⟩
    by_cases hdelay : Narrow (d.headers.lookup rrDelay)
    · exact .inl hdelay
    · obtain ⟨v, hv⟩ := integer_eq_ok (u := 0) hdelay
      exact .inr ⟨v, hv, hnarrow.resolve_left hdelay⟩

theorem panics_fromDelivery {d : Delivery} : (c.fromDelivery json d).Panics ↔ (c.unpack json d).Panics := by
  unfold fromDelivery
  split
  case h_1 err heq => simp [heq]
  case h_2 => rfl

end Consumer

end RoadRunner.Amqp
