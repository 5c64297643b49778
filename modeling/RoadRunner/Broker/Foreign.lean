import RoadRunner.Amqp.Item
import RoadRunner.Sqs.Item
import RoadRunner.Nats.Item
import RoadRunner.Beanstalk.Item

/-!
# Messages of other producers

A queue can hold messages that no driver has written. Each driver converts what the broker delivers; here are
all of them, with the consumer that receives them, and which ones make it panic.

* `Delivered.not_panics_iff`: a message is converted or refused with an error exactly if it is `Tame`.
-/

namespace RoadRunner.Broker

/-- The decoders that the drivers use. -/
structure Decoders where
  json : Json
  nats : Bytes → Option Nats.Item
  gob : Bytes → Option Beanstalk.Item

/-- What a broker hands to a consumer. -/
inductive Delivered where
  | amqp (c : Amqp.Consumer) (d : Amqp.Delivery)
  | sqs (c : Sqs.Consumer) (msg : Sqs.Message)
  | nats (c : Nats.Consumer) (m : Nats.Msg)
  | beanstalk (c : Beanstalk.Consumer) (id : UInt64) (body : Bytes)

namespace Delivered

/-- The conversion panics. -/
def Panics (ds : Decoders) : Delivered → Prop
  | amqp c d => (c.fromDelivery ds.json d).Panics
  | sqs c msg => (c.unpack ds.json msg).Panics
  | nats c m => (c.receive ds.nats m).Panics
  | beanstalk c id body => (c.unpack ds.gob id body).Panics

/-- If the part of the message before is read, a delay and a priority of AMQP are no `int`, `int16` or `int32`,
what SQS has to have as a string has a `StringValue`, and an item of NATS or beanstalk has options. -/
def Tame (ds : Decoders) : Delivered → Prop
  | amqp _ d => Amqp.Consumer.Readable ds.json d →
      ¬ Amqp.Consumer.Narrow (d.headers.lookup rrDelay) ∧ ¬ Amqp.Consumer.Narrow (d.headers.lookup rrPriority)
  | sqs _ msg => Sqs.Consumer.Readable ds.json msg → ¬ Sqs.Consumer.MeetsNil msg
  | nats _ m => m.metadata.isSome → m.inProgress = true → ∀ item, ds.nats m.data = some item → item.options ≠ none
  | beanstalk _ _ body => ∀ out, ds.gob body = some out → out.options ≠ none

/-- For every message of the four brokers: the conversion yields an item or an error exactly if the message is
`Tame`. -/
theorem not_panics_iff (ds : Decoders) (m : Delivered) : ¬ m.Panics ds ↔ m.Tame ds := by
  cases m with
  | amqp c d =>
    simp only [Panics, Tame, Amqp.Consumer.panics_fromDelivery, Amqp.Consumer.panics_unpack_iff, not_and, not_or]
  | sqs c msg => simp only [Panics, Tame, Sqs.Consumer.panics_unpack_iff, not_and]
  | nats c m =>
    simp only [Panics, Tame, Nats.Consumer.panics_receive_iff, not_and, not_exists, ne_eq]
  | beanstalk c id body =>
    simp only [Panics, Tame, Beanstalk.Consumer.panics_unpack_iff, not_and, not_exists, ne_eq]

/-- A delay that is an `int32` of AMQP makes the listener panic. -/
theorem int32_delay_panics :
    Amqp.Consumer.fromDelivery .plain {}
        ⟨[(rrID, .string (ascii "1")), (rrJob, .string (ascii "job")), (rrDelay, .int32 5)], ascii "payload"⟩ =
      .panicked (.typeAssertion "int32" "int64") := by
  rfl

end Delivered

end RoadRunner.Broker
