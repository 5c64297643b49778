import RoadRunner.Broker.Item

/-!
# Items of the beanstalk driver

The model of `beanstalk/beanstalkjobs/item.go`. A job's body is gob for an `Item`; the decoder is given, and
like gob's it leaves the pointer `Options` nil where the stream has no options.

* `panics_unpack_iff`: which bodies make `unpack` panic.
-/

namespace RoadRunner.Beanstalk

open Broker

/-- `Options`. `id` is not exported. -/
structure Options where
  priority : Int64
  pipeline : Bytes
  delay : Int64
  id : UInt64 := 0
  deriving DecidableEq

/-- `Item`. -/
structure Item where
  job : Bytes
  ident : Bytes
  payload : Bytes
  headers : Headers
  /-- `none` is the nil pointer. -/
  options : Option Options
  deriving DecidableEq

/-- The field of the consumer that `unpack` reads. -/
structure Consumer where
  priority : Int64
  deriving DecidableEq

namespace Consumer

/-- `unpack`. -/
def unpack (decode : Bytes → Option Item) (c : Consumer) (id : UInt64) (data : Bytes) : Result Item := do
  let out ← .orElse (.lib "Decode") (decode data)
  let options ← .deref out.options
  let options := if options.priority = 0 then { options with priority := c.priority } else options
  return { out with options := some { options with id } }

theorem panics_unpack_iff {decode : Bytes → Option Item} {c : Consumer} {id : UInt64} {data : Bytes} :
    (c.unpack decode id data).Panics ↔ ∃ out, decode data = some out ∧ out.options = none := by
  simp only [unpack, Result.panics_bind, Result.panics_orElse, Result.orElse_eq_ok, Result.panics_deref,
    Result.panics_pure, false_or, and_false, exists_false, or_false]

end Consumer

end RoadRunner.Beanstalk
