import RoadRunner.Broker.Item

/-!
# Items of the NATS driver

The model of `nats/natsjobs/item.go` and of one turn of the loop of `listenerStart`. A message's bytes are JSON
for an `Item`; the decoder is given, and like `json.Unmarshal` it leaves the pointer `Options` nil where the
document has no options.

* `panics_receive_iff`: which messages make the listener panic.
-/

namespace RoadRunner.Nats

open Broker

/-- `Options`. -/
structure Options where
  priority : Int64
  pipeline : Bytes
  delay : Int64
  deleteAfterAck : Bool := false
  stream : Bytes := []
  seq : UInt64 := 0
  deriving DecidableEq

/-- `Item`. -/
structure Item where
  job : Bytes
  ident : Bytes
  payload : Bytes
  headers : Headers
  /-- `none` is the nil pointer. -/
  options : Option Options
  deriving DecidableEq

/-- The fields of `consumer` that the listener and `Stop` read. -/
structure Consumer where
  priority : Int64
  deleteAfterAck : Bool
  stream : Bytes
  deleteStreamOnStop : Bool := false
  deriving DecidableEq

/-- A message, with what `Metadata` and `InProgress` return for it. -/
structure Msg where
  /-- `meta.Sequence.Stream`. -/
  metadata : Option UInt64
  inProgress : Bool
  data : Bytes

namespace Consumer

/-- What the listener does with a message: the item it inserts. On an error it goes on with the next message. -/
def receive (decode : Bytes → Option Item) (c : Consumer) (m : Msg) : Result Item := do
  let seq ← .orElse (.lib "Metadata") m.metadata
  .orElse (.lib "InProgress") (if m.inProgress then some () else none)
  let item ← .orElse (.lib "Unmarshal") (decode m.data)
  let options ← .deref item.options
  let options := { options with seq }
  let options :=
    if c.deleteAfterAck then { options with stream := c.stream, deleteAfterAck := c.deleteAfterAck } else options
  let options := if options.priority = 0 then { options with priority := c.priority } else options
  return { item with options := some options }

theorem panics_receive_iff {decode : Bytes → Option Item} {c : Consumer} {m : Msg} :
    (c.receive decode m).Panics ↔
      m.metadata.isSome ∧ m.inProgress = true ∧ ∃ item, decode m.data = some item ∧ item.options = none := by
  simp only [receive, Result.panics_bind, Result.panics_orElse, Result.orElse_eq_ok, Result.panics_deref,
    Result.panics_pure, false_or, and_false, exists_false, or_false]
  constructor
  · rintro ⟨seq, hseq, _, hprogress, item, hitem, hnil⟩
    refine ⟨by rw [hseq]; rfl, ?_, item, hitem, hnil⟩
    by_contra hnot
    rw [if_neg hnot] at hprogress
    cases hprogress
  · rintro ⟨hseq, hprogress, item, hitem, hnil⟩
    obtain ⟨seq, hseq⟩ := Option.isSome_iff_exists.mp hseq
    exact ⟨seq, hseq, (), if_pos hprogress, item, hitem, hnil⟩

end Consumer

end RoadRunner.Nats
