import RoadRunner.Amqp.Item
import RoadRunner.Lib.Calls
import RoadRunner.Lib.Update

/-!
# The counter of delayed messages

The model of `Push` and `handleItem` of `amqp/amqpjobs/consumer.go` and of `Ack`, `Nack` and `Requeue` of
`item.go`, with the part of the broker that they use. Calls overlap: a call is the list of its changes of the
counter and of its calls to the broker that have an effect (`Effect`), and these are taken one at a time.

The counter goes up for an item whose `DelayDuration` is positive, when it is published. It goes down in every
`Ack`, `Nack` and `Requeue` of an item whose `Delay` is positive. A message that is nacked with requeue is
delivered again, and an item can be acked after a call for it has failed.

* `delayed_right_iff`: without `multiple_ask`, the counter is right exactly if every call is `Settling`.
-/

namespace RoadRunner.Amqp.Delayed

open Broker Calls Update

/-- A message in the queue: published by this consumer, or by others. -/
inductive Message where
  | own (item : Item)
  | foreign (d : Delivery)

namespace Message

/-- As the broker delivers it. -/
def delivery (json : Json) : Message → Delivery
  | own item => ⟨pack json item.ident item, item.body⟩
  | foreign d => d

/-- This consumer has published it to a delay queue. -/
def late : Message → Bool
  | own item => 0 < item.delayDuration
  | foreign _ => false

end Message

/-- A delivery, with the item that the listener has made of it. -/
structure Held where
  tag : Nat
  message : Message
  item : Item
  /-- It was not acked or nacked. -/
  unacked : Bool := true

/-- What the calls share: the counter, and the broker's messages. -/
structure Shared where
  delayed : Int := 0
  /-- In the queue, or in a delay queue. -/
  queue : List Message := []
  /-- The deliveries for which no call is in progress. -/
  items : List Held := []
  /-- The tag of the next delivery. -/
  tag : Nat := 0
  /-- The deliveries below this tag were acked by an ack with `multiple`. -/
  acked : Nat := 0

namespace Shared

/-- The broker waits for an ack of this delivery. -/
def waits (s : Shared) (h : Held) : Bool := h.unacked && s.acked ≤ h.tag

/-- How many delayed messages are not finally settled. -/
def unsettled (s : Shared) : Nat :=
  s.queue.countP Message.late + s.items.countP fun h => s.waits h && h.message.late

end Shared

/-- The counter is the number of delayed jobs that are not settled. -/
def Ok (s : Shared) : Prop := s.delayed = s.unsettled

instance (s : Shared) : Decidable (Ok s) := inferInstanceAs (Decidable (_ = _))

/-- One step of a call on the counter or the broker. -/
inductive Effect where
  /-- `atomic.AddInt64(delayed, d)`. -/
  | count (d : Int)
  | publish (m : Message)
  | ack (h : Held) (multiple : Bool)
  | nack (h : Held) (requeue : Bool)
  /-- The ack or the nack has failed. -/
  | keep (h : Held)

/-- One step. An ack or a nack of a delivery for which the broker does not wait changes nothing there. -/
def act (s : Shared) : Effect → Shared
  | .count d => { s with delayed := s.delayed + d }
  | .publish m => { s with queue := s.queue ++ [m] }
  | .ack h multiple =>
    { s with
      items := s.items ++ [{ h with unacked := false }]
      acked := if multiple && s.waits h then h.tag + 1 else s.acked }
  | .nack h requeue =>
    { s with
      items := s.items ++ [{ h with unacked := false }]
      queue := if requeue && s.waits h then s.queue ++ [h.message] else s.queue }
  | .keep h => { s with items := s.items ++ [h] }

/-- Which calls to the broker fail, and whether the context expires before the publish channel is free. -/
structure Faults where
  expired : Bool := false
  declare : Bool := false
  bind : Bool := false
  publish : Bool := false
  /-- The `Ack` or the `Nack` of the delivery. -/
  reply : Bool := false
  deriving DecidableEq

/-- The steps of a call, and the error that it returns. -/
abbrev Outcome := List Effect × Option Err

section

variable (f : Faults)

/-- `handleItem`. -/
def handleItem (msg : Item) : Outcome :=
  let failed (call : String) := some (Err.op "rabbitmq_handle_item" (.lib call))
  if f.expired then ([], failed "Done")
  else if 0 < msg.delayDuration then
    if f.declare then ([.count 1, .count (-1)], failed "QueueDeclare")
    else if f.bind then ([.count 1, .count (-1)], failed "QueueBind")
    else if f.publish then ([.count 1, .count (-1)], failed "Publish")
    else ([.count 1, .publish (.own msg)], none)
  else if f.publish then ([], failed "Publish")
  else ([.publish (.own msg)], none)

/-- `Push`; `pipe` is the name of the pipeline. -/
def push (pipe : Bytes) (job : Job) : Outcome :=
  if pipe ≠ job.options.pipeline then
    ([], some (.op "rabbitmq_push"
      (.errorf₂ "no such pipeline: %s, actual: %s" (.str job.options.pipeline.text) (.str pipe.text))))
  else
    ((handleItem f (fromJob job)).1, (handleItem f (fromJob job)).2.map (.op "rabbitmq_push"))

/-- The counter goes down for an item with a delay. -/
def uncount (i : Item) : List Effect := if 0 < i.options.delay then [.count (-1)] else []

/-- `d.Ack(multiple)`. -/
def ackDelivery (h : Held) (multiple : Bool) : Outcome :=
  if f.reply then ([.keep h], some (.lib "Ack")) else ([.ack h multiple], none)

/-- `d.Nack(false, requeue)`. -/
def nackDelivery (h : Held) (requeue : Bool) : Outcome :=
  if f.reply then ([.keep h], some (.lib "Nack")) else ([.nack h requeue], none)

/-- `Item.Ack`. -/
def ack (h : Held) : Outcome :=
  let replied := ackDelivery f h h.item.options.multipleAsk
  (uncount h.item ++ replied.1, replied.2)

/-- `Item.Nack`. -/
def nack (h : Held) : Outcome :=
  let replied := nackDelivery f h h.item.options.requeue
  (uncount h.item ++ replied.1, replied.2)

/-- The delivery, with what `Requeue` writes into its item. -/
def Held.overwrite (h : Held) (headers : Headers) (delay : Int64) : Held :=
  { h with item := { h.item with headers, options := { h.item.options with delay } } }

/-- `Requeue`. It calls `handleItem` with the background context, which does not expire. -/
def requeue (headers : Headers) (delay : Int64) (h : Held) : Outcome :=
  let handled := handleItem { f with expired := false } (h.overwrite headers delay).item
  match handled.2 with
  | some err =>
    let replied := nackDelivery f (h.overwrite headers delay) true
    (uncount h.item ++ handled.1 ++ replied.1,
      some (replied.2.elim err (.errorf₂ "requeue error: %v\nack error: %v" err)))
  | none =>
    let replied := ackDelivery f (h.overwrite headers delay) false
    (uncount h.item ++ handled.1 ++ replied.1, replied.2)

end

/-- The calls for an item. -/
inductive Call where
  | ack (f : Faults)
  | nack (f : Faults)
  | requeue (headers : Headers) (delay : Int64) (f : Faults)

namespace Call

/-- The steps of a call for a delivery, and its error. -/
def outcome (h : Held) : Call → Outcome
  | ack f => Delayed.ack f h
  | nack f => Delayed.nack f h
  | requeue headers delay f => Delayed.requeue f headers delay h

/-- After the call the message will not be delivered again. -/
def settles (h : Held) : Call → Bool
  | ack f => !f.reply
  | nack f => !f.reply && !h.item.options.requeue
  | requeue headers delay f =>
    !f.reply && (handleItem { f with expired := false } (h.overwrite headers delay).item).2.isNone

end Call

/-- What can begin. -/
inductive Op where
  | push (job : Job) (f : Faults)
  /-- A message of another publisher. -/
  | arrive (d : Delivery)
  /-- The broker delivers the `n`-th message. -/
  | deliver (n : Nat)
  /-- A call for the `n`-th delivery. -/
  | call (n : Nat) (call : Call)

section

variable (json : Json) (c : Consumer) (pipe : Bytes)

/-- The listener makes an item of the delivery. It acks one that it cannot convert; a panic ends the process. -/
def deliver (s : Shared) (n : Nat) : Shared :=
  match s.queue[n]? with
  | none => s
  | some m =>
    match c.fromDelivery json (m.delivery json) with
    | .ok item =>
      { s with
        queue := s.queue.eraseIdx n
        items := s.items ++ [{ tag := s.tag, message := m, item }]
        tag := s.tag + 1 }
    | .error _ => { s with queue := s.queue.eraseIdx n, tag := s.tag + 1 }
    | .panicked _ => s

/-- How an operation begins, and its further steps. -/
def start (s : Shared) : Op → Shared × List Effect
  | .push job f => (s, (push f pipe job).1)
  | .arrive d => ({ s with queue := s.queue ++ [.foreign d] }, [])
  | .deliver n => (deliver json c s n, [])
  | .call n call =>
    match s.items[n]? with
    | none => (s, [])
    | some h => ({ s with items := s.items.eraseIdx n }, (call.outcome h).1)

/-- The consumer as a system of calls. -/
def system : System Shared Op Effect Unit where
  start := start json c pipe
  act s e _ := some (act s e)

end

/-- The counter is not negative, and it is right whenever the calls in progress have returned. -/
structure Right (json : Json) (c : Consumer) (pipe : Bytes) (s : State Shared Effect) : Prop where
  nonneg : 0 ≤ s.shared.delayed
  sound : Sound (system json c pipe) Ok s

/-- A call for a delivery takes one off exactly if it finally settles a delayed message. -/
def Settling (s : State Shared Effect) : Move Op Unit → Prop
  | .start (.call n call) =>
    ∀ h ∈ s.shared.items[n]?, 0 < h.item.options.delay ↔ h.unacked && h.message.late && call.settles h
  | _ => True

instance (s : State Shared Effect) : ∀ m, Decidable (Settling s m)
  | .start (.call n call) =>
    inferInstanceAs (Decidable (∀ h ∈ s.shared.items[n]?,
      0 < h.item.options.delay ↔ h.unacked && h.message.late && call.settles h))
  | .start (.push _ _) | .start (.arrive _) | .start (.deliver _) | .next _ _ => inferInstanceAs (Decidable True)

/-! ## The balance -/

/-- The delivery is of a delayed message that is not settled, if no ack has `multiple`. -/
def Held.owed (h : Held) : Bool := h.unacked && h.message.late

/-- By how much the counter is too high. -/
def Shared.balance (s : Shared) : Int := s.delayed - s.unsettled

/-- How an effect changes the balance. -/
def Effect.weight : Effect → Int
  | .count d => d
  | .publish m => -m.late.toNat
  | .ack _ _ => 0
  | .nack h requeue => -(requeue && h.owed).toNat
  | .keep h => -h.owed.toNat

/-- The effect is no ack with `multiple`, and gives back no item with it. -/
def Effect.Single : Effect → Prop
  | .ack h multiple => h.item.options.multipleAsk = false ∧ multiple = false
  | .nack h _ | .keep h => h.item.options.multipleAsk = false
  | _ => True

theorem Shared.waits_of_acked {s : Shared} (hs : s.acked = 0) (h : Held) : s.waits h = h.unacked := by
  simp [Shared.waits, hs]

theorem Shared.balance_of_acked {s : Shared} (hs : s.acked = 0) :
    s.balance = s.delayed - (s.queue.countP Message.late + s.items.countP Held.owed : Nat) := by
  simp only [Shared.balance, Shared.unsettled, Shared.waits_of_acked hs]
  rfl

theorem act_acked {s : Shared} (hs : s.acked = 0) {e : Effect} (he : e.Single) : (act s e).acked = 0 := by
  cases e with
  | ack h multiple => simp [act, he.2, hs]
  | _ => exact hs

theorem act_balance {s : Shared} (hs : s.acked = 0) {e : Effect} (he : e.Single) :
    (act s e).balance = s.balance + e.weight := by
  rw [Shared.balance_of_acked hs, Shared.balance_of_acked (act_acked hs he)]
  cases e with
  | count d => simp only [act, Effect.weight]; omega
  | publish m => simp only [act, Effect.weight, countP_concat]; omega
  | ack h multiple => simp [act, Effect.weight, Held.owed]
  | keep h => simp only [act, Effect.weight, countP_concat]; omega
  | nack h requeue =>
    have hqueue : (act s (.nack h requeue)).queue.countP Message.late =
        s.queue.countP Message.late + (requeue && h.owed).toNat := by
      cases hr : requeue && s.waits h with
      | false =>
        have howed : (requeue && h.owed) = false := by
          rw [Held.owed, ← Bool.and_assoc, ← Shared.waits_of_acked hs, hr, Bool.false_and]
        simp [act, hr, howed]
      | true =>
        have howed : (requeue && h.owed) = h.message.late := by
          rw [Held.owed, ← Bool.and_assoc, ← Shared.waits_of_acked hs, hr, Bool.true_and]
        rw [howed, ← countP_concat]
        simp [act, hr]
    have hitems : (act s (.nack h requeue)).items.countP Held.owed = s.items.countP Held.owed := by
      simp [act, Held.owed]
    rw [hqueue, hitems, Effect.weight]
    simp only [act]
    omega

/-! ## The steps of a call -/

/-- What the effects of a call keep: what is left never adds anything, and no ack has `multiple`. -/
structure Fair (es : List Effect) : Prop where
  nonpos : Nonpos Effect.weight es
  single : ∀ e ∈ es, e.Single

theorem Fair.nil : Fair [] := ⟨trivial, List.forall_mem_nil _⟩

theorem Fair.tail {e : Effect} {es : List Effect} (h : Fair (e :: es)) : Fair es :=
  ⟨h.nonpos.2, fun f hf => h.single f (List.mem_cons_of_mem e hf)⟩

theorem Fair.append {es fs : List Effect} (hes : Fair es) (hfs : Fair fs) : Fair (es ++ fs) where
  nonpos := hes.nonpos.append hfs.nonpos
  single e he := (List.mem_append.mp he).elim (hes.single e) (hfs.single e)

theorem Fair.singleton {e : Effect} (hw : e.weight ≤ 0) (he : e.Single) : Fair [e] where
  nonpos := ⟨by simpa using hw, trivial⟩
  single f hf := List.mem_singleton.mp hf ▸ he

/-- What `handleItem` can do. -/
inductive Handled (msg : Item) : Outcome → Prop where
  | rejected (err : Err) : Handled msg ([], some err)
  | undone (err : Err) : Handled msg ([.count 1, .count (-1)], some err)
  | delayed (hlate : 0 < msg.delayDuration) : Handled msg ([.count 1, .publish (.own msg)], none)
  | published (hlate : ¬ 0 < msg.delayDuration) : Handled msg ([.publish (.own msg)], none)

theorem handleItem_handled (f : Faults) (msg : Item) : Handled msg (handleItem f msg) := by
  unfold handleItem
  split
  · exact .rejected _
  split
  · split
    · exact .undone _
    split
    · exact .undone _
    split
    · exact .undone _
    · exact .delayed ‹_›
  · split
    · exact .rejected _
    · exact .published ‹_›

/-- `handleItem` takes off again what it adds, or it has published a delayed message. -/
theorem Handled.fair {msg : Item} {o : Outcome} (h : Handled msg o) :
    Fair o.1 ∧ weight Effect.weight o.1 = 0 := by
  cases h with
  | rejected err => exact ⟨.nil, rfl⟩
  | undone err => exact ⟨⟨⟨by decide, by decide, trivial⟩, by simp [Effect.Single]⟩, rfl⟩
  | delayed hlate =>
    have hone : (Message.own msg).late = true := decide_eq_true hlate
    refine ⟨⟨⟨?_, ?_, trivial⟩, by simp [Effect.Single]⟩, ?_⟩ <;> simp [Effect.weight, hone]
  | published hlate =>
    have hzero : (Message.own msg).late = false := decide_eq_false hlate
    exact ⟨.singleton (by simp [Effect.weight, hzero]) trivial, by simp [Effect.weight, hzero]⟩

theorem uncount_fair (i : Item) : Fair (uncount i) := by
  unfold uncount
  split
  · exact .singleton (by decide) trivial
  · exact .nil

theorem weight_uncount (i : Item) :
    weight Effect.weight (uncount i) = -(decide (0 < i.options.delay)).toNat := by
  unfold uncount
  split <;> simp [Effect.weight, *]

section

variable {h : Held} (hsingle : h.item.options.multipleAsk = false)
include hsingle

theorem keep_fair : Fair [.keep h] := .singleton (by simp [Effect.weight]) hsingle

theorem ackDelivery_fair (f : Faults) :
    Fair (ackDelivery f h false).1 ∧
      weight Effect.weight (ackDelivery f h false).1 = -(h.owed && f.reply).toNat := by
  cases hf : f.reply with
  | false =>
    have hfair := Fair.singleton (e := .ack h false) (le_refl 0) ⟨hsingle, rfl⟩
    simpa [ackDelivery, hf, Effect.weight] using hfair
  | true => simpa [ackDelivery, hf, Effect.weight] using keep_fair hsingle

theorem nackDelivery_fair (f : Faults) (requeue : Bool) :
    Fair (nackDelivery f h requeue).1 ∧
      weight Effect.weight (nackDelivery f h requeue).1 = -(h.owed && (f.reply || requeue)).toNat := by
  cases hf : f.reply with
  | false =>
    have hfair := Fair.singleton (e := .nack h requeue) (by simp [Effect.weight]) hsingle
    simpa [nackDelivery, hf, Effect.weight, Bool.and_comm] using hfair
  | true => simpa [nackDelivery, hf, Effect.weight] using keep_fair hsingle

/-- A call takes one off for a delay, and gives the message back unless it settles it. -/
theorem Call.outcome_fair (call : Call) :
    Fair (call.outcome h).1 ∧ weight Effect.weight (call.outcome h).1 =
      -(decide (0 < h.item.options.delay)).toNat - (h.owed && !call.settles h).toNat := by
  cases call with
  | ack f =>
    obtain ⟨hfair, hweight⟩ := ackDelivery_fair hsingle f
    simp only [outcome, Delayed.ack, hsingle]
    refine ⟨(uncount_fair _).append hfair, ?_⟩
    rw [weight_append, weight_uncount, hweight, settles, Bool.not_not]
    rfl
  | nack f =>
    obtain ⟨hfair, hweight⟩ := nackDelivery_fair hsingle f h.item.options.requeue
    refine ⟨(uncount_fair _).append hfair, ?_⟩
    simp only [outcome, Delayed.nack]
    rw [weight_append, weight_uncount, hweight, settles, Bool.not_and, Bool.not_not, Bool.not_not]
    rfl
  | requeue headers delay f =>
    have howed : (h.overwrite headers delay).owed = h.owed := rfl
    have hsingle' : (h.overwrite headers delay).item.options.multipleAsk = false := hsingle
    have hhandled := handleItem_handled { f with expired := false } (h.overwrite headers delay).item
    simp only [outcome, Delayed.requeue, settles]
    generalize handleItem { f with expired := false } (h.overwrite headers delay).item = o at hhandled ⊢
    obtain ⟨hfair, hzero⟩ := hhandled.fair
    obtain ⟨es, _ | err⟩ := o
    · obtain ⟨hreply, hweight⟩ := ackDelivery_fair hsingle' f
      refine ⟨((uncount_fair _).append hfair).append hreply, ?_⟩
      rw [weight_append, weight_append, weight_uncount, hzero, hweight, howed]
      simp [sub_eq_add_neg]
    · obtain ⟨hreply, hweight⟩ := nackDelivery_fair hsingle' f true
      refine ⟨((uncount_fair _).append hfair).append hreply, ?_⟩
      rw [weight_append, weight_append, weight_uncount, hzero, hweight, howed]
      simp [sub_eq_add_neg]

end

/-! ## Runs -/

/-- No ack has `multiple`. -/
structure Single (s : State Shared Effect) : Prop where
  acked : s.shared.acked = 0
  items : ∀ h ∈ s.shared.items, h.item.options.multipleAsk = false
  fair : ∀ es ∈ s.calls, Fair es

/-- The balance, as it is when the calls have returned. -/
def left (s : State Shared Effect) : Int := total Shared.balance Effect.weight s

theorem act_items {s : Shared} (hs : ∀ h ∈ s.items, h.item.options.multipleAsk = false) {e : Effect} (he : e.Single) :
    ∀ h ∈ (act s e).items, h.item.options.multipleAsk = false := by
  cases e with
  | count d => exact hs
  | publish m => exact hs
  | ack h multiple => exact forall_concat hs he.1
  | nack h requeue => exact forall_concat hs he
  | keep h => exact forall_concat hs he

/-- The counter may only be above the number of unsettled messages, by what the calls will take off. -/
theorem Single.nonneg {s : State Shared Effect} (h : Single s) (hleft : left s = 0) : 0 ≤ s.shared.delayed := by
  have hpending : pending Effect.weight s.calls ≤ 0 := pending_nonpos fun es hes => (h.fair es hes).nonpos.weight_le
  rw [left, total, Shared.balance] at hleft
  omega

section

variable {json : Json} {c : Consumer} {pipe : Bytes} {s : State Shared Effect}

theorem Single.next (json : Json) (c : Consumer) (pipe : Bytes) (h : Single s) (n : Nat) (k : Unit) :
    Single ((system json c pipe).next s n k) ∧ left ((system json c pipe).next s n k) = left s := by
  refine next_invariant (P := fun t => Single t ∧ left t = left s) ⟨h, rfl⟩ fun e es shared hn hact => ?_
  obtain rfl : act s.shared e = shared := Option.some.inj hact
  have hfair := h.fair _ (List.mem_of_getElem? hn)
  have hsingle := hfair.single e List.mem_cons_self
  refine ⟨⟨act_acked h.acked hsingle, act_items h.items hsingle, forall_set h.fair n hfair.tail⟩, ?_⟩
  rw [left, left, total, total, act_balance h.acked hsingle, add_assoc, pending_set_tail hn]

theorem Single.finish (h : Single s) (ms : List (Nat × Unit)) :
    Single ((system json c pipe).finish s ms) ∧ left ((system json c pipe).finish s ms) = left s :=
  Run.exec_invariant (I := fun t => Single t ∧ left t = left s)
    (fun _ m ht => (ht.1.next json c pipe m.1 m.2).imp_right fun hsame => hsame.trans ht.2) ms ⟨h, rfl⟩

/-- The calls return, and then the counter is right, exactly if the balance is to be 0. -/
theorem Single.sound_iff (h : Single s) : Sound (system json c pipe) Ok s ↔ left s = 0 := by
  have hok : ∀ t : State Shared Effect, t.Quiet → (Ok t.shared ↔ left t = 0) := by
    intro t hquiet
    rw [left, total_of_quiet hquiet, Shared.balance, sub_eq_zero]
    rfl
  constructor
  · intro hsound
    obtain ⟨ms, hquiet⟩ := hsound.returns
    rw [← (h.finish ms).2]
    exact (hok _ hquiet).mp (hsound.ok ms hquiet)
  · intro hleft
    refine Sound.of_invariant (I := fun t => Single t ∧ left t = 0) ?_ ?_ ?_ ⟨h, hleft⟩
    · intro t n k ht
      exact (ht.1.next json c pipe n k).imp_right fun hsame => hsame.trans ht.2
    · intro t _ hquiet
      obtain ⟨es, hes, hne⟩ : ∃ es ∈ t.calls, es ≠ [] := by simpa [State.Quiet] using hquiet
      obtain ⟨n, hn⟩ := List.getElem?_of_mem hes
      obtain ⟨e, es, rfl⟩ := List.exists_cons_of_ne_nil hne
      exact ⟨n, e, es, (), act t.shared e, hn, rfl⟩
    · intro t ht hquiet
      exact (hok t hquiet).mpr ht.2

/-! ### The start of a call -/

theorem push_fair (f : Faults) (p : Bytes) (job : Job) :
    Fair (push f p job).1 ∧ weight Effect.weight (push f p job).1 = 0 := by
  unfold push
  split
  · exact ⟨.nil, rfl⟩
  · exact (handleItem_handled f (fromJob job)).fair

/-- Only a message of another publisher may be no job. -/
theorem late_of_error {m : Message} {err : Err} (h : c.fromDelivery json (m.delivery json) = .error err) :
    m.late = false := by
  cases m with
  | foreign d => rfl
  | own item =>
    obtain ⟨headers, hok⟩ : ∃ headers, c.fromDelivery json ((Message.own item).delivery json) =
        .ok (c.received item.ident headers item) := Consumer.fromDelivery_pack item.ident item
    rw [hok] at h
    cases h

theorem deliver_acked (t : Shared) (n : Nat) : (deliver json c t n).acked = t.acked := by
  unfold deliver
  split
  · rfl
  · split <;> rfl

/-- A delivery moves a message from the queue to the process. -/
theorem deliver_balance {t : Shared} (hacked : t.acked = 0) (n : Nat) :
    (deliver json c t n).balance = t.balance := by
  rw [Shared.balance_of_acked hacked, Shared.balance_of_acked ((deliver_acked t n).trans hacked)]
  unfold deliver
  split
  · rfl
  case h_2 m hm =>
    have hqueue := countP_eraseIdx Message.late hm
    split
    case h_1 item _ =>
      have howed : Held.owed ⟨t.tag, m, item, true⟩ = m.late := Bool.true_and _
      simp only [countP_concat, howed]
      omega
    case h_2 err herr =>
      rw [late_of_error herr] at hqueue
      rw [hqueue]
      rfl
    case h_3 => rfl

theorem deliver_items (hc : c.multipleAck = false) {t : Shared}
    (ht : ∀ h ∈ t.items, h.item.options.multipleAsk = false) (n : Nat) :
    ∀ h ∈ (deliver json c t n).items, h.item.options.multipleAsk = false := by
  unfold deliver
  split
  · exact ht
  · split
    case h_1 item hitem => exact forall_concat ht ((Consumer.multipleAsk_of_fromDelivery hitem).trans hc)
    case h_2 => exact ht
    case h_3 => exact ht

/-- What a call for a delivery changes in the balance: it settles the message, and takes one off. -/
def change (t : Shared) : Op → Int
  | .call n call => (t.items[n]?).elim 0 fun h =>
      (h.unacked && h.message.late && call.settles h).toNat - (decide (0 < h.item.options.delay)).toNat
  | _ => 0

theorem settling_iff (op : Op) : Settling s (.start op) ↔ change s.shared op = 0 := by
  cases op with
  | call n call =>
    simp only [Settling, change]
    cases s.shared.items[n]? with
    | none => simp
    | some h =>
      simp only [Option.mem_def, Option.some.injEq, forall_eq', Option.elim_some]
      generalize (h.unacked && h.message.late && call.settles h) = b
      by_cases hdelay : 0 < h.item.options.delay <;> cases b <;> simp [hdelay]
  | _ => exact iff_of_true trivial rfl

/-- The delivery leaves the list of those for which no call is in progress. -/
theorem erase_balance {t : Shared} (hacked : t.acked = 0) {n : Nat} {h : Held} (hn : t.items[n]? = some h) :
    Shared.balance { t with items := t.items.eraseIdx n } = t.balance + h.owed.toNat := by
  have hcount := countP_eraseIdx Held.owed hn
  rw [Shared.balance_of_acked hacked,
    Shared.balance_of_acked (show Shared.acked { t with items := t.items.eraseIdx n } = 0 from hacked)]
  dsimp only
  omega

theorem arrive_balance (t : Shared) (d : Delivery) :
    Shared.balance { t with queue := t.queue ++ [.foreign d] } = t.balance := by
  have hlate : (Message.foreign d).late = false := rfl
  simp [Shared.balance, Shared.unsettled, Shared.waits, hlate]

theorem start_balance (json : Json) (c : Consumer) (pipe : Bytes) {t : Shared} (hacked : t.acked = 0)
    (hitems : ∀ h ∈ t.items, h.item.options.multipleAsk = false) (op : Op) :
    (start json c pipe t op).1.acked = 0 ∧ Fair (start json c pipe t op).2 ∧
      (start json c pipe t op).1.balance + weight Effect.weight (start json c pipe t op).2 =
        t.balance + change t op := by
  cases op with
  | push job f =>
    obtain ⟨hfair, hzero⟩ := push_fair f pipe job
    exact ⟨hacked, hfair, congrArg (t.balance + ·) hzero⟩
  | arrive d => exact ⟨hacked, .nil, congrArg (· + 0) (arrive_balance t d)⟩
  | deliver n => exact ⟨(deliver_acked t n).trans hacked, .nil, congrArg (· + 0) (deliver_balance hacked n)⟩
  | call n call =>
    simp only [start, change]
    cases hn : t.items[n]? with
    | none => exact ⟨hacked, .nil, rfl⟩
    | some h =>
      obtain ⟨hfair, hweight⟩ := Call.outcome_fair (hitems h (List.mem_of_getElem? hn)) call
      refine ⟨hacked, hfair, ?_⟩
      have hsplit : (h.owed && call.settles h).toNat + (h.owed && !call.settles h).toNat = h.owed.toNat := by
        cases h.owed <;> cases call.settles h <;> rfl
      simp only [Option.elim_some]
      rw [hweight, erase_balance hacked hn, ← Held.owed]
      omega

theorem start_items (hc : c.multipleAck = false) {t : Shared}
    (hitems : ∀ h ∈ t.items, h.item.options.multipleAsk = false) (op : Op) :
    ∀ h ∈ (start json c pipe t op).1.items, h.item.options.multipleAsk = false := by
  cases op with
  | push job f => exact hitems
  | arrive d => exact hitems
  | deliver n => exact deliver_items hc hitems n
  | call n call =>
    simp only [start]
    split
    · exact hitems
    · exact fun h hh => hitems h (List.mem_of_mem_eraseIdx hh)

theorem Single.start (json : Json) (pipe : Bytes) (hc : c.multipleAck = false) (h : Single s) (op : Op) :
    Single ((system json c pipe).step s (.start op)) ∧
      left ((system json c pipe).step s (.start op)) = left s + change s.shared op := by
  obtain ⟨hacked, hfair, hbalance⟩ := start_balance json c pipe h.acked h.items op
  refine ⟨⟨hacked, start_items hc h.items op, forall_concat h.fair hfair⟩, ?_⟩
  change _ + pending _ (s.calls ++ [_]) = _ + pending _ s.calls + _
  rw [pending_concat, add_left_comm, add_right_comm, ← hbalance, add_comm]
  rfl

end

/-! ## The size of the counter -/

/-- The counter changes by one at most. -/
def Effect.Small : Effect → Prop
  | .count d => d.natAbs ≤ 1
  | _ => True

theorem handleItem_small (f : Faults) (msg : Item) : ∀ e ∈ (handleItem f msg).1, e.Small := by
  unfold handleItem
  dsimp only
  split_ifs <;> simp [Effect.Small]

theorem uncount_small (i : Item) : ∀ e ∈ uncount i, e.Small := by
  unfold uncount
  split <;> simp [Effect.Small]

theorem ackDelivery_small (f : Faults) (h : Held) (multiple : Bool) : ∀ e ∈ (ackDelivery f h multiple).1, e.Small := by
  unfold ackDelivery
  split <;> simp [Effect.Small]

theorem nackDelivery_small (f : Faults) (h : Held) (requeue : Bool) : ∀ e ∈ (nackDelivery f h requeue).1, e.Small := by
  unfold nackDelivery
  split <;> simp [Effect.Small]

theorem outcome_small (h : Held) (call : Call) : ∀ e ∈ (call.outcome h).1, e.Small := by
  cases call with
  | ack f => exact List.forall_mem_append.mpr ⟨uncount_small _, ackDelivery_small _ _ _⟩
  | nack f => exact List.forall_mem_append.mpr ⟨uncount_small _, nackDelivery_small _ _ _⟩
  | requeue headers delay f =>
    have hcalls := List.forall_mem_append.mpr ⟨uncount_small h.item,
      handleItem_small { f with expired := false } (h.overwrite headers delay).item⟩
    simp only [Call.outcome, requeue]
    split
    · exact List.forall_mem_append.mpr ⟨hcalls, nackDelivery_small _ _ _⟩
    · exact List.forall_mem_append.mpr ⟨hcalls, ackDelivery_small _ _ _⟩

section

variable (json : Json) (c : Consumer) (pipe : Bytes)

/-- A call that starts leaves the counter, and its steps are small. -/
theorem start_small (s : Shared) (op : Op) :
    (start json c pipe s op).1.delayed = s.delayed ∧ ∀ e ∈ (start json c pipe s op).2, e.Small := by
  cases op with
  | push job f =>
    refine ⟨rfl, ?_⟩
    simp only [start, push]
    split
    · exact List.forall_mem_nil _
    · exact handleItem_small f _
  | arrive d => exact ⟨rfl, List.forall_mem_nil _⟩
  | deliver n =>
    refine ⟨?_, List.forall_mem_nil _⟩
    simp only [start, deliver]
    split
    · rfl
    · split <;> rfl
  | call n call =>
    simp only [start]
    split
    · exact ⟨rfl, List.forall_mem_nil _⟩
    · exact ⟨rfl, outcome_small _ call⟩

theorem natAbs_act_le (s : Shared) {e : Effect} (h : e.Small) : ((act s e).delayed - s.delayed).natAbs ≤ 1 := by
  cases e with
  | count d =>
    change (s.delayed + d - s.delayed).natAbs ≤ 1
    rw [add_sub_cancel_left]
    exact h
  | _ => simp [act]

theorem step_small {s : State Shared Effect} (hs : ∀ es ∈ s.calls, ∀ e ∈ es, e.Small) (m : Move Op Unit) :
    (∀ es ∈ ((system json c pipe).step s m).calls, ∀ e ∈ es, e.Small) ∧
      (((system json c pipe).step s m).shared.delayed - s.shared.delayed).natAbs ≤ 1 := by
  cases m with
  | start op =>
    obtain ⟨hdelayed, hsmall⟩ := start_small json c pipe s.shared op
    refine ⟨forall_concat hs hsmall, ?_⟩
    change ((start json c pipe s.shared op).1.delayed - s.shared.delayed).natAbs ≤ 1
    rw [hdelayed]
    simp
  | next n k =>
    refine next_invariant (P := fun t : State Shared Effect => (∀ es ∈ t.calls, ∀ e ∈ es, e.Small) ∧
      (t.shared.delayed - s.shared.delayed).natAbs ≤ 1) ⟨hs, by simp⟩ fun e es shared hn hact => ?_
    obtain rfl : act s.shared e = shared := Option.some.inj hact
    have hcall := hs _ (List.mem_of_getElem? hn)
    exact ⟨forall_set hs n fun e' he' => hcall e' (List.mem_cons_of_mem e he'),
      natAbs_act_le s.shared (hcall e List.mem_cons_self)⟩

/-- No run makes the counter larger than the run is long. -/
theorem natAbs_delayed_le (ms : List (Move Op Unit)) :
    (Run.exec (system json c pipe).step ⟨{}, []⟩ ms).shared.delayed.natAbs ≤ ms.length := by
  have hle : ((Run.exec (system json c pipe).step ⟨{}, []⟩ ms).shared.delayed - 0).natAbs ≤ ms.length :=
    Run.natAbs_exec_le (I := fun s : State Shared Effect => ∀ es ∈ s.calls, ∀ e ∈ es, e.Small)
      (f := fun s => s.shared.delayed) (fun _ m hs => step_small json c pipe hs m) (List.forall_mem_nil _) ms
  rwa [sub_zero] at hle

end

/-- For every run of `Push`, `Ack`, `Nack` and `Requeue`, with any faults, any deliveries and any setting of
`requeue_on_fail`: the counter is never negative and it is right whenever no call is in progress, exactly if
every call takes one off just when it finally settles a delayed message. The counter is never larger than the run is
long, so that it does not overflow in less than `2 ^ 63` steps. -/
theorem delayed_right_iff (json : Json) (c : Consumer) (pipe : Bytes) (hc : c.multipleAck = false)
    (ms : List (Move Op Unit)) :
    ((∀ pre post, ms = pre ++ post → Right json c pipe (Run.exec (system json c pipe).step ⟨{}, []⟩ pre)) ↔
      Run.Along (system json c pipe).step Settling ⟨{}, []⟩ ms) ∧
    (Run.exec (system json c pipe).step ⟨{}, []⟩ ms).shared.delayed.natAbs ≤ ms.length := by
  refine ⟨?_, natAbs_delayed_le json c pipe ms⟩
  have hinit : Single ⟨{}, []⟩ := ⟨rfl, List.forall_mem_nil _, List.forall_mem_nil _⟩
  have hright : ∀ {s}, Single s → left s = 0 → Right json c pipe s :=
    fun h hleft => ⟨h.nonneg hleft, h.sound_iff.mpr hleft⟩
  refine Run.Along.always_iff (I := fun s => Single s ∧ left s = 0) ?_ ?_ ⟨hinit, rfl⟩ (hright hinit rfl)
  · rintro s m ⟨hs, hleft⟩ - hsettling
    have hs' : Single ((system json c pipe).step s m) ∧ left ((system json c pipe).step s m) = 0 := by
      cases m with
      | next n k =>
        obtain ⟨hsingle, hsame⟩ := hs.next json c pipe n k
        exact ⟨hsingle, hsame.trans hleft⟩
      | start op =>
        obtain ⟨hsingle, hchange⟩ := hs.start json pipe hc op
        exact ⟨hsingle, by rw [hchange, hleft, (settling_iff op).mp hsettling]; rfl⟩
    exact ⟨hs', hright hs'.1 hs'.2⟩
  · rintro s m ⟨hs, hleft⟩ - hs'
    cases m with
    | next n k => trivial
    | start op =>
      obtain ⟨hsingle, hchange⟩ := hs.start json pipe hc op
      have hzero := hsingle.sound_iff.mp hs'.sound
      rw [hchange, hleft, zero_add] at hzero
      exact (settling_iff op).mpr hzero

/-- A job with a delay is pushed and delivered, and the delivery is acked. -/
def acked (delay : Int64) : List (Move Op Unit) :=
  [.start (.push (plainJob (ascii "1") delay) {}), .next 0 (), .next 0 (), .start (.deliver 0),
    .start (.call 0 (.ack {})), .next 2 (), .next 2 ()]

theorem acked_right :
    ({} : Consumer).multipleAck = false ∧
      ∀ pre post, acked 5 = pre ++ post → Right .plain {} [] (Run.exec (system .plain {} []).step ⟨{}, []⟩ pre) :=
  ⟨rfl, (delayed_right_iff .plain {} [] rfl (acked 5)).1.mpr (by decide +kernel)⟩

-- the duration wraps, so the counter does not go up
example : (Run.exec (system .plain {} []).step ⟨{}, []⟩ (acked 9223372037)).shared.delayed = -1 := by
  decide +kernel

-- with `multiple`, the ack of the second delivery settles the first
example :
    let s := Run.exec (system .plain { multipleAck := true } []).step ⟨{}, []⟩
      [.start (.push (plainJob (ascii "1") 5) {}), .next 0 (), .next 0 (),
        .start (.push (plainJob (ascii "2") 5) {}), .next 1 (), .next 1 (), .start (.deliver 0), .start (.deliver 0),
        .start (.call 1 (.ack {})), .next 4 (), .next 4 ()]
    s.Quiet ∧ s.shared.delayed = 1 ∧ s.shared.unsettled = 0 := by
  decide +kernel

/-- The job is nacked with requeue, and acked when it is delivered again. -/
def redelivered : List (Move Op Unit) :=
  [.start (.push (plainJob (ascii "1") 5) {}), .next 0 (), .next 0 (), .start (.deliver 0),
    .start (.call 0 (.nack {})), .next 2 (), .next 2 (), .start (.deliver 0),
    .start (.call 1 (.ack {})), .next 4 (), .next 4 ()]

/-- Both calls take one off. -/
theorem redelivered_negative :
    let s := Run.exec (system .plain { requeueOnFail := true } []).step ⟨{}, []⟩ redelivered
    s.Quiet ∧ s.shared.delayed = -1 ∧ s.shared.unsettled = 0 := by
  decide +kernel

end RoadRunner.Amqp.Delayed
