import RoadRunner.Basic
import RoadRunner.Lib.Slot

/-!
# The AMQP consumer and its redialer

The model of `Run`, `Pause`, `Resume` and `Stop` of `amqp/amqpjobs/consumer.go`, of the redialer goroutine of
`redial.go`, and of the calls that borrow the publish channel (`handleItem`, `State`). The connection may be
lost at any time, and every call to the broker may fail.

A call that needs the lock is one step, and is taken while the redialer does not have the lock. The redialer
goes from one point where it waits to the next (`Phase`). The publish channel is in a one-slot Go channel, from
which everyone takes it (`Slot`).

* `Circulates`: how many publish channels there are, in each phase of the redialer.
* `publish_token`: there is at most one in circulation; no put waits, and no two callers have it.
* `stop_received_iff`: `Stop` can return exactly as long as the redialer has not returned.
-/

namespace RoadRunner.Amqp.Redial

/-- What the consumer's `conn` is. -/
inductive Conn where
  | up
  | closed
  | nil
  deriving DecidableEq

/-- A channel of the consumer, and its prefetch window. -/
structure Channel where
  /-- The argument of the last `Qos`. -/
  qos : Option Int := none
  /-- `Consume` was called. -/
  consumed : Bool := false
  /-- The broker sends deliveries on it. -/
  consuming : Bool := false
  /-- Deliveries that were not acked or nacked. -/
  unacked : Nat := 0
  deriving DecidableEq

namespace Channel

/-- After `Qos` and `Consume`. -/
def subscribed (prefetch : Int) : Channel := { qos := some prefetch, consumed := true, consuming := true }

/-- The connection, or the channel, is closed. -/
def cancel (ch : Channel) : Channel := { ch with consuming := false }

/-- The broker may send one more delivery. The limit is a `uint16`, and 0 is no limit. -/
def free (ch : Channel) : Bool :=
  match ch.qos with
  | none => true
  | some prefetch => prefetch % 65536 = 0 || ch.unacked < prefetch % 65536

/-- The broker sends a delivery, if the window allows it. -/
def deliver (ch : Channel) : Channel :=
  if ch.consuming && ch.free then { ch with unacked := ch.unacked + 1 } else ch

/-- A delivery is acked or nacked. -/
def settle (ch : Channel) : Channel := { ch with unacked := ch.unacked - 1 }

end Channel

/-- Where the redialer is. -/
inductive Phase where
  /-- Before it calls `NotifyClose`. -/
  | enter
  /-- In the `select`. The connection is closed with an error (`some true`), or without one (`some false`). -/
  | select (signal : Option Bool)
  /-- It has the lock, and waits for the broken publish channel. -/
  | trashing
  /-- In `backoff.Retry`. -/
  | dialing
  /-- It is connected, and puts the new publish channel. -/
  | opened (pch : Nat)
  /-- It has received from `stopCh`, and waits for the publish channel. -/
  | stopping
  | closing (pch : Nat)
  | returned
  deriving DecidableEq

/-- The channels that were ever opened have their position in `channels` as their name. -/
structure State where
  conn : Conn := .up
  channels : List Channel := [{}]
  consumeChan : Option Nat := none
  publishChan : Slot.State Nat := ⟨some 0, []⟩
  listeners : UInt32 := 0
  redialer : Phase := .enter
  /-- The calls of `Stop` that wait for a receiver. -/
  stops : Nat := 0
  /-- A panic has ended the process. -/
  halted : Bool := false
  deriving DecidableEq

/-- The fields of the configuration that are read here. -/
structure Config where
  pipeline : Bytes := []
  prefetch : Int := 10

/-- The calls of `Run` and `Resume` that can fail. -/
inductive Opening where
  | channel
  | qos
  | consume
  deriving DecidableEq

/-- The calls of one attempt to reconnect that can fail. -/
inductive Stage where
  | dial
  | init
  | consumeChannel
  | publishChannel
  | consume
  deriving DecidableEq

/-- A step of the redialer. -/
inductive Redialing where
  /-- `NotifyClose`, and the `select`. -/
  | watch
  /-- The connection's close is received. -/
  | notice
  | trash
  | attempt (fails : Option Stage)
  /-- The back-off is exhausted. -/
  | giveUp
  | put
  /-- `<-c.stopCh`. -/
  | receive
  | take
  | close
  deriving DecidableEq

/-- What can happen to the consumer. -/
inductive Action where
  | run (p : Bytes) (fails : Option Opening)
  /-- Whether `Cancel` and `Close` fail. -/
  | pause (cancel close : Bool)
  | resume (fails : Option Opening)
  | stop
  | lose (err : Bool)
  /-- A delivery on the `n`-th channel, and the ack of one. -/
  | deliver (n : Nat)
  | settle (n : Nat)
  /-- `handleItem` and `State`. -/
  | user (m : Slot.Move)
  | redial (r : Redialing)
  deriving DecidableEq

namespace State

/-- The redialer has the lock. -/
def locked (s : State) : Bool :=
  match s.redialer with
  | .trashing | .dialing | .opened _ => true
  | _ => false

/-- A new consume channel, in whatever state the calls have left it. -/
def openChannel (s : State) (ch : Channel) : State :=
  { s with channels := s.channels ++ [ch], consumeChan := some s.channels.length }

/-- What `Run` and `Resume` do to consume, and the call that has failed. -/
def consume (prefetch : Int) (s : State) (fails : Option Opening) : State × Option Err :=
  match s.conn, fails with
  | .nil, _ => ({ s with halted := true }, some (.lib "Channel"))
  | .closed, _ | .up, some .channel => ({ s with consumeChan := none }, some (.lib "Channel"))
  | .up, some .qos => (s.openChannel {}, some (.lib "Qos"))
  | .up, some .consume => (s.openChannel { qos := some prefetch, consumed := true }, some (.lib "Consume"))
  | .up, none => (s.openChannel (.subscribed prefetch), none)

/-- `Run`. It does not read `listeners`. -/
def run (cfg : Config) (s : State) (p : Bytes) (fails : Option Opening) : State × Option Err :=
  if cfg.pipeline ≠ p then
    (s, some (.op "rabbit_run" (.errorf "no such pipeline registered: %s" (.str cfg.pipeline.text))))
  else
    match s.consume cfg.prefetch fails with
    | (s', some err) => (s', some (.op "rabbit_run" err))
    | (s', none) => ({ s' with listeners := 1 }, none)

/-- `Resume`. -/
def resume (cfg : Config) (s : State) (fails : Option Opening) : State :=
  if s.listeners = 1 then s
  else
    match s.consume cfg.prefetch fails with
    | (s', some _) => s'
    | (s', none) => { s' with listeners := s'.listeners + 1 }

/-- `Pause`: `Cancel`, or else `Close`, on the consume channel. -/
def pause (s : State) (cancelFails closeFails : Bool) : State :=
  if s.listeners = 0 then s
  else
    match s.consumeChan with
    | none => { s with listeners := s.listeners + ~~~0, halted := true }
    | some n =>
      { s with
        listeners := s.listeners + ~~~0
        channels := if cancelFails && closeFails then s.channels else s.channels.modify n Channel.cancel }

/-- The connection is closed, by an error or without one. -/
def lose (s : State) (err : Bool) : State :=
  match s.conn with
  | .up =>
    { s with
      conn := .closed
      channels := s.channels.map Channel.cancel
      redialer := if s.redialer = .select none then .select (some err) else s.redialer }
  | _ => s

/-- One attempt to reconnect. It consumes without a `Qos`. -/
def attempt (s : State) : Option Stage → State
  | some .dial => { s with conn := .nil }
  | some .init => { s with conn := .up }
  | some .consumeChannel => { s with conn := .up, consumeChan := none }
  | some .publishChannel =>
    { s with conn := .up, channels := s.channels ++ [{}], consumeChan := some s.channels.length }
  | some .consume =>
    { s with
      conn := .up
      channels := s.channels ++ [{ consumed := true }, {}]
      consumeChan := some s.channels.length }
  | none =>
    { s with
      conn := .up
      channels := s.channels ++ [{ consumed := true, consuming := true }, {}]
      consumeChan := some s.channels.length
      redialer := .opened (s.channels.length + 1) }

/-- The slot of the publish channel, and the redialer's next phase. -/
def setSlot (s : State) (slot : Option Nat) (redialer : Phase) : State :=
  { s with publishChan := { s.publishChan with slot }, redialer }

/-- A step of the redialer, if it is there and does not have to wait. -/
def redial (s : State) : Redialing → State
  | .watch =>
    -- for a connection that is closed already, `NotifyClose` closes the Go channel
    if s.redialer = .enter then { s with redialer := .select (if s.conn = .up then none else some false) } else s
  | .notice =>
    match s.redialer with
    | .select (some true) => { s with redialer := .trashing }
    | .select (some false) => { s with redialer := .returned }
    | _ => s
  | .trash =>
    match s.redialer, s.publishChan.slot with
    | .trashing, some _ => s.setSlot none .dialing
    | _, _ => s
  | .attempt fails => if s.redialer = .dialing then s.attempt fails else s
  | .giveUp => if s.redialer = .dialing then { s with redialer := .returned } else s
  | .put =>
    match s.redialer, s.publishChan.slot with
    | .opened pch, none => s.setSlot (some pch) .enter
    | _, _ => s
  | .receive =>
    match s.redialer, s.stops with
    | .select _, n + 1 => { s with redialer := .stopping, stops := n }
    | _, _ => s
  | .take =>
    match s.redialer, s.publishChan.slot with
    | .stopping, some pch => s.setSlot none (.closing pch)
    | _, _ => s
  | .close =>
    match s.redialer with
    | .closing _ => { s with conn := .closed, channels := s.channels.map Channel.cancel, redialer := .returned }
    | _ => s

end State

/-- One action, unless the program has crashed or waits for the lock. -/
def step (cfg : Config) (s : State) (a : Action) : State :=
  if s.halted then s
  else
    match a with
    | .run p fails => if s.locked then s else (s.run cfg p fails).1
    | .pause cancel close => if s.locked then s else s.pause cancel close
    | .resume fails => if s.locked then s else s.resume cfg fails
    | .stop => { s with stops := s.stops + 1 }
    | .lose err => s.lose err
    | .deliver n => { s with channels := s.channels.modify n Channel.deliver }
    | .settle n => { s with channels := s.channels.modify n Channel.settle }
    | .user m => { s with publishChan := Slot.step s.publishChan m }
    | .redial r => s.redial r

variable {cfg : Config} {s : State}

/-! ## What a step can do -/

/-- A channel of `Run` or `Resume` on which nothing is consumed. -/
structure Channel.Unused (prefetch : Int) (ch : Channel) : Prop where
  consuming : ch.consuming = false
  qos : ch.consumed = true → ch.qos = some prefetch
  unacked : ch.unacked = 0

/-- What the calls to consume can do. -/
inductive Consumed (prefetch : Int) (s : State) (fails : Option Opening) : State × Option Err → Prop where
  | crashed (err : Err) : Consumed prefetch s fails ({ s with halted := true }, some err)
  | refused (err : Err) : Consumed prefetch s fails ({ s with consumeChan := none }, some err)
  | failed (ch : Channel) (err : Err) (hch : ch.Unused prefetch) :
    Consumed prefetch s fails (s.openChannel ch, some err)
  | subscribed (hup : s.conn = .up) (hfails : fails = none) :
    Consumed prefetch s fails (s.openChannel (.subscribed prefetch), none)

theorem consume_consumed (prefetch : Int) (s : State) (fails : Option Opening) :
    Consumed prefetch s fails (s.consume prefetch fails) := by
  unfold State.consume
  split
  · exact .crashed _
  · exact .refused _
  · exact .refused _
  · exact .failed {} _ ⟨rfl, nofun, rfl⟩
  · exact .failed { qos := some prefetch, consumed := true } _ ⟨rfl, fun _ => rfl, rfl⟩
  · exact .subscribed ‹_› rfl

/-- What an action can do to the state. -/
inductive Moved (cfg : Config) (s : State) : Action → State → Prop where
  | idle (a : Action) : Moved cfg s a s
  | crashed (a : Action) (l : UInt32) : Moved cfg s a { s with listeners := l, halted := true }
  | refused (a : Action) : Moved cfg s a { s with consumeChan := none }
  | failed (a : Action) (ch : Channel) (hch : ch.Unused cfg.prefetch) : Moved cfg s a (s.openChannel ch)
  | ran (hup : s.conn = .up) (hlocked : s.locked = false) :
    Moved cfg s (.run cfg.pipeline none) { s.openChannel (.subscribed cfg.prefetch) with listeners := 1 }
  | resumed (hup : s.conn = .up) (hlocked : s.locked = false) (hl : s.listeners ≠ 1) :
    Moved cfg s (.resume none)
      { s.openChannel (.subscribed cfg.prefetch) with listeners := s.listeners + 1 }
  | paused (cancel close : Bool) {n : Nat} (hlocked : s.locked = false) (hl : s.listeners ≠ 0)
      (hn : s.consumeChan = some n) :
    Moved cfg s (.pause cancel close)
      { s with
        listeners := s.listeners + ~~~0
        channels := if cancel && close then s.channels else s.channels.modify n Channel.cancel }
  | stopped : Moved cfg s .stop { s with stops := s.stops + 1 }
  | lost (err : Bool) (hup : s.conn = .up) :
    Moved cfg s (.lose err)
      { s with
        conn := .closed
        channels := s.channels.map Channel.cancel
        redialer := if s.redialer = .select none then .select (some err) else s.redialer }
  | delivered (n : Nat) : Moved cfg s (.deliver n) { s with channels := s.channels.modify n Channel.deliver }
  | settled (n : Nat) : Moved cfg s (.settle n) { s with channels := s.channels.modify n Channel.settle }
  | used (m : Slot.Move) : Moved cfg s (.user m) { s with publishChan := Slot.step s.publishChan m }
  | watched (hr : s.redialer = .enter) :
    Moved cfg s (.redial .watch) { s with redialer := .select (if s.conn = .up then none else some false) }
  | noticed (hr : s.redialer = .select (some true)) : Moved cfg s (.redial .notice) { s with redialer := .trashing }
  | ended (hr : s.redialer = .select (some false)) : Moved cfg s (.redial .notice) { s with redialer := .returned }
  | trashed {pch : Nat} (hr : s.redialer = .trashing) (hslot : s.publishChan.slot = some pch) :
    Moved cfg s (.redial .trash) (s.setSlot none .dialing)
  | attempted (fails : Option Stage) (hr : s.redialer = .dialing) :
    Moved cfg s (.redial (.attempt fails)) (s.attempt fails)
  | gaveUp (hr : s.redialer = .dialing) : Moved cfg s (.redial .giveUp) { s with redialer := .returned }
  | put {pch : Nat} (hr : s.redialer = .opened pch) (hslot : s.publishChan.slot = none) :
    Moved cfg s (.redial .put) (s.setSlot (some pch) .enter)
  | received {signal : Option Bool} {n : Nat} (hr : s.redialer = .select signal) (hstops : s.stops = n + 1) :
    Moved cfg s (.redial .receive) { s with redialer := .stopping, stops := n }
  | took {pch : Nat} (hr : s.redialer = .stopping) (hslot : s.publishChan.slot = some pch) :
    Moved cfg s (.redial .take) (s.setSlot none (.closing pch))
  | closed {pch : Nat} (hr : s.redialer = .closing pch) :
    Moved cfg s (.redial .close)
      { s with conn := .closed, channels := s.channels.map Channel.cancel, redialer := .returned }

theorem run_moved (p : Bytes) (fails : Option Opening) (hlocked : s.locked = false) :
    Moved cfg s (.run p fails) (s.run cfg p fails).1 := by
  unfold State.run
  split
  case isTrue => exact .idle _
  case isFalse hp =>
    have hconsumed := consume_consumed cfg.prefetch s fails
    generalize s.consume cfg.prefetch fails = r at hconsumed ⊢
    cases hconsumed with
    | crashed err => exact .crashed _ s.listeners
    | refused err => exact .refused _
    | failed ch err hch => exact .failed _ ch hch
    | subscribed hup hfails =>
      obtain rfl := hfails
      obtain rfl := not_ne_iff.mp hp
      exact .ran hup hlocked

theorem resume_moved (fails : Option Opening) (hlocked : s.locked = false) :
    Moved cfg s (.resume fails) (s.resume cfg fails) := by
  unfold State.resume
  split
  case isTrue => exact .idle _
  case isFalse hl =>
    have hconsumed := consume_consumed cfg.prefetch s fails
    generalize s.consume cfg.prefetch fails = r at hconsumed ⊢
    cases hconsumed with
    | crashed err => exact .crashed _ s.listeners
    | refused err => exact .refused _
    | failed ch err hch => exact .failed _ ch hch
    | subscribed hup hfails =>
      obtain rfl := hfails
      exact .resumed hup hlocked hl

theorem pause_moved (cancel close : Bool) (hlocked : s.locked = false) :
    Moved cfg s (.pause cancel close) (s.pause cancel close) := by
  unfold State.pause
  split
  case isTrue => exact .idle _
  case isFalse hl =>
    split
    case h_1 => exact .crashed _ (s.listeners + ~~~0)
    case h_2 n hn => exact .paused cancel close hlocked hl hn

theorem redial_moved (r : Redialing) : Moved cfg s (.redial r) (s.redial r) := by
  cases r with
  | watch =>
    simp only [State.redial]
    split
    · exact .watched ‹_›
    · exact .idle _
  | notice =>
    simp only [State.redial]
    split
    · exact .noticed ‹_›
    · exact .ended ‹_›
    · exact .idle _
  | trash =>
    simp only [State.redial]
    split
    · exact .trashed ‹_› ‹_›
    · exact .idle _
  | attempt fails =>
    simp only [State.redial]
    split
    · exact .attempted fails ‹_›
    · exact .idle _
  | giveUp =>
    simp only [State.redial]
    split
    · exact .gaveUp ‹_›
    · exact .idle _
  | put =>
    simp only [State.redial]
    split
    · exact .put ‹_› ‹_›
    · exact .idle _
  | receive =>
    simp only [State.redial]
    split
    · exact .received ‹_› ‹_›
    · exact .idle _
  | take =>
    simp only [State.redial]
    split
    · exact .took ‹_› ‹_›
    · exact .idle _
  | close =>
    simp only [State.redial]
    split
    · exact .closed ‹_›
    · exact .idle _

theorem step_moved (cfg : Config) (s : State) (a : Action) : Moved cfg s a (step cfg s a) := by
  unfold step
  split
  · exact .idle a
  cases a with
  | run p fails =>
    dsimp only
    split
    · exact .idle _
    · exact run_moved p fails (Bool.eq_false_iff.mpr ‹_›)
  | pause cancel close =>
    dsimp only
    split
    · exact .idle _
    · exact pause_moved cancel close (Bool.eq_false_iff.mpr ‹_›)
  | resume fails =>
    dsimp only
    split
    · exact .idle _
    · exact resume_moved fails (Bool.eq_false_iff.mpr ‹_›)
  | stop => exact .stopped
  | lose err =>
    dsimp only [State.lose]
    split
    · exact .lost err ‹_›
    · exact .idle _
  | deliver n => exact .delivered n
  | settle n => exact .settled n
  | user m => exact .used m
  | redial r => exact redial_moved r

section

variable (stage : Stage)

/-! An attempt that fails leaves the redialer where it is. -/

@[simp] theorem attempt_redialer : (s.attempt (some stage)).redialer = s.redialer := by cases stage <;> rfl

@[simp] theorem attempt_publishChan : (s.attempt (some stage)).publishChan = s.publishChan := by cases stage <;> rfl

@[simp] theorem attempt_stops : (s.attempt (some stage)).stops = s.stops := by cases stage <;> rfl

@[simp] theorem attempt_listeners : (s.attempt (some stage)).listeners = s.listeners := by cases stage <;> rfl

end

/-! ## The publish channel -/

/-- The publish channels in circulation: in the slot, with a caller, or with the redialer. -/
def State.circulation (s : State) : Nat :=
  Slot.tokens s.publishChan +
    match s.redialer with
    | .opened _ | .closing _ => 1
    | _ => 0

/-- There is one, unless the redialer has thrown it away and has not put a new one. -/
def Circulates (s : State) : Prop :=
  match s.redialer with
  | .dialing => s.circulation = 0
  | .returned => s.circulation ≤ 1
  | _ => s.circulation = 1

theorem Circulates.le_one (h : Circulates s) : s.circulation ≤ 1 := by
  unfold Circulates at h
  split at h <;> omega

/-- The redialer that puts a publish channel has the only one. -/
theorem Circulates.slot_of_opened (h : Circulates s) {pch : Nat} (hr : s.redialer = .opened pch) :
    s.publishChan.slot = none := by
  unfold Circulates State.circulation at h
  rw [hr] at h
  exact Slot.slot_eq_none_of_tokens (Nat.succ.inj h)

theorem tokens_trash {t : Slot.State Nat} {pch : Nat} (h : t.slot = some pch) :
    Slot.tokens t = Slot.tokens { t with slot := none } + 1 := by
  simp only [Slot.tokens, h, Option.isSome_some, Option.isSome_none, Bool.toNat_true, Bool.toNat_false]
  omega

theorem tokens_put {t : Slot.State Nat} (h : t.slot = none) (pch : Nat) :
    Slot.tokens { t with slot := some pch } = Slot.tokens t + 1 := by
  simp only [Slot.tokens, h, Option.isSome_some, Option.isSome_none, Bool.toNat_true, Bool.toNat_false]
  omega

theorem Circulates.step (h : Circulates s) (a : Action) : Circulates (step cfg s a) := by
  have hmoved := step_moved cfg s a
  generalize Redial.step cfg s a = s' at hmoved ⊢
  cases hmoved with
  | idle | crashed | refused | failed | ran | resumed | paused | stopped | delivered | settled => exact h
  | lost err =>
    by_cases hr : s.redialer = .select none
    · simp only [Circulates, State.circulation, hr] at h ⊢
      exact h
    · simpa only [Circulates, State.circulation, if_neg hr] using h
  | used m => simpa only [Circulates, State.circulation, Slot.tokens_step] using h
  | watched hr => simpa only [Circulates, State.circulation, hr] using h
  | noticed hr => simpa only [Circulates, State.circulation, hr] using h
  | ended hr =>
    simp only [Circulates, State.circulation, hr] at h ⊢
    exact h.le
  | trashed hr hslot =>
    have htokens := tokens_trash hslot
    simp only [Circulates, State.circulation, State.setSlot, hr] at h ⊢
    omega
  | attempted fails hr =>
    match fails with
    | none =>
      simp only [Circulates, State.circulation, State.attempt, hr] at h ⊢
      omega
    | some stage => simpa only [Circulates, State.circulation, attempt_redialer, attempt_publishChan] using h
  | gaveUp hr =>
    simp only [Circulates, State.circulation, hr] at h ⊢
    omega
  | @put pch hr hslot =>
    have htokens := tokens_put hslot pch
    simp only [Circulates, State.circulation, State.setSlot, hr] at h ⊢
    omega
  | received hr hstops => simpa only [Circulates, State.circulation, hr] using h
  | took hr hslot =>
    have htokens := tokens_trash hslot
    simp only [Circulates, State.circulation, State.setSlot, hr] at h ⊢
    omega
  | closed hr =>
    simp only [Circulates, State.circulation, hr] at h ⊢
    omega

theorem circulates (cfg : Config) (acts : List Action) : Circulates (Run.exec (step cfg) {} acts) :=
  Run.exec_invariant (fun _ a h => h.step a) acts rfl

/-- What makes the publish channel a lock. -/
structure Exclusive (s : State) : Prop where
  circulation : s.circulation ≤ 1
  /-- A caller finds room when it puts the channel back. -/
  putBack : ∀ pch, .putting pch ∈ s.publishChan.users → s.publishChan.slot = none
  /-- So does the redialer. -/
  put : ∀ pch, s.redialer = .opened pch → s.publishChan.slot = none
  /-- Two callers that have a channel are the same caller. -/
  unique : ∀ (m n : Nat) (v w : Slot.User Nat), s.publishChan.users[m]? = some v → s.publishChan.users[n]? = some w →
    v.carries = true → w.carries = true → m = n

/-- For every interleaving of callers, of connection losses with redials that fail or succeed, and of `Stop`. -/
theorem publish_token (cfg : Config) (acts : List Action) : Exclusive (Run.exec (step cfg) {} acts) := by
  have hcirc := circulates cfg acts
  generalize Run.exec (step cfg) {} acts = s at hcirc ⊢
  have hle : Slot.tokens s.publishChan ≤ 1 := by
    have := hcirc.le_one
    rw [State.circulation] at this
    omega
  refine ⟨hcirc.le_one, ?_, ?_, ?_⟩
  · intro pch hmem
    exact Slot.slot_eq_none hle hmem rfl
  · intro pch hr
    exact hcirc.slot_of_opened hr
  · intro m n v w hv hw hcv hcw
    exact Slot.user_unique hle hv hw hcv hcw

/-! ## Stop -/

/-- The calls of `Stop` can all be received. -/
def Receives (cfg : Config) (s : State) : Prop := ∃ as, (Run.exec (step cfg) s as).stops = 0

/-- A `Stop` that is called in this state can be received, unless a panic has ended the process. -/
def Stoppable (cfg : Config) (s : State) : Prop := s.halted = false → Receives cfg (step cfg s .stop)

/-- The step does not make the redialer return. -/
def Stays (s : State) : Action → Prop
  | .redial .giveUp => s.halted = false → s.redialer ≠ .dialing
  | .redial .notice => s.halted = false → s.redialer ≠ .select (some false)
  | _ => True

instance (s : State) : ∀ a, Decidable (Stays s a)
  | .redial .giveUp => inferInstanceAs (Decidable (_ → _))
  | .redial .notice => inferInstanceAs (Decidable (_ → _))
  | .run _ _ | .pause _ _ | .resume _ | .stop | .lose _ | .deliver _ | .settle _ | .user _ | .redial .watch |
    .redial .trash | .redial (.attempt _) | .redial .put | .redial .receive | .redial .take | .redial .close =>
    inferInstanceAs (Decidable True)

theorem Receives.of_exec (as : List Action) (h : Receives cfg (Run.exec (step cfg) s as)) : Receives cfg s := by
  obtain ⟨bs, hbs⟩ := h
  exact ⟨as ++ bs, by rw [Run.exec, List.foldl_append]; exact hbs⟩

theorem step_redial (hrun : s.halted = false) (r : Redialing) : step cfg s (.redial r) = s.redial r := by
  simp [step, hrun]

theorem step_halted (hh : s.halted = true) (a : Action) : step cfg s a = s := if_pos hh

theorem exec_user (hrun : s.halted = false) (ms : List Slot.Move) :
    Run.exec (step cfg) s (ms.map .user) = { s with publishChan := Run.exec Slot.step s.publishChan ms } := by
  induction ms generalizing s with
  | nil => rfl
  | cons m ms ih =>
    have hstep : step cfg s (.user m) = { s with publishChan := Slot.step s.publishChan m } := by simp [step, hrun]
    have hrest : Run.exec (step cfg) (step cfg s (.user m)) (ms.map .user) = _ := ih (by rw [hstep]; exact hrun)
    rw [List.map_cons, Run.exec_cons, hrest, hstep, Run.exec_cons]

section

variable (hrun : s.halted = false) (hstops : s.stops = 1)
include hrun hstops

theorem receives_select {signal : Option Bool} (hr : s.redialer = .select signal) : Receives cfg s := by
  refine ⟨[.redial .receive], ?_⟩
  rw [Run.exec_cons, Run.exec_nil, step_redial hrun]
  simp only [State.redial, hr, hstops]

theorem receives_enter (hr : s.redialer = .enter) : Receives cfg s := by
  refine .of_exec [.redial .watch] ?_
  rw [Run.exec_cons, Run.exec_nil, step_redial hrun]
  simp only [State.redial, if_pos hr]
  exact receives_select hrun hstops rfl

theorem receives_opened {pch : Nat} (hr : s.redialer = .opened pch) (hslot : s.publishChan.slot = none) :
    Receives cfg s := by
  refine .of_exec [.redial .put] ?_
  rw [Run.exec_cons, Run.exec_nil, step_redial hrun]
  simp only [State.redial, hr, hslot]
  exact receives_enter hrun hstops rfl

/-- The next attempt may succeed. -/
theorem receives_dialing (hr : s.redialer = .dialing) (hslot : s.publishChan.slot = none) : Receives cfg s := by
  refine .of_exec [.redial (.attempt none)] ?_
  rw [Run.exec_cons, Run.exec_nil, step_redial hrun]
  simp only [State.redial, if_pos hr]
  exact receives_opened hrun hstops rfl hslot

/-- The callers put the broken channel back. -/
theorem receives_trashing (hr : s.redialer = .trashing) (htokens : Slot.tokens s.publishChan = 1) :
    Receives cfg s := by
  obtain ⟨ms, hms⟩ := Slot.exists_slot htokens
  obtain ⟨pch, hpch⟩ := Option.isSome_iff_exists.mp hms
  refine .of_exec (ms.map .user) (.of_exec [.redial .trash] ?_)
  rw [exec_user hrun, Run.exec_cons, Run.exec_nil, step_redial (by exact hrun)]
  simp only [State.redial, hr, hpch]
  exact receives_dialing hrun hstops rfl rfl

end

/-- The redialer has not received from `stopCh`, and has not returned. -/
def Working (s : State) : Prop :=
  match s.redialer with
  | .stopping | .closing _ | .returned => False
  | _ => True

theorem receives_working (hrun : s.halted = false) (hstops : s.stops = 1) (hcirc : Circulates s)
    (hworking : Working s) : Receives cfg s := by
  have hcirc' := hcirc
  unfold Circulates State.circulation at hcirc'
  unfold Working at hworking
  cases hr : s.redialer with
  | enter => exact receives_enter hrun hstops hr
  | select signal => exact receives_select hrun hstops hr
  | trashing =>
    rw [hr] at hcirc'
    exact receives_trashing hrun hstops hr hcirc'
  | dialing =>
    rw [hr] at hcirc'
    exact receives_dialing hrun hstops hr (Slot.slot_eq_none_of_tokens hcirc')
  | opened pch => exact receives_opened hrun hstops hr (hcirc.slot_of_opened hr)
  | stopping | closing | returned => simp only [hr] at hworking

/-- Nobody receives from `stopCh` any more. -/
theorem not_receives_returned (hr : s.redialer = .returned) (hstops : s.stops ≠ 0) : ¬ Receives cfg s := by
  rintro ⟨as, has⟩
  have hinv : (Run.exec (step cfg) s as).redialer = .returned ∧ (Run.exec (step cfg) s as).stops ≠ 0 := by
    refine Run.exec_invariant (I := fun t : State => t.redialer = .returned ∧ t.stops ≠ 0) ?_ as ⟨hr, hstops⟩
    rintro t a ⟨hr, hstops⟩
    have hmoved := step_moved cfg t a
    generalize step cfg t a = t' at hmoved ⊢
    cases hmoved with
    | idle | crashed | refused | failed | ran | resumed | paused | delivered | settled | used => exact ⟨hr, hstops⟩
    | stopped => exact ⟨hr, Nat.succ_ne_zero _⟩
    | lost err => exact ⟨by simp [hr], hstops⟩
    | watched h | noticed h | ended h | trashed h | attempted _ h | gaveUp h | put h | received h | took h | closed h =>
      rw [hr] at h
      cases h
  exact hinv.2 has

theorem not_stoppable_returned (hrun : s.halted = false) (hr : s.redialer = .returned) : ¬ Stoppable cfg s := by
  intro h
  have hstop : step cfg s .stop = { s with stops := s.stops + 1 } := by simp [step, hrun]
  refine not_receives_returned ?_ ?_ (h hrun)
  · rw [hstop, hr]
  · rw [hstop]
    exact Nat.succ_ne_zero _

/-- What holds in every run. -/
structure Inv (s : State) : Prop where
  circulates : Circulates s
  stops : s.stops = 0
  working : s.halted = false → Working s

theorem Inv.stoppable (h : Inv s) : Stoppable cfg s := by
  intro hrun
  have hstop : step cfg s .stop = { s with stops := 1 } := by simp [step, hrun, h.stops]
  rw [hstop]
  exact receives_working hrun rfl h.circulates (h.working hrun)

theorem Inv.step (h : Inv s) {a : Action} (ha : a ≠ .stop) (hstays : Stays s a) : Inv (step cfg s a) := by
  cases hrun : s.halted with
  | true => rwa [step_halted hrun]
  | false =>
    have hkept : (Redial.step cfg s a).stops = 0 ∧ Working (Redial.step cfg s a) := by
      have hstops := h.stops
      have hworking := h.working hrun
      have hmoved := step_moved cfg s a
      generalize Redial.step cfg s a = s' at hmoved ⊢
      cases hmoved with
      | idle | crashed | refused | failed | ran | resumed | paused | delivered | settled | used =>
        exact ⟨hstops, hworking⟩
      | stopped => exact absurd rfl ha
      | lost err =>
        refine ⟨hstops, ?_⟩
        by_cases hr : s.redialer = .select none
        · simp only [Working, if_pos hr]
        · simpa only [Working, if_neg hr] using hworking
      | watched | noticed | trashed | put => exact ⟨hstops, trivial⟩
      | ended hr => exact absurd hr (hstays hrun)
      | gaveUp hr => exact absurd hr (hstays hrun)
      | attempted fails hr =>
        match fails with
        | none => exact ⟨hstops, trivial⟩
        | some stage => simpa only [Working, attempt_redialer, attempt_stops] using And.intro hstops hworking
      | received hr hn => rw [hstops] at hn; cases hn
      | took hr => simp only [Working, hr] at hworking
      | closed hr => simp only [Working, hr] at hworking
    exact ⟨h.circulates.step a, hkept.1, fun _ => hkept.2⟩

/-- For every run up to a `Stop`: in every state of it a `Stop` can be received, exactly if the redialer never
returns, neither because the back-off is exhausted nor because the connection was closed without an error. -/
theorem stop_received_iff (cfg : Config) (acts : List Action) (hstop : .stop ∉ acts) :
    (∀ pre post, acts = pre ++ post → Stoppable cfg (Run.exec (step cfg) {} pre)) ↔
      Run.Along (step cfg) Stays {} acts := by
  have hinit : Inv {} := ⟨rfl, rfl, fun _ => trivial⟩
  refine Run.Along.everywhere_iff (I := Inv) (D := fun _ a => a ≠ .stop) ?_ ?_ hinit hinit.stoppable
    (Run.Along.of_forall _ fun a ha => ne_of_mem_of_not_mem ha hstop)
  · intro s a hs _ ha hstays
    have hs' : Inv (step cfg s a) := hs.step ha hstays
    exact ⟨hs', hs'.stoppable⟩
  · intro s a _ _ _ hs'
    unfold Stays
    split
    case h_1 =>
      intro hrun hr
      rw [step_redial hrun, State.redial, if_pos hr] at hs'
      exact absurd hs' (not_stoppable_returned hrun rfl)
    case h_2 =>
      intro hrun hr
      simp only [step_redial hrun, State.redial, hr] at hs'
      exact absurd hs' (not_stoppable_returned hrun rfl)
    case h_3 => trivial

/-- The connection is lost and restored. -/
def restored : List Action :=
  [.redial .watch, .lose true, .redial .notice, .redial .trash, .redial (.attempt none), .redial .put]

theorem restored_stoppable :
    .stop ∉ restored ∧
      ∀ pre post, restored = pre ++ post → Stoppable {} (Run.exec (step {}) {} pre) :=
  ⟨by decide, (stop_received_iff {} restored (by decide)).mpr (by decide)⟩

/-- The connection is lost, and the back-off is exhausted. -/
def exhausted : List Action :=
  [.redial .watch, .lose true, .redial .notice, .redial .trash, .redial (.attempt (some .dial)), .redial .giveUp]

theorem exhausted_not_stoppable : ¬ Stoppable {} (Run.exec (step {}) {} exhausted) :=
  not_stoppable_returned (by decide) (by decide)

-- it is lost before the redialer calls `NotifyClose` again
example : (Run.exec (step {}) {} (restored ++ [.lose true, .redial .watch, .redial .notice])).redialer = .returned := by
  decide

end RoadRunner.Amqp.Redial
