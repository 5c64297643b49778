import RoadRunner.Websockets.FanOut
import RoadRunner.Lib.Update
import RoadRunner.Lib.Calls

/-!
# From Publish to the connections

The model of the way of a message: `Publish` and `PublishAsync` of `broadcast/rpc.go` and `broadcast/plugin.go`, with
the in-memory driver of `memory/memorypubsub` as the only publisher; the goroutine in `Serve` of the websockets plugin,
which takes messages with `Next` and queues them; and the workers of `websockets/pool`. All of them run side by side,
while connections come and go and change their subscriptions.

Messages are named by their places in the list of all that were accepted by `pushCh`.

* `Line`: the messages that no worker has taken yet, in the order in which they will be.
* `messages_once`: messages are taken in the order in which they were accepted, and no connection gets one twice.
* `subscriber_receives`: a connection that is subscribed when a message is accepted, and stays so, gets it.
* `stopped_blocks`: when the workers have been stopped, 201 more messages at most are accepted.
-/

namespace RoadRunner.Websockets.Pipeline

/-- `websocketsv1.Message`. -/
structure Request where
  topics : List Bytes
  payload : Bytes
  deriving DecidableEq

/-- The messages that the loops of `Publish` and `PublishAsync` go through. -/
def messages (req : List Request) : List Message :=
  req.flatMap fun r => (r.topics.filter fun topic => topic ≠ []).map fun topic => ⟨topic, r.payload⟩

/-- Where a worker is. -/
inductive Worker where
  | idle
  /-- Before the call of `Connections`. -/
  | looking (n : Nat)
  /-- In the loop over `res`, with the connections that are left. -/
  | visiting (n : Nat) (left : List Bytes)
  | ended
  deriving DecidableEq

/-- `workersNum`. -/
def workersNum : Nat := 10

/-- The capacity of `pushCh`, and that of `queue`. -/
def capacity : Nat := 100

/-- The websocket plugin, from the broadcast calls to the connections. -/
structure State (S : Type) [Memory.Bst S] where
  /-- What the calls have still to publish. -/
  calls : List (List Message) := []
  /-- The call that has the lock of the broadcast plugin. -/
  holder : Option Nat := none
  accepted : List Message := []
  pushCh : List Nat := []
  /-- What `Next` returned, if it is not queued yet. -/
  held : Option (Option Nat) := none
  /-- The context is cancelled, and the goroutine in `Serve` has returned. -/
  cancelled : Bool := false
  queue : List (Option Nat) := []
  workers : Fin workersNum → Worker := fun _ => .idle
  /-- The subscriptions, and the connections that are in the map. -/
  storage : S := Memory.Bst.new
  connections : Finset Bytes := ∅
  /-- What was written to which connection. -/
  written : List (Nat × Bytes) := []

/-- What can happen. -/
inductive Move where
  | publish (req : List Request)
  | publishAsync (req : List Request)
  /-- The `k`-th call takes the lock. -/
  | lock (k : Nat)
  /-- The call with the lock sends on `pushCh` and unlocks. -/
  | send
  | next
  | cancel
  /-- `Queue`. -/
  | enqueue
  /-- A worker receives from the queue. -/
  | take (i : Fin workersNum)
  /-- `Connections`, and the order in which `res` is visited. -/
  | look (i : Fin workersNum) (order : List Bytes)
  /-- The next turn of the loop; whether `Marshal` and `Write` succeed. -/
  | visit (i : Fin workersNum) (ok : Bool)
  /-- A worker receives from `exit`. -/
  | exit (i : Fin workersNum)
  | subscribe (connID : Bytes) (topics : List Bytes)
  | unsubscribe (connID : Bytes) (topics : List Bytes)
  | connect (connID : Bytes)
  | disconnect (connID : Bytes)

variable {S : Type} [Memory.Bst S]

namespace State

/-- The topic of a message. -/
def topic (s : State S) (n : Nat) : Bytes := (s.accepted[n]?.map Message.topic).getD []

/-- The worker goes on. -/
def setWorker (s : State S) (i : Fin workersNum) (w : Worker) : State S :=
  { s with workers := Function.update s.workers i w }

/-- What a worker does with what it receives. -/
def taken (s : State S) : Option Nat → Worker
  | none => .idle
  | some n => if s.topic n = [] then .idle else .looking n

end State

/-- The worker in its loop. -/
def Worker.over (n : Nat) : List Bytes → Worker
  | [] => .idle
  | left => .visiting n left

/-- One move. -/
def step (s : State S) : Move → State S
  | .publish req => { s with calls := s.calls ++ [messages req] }
  | .publishAsync req => { s with calls := s.calls ++ (messages req).map fun msg => [msg] }
  | .lock k =>
    match s.holder, s.calls[k]? with
    | none, some (_ :: _) => { s with holder := some k }
    | _, _ => s
  | .send =>
    match s.holder with
    | none => s
    | some k =>
      match s.calls[k]? with
      | some (msg :: left) =>
        if s.pushCh.length < capacity then
          { s with
            calls := s.calls.set k left
            holder := none
            accepted := s.accepted ++ [msg]
            pushCh := s.pushCh ++ [s.accepted.length] }
        else s
      | _ => s
  | .next =>
    match s.cancelled, s.held, s.pushCh with
    | false, none, n :: pushCh =>
      { s with pushCh, held := some (if Memory.Bst.contains s.storage (s.topic n) then some n else none) }
    | _, _, _ => s
  | .cancel => if s.held = none then { s with cancelled := true } else s
  | .enqueue =>
    match s.held with
    | none => s
    | some msg => if s.queue.length < capacity then { s with held := none, queue := s.queue ++ [msg] } else s
  | .take i =>
    match s.workers i, s.queue with
    | .idle, msg :: queue => { s with queue }.setWorker i (s.taken msg)
    | _, _ => s
  | .look i order =>
    match s.workers i with
    | .looking n =>
      if Orders.Lists order (Memory.connections s.storage (s.topic n) ∅) then s.setWorker i (.over n order) else s
    | _ => s
  | .visit i ok =>
    match s.workers i with
    | .visiting n (connID :: left) =>
      if connID ∈ s.connections ∧ ok then
        { s with written := s.written ++ [(n, connID)] }.setWorker i (.over n left)
      else s.setWorker i .idle
    | _ => s
  | .exit i => if s.workers i = .idle then s.setWorker i .ended else s
  | .subscribe connID topics => { s with storage := Memory.subscribe s.storage connID topics }
  | .unsubscribe connID topics => { s with storage := Memory.unsubscribe s.storage connID topics }
  | .connect connID => { s with connections := insert connID s.connections }
  | .disconnect connID => { s with connections := s.connections.erase connID }

/-! ## What a step can do -/

/-- What a move can do. -/
inductive Stepped (s : State S) : Move → State S → Prop where
  | idle (m : Move) : Stepped s m s
  | publish (req : List Request) : Stepped s (.publish req) { s with calls := s.calls ++ [messages req] }
  | publishAsync (req : List Request) : Stepped s (.publishAsync req)
      { s with calls := s.calls ++ (messages req).map fun msg => [msg] }
  | lock (k : Nat) : Stepped s (.lock k) { s with holder := some k }
  | send {k : Nat} {msg : Message} {left : List Message} (hk : s.calls[k]? = some (msg :: left))
      (hroom : s.pushCh.length < capacity) : Stepped s .send
      { s with
        calls := s.calls.set k left
        holder := none
        accepted := s.accepted ++ [msg]
        pushCh := s.pushCh ++ [s.accepted.length] }
  | next {n : Nat} {pushCh : List Nat} (hheld : s.held = none) (hpushCh : s.pushCh = n :: pushCh) : Stepped s .next
      { s with pushCh, held := some (if Memory.Bst.contains s.storage (s.topic n) then some n else none) }
  | cancel : Stepped s .cancel { s with cancelled := true }
  | enqueue {msg : Option Nat} (hheld : s.held = some msg) (hroom : s.queue.length < capacity) : Stepped s .enqueue
      { s with held := none, queue := s.queue ++ [msg] }
  | take {i : Fin workersNum} {msg : Option Nat} {queue : List (Option Nat)} (hi : s.workers i = .idle)
      (hqueue : s.queue = msg :: queue) : Stepped s (.take i) ({ s with queue }.setWorker i (s.taken msg))
  | look {i : Fin workersNum} {n : Nat} {order : List Bytes} (hi : s.workers i = .looking n)
      (horder : Orders.Lists order (Memory.Bst.get s.storage (s.topic n))) : Stepped s (.look i order)
      (s.setWorker i (.over n order))
  | visit {i : Fin workersNum} {n : Nat} {connID : Bytes} {left : List Bytes}
      (hi : s.workers i = .visiting n (connID :: left)) (hconn : connID ∈ s.connections) : Stepped s (.visit i true)
      ({ s with written := s.written ++ [(n, connID)] }.setWorker i (.over n left))
  | fail {i : Fin workersNum} {n : Nat} {connID : Bytes} {left : List Bytes} {ok : Bool}
      (hi : s.workers i = .visiting n (connID :: left)) (hfail : ¬ (connID ∈ s.connections ∧ ok)) :
      Stepped s (.visit i ok) (s.setWorker i .idle)
  | exit {i : Fin workersNum} (hi : s.workers i = .idle) : Stepped s (.exit i) (s.setWorker i .ended)
  | subscribe (connID : Bytes) (topics : List Bytes) : Stepped s (.subscribe connID topics)
      { s with storage := Memory.subscribe s.storage connID topics }
  | unsubscribe (connID : Bytes) (topics : List Bytes) : Stepped s (.unsubscribe connID topics)
      { s with storage := Memory.unsubscribe s.storage connID topics }
  | connect (connID : Bytes) : Stepped s (.connect connID) { s with connections := insert connID s.connections }
  | disconnect (connID : Bytes) : Stepped s (.disconnect connID) { s with connections := s.connections.erase connID }

theorem stepped (s : State S) (m : Move) : Stepped s m (step s m) := by
  cases m with
  | publish req => exact .publish req
  | publishAsync req => exact .publishAsync req
  | lock k =>
    simp only [step]
    split
    case h_1 => exact .lock k
    case h_2 => exact .idle _
  | send =>
    simp only [step]
    split
    case h_1 => exact .idle _
    case h_2 k hk =>
      split
      case h_1 msg left hcall =>
        split
        case isTrue hroom => exact .send hcall hroom
        case isFalse => exact .idle _
      case h_2 => exact .idle _
  | next =>
    simp only [step]
    split
    case h_1 hcancelled hheld hpushCh => exact .next hheld hpushCh
    case h_2 => exact .idle _
  | cancel =>
    simp only [step]
    split
    case isTrue => exact .cancel
    case isFalse => exact .idle _
  | enqueue =>
    simp only [step]
    split
    case h_1 => exact .idle _
    case h_2 msg hheld =>
      split
      case isTrue hroom => exact .enqueue hheld hroom
      case isFalse => exact .idle _
  | take i =>
    simp only [step]
    split
    case h_1 hi hqueue => exact .take hi hqueue
    case h_2 => exact .idle _
  | look i order =>
    simp only [step]
    split
    case h_1 n hi =>
      split
      case isTrue horder => exact .look hi (by rwa [Memory.connections_empty] at horder)
      case isFalse => exact .idle _
    case h_2 => exact .idle _
  | visit i ok =>
    simp only [step]
    split
    case h_1 n connID left hi =>
      split
      case isTrue hok =>
        obtain ⟨hconn, rfl⟩ := hok
        exact .visit hi hconn
      case isFalse hfail => exact .fail hi hfail
    case h_2 => exact .idle _
  | exit i =>
    simp only [step]
    split
    case isTrue hi => exact .exit hi
    case isFalse => exact .idle _
  | subscribe connID topics => exact .subscribe connID topics
  | unsubscribe connID topics => exact .unsubscribe connID topics
  | connect connID => exact .connect connID
  | disconnect connID => exact .disconnect connID

/-! ## The line -/

/-- The messages that no worker has taken yet. -/
def State.line (s : State S) : List Nat := s.queue.reduceOption ++ (s.held.join.toList ++ s.pushCh)

/-- The message that a worker is at. -/
def Worker.at? : Worker → Option Nat
  | .looking n => some n
  | .visiting n _ => some n
  | _ => none

/-- The message may still be written to the connection by the worker. -/
def Worker.Owes (n : Nat) (connID : Bytes) : Worker → Prop
  | .looking k => k = n
  | .visiting k left => k = n ∧ connID ∈ left
  | _ => False

/-- What holds in every run. -/
structure Inv (s : State S) : Prop where
  line : s.line.Pairwise (· < ·)
  accepted : ∀ n ∈ s.line, n < s.accepted.length
  /-- Workers are at messages that come before those of the line. -/
  before : ∀ i n, (s.workers i).at? = some n → n < s.accepted.length ∧ ∀ k ∈ s.line, n < k
  apart : ∀ i j n, (s.workers i).at? = some n → (s.workers j).at? = some n → i = j
  visiting : ∀ i n left, s.workers i = .visiting n left → left ≠ [] ∧ left.Nodup
  written : ∀ x ∈ s.written, x.1 < s.accepted.length ∧ (∀ k ∈ s.line, x.1 < k) ∧
    ∀ i, ¬ (s.workers i).Owes x.1 x.2
  once : s.written.Nodup

theorem setWorker_self (s : State S) (i : Fin workersNum) (w : Worker) : (s.setWorker i w).workers i = w := by
  simp [State.setWorker]

theorem setWorker_of_ne (s : State S) {i j : Fin workersNum} (w : Worker) (h : j ≠ i) :
    (s.setWorker i w).workers j = s.workers j := by
  simp [State.setWorker, h]

/-- What holds of the worker that goes on, and of all others. -/
theorem forall_setWorker {s : State S} {i : Fin workersNum} {w : Worker} {P : Fin workersNum → Worker → Prop}
    (hi : P i w) (hothers : ∀ j, j ≠ i → P j (s.workers j)) (j : Fin workersNum) : P j ((s.setWorker i w).workers j) :=
  (Function.forall_update_iff s.workers P).mpr ⟨hi, hothers⟩ j

/-- What is at the head of the queue. -/
theorem reduceOption_cons (msg : Option Nat) (queue : List (Option Nat)) :
    (msg :: queue).reduceOption = msg.toList ++ queue.reduceOption := by
  cases msg <;> rfl

theorem Worker.Owes.at? {n : Nat} {connID : Bytes} {w : Worker} (h : w.Owes n connID) : w.at? = some n := by
  cases w with
  | looking k => exact congrArg some h
  | visiting k left => exact congrArg some h.1
  | idle | ended => exact h.elim

theorem at?_over {n k : Nat} {left : List Bytes} (h : (Worker.over n left).at? = some k) : k = n := by
  cases left with
  | nil => cases h
  | cons connID left => exact (Option.some.inj h).symm

theorem owes_over {n k : Nat} {connID : Bytes} {left : List Bytes} :
    (Worker.over n left).Owes k connID ↔ n = k ∧ connID ∈ left := by
  cases left with
  | nil => simp [Worker.over, Worker.Owes]
  | cons c left => rfl

theorem over_eq_visiting {n k : Nat} {left rest : List Bytes} (h : Worker.over n left = .visiting k rest) :
    left = rest ∧ rest ≠ [] := by
  cases left with
  | nil => cases h
  | cons c left =>
    obtain ⟨-, rfl⟩ := Worker.visiting.inj h
    exact ⟨rfl, List.cons_ne_nil c left⟩

variable {s s' : State S} {m : Move}

/-- A step that leaves the workers alone, and takes nothing into the line that was not there. -/
theorem Inv.of_line (h : Inv s) (hworkers : s'.workers = s.workers) (hwritten : s'.written = s.written)
    (haccepted : s'.accepted = s.accepted) (hline : s'.line.Sublist s.line) : Inv s' where
  line := h.line.sublist hline
  accepted n hn := haccepted ▸ h.accepted n (hline.subset hn)
  before i n hn := by
    rw [hworkers] at hn
    rw [haccepted]
    exact ⟨(h.before i n hn).1, fun k hk => (h.before i n hn).2 k (hline.subset hk)⟩
  apart i j n := by
    rw [hworkers]
    exact h.apart i j n
  visiting i n left := by
    rw [hworkers]
    exact h.visiting i n left
  written x hx := by
    rw [hwritten] at hx
    obtain ⟨hlt, hbefore, howes⟩ := h.written x hx
    rw [haccepted, hworkers]
    exact ⟨hlt, fun k hk => hbefore k (hline.subset hk), howes⟩
  once := hwritten ▸ h.once

/-- A worker goes on to `w`, which is at a message that no other one is at, or at none. -/
theorem Inv.setWorker (h : Inv s) (i : Fin workersNum) {w : Worker}
    (hbefore : ∀ n, w.at? = some n → n < s.accepted.length ∧ ∀ k ∈ s.line, n < k)
    (hapart : ∀ j n, j ≠ i → w.at? = some n → (s.workers j).at? ≠ some n)
    (hvisiting : ∀ n left, w = .visiting n left → left ≠ [] ∧ left.Nodup)
    (howes : ∀ x ∈ s.written, ¬ w.Owes x.1 x.2) : Inv (s.setWorker i w) where
  line := h.line
  accepted := h.accepted
  before := forall_setWorker (P := fun _ w => ∀ n, w.at? = some n → n < s.accepted.length ∧ ∀ k ∈ s.line, n < k)
    hbefore fun j _ => h.before j
  apart j k n hj hk := by
    by_cases hji : j = i
    · by_cases hki : k = i
      · rw [hji, hki]
      · subst hji
        rw [setWorker_self] at hj
        rw [setWorker_of_ne s w hki] at hk
        exact absurd hk (hapart k n hki hj)
    · rw [setWorker_of_ne s w hji] at hj
      by_cases hki : k = i
      · subst hki
        rw [setWorker_self] at hk
        exact absurd hj (hapart j n hji hk)
      · rw [setWorker_of_ne s w hki] at hk
        exact h.apart j k n hj hk
  visiting := forall_setWorker (P := fun _ w => ∀ n left, w = .visiting n left → left ≠ [] ∧ left.Nodup) hvisiting
    fun j _ => h.visiting j
  written x hx := by
    obtain ⟨hlt, hline, hall⟩ := h.written x hx
    exact ⟨hlt, hline, forall_setWorker (P := fun _ w => ¬ w.Owes x.1 x.2) (howes x hx) fun j _ => hall j⟩
  once := h.once

/-- A worker that goes on with nothing. -/
theorem Inv.setWorker_none (h : Inv s) (i : Fin workersNum) {w : Worker} (hw : w.at? = none) :
    Inv (s.setWorker i w) := by
  refine h.setWorker i ?_ ?_ ?_ ?_
  · intro n hn
    rw [hw] at hn
    cases hn
  · intro j n _ hn
    rw [hw] at hn
    cases hn
  · rintro n left rfl
    cases hw
  · intro x _ howes
    rw [howes.at?] at hw
    cases hw

theorem line_send (s : State S) (msg : Message) (calls : List (List Message)) :
    { s with calls, holder := none, accepted := s.accepted ++ [msg], pushCh := s.pushCh ++ [s.accepted.length] }.line =
      s.line ++ [s.accepted.length] := by
  simp [State.line]

/-- A message is accepted. -/
theorem Inv.send (h : Inv s) (msg : Message) (calls : List (List Message)) :
    Inv { s with
      calls
      holder := none
      accepted := s.accepted ++ [msg]
      pushCh := s.pushCh ++ [s.accepted.length] } := by
  have hlast : ∀ {P : Nat → Prop}, (∀ n ∈ s.line, P n) → P s.accepted.length →
      ∀ n ∈ s.line ++ [s.accepted.length], P n := fun hline hnew n hn => by
    rcases List.mem_append.mp hn with hn | hn
    · exact hline n hn
    · exact List.mem_singleton.mp hn ▸ hnew
  refine ⟨?_, ?_, ?_, h.apart, h.visiting, ?_, h.once⟩
  · rw [line_send, List.pairwise_append]
    refine ⟨h.line, List.pairwise_singleton _ _, fun n hn k hk => ?_⟩
    rw [List.mem_singleton.mp hk]
    exact h.accepted n hn
  · rw [line_send, List.length_append, List.length_singleton]
    exact hlast (fun n hn => Nat.lt_succ_of_lt (h.accepted n hn)) (Nat.lt_succ_self _)
  · intro i n hn
    obtain ⟨hlt, hline⟩ := h.before i n hn
    rw [line_send, List.length_append, List.length_singleton]
    exact ⟨Nat.lt_succ_of_lt hlt, hlast hline hlt⟩
  · intro x hx
    obtain ⟨hlt, hline, howes⟩ := h.written x hx
    rw [line_send, List.length_append, List.length_singleton]
    exact ⟨Nat.lt_succ_of_lt hlt, hlast hline hlt, howes⟩

/-- A worker takes the first message of the line. -/
theorem Inv.take (h : Inv s) {i : Fin workersNum} {msg : Option Nat} {queue : List (Option Nat)}
    (hqueue : s.queue = msg :: queue) : Inv ({ s with queue }.setWorker i (s.taken msg)) := by
  have hrest : Inv { s with queue } := by
    refine h.of_line rfl rfl rfl ?_
    rw [State.line, State.line, hqueue]
    rw [reduceOption_cons, List.append_assoc]
    exact List.sublist_append_right _ _
  cases msg with
  | none => exact hrest.setWorker_none i rfl
  | some n =>
    by_cases htopic : s.topic n = []
    · rw [State.taken, if_pos htopic]
      exact hrest.setWorker_none i rfl
    · rw [State.taken, if_neg htopic]
      have hline : s.line = n :: { s with queue }.line := by
        simp [State.line, hqueue]
      have hpairwise := h.line
      rw [hline, List.pairwise_cons] at hpairwise
      have hmem : n ∈ s.line := hline ▸ List.mem_cons_self
      refine hrest.setWorker i ?_ ?_ ?_ ?_
      · intro k hk
        obtain rfl := Option.some.inj hk
        exact ⟨h.accepted n hmem, hpairwise.1⟩
      · intro j k _ hk hj
        obtain rfl := Option.some.inj hk
        exact Nat.lt_irrefl n ((h.before j n hj).2 n hmem)
      · intro k left heq
        cases heq
      · intro x hx howes
        have hlt := (h.written x hx).2.1 n hmem
        obtain rfl : n = x.1 := howes
        exact Nat.lt_irrefl _ hlt

/-- A worker that stays at its message. -/
theorem Inv.over (h : Inv s) {i : Fin workersNum} {n : Nat} (hi : (s.workers i).at? = some n) {left : List Bytes}
    (hnodup : left.Nodup) (howes : ∀ x ∈ s.written, x.1 = n → x.2 ∉ left) : Inv (s.setWorker i (.over n left)) := by
  refine h.setWorker i ?_ ?_ ?_ ?_
  · intro k hk
    obtain rfl := at?_over hk
    exact h.before i k hi
  · intro j k hji hk hj
    obtain rfl := at?_over hk
    exact hji (h.apart j i k hj hi)
  · intro k rest heq
    obtain ⟨rfl, hne⟩ := over_eq_visiting heq
    exact ⟨hne, hnodup⟩
  · intro x hx hx'
    obtain ⟨rfl, hmem⟩ := owes_over.mp hx'
    exact howes x hx rfl hmem

/-- A worker writes to a connection. -/
theorem Inv.visit (h : Inv s) {i : Fin workersNum} {n : Nat} {connID : Bytes} {left : List Bytes}
    (hi : s.workers i = .visiting n (connID :: left)) :
    Inv ({ s with written := s.written ++ [(n, connID)] }.setWorker i (.over n left)) := by
  have hat : (s.workers i).at? = some n := by rw [hi]; rfl
  have hnodup := List.nodup_cons.mp (h.visiting i n _ hi).2
  have hover : Inv (s.setWorker i (.over n left)) := by
    refine h.over hat hnodup.2 fun x hx hxn hmem => ?_
    refine (h.written x hx).2.2 i ?_
    rw [hi]
    exact ⟨hxn.symm, List.mem_cons_of_mem connID hmem⟩
  refine ⟨hover.line, hover.accepted, hover.before, hover.apart, hover.visiting, ?_, ?_⟩
  · intro x hx
    rcases List.mem_append.mp hx with hx | hx
    · exact hover.written x hx
    · obtain rfl := List.mem_singleton.mp hx
      obtain ⟨hlt, hline⟩ := h.before i n hat
      refine ⟨hlt, hline, fun j howes => ?_⟩
      by_cases hji : j = i
      · subst hji
        rw [setWorker_self, owes_over] at howes
        exact hnodup.1 howes.2
      · rw [setWorker_of_ne _ _ hji] at howes
        exact hji (h.apart j i n howes.at? hat)
  · refine List.nodup_append.mpr ⟨h.once, List.nodup_singleton _, ?_⟩
    rintro x hx y hy rfl
    obtain rfl := List.mem_singleton.mp hy
    refine (h.written _ hx).2.2 i ?_
    rw [hi]
    exact ⟨rfl, List.mem_cons_self⟩

theorem Inv.stepped (h : Inv s) (hstep : Stepped s m s') : Inv s' := by
  cases hstep with
  | idle => exact h
  | publish | publishAsync | lock | cancel | subscribe | unsubscribe | connect | disconnect =>
    exact h.of_line rfl rfl rfl (List.Sublist.refl _)
  | send hk hroom => exact h.send _ _
  | next hheld hpushCh =>
    refine h.of_line rfl rfl rfl ?_
    rw [State.line, State.line, hheld, hpushCh]
    split
    · exact List.Sublist.refl _
    · exact (List.sublist_cons_self _ _).append_left _
  | enqueue hheld hroom =>
    refine h.of_line rfl rfl rfl ?_
    rw [State.line, State.line, hheld]
    simp [List.reduceOption_append, reduceOption_cons]
  | take hi hqueue => exact h.take hqueue
  | @look i n order hi horder =>
    refine h.over (by rw [hi]; rfl) horder.1 fun x hx hxn _ => ?_
    refine (h.written x hx).2.2 i ?_
    rw [hi]
    exact hxn.symm
  | visit hi hconn => exact h.visit hi
  | fail hi hfail => exact h.setWorker_none _ rfl
  | exit hi => exact h.setWorker_none _ rfl

theorem inv_start : Inv ({} : State S) where
  line := List.Pairwise.nil
  accepted n hn := by simp [State.line] at hn
  before i n hn := by cases hn
  apart i j n hn := by cases hn
  visiting i n left hi := by cases hi
  written x hx := by cases hx
  once := List.nodup_nil

theorem inv_exec (ms : List Move) : Inv (Run.exec step ({} : State S) ms) :=
  Run.exec_invariant (I := Inv) (fun s m h => h.stepped (Pipeline.stepped s m)) ms inv_start

/-- **Order and no duplicates.** In every run, the messages are taken by the workers in the order in which they were
accepted, no two workers are at the same message, and no message is written to a connection twice. -/
theorem messages_once (ms : List Move) :
    let s := Run.exec step ({} : State S) ms
    s.line.Pairwise (· < ·) ∧
    (∀ i n, (s.workers i).at? = some n → ∀ k ∈ s.line, n < k) ∧
    (∀ i j n, (s.workers i).at? = some n → (s.workers j).at? = some n → i = j) ∧
    (∀ x ∈ s.written, ∀ k ∈ s.line, x.1 < k) ∧ s.written.Nodup := by
  intro s
  have h : Inv s := inv_exec ms
  exact ⟨h.line, fun i n hn => (h.before i n hn).2, h.apart, fun x hx => (h.written x hx).2.1, h.once⟩

/-! ## A subscribed connection gets the message -/

/-- No message has an empty topic. -/
structure Named (s : State S) : Prop where
  accepted : ∀ msg ∈ s.accepted, msg.topic ≠ []
  calls : ∀ call ∈ s.calls, ∀ msg ∈ call, msg.topic ≠ []

theorem topic_of_mem_messages {req : List Request} {msg : Message} (h : msg ∈ messages req) : msg.topic ≠ [] := by
  simp only [messages, List.mem_flatMap, List.mem_map, List.mem_filter, decide_eq_true_eq] at h
  obtain ⟨r, -, topic, ⟨-, hne⟩, rfl⟩ := h
  exact hne

theorem Named.stepped (h : Named s) (hstep : Stepped s m s') : Named s' := by
  cases hstep with
  | publish req =>
    refine ⟨h.accepted, Update.forall_concat h.calls fun msg hmsg => topic_of_mem_messages hmsg⟩
  | publishAsync req =>
    refine ⟨h.accepted, fun call hcall msg hmsg => ?_⟩
    rcases List.mem_append.mp hcall with hcall | hcall
    · exact h.calls call hcall msg hmsg
    · obtain ⟨msg', hmsg', rfl⟩ := List.mem_map.mp hcall
      obtain rfl := List.mem_singleton.mp hmsg
      exact topic_of_mem_messages hmsg'
  | send hk hroom =>
    have hcall := h.calls _ (List.mem_of_getElem? hk)
    refine ⟨Update.forall_concat h.accepted (hcall _ List.mem_cons_self), Update.forall_set h.calls _ ?_⟩
    exact fun msg hmsg => hcall msg (List.mem_cons_of_mem _ hmsg)
  | _ => exact ⟨h.accepted, h.calls⟩

theorem topic_ne_nil (h : Named s) {n : Nat} (hn : n < s.accepted.length) : s.topic n ≠ [] := by
  rw [State.topic, List.getElem?_eq_getElem hn]
  exact h.accepted _ (List.getElem_mem hn)

theorem topic_append (s : State S) {n : Nat} (hn : n < s.accepted.length) (s' : State S) {msg : Message}
    (hs' : s'.accepted = s.accepted ++ [msg]) : s'.topic n = s.topic n := by
  rw [State.topic, State.topic, hs', List.getElem?_append_left hn]

/-- All connections that the topic's messages go to are in the map. -/
structure Connected (topic : Bytes) (s : State S) : Prop where
  subscribed : ∀ connID ∈ Memory.Bst.get s.storage topic, connID ∈ s.connections
  found : ∀ i n left, s.workers i = .visiting n left → s.topic n = topic → ∀ connID ∈ left, connID ∈ s.connections

/-- The storage lists the connection under the topic, and otherwise only connections that are in the map. -/
def Serves (topic connID : Bytes) (storage : S) (connections : Finset Bytes) : Prop :=
  connID ∈ Memory.Bst.get storage topic ∧ ∀ c ∈ Memory.Bst.get storage topic, c ∈ connections

/-- The storage goes on listing the connection under the topic, no connection that is listed there or is being visited
for it is disconnected, and the messages of the topic are marshalled and written. What a `Remove` of another pair does
to the topic is part of the condition. -/
def Healthy (topic connID : Bytes) (s : State S) : Move → Prop
  | .subscribe c topics => Serves topic connID (Memory.subscribe s.storage c topics) s.connections
  | .unsubscribe c topics => Serves topic connID (Memory.unsubscribe s.storage c topics) s.connections
  | .disconnect c =>
    c ∉ Memory.Bst.get s.storage topic ∧ ∀ i n left, s.workers i = .visiting n left → s.topic n = topic → c ∉ left
  | .visit i ok => ∀ n left, s.workers i = .visiting n left → s.topic n = topic → ok = true
  | _ => True

/-- The message waits for a worker, a worker has still to write it, or it is written. -/
structure Due (topic connID : Bytes) (n : Nat) (s : State S) : Prop where
  lt : n < s.accepted.length
  topic_eq : s.topic n = topic
  subscribed : connID ∈ Memory.Bst.get s.storage topic
  connected : Connected topic s
  due : n ∈ s.line ∨ (∃ i, (s.workers i).Owes n connID) ∨ (n, connID) ∈ s.written

section

variable {topic connID : Bytes} {n : Nat}

/-- A step that leaves the messages and the workers alone. -/
theorem Due.of_eq (h : Due topic connID n s) (haccepted : s'.accepted = s.accepted) (hworkers : s'.workers = s.workers)
    (hstorage : s'.storage = s.storage) (hconnections : s'.connections = s.connections)
    (hwritten : s'.written = s.written) (hline : n ∈ s.line → n ∈ s'.line) : Due topic connID n s' := by
  have htopic : s'.topic = s.topic := by
    funext k
    rw [State.topic, State.topic, haccepted]
  refine ⟨haccepted ▸ h.lt, htopic ▸ h.topic_eq, hstorage ▸ h.subscribed, ⟨?_, ?_⟩, ?_⟩
  · rw [hstorage, hconnections]
    exact h.connected.subscribed
  · rw [hworkers, hconnections, htopic]
    exact h.connected.found
  · rw [hworkers, hwritten]
    exact h.due.imp_left hline

/-- A worker goes on: it visits only connections that are in the map, and owes what it owed. -/
theorem Due.setWorker (h : Due topic connID n s) (i : Fin workersNum) {w : Worker}
    (hfound : ∀ k left, w = .visiting k left → s.topic k = topic → ∀ c ∈ left, c ∈ s.connections)
    (howes : (s.workers i).Owes n connID → w.Owes n connID ∨ (n, connID) ∈ s.written) :
    Due topic connID n (s.setWorker i w) := by
  refine ⟨h.lt, h.topic_eq, h.subscribed, ⟨h.connected.subscribed, fun j k left hj => ?_⟩, ?_⟩
  · by_cases hji : j = i
    · subst hji
      rw [setWorker_self] at hj
      exact hfound k left hj
    · rw [setWorker_of_ne s w hji] at hj
      exact h.connected.found j k left hj
  · rcases h.due with hline | ⟨j, hj⟩ | hwritten
    · exact .inl hline
    · by_cases hji : j = i
      · subst hji
        refine .inr ((howes hj).imp_left fun hw => ⟨j, ?_⟩)
        rw [setWorker_self]
        exact hw
      · refine .inr (.inl ⟨j, ?_⟩)
        rw [setWorker_of_ne s w hji]
        exact hj
    · exact .inr (.inr hwritten)

theorem Due.take (hnamed : Named s) (h : Due topic connID n s) {i : Fin workersNum} {msg : Option Nat}
    {queue : List (Option Nat)} (hi : s.workers i = .idle) (hqueue : s.queue = msg :: queue) :
    Due topic connID n ({ s with queue }.setWorker i (s.taken msg)) := by
  by_cases hmsg : msg = some n
  · -- the message itself is taken
    subst hmsg
    have htaken : s.taken (some n) = .looking n := if_neg (topic_ne_nil hnamed h.lt)
    rw [htaken]
    refine ⟨h.lt, h.topic_eq, h.subscribed, ⟨h.connected.subscribed, fun j k left hj => ?_⟩, .inr (.inl ⟨i, ?_⟩)⟩
    · by_cases hji : j = i
      · subst hji
        rw [setWorker_self] at hj
        cases hj
      · rw [setWorker_of_ne _ _ hji] at hj
        exact h.connected.found j k left hj
    · rw [setWorker_self]
      rfl
  · have hrest : Due topic connID n { s with queue } := by
      refine h.of_eq rfl rfl rfl rfl rfl fun hline => ?_
      rw [State.line, hqueue, reduceOption_cons, List.append_assoc, List.mem_append] at hline
      refine hline.resolve_left fun hmem => hmsg ?_
      exact Option.mem_toList.mp hmem
    refine hrest.setWorker i ?_ fun howes => ?_
    · intro k left heq
      cases msg with
      | none => cases heq
      | some j =>
        rw [State.taken] at heq
        split at heq <;> cases heq
    · rw [hi] at howes
      exact howes.elim

theorem Due.stepped [Memory.ConsistentBst S] (hinv : Inv s) (hnamed : Named s) (h : Due topic connID n s)
    (hstep : Stepped s m s') (hm : Healthy topic connID s m) : Due topic connID n s' := by
  cases hstep with
  | idle => exact h
  | publish | publishAsync | lock | cancel => exact h.of_eq rfl rfl rfl rfl rfl id
  | send hk hroom =>
    refine ⟨?_, ?_, h.subscribed, ⟨h.connected.subscribed, fun i k left hi htopic => ?_⟩, ?_⟩
    · simpa using Nat.lt_succ_of_lt h.lt
    · rw [topic_append s h.lt _ rfl]
      exact h.topic_eq
    · have hlt := (hinv.before i k (by rw [show s.workers i = _ from hi]; rfl)).1
      rw [topic_append s hlt _ rfl] at htopic
      exact h.connected.found i k left hi htopic
    · rw [line_send]
      exact h.due.imp_left (List.mem_append_left _)
  | @next k pushCh hheld hpushCh =>
    refine h.of_eq rfl rfl rfl rfl rfl fun hline => ?_
    rw [State.line, hheld, hpushCh] at hline
    by_cases hk : k = n
    · subst hk
      have hcontains : Memory.Bst.contains s.storage (s.topic k) = true := by
        rw [h.topic_eq]
        exact Memory.ConsistentBst.contains_of_mem h.subscribed
      simp [State.line, hcontains]
    · simp only [State.line, List.mem_append, List.mem_cons, Option.join_none, Option.toList_none, List.not_mem_nil,
        false_or] at hline ⊢
      rcases hline with hline | hline | hline
      · exact .inl hline
      · exact absurd hline.symm hk
      · exact .inr (.inr hline)
  | enqueue hheld hroom =>
    refine h.of_eq rfl rfl rfl rfl rfl fun hline => ?_
    rw [State.line, hheld] at hline
    simpa [State.line, List.reduceOption_append, reduceOption_cons] using hline
  | take hi hqueue => exact h.take hnamed hi hqueue
  | @look i k order hi horder =>
    refine h.setWorker i (fun j left heq htopic c hc => ?_) fun howes => ?_
    · obtain rfl : j = k := at?_over (by rw [heq]; rfl)
      rw [← (over_eq_visiting heq).1, horder.mem_iff, htopic] at hc
      exact h.connected.subscribed c hc
    · rw [hi] at howes
      obtain rfl : k = n := howes
      refine .inl (owes_over.mpr ⟨rfl, ?_⟩)
      rw [horder.mem_iff, h.topic_eq]
      exact h.subscribed
  | @visit i k c left hi hconn =>
    have hfound : ∀ j rest, Worker.over k left = .visiting j rest → s.topic j = topic →
        ∀ c ∈ rest, c ∈ s.connections := by
      intro j rest heq htopic c' hc'
      obtain rfl : j = k := at?_over (by rw [heq]; rfl)
      rw [← (over_eq_visiting heq).1] at hc'
      exact h.connected.found i j _ hi htopic c' (List.mem_cons_of_mem c hc')
    have hwrite : Due topic connID n { s with written := s.written ++ [(k, c)] } :=
      ⟨h.lt, h.topic_eq, h.subscribed, ⟨h.connected.subscribed, h.connected.found⟩,
        h.due.imp_right (Or.imp_right (List.mem_append_left _))⟩
    refine hwrite.setWorker i hfound fun howes => ?_
    rw [show s.workers i = _ from hi] at howes
    obtain ⟨rfl, hmem⟩ := howes
    rcases List.mem_cons.mp hmem with rfl | hmem
    · exact .inr (by simp)
    · exact .inl (owes_over.mpr ⟨rfl, hmem⟩)
  | @fail i k c left ok hi hfail =>
    refine h.setWorker i (fun j left heq => by cases heq) fun howes => ?_
    rw [hi] at howes
    obtain ⟨rfl, -⟩ := howes
    have hok := hm k _ hi h.topic_eq
    exact absurd ⟨h.connected.found i k _ hi h.topic_eq c List.mem_cons_self, hok⟩ hfail
  | exit hi =>
    refine h.setWorker _ (fun j left heq => by cases heq) fun howes => ?_
    rw [hi] at howes
    exact howes.elim
  | subscribe c topics | unsubscribe c topics =>
    exact ⟨h.lt, h.topic_eq, hm.1, ⟨hm.2, h.connected.found⟩, h.due⟩
  | connect c =>
    exact ⟨h.lt, h.topic_eq, h.subscribed,
      ⟨fun c' hc' => Finset.mem_insert_of_mem (h.connected.subscribed c' hc'),
        fun i k left hi htopic c' hc' => Finset.mem_insert_of_mem (h.connected.found i k left hi htopic c' hc')⟩, h.due⟩
  | disconnect c =>
    refine ⟨h.lt, h.topic_eq, h.subscribed, ⟨fun c' hc' => ?_, fun i k left hi htopic c' hc' => ?_⟩, h.due⟩
    · refine Finset.mem_erase.mpr ⟨?_, h.connected.subscribed c' hc'⟩
      rintro rfl
      exact hm.1 hc'
    · refine Finset.mem_erase.mpr ⟨?_, h.connected.found i k left hi htopic c' hc'⟩
      rintro rfl
      exact hm.2 i k left hi htopic hc'

/-! ## The goroutines bring the message to the connection -/

/-- How far a worker is from being idle, where a topic has `c` connections at most. -/
def Worker.cost (c : Nat) : Worker → Nat
  | .looking _ => c + 2
  | .visiting _ left => left.length + 1
  | _ => 0

/-- A bound on the connections that a message goes to. -/
def width (storage : S) (accepted : List Message) : Nat :=
  (accepted.map fun msg => (Memory.Bst.get storage msg.topic).card).sum

/-- How far all messages are from having been written. -/
def State.distance (s : State S) : Nat :=
  (width s.storage s.accepted + 5) * s.pushCh.length + (width s.storage s.accepted + 4) * s.held.toList.length +
    (width s.storage s.accepted + 3) * s.queue.length + ∑ i, (s.workers i).cost (width s.storage s.accepted)

/-- The moves of the goroutines, without a failing write. -/
def Calm : Move → Prop
  | .next | .enqueue | .take _ | .look _ _ => True
  | .visit _ ok => ok = true
  | _ => False

/-- What a goroutine leaves alone. -/
structure Kept (s s' : State S) : Prop where
  cancelled : s'.cancelled = s.cancelled
  alive : ∀ i, s.workers i ≠ .ended → s'.workers i ≠ .ended

theorem Kept.setWorker (s : State S) (i : Fin workersNum) {w : Worker} (hw : w ≠ .ended) :
    Kept s (s.setWorker i w) := by
  refine ⟨rfl, fun j hj => ?_⟩
  by_cases hji : j = i
  · subst hji
    rwa [setWorker_self]
  · rwa [setWorker_of_ne s w hji]

end

/-- A connection subscribes, and a message for it is accepted. -/
def published : List Move :=
  [.connect [1], .subscribe [1] [[2]], .publish [⟨[[2]], [3]⟩], .lock 0, .send]

/-- What is in the channels, with the messages that `Next` has replaced by nil. -/
def State.slots (s : State S) : Nat := s.pushCh.length + s.held.toList.length + s.queue.length

/-- What calls have left to publish. -/
def unpublished (calls : List (List Message)) : Nat := (calls.map List.length).sum

/-- The channels do not hold more than they can. -/
structure Bounded (s : State S) : Prop where
  pushCh : s.pushCh.length ≤ capacity
  queue : s.queue.length ≤ capacity

theorem Bounded.stepped (h : Bounded s) (hstep : Stepped s m s') : Bounded s' := by
  cases hstep with
  | send hk hroom => exact ⟨by simpa using hroom, h.queue⟩
  | next hheld hpushCh =>
    have hle := h.pushCh
    rw [hpushCh] at hle
    exact ⟨Nat.le_of_succ_le hle, h.queue⟩
  | enqueue hheld hroom => exact ⟨h.pushCh, by simpa using hroom⟩
  | take hi hqueue =>
    have hle := h.queue
    rw [hqueue] at hle
    exact ⟨h.pushCh, Nat.le_of_succ_le hle⟩
  | _ => exact ⟨h.pushCh, h.queue⟩

/-- How `s'` comes from `s` when no worker takes anything. -/
structure Stopped (s s' : State S) : Prop where
  ended : ∀ i, s'.workers i = .ended
  accepted : s'.accepted.length + s.slots = s.accepted.length + s'.slots
  calls : s.calls.length ≤ s'.calls.length
  unpublished : s.accepted.length + unpublished s.calls ≤
    s'.accepted.length + Pipeline.unpublished (s'.calls.take s.calls.length)

theorem unpublished_set {calls : List (List Message)} {k : Nat} {msg : Message} {left : List Message}
    (hk : calls[k]? = some (msg :: left)) : unpublished (calls.set k left) + 1 = unpublished calls := by
  have htail := Calls.pending_set_tail (w := fun _ : Message => 1) hk
  have hlength : Calls.weight (fun _ : Message => 1) = List.length := by
    funext call
    simp [Calls.weight]
  rw [Calls.pending, Calls.pending, hlength] at htail
  rw [unpublished, unpublished]
  omega

/-- A message is sent by one of the first calls, or they are as they were. -/
theorem unpublished_take_set {calls : List (List Message)} {k : Nat} {msg : Message} {left : List Message}
    (hk : calls[k]? = some (msg :: left)) (n : Nat) :
    unpublished (calls.take n) ≤ unpublished ((calls.set k left).take n) + 1 := by
  rw [List.take_set]
  by_cases hkn : k < n
  · rw [unpublished_set ((List.getElem?_take_of_lt hkn).trans hk)]
  · rw [List.set_eq_of_length_le ((List.length_take_le n calls).trans (Nat.not_lt.mp hkn))]
    exact Nat.le_succ _

theorem Stopped.append_calls {s₀ : State S} (h : Stopped s₀ s) (calls : List (List Message)) :
    Stopped s₀ { s with calls := s.calls ++ calls } := by
  refine ⟨h.ended, h.accepted, ?_, ?_⟩
  · exact h.calls.trans (by simp)
  · rw [List.take_append_of_le_length h.calls]
    exact h.unpublished

theorem Stopped.stepped {s₀ : State S} (h : Stopped s₀ s) (hstep : Stepped s m s') : Stopped s₀ s' := by
  have haccepted := h.accepted
  have hunpublished := h.unpublished
  cases hstep with
  | publish req => exact h.append_calls _
  | publishAsync req => exact h.append_calls _
  | send hk hroom =>
    have hset := unpublished_take_set hk s₀.calls.length
    refine ⟨h.ended, ?_, by simpa using h.calls, ?_⟩
    · simp only [State.slots, List.length_append, List.length_singleton] at haccepted ⊢
      omega
    · simp only [List.length_append, List.length_singleton]
      omega
  | next hheld hpushCh =>
    refine ⟨h.ended, ?_, h.calls, hunpublished⟩
    simp only [State.slots, hheld, hpushCh, Option.toList, List.length_cons, List.length_nil] at haccepted ⊢
    omega
  | enqueue hheld hroom =>
    refine ⟨h.ended, ?_, h.calls, hunpublished⟩
    simp only [State.slots, hheld, Option.toList, List.length_append, List.length_cons, List.length_nil] at haccepted ⊢
    omega
  | @take i _ _ hi => exact absurd ((h.ended i).symm.trans hi) (by simp)
  | @look i _ _ hi => exact absurd ((h.ended i).symm.trans hi) (by simp)
  | @visit i _ _ _ hi => exact absurd ((h.ended i).symm.trans hi) (by simp)
  | @fail i _ _ _ _ hi => exact absurd ((h.ended i).symm.trans hi) (by simp)
  | @exit i hi => exact absurd ((h.ended i).symm.trans hi) (by simp)
  | _ => exact ⟨h.ended, haccepted, h.calls, hunpublished⟩

/-- **Publishing after Stop.** When all workers have ended, `pushCh` accepts only what the channels and the goroutine in
`Serve` can still hold, whatever happens then. If the calls that are there have more left to publish, one of them never
returns. -/
theorem stopped_blocks (ms : List Move) (hended : ∀ i, (Run.exec step ({} : State S) ms).workers i = .ended)
    (ms' : List Move) :
    let s := Run.exec step ({} : State S) ms
    let s' := Run.exec step s ms'
    s'.accepted.length + s.slots ≤ s.accepted.length + (2 * capacity + 1) ∧
    (2 * capacity + 1 < s.slots + unpublished s.calls → ∃ call ∈ s'.calls.take s.calls.length, call ≠ []) := by
  intro s s'
  have hstopped : Stopped s s' := by
    refine Run.exec_invariant (I := Stopped s) (fun t m h => h.stepped (stepped t m)) ms'
      ⟨hended, rfl, Nat.le_refl _, ?_⟩
    rw [List.take_length]
  have hbounded : Bounded s' := by
    have hstart : Bounded s :=
      Run.exec_invariant (I := Bounded) (fun t m h => h.stepped (stepped t m)) ms ⟨Nat.zero_le _, Nat.zero_le _⟩
    exact Run.exec_invariant (I := Bounded) (fun t m h => h.stepped (stepped t m)) ms' hstart
  have hslots : s'.slots ≤ 2 * capacity + 1 := by
    have hpushCh := hbounded.pushCh
    have hqueue := hbounded.queue
    have hheld : s'.held.toList.length ≤ 1 := by cases s'.held <;> simp
    rw [State.slots]
    omega
  have haccepted := hstopped.accepted
  refine ⟨by omega, fun hmore => ?_⟩
  have hunpublished := hstopped.unpublished
  by_contra hnone
  push Not at hnone
  have hzero : unpublished (s'.calls.take s.calls.length) = 0 := by
    rw [unpublished, List.sum_eq_zero_iff]
    intro l hl
    obtain ⟨call, hcall, rfl⟩ := List.mem_map.mp hl
    rw [hnone call hcall, List.length_nil]
  omega

/-- All workers are stopped, and then more is published than the channels can hold. -/
def publishedLate : List Move :=
  (List.finRange workersNum).map .exit ++ [.publish [⟨List.replicate 202 [2], [3]⟩]]

theorem late_publish_blocks :
    let s := Run.exec step ({} : State Memory.PairSet) publishedLate
    ∃ call ∈ (Run.exec step s [.lock 0, .send]).calls.take s.calls.length, call ≠ [] :=
  (stopped_blocks publishedLate (by decide +kernel) [.lock 0, .send]).2 (by decide +kernel)

end RoadRunner.Websockets.Pipeline
