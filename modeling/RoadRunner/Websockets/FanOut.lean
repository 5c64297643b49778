import RoadRunner.Memory.Pubsub
import RoadRunner.Lib.Orders

/-!
# The websocket workers

The model of `http/middleware/websockets/pool`: what one worker does with one message of the queue.
Which connections are still in the map and on which of them `Write` works is given, and so is the order
in which the subscribed connections are visited. The failure branches empty the map that is being
ranged over, and an entry that is deleted before it is reached is not visited.

* `Pool.fanOut` is the loop over the connections, `Pool.process` the body of `do`.
* `fanOut_pairwise`: in one order, every connection in the map is written to exactly if none comes after
  one that fails.
* `process_every_order_iff`: the same whatever the order.
-/

namespace RoadRunner.Websockets

/-- `pubsub.Message`. -/
structure Message where
  topic : Bytes
  payload : Bytes
  deriving DecidableEq

/-- `pool.Response`. -/
structure Response where
  topic : Bytes
  payload : Bytes
  deriving DecidableEq

/-- What a worker finds while it processes one message. -/
structure Pool where
  /-- `json.Marshal`. -/
  marshal : Response → Option Bytes
  /-- The ids in the connections map. -/
  connections : Finset Bytes
  /-- Whether `Write` on the connection succeeds. -/
  writes : Bytes → Bool

namespace Pool

/-- `put` deletes every entry; the pool of maps gets nothing back. -/
def put (_res : Finset Bytes) : Finset Bytes := ∅

variable {S : Type} [Memory.Bst S] (p : Pool)

/-- The loop over `res`, with what is written to which connection. `order` is the order in which the
entries of `res` are visited. -/
def fanOut (r : Response) : List Bytes → Finset Bytes → List (Bytes × Bytes)
  | [], _ => []
  | connID :: order, res =>
    if connID ∈ res then
      if connID ∈ p.connections then
        match p.marshal r with
        | none => []
        | some d => (connID, d) :: fanOut r order (if p.writes connID then res else put res)
      else fanOut r order (put res)
    else fanOut r order res

/-- The body of `do` for one message of the queue. -/
def process (storage : S) (order : List Bytes) : Option Message → List (Bytes × Bytes)
  | none => []
  | some msg =>
    if msg.topic = [] then []
    else
      let res := Memory.connections storage msg.topic ∅
      if res.card = 0 then [] else p.fanOut ⟨msg.topic, msg.payload⟩ order res

/-- The connection is gone, or it cannot be written to. -/
def Fails (connID : Bytes) : Prop := connID ∉ p.connections ∨ p.writes connID = false

instance (connID : Bytes) : Decidable (p.Fails connID) := inferInstanceAs (Decidable (_ ∨ _))

/-- What is written to one connection. -/
def writesTo (connID : Bytes) (ws : List (Bytes × Bytes)) : List (Bytes × Bytes) :=
  ws.filter fun w => w.1 = connID

variable {p} {r : Response} {d : Bytes} {order : List Bytes} {res : Finset Bytes}

@[simp] theorem fanOut_empty : p.fanOut r order ∅ = [] := by
  induction order with
  | nil => rfl
  | cons connID order ih => simp [fanOut, ih]

theorem fanOut_order {w : Bytes × Bytes} (hw : w ∈ p.fanOut r order res) : w.1 ∈ order := by
  induction order generalizing res with
  | nil => cases hw
  | cons connID order ih =>
    rw [fanOut] at hw
    split at hw
    · split at hw
      · split at hw
        · cases hw
        · rcases List.mem_cons.mp hw with rfl | hw
          · exact List.mem_cons_self
          · exact List.mem_cons_of_mem _ (ih hw)
      · exact List.mem_cons_of_mem _ (ih hw)
    · exact List.mem_cons_of_mem _ (ih hw)

theorem writesTo_fanOut_of_not_mem {connID : Bytes} (h : connID ∉ order) :
    writesTo connID (p.fanOut r order res) = [] := by
  rw [writesTo, List.filter_eq_nil_iff]
  rintro w hw hid
  exact h (of_decide_eq_true hid ▸ fanOut_order hw)

/-- A connection in `res` that works. -/
theorem fanOut_works (hd : p.marshal r = some d) {connID : Bytes} (hres : connID ∈ res)
    (hok : ¬ p.Fails connID) :
    p.fanOut r (connID :: order) res = (connID, d) :: p.fanOut r order res := by
  obtain ⟨hin, hwrites⟩ := not_or.mp hok
  rw [fanOut, if_pos hres, if_pos (not_not.mp hin), hd]
  simp only [Bool.not_eq_false] at hwrites
  simp only [hwrites, ↓reduceIte]

/-- A connection in `res` that fails is the last one visited. -/
theorem fanOut_fails (hd : p.marshal r = some d) {connID : Bytes} (hres : connID ∈ res)
    (hfail : p.Fails connID) :
    p.fanOut r (connID :: order) res = if connID ∈ p.connections then [(connID, d)] else [] := by
  rw [fanOut, if_pos hres, hd]
  split
  case isTrue hin =>
    have hwrites : p.writes connID = false := hfail.resolve_left (not_not_intro hin)
    simp [hwrites, put]
  case isFalse => simp [put]

/-- In the order in which the connections are visited, none in the map may come after one that fails. -/
theorem fanOut_pairwise (hd : p.marshal r = some d) (hnodup : order.Nodup)
    (hres : ∀ connID ∈ order, connID ∈ res) :
    (∀ connID ∈ order, connID ∈ p.connections → writesTo connID (p.fanOut r order res) = [(connID, d)]) ↔
      order.Pairwise fun a b => p.Fails a → b ∉ p.connections := by
  induction order with
  | nil => simp
  | cons connID order ih =>
    have hnot := (List.nodup_cons.mp hnodup).1
    have ih := ih (List.nodup_cons.mp hnodup).2 fun c hc => hres c (List.mem_cons_of_mem _ hc)
    have hhead := hres connID List.mem_cons_self
    rw [List.forall_mem_cons, List.pairwise_cons]
    by_cases hfail : p.Fails connID
    · -- nothing is written after a failure, so the rest must not be in the map
      rw [fanOut_fails hd hhead hfail]
      have hother : ∀ c ∈ order,
          writesTo c (if connID ∈ p.connections then [(connID, d)] else []) = [] := by
        intro c hc
        have hne : connID ≠ c := fun h => hnot (h ▸ hc)
        split <;> simp [writesTo, hne]
      constructor
      · rintro ⟨-, hrest⟩
        have hgone : ∀ c ∈ order, c ∉ p.connections := fun c hc hin =>
          List.cons_ne_nil _ _ ((hrest c hc hin).symm.trans (hother c hc))
        exact ⟨fun c hc _ => hgone c hc,
          List.pairwise_of_forall_mem_list fun a _ b hb _ => hgone b hb⟩
      · rintro ⟨hgone, -⟩
        refine ⟨fun hin => by simp [hin, writesTo], fun c hc hin => ?_⟩
        exact absurd hin (hgone c hc hfail)
    · rw [fanOut_works hd hhead hfail, ← ih]
      have hfirst : writesTo connID ((connID, d) :: p.fanOut r order res) = [(connID, d)] := by
        have hnone : writesTo connID (p.fanOut r order res) = [] := writesTo_fanOut_of_not_mem hnot
        simpa [writesTo] using hnone
      have hrest : ∀ c ∈ order,
          writesTo c ((connID, d) :: p.fanOut r order res) = writesTo c (p.fanOut r order res) := by
        intro c hc
        have hne : connID ≠ c := fun h => hnot (h ▸ hc)
        simp [writesTo, hne]
      constructor
      · rintro ⟨-, h⟩
        exact ⟨fun _ _ hf => absurd hf hfail, fun c hc hin => (hrest c hc) ▸ h c hc hin⟩
      · rintro ⟨-, h⟩
        exact ⟨fun _ => hfirst, fun c hc hin => (hrest c hc).trans (h c hc hin)⟩

theorem process_eq {storage : S} {msg : Message} (ht : msg.topic ≠ []) :
    p.process storage order (some msg) =
      p.fanOut ⟨msg.topic, msg.payload⟩ order (Memory.Bst.get storage msg.topic) := by
  rw [process, if_neg ht]
  simp only [Memory.connections_empty, Finset.card_eq_zero]
  split
  case isTrue hempty => rw [hempty, fanOut_empty]
  case isFalse => rfl

/-- For every message with a topic: in every order of the subscribed connections, each one that is in
the map gets the message exactly once, if and only if none of the others fails. -/
theorem process_every_order_iff (storage : S) (msg : Message) (ht : msg.topic ≠ [])
    (hd : p.marshal ⟨msg.topic, msg.payload⟩ = some d) :
    (∀ order, Orders.Lists order (Memory.Bst.get storage msg.topic) →
        ∀ connID ∈ Memory.Bst.get storage msg.topic, connID ∈ p.connections →
          writesTo connID (p.process storage order (some msg)) = [(connID, d)]) ↔
      ∀ a ∈ Memory.Bst.get storage msg.topic, ∀ b ∈ Memory.Bst.get storage msg.topic, a ≠ b →
        p.Fails a → b ∉ p.connections := by
  rw [← Orders.forall_lists_pairwise]
  refine forall_congr' fun order => forall_congr' fun hord => ?_
  rw [process_eq ht, ← fanOut_pairwise hd hord.1 fun _ => hord.mem_iff.mp]
  simp only [hord.mem_iff]

end Pool

/-- Two connections under one topic. -/
def twoSubscribed : Memory.PairSet :=
  Memory.subscribe (Memory.subscribe ∅ (ascii "1") [ascii "news"]) (ascii "2") [ascii "news"]

/-- A pool whose writes all work. A response is marshaled to its payload. -/
def poolWith (connections : Finset Bytes) : Pool := ⟨fun r => some r.payload, connections, fun _ => true⟩

theorem process_both_connected :
    let p := poolWith {ascii "1", ascii "2"}
    let msg : Message := ⟨ascii "news", ascii "hello"⟩
    ∀ order, Orders.Lists order (Memory.Bst.get twoSubscribed msg.topic) →
      ∀ connID ∈ Memory.Bst.get twoSubscribed msg.topic, connID ∈ p.connections →
        Pool.writesTo connID (p.process twoSubscribed order (some msg)) = [(connID, ascii "hello")] := by
  intro p msg
  exact (Pool.process_every_order_iff twoSubscribed msg (by decide) rfl).mpr (by decide +kernel)

/-- The connection `2` is gone and comes first: `1` is still connected and gets nothing. -/
theorem disconnected_stops_delivery :
    let p := poolWith {ascii "1"}
    let msg : Message := ⟨ascii "news", ascii "hello"⟩
    let order := [ascii "2", ascii "1"]
    Orders.Lists order (Memory.Bst.get twoSubscribed msg.topic) ∧ ascii "1" ∈ p.connections ∧
      p.process twoSubscribed order (some msg) = [] := by
  decide +kernel

end RoadRunner.Websockets
