import RoadRunner.Broker.Item
import RoadRunner.Lib.Letters

/-!
# Jobs that a broker keeps

What the drivers share whose brokers keep a job as a message until it is deleted. The state has the broker's messages
and the items that the listener has made of them; the calls for the items run side by side, and each of their requests
may fail.

* `Starts`: what a call may do when it starts. `covers_of_starts`: if all calls do no more, no job is lost.
-/

namespace RoadRunner.Broker

open Calls Letters

/-- The fields of a job that no call changes. -/
structure Kept where
  job : Bytes
  ident : Bytes
  payload : Bytes
  deriving DecidableEq

/-- Its texts are UTF-8. -/
structure Kept.Utf8 (k : Kept) : Prop where
  job : Broker.Utf8 k.job
  ident : Broker.Utf8 k.ident
  payload : Broker.Utf8 k.payload

end RoadRunner.Broker

namespace RoadRunner

/-- What a message keeps of a job. -/
def Job.kept (jb : Job) : Broker.Kept := ⟨jb.job, jb.ident, jb.payload⟩

end RoadRunner

namespace RoadRunner.Broker

open Calls Letters

/-- The broker and the items of the driver: `α` are the messages, `ι` the items. -/
structure Shared (α ι : Type) where
  /-- `owed` has the jobs whose `Push` returned nil. -/
  ledger : Ledger α Kept := {}
  /-- The items, each with the place of its message. -/
  items : List (Nat × ι) := []

namespace Delivery

variable {α ι O : Type}

/-- A request or a promise of a call; none of them has to wait. -/
def act (s : Shared α ι) (e : Step α Kept) : Shared α ι := { s with ledger := s.ledger.act e }

/-- The calls of a driver, from what they do when they start. -/
def system (start : Shared α ι → O → Shared α ι × List (Step α Kept)) : System (Shared α ι) O (Step α Kept) Unit where
  start
  act s e _ := some (act s e)

/-- The item is made of the message at its place: if that is one of a job, so is the item. -/
structure Refers (key : α → Option Kept) (kept : ι → Option Kept) (b : Box α) (x : Nat × ι) : Prop where
  lt : x.1 < b.letters.length
  label : ∀ k, b.label key x.1 = some k → kept x.2 = some k

/-- What a call may do when it starts. It may settle jobs, and its steps need no more than that. -/
structure Starts (key : α → Option Kept) (kept : ι → Option Kept) (s s' : Shared α ι) (es : List (Step α Kept))
    (ks : List Kept) : Prop where
  ledger : s'.ledger = { s.ledger with settled := s.ledger.settled ++ ks }
  known : Known s.ledger.box es
  need : ∀ k, need key (s.ledger.box.live key) k es ≤ ks.count k
  items : ∀ x ∈ s'.items, Refers key kept s.ledger.box x

/-- Every message owed is kept, and every item is of a message. -/
structure Inv (key : α → Option Kept) (kept : ι → Option Kept) (s : State (Shared α ι) (Step α Kept)) : Prop where
  covers : Covers key s.shared.ledger s.calls
  items : ∀ x ∈ s.shared.items, Refers key kept s.shared.ledger.box x

variable {key : α → Option Kept} {kept : ι → Option Kept}

/-- If the message of an item is there, it is of the item's job. -/
theorem Refers.live {b : Box α} {x : Nat × ι} (h : Refers key kept b x) {k : Kept} (hk : b.live key x.1 = some k) :
    kept x.2 = some k :=
  h.label k (Box.label_of_live hk)

theorem Refers.act {l : Ledger α Kept} {x : Nat × ι} (h : Refers key kept l.box x) (e : Step α Kept) :
    Refers key kept (l.act e).box x :=
  ⟨Nat.lt_of_lt_of_le h.lt (l.length_le_act e), fun k hk => h.label k ((Ledger.label_act h.lt e).symm.trans hk)⟩

variable {start : Shared α ι → O → Shared α ι × List (Step α Kept)}

theorem Inv.step {s : State (Shared α ι) (Step α Kept)} (hs : Inv key kept s) (m : Move O Unit)
    (hstart : ∀ op, m = .start op → ∃ ks, Starts key kept s.shared (start s.shared op).1 (start s.shared op).2 ks) :
    Inv key kept ((system start).step s m) := by
  cases m with
  | start op =>
    obtain ⟨ks, h⟩ := hstart op rfl
    refine ⟨?_, fun x hx => ?_⟩
    · show Covers key (start s.shared op).1.ledger (s.calls ++ [(start s.shared op).2])
      rw [h.ledger]
      exact hs.covers.call h.known h.need
    · show Refers key kept (start s.shared op).1.ledger.box x
      rw [h.ledger]
      exact h.items x hx
  | next n k =>
    show Inv key kept ((system start).next s n k)
    refine next_invariant hs fun e es shared hn hact => ?_
    obtain rfl : act s.shared e = shared := Option.some.inj hact
    exact ⟨hs.covers.next hn, fun x hx => (hs.items x hx).act e⟩

/-- If the calls of a run do no more than `Starts` allows, every job has the messages it is owed, less those settled. -/
theorem covers_of_starts {C : O → Prop}
    (hstart : ∀ s op, C op → (∀ x ∈ s.items, Refers key kept s.ledger.box x) →
      ∃ ks, Starts key kept s (start s op).1 (start s op).2 ks)
    (b : Box α) {ms : List (Move O Unit)} (hms : ∀ op, .start op ∈ ms → C op) :
    Inv key kept (Run.exec (system start).step ⟨⟨⟨b, [], []⟩, []⟩, []⟩ ms) := by
  have halong : Run.Along (system start).step (fun _ m => ∀ op, m = .start op → C op) ⟨⟨⟨b, [], []⟩, []⟩, []⟩ ms :=
    Run.Along.of_forall _ fun m hm op hop => hms op (hop ▸ hm)
  refine halong.invariant (fun s m hs hm => hs.step m fun op hop => hstart s.shared op (hm op hop) hs.items) ?_
  refine ⟨⟨List.forall_mem_nil _, fun k => ?_⟩, List.forall_mem_nil _⟩
  exact Nat.zero_le _

/-! ## Starts -/

section

variable {s : Shared α ι} {es : List (Step α Kept)}

/-- A call that settles nothing and leaves the items. -/
theorem Starts.of_need (hs : ∀ x ∈ s.items, Refers key kept s.ledger.box x) (hknown : Known s.ledger.box es)
    (hneed : ∀ k, Letters.need key (s.ledger.box.live key) k es = 0) : Starts key kept s s es [] where
  ledger := by rw [List.append_nil]
  known := hknown
  need k := by rw [hneed k]; exact Nat.zero_le _
  items := hs

/-- A call that changes the items only. -/
theorem Starts.of_items {items : List (Nat × ι)} (h : ∀ x ∈ items, Refers key kept s.ledger.box x) :
    Starts key kept s { s with items } [] [] where
  ledger := by rw [List.append_nil]
  known := known_nil _
  need _ := le_rfl
  items := h

end

end Delivery

end RoadRunner.Broker
