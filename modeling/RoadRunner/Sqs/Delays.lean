import RoadRunner.Sqs.Item
import RoadRunner.Lib.Run

/-!
# Delays of the SQS driver

SQS takes a delay from 0 to 900 seconds. `Push`, `Nack` and `Requeue` all send through `handleItem`,
whose `pack` narrows the delay to 32 bits. Only `Push` checks it, and only from above.

* `Sound`: what an operation hands over has a valid delay, which is the job's; for another delay it
  returns an error and hands over nothing.
* `delays_sound_iff`: a run is sound exactly if every delay that gets past the check of `Push` is in range.
-/

namespace RoadRunner.Sqs

open Broker

/-- An item, and the message that `handleItem` makes of it for `SendMessage`. -/
abbrev Handed := Item × SendMessageInput

/-- Which calls of the client fail. -/
structure Faults where
  sendMessage : Bool := false
  deleteMessage : Bool := false
  deriving DecidableEq

/-- `Push` up to its return: the error, and what was handed to `SendMessage`. -/
def Consumer.pushJob (json : Json) (c : Consumer) (jb : Job) (f : Faults) : Option Err × List Handed :=
  match c.push json jb with
  | .error err => (some err, [])
  | .ok d =>
    (if f.sendMessage then some (.op "sqs_push" (.lib "SendMessage")) else none, [(fromJob jb, d)])

namespace Item

/-- `Nack`: `requeueFn` is the consumer's `handleItem`; the message is deleted after it. -/
def nack (json : Json) (c : Consumer) (i : Item) (f : Faults) : Option Err × List Handed :=
  (if f.sendMessage then some (.lib "SendMessage")
    else if f.deleteMessage then some (.lib "DeleteMessage")
    else none, [(i, c.handleItem json i)])

/-- `Requeue`: the item gets the delay and the headers, and then goes the way of a `Nack`. -/
def requeue (json : Json) (c : Consumer) (i : Item) (headers : Headers) (delay : Int64) (f : Faults) :
    Item × Option Err × List Handed :=
  let i := { i with headers := headers, options := { i.options with delay := delay } }
  (i, i.nack json c f)

end Item

/-! ## Runs -/

/-- An operation. Items that were received are named by their place. -/
inductive Op where
  | push (jb : Job) (f : Faults)
  | receive (msg : Message)
  | nack (n : Nat) (f : Faults)
  | requeue (n : Nat) (headers : Headers) (delay : Int64) (f : Faults)

/-- What an operation returns and what it hands to `SendMessage`, with the items `is` received so far. -/
def outcome (json : Json) (c : Consumer) (is : List Item) : Op → Option Err × List Handed
  | .push jb f => c.pushJob json jb f
  | .receive _ => (none, [])
  | .nack n f => (is[n]?.map fun i => i.nack json c f).getD (none, [])
  | .requeue n headers delay f =>
    (is[n]?.map fun i => (i.requeue json c headers delay f).2).getD (none, [])

/-- The items after an operation. -/
def step (json : Json) (c : Consumer) (is : List Item) : Op → List Item
  | .push .. => is
  | .receive msg =>
    match c.unpack json msg with
    | .ok i => is ++ [i]
    | _ => is
  | .nack .. => is
  | .requeue n headers delay f => is.modify n fun i => (i.requeue json c headers delay f).1

/-- The delay that an operation is asked to send a job with. -/
def Op.delay? (is : List Item) : Op → Option Int64
  | .push jb _ => some jb.options.delay
  | .receive _ => none
  | .nack n _ => is[n]?.map fun i => i.options.delay
  | .requeue n _ delay _ => is[n]?.map fun _ => delay

/-- A delay that SQS takes. -/
def Fits (delay : Int64) : Prop := 0 ≤ delay ∧ delay ≤ 900

instance (delay : Int64) : Decidable (Fits delay) := inferInstanceAs (Decidable (_ ∧ _))

/-- The message has a delay that SQS takes, and it is the one of the job. -/
def Valid (x : Handed) : Prop :=
  0 ≤ x.2.delaySeconds.toInt ∧ x.2.delaySeconds.toInt ≤ 900 ∧ x.2.delaySeconds.toInt = x.1.options.delay.toInt

instance (x : Handed) : Decidable (Valid x) := inferInstanceAs (Decidable (_ ∧ _ ∧ _))

/-- The operation hands over valid messages only, and a delay that does not fit gets an error before
anything is sent. -/
structure Sound (json : Json) (c : Consumer) (is : List Item) (op : Op) : Prop where
  valid : ∀ x ∈ (outcome json c is op).2, Valid x
  refused : ∀ delay, op.delay? is = some delay → ¬ Fits delay →
    (outcome json c is op).1 ≠ none ∧ (outcome json c is op).2 = []

/-- The delay gets past no check that it should not pass: `Push` refuses what is for another pipeline
or above 900. -/
def Checked (c : Consumer) (is : List Item) : Op → Prop
  | .push jb _ => c.pipeline = jb.options.pipeline → 0 ≤ jb.options.delay
  | .receive _ => True
  | .nack n _ => ∀ i ∈ is[n]?, Fits i.options.delay
  | .requeue n _ delay _ => n < is.length → Fits delay

section

variable {json : Json} {c : Consumer} {is : List Item}

theorem fits_iff {delay : Int64} : Fits delay ↔ 0 ≤ delay.toInt ∧ delay.toInt ≤ 900 := by
  rw [Fits, Int64.le_iff_toInt_le, Int64.le_iff_toInt_le]
  rfl

/-- The narrowed delay is valid exactly if the delay is. -/
theorem valid_handleItem {i : Item} : Valid (i, c.handleItem json i) ↔ Fits i.options.delay := by
  rw [fits_iff]
  show 0 ≤ i.options.delay.toInt32.toInt ∧ i.options.delay.toInt32.toInt ≤ 900 ∧
    i.options.delay.toInt32.toInt = i.options.delay.toInt ↔ _
  rw [Int64.toInt_toInt32]
  constructor
  · rintro ⟨hlo, hhi, heq⟩
    omega
  · rintro ⟨hlo, hhi⟩
    rw [Int.bmod_eq_of_le (by omega) (by omega)]
    omega

theorem sound_iff_of_delay {op : Op} {delay : Int64} (hdelay : op.delay? is = some delay) :
    Sound json c is op ↔ (∀ x ∈ (outcome json c is op).2, Valid x) ∧
      (¬ Fits delay → (outcome json c is op).1 ≠ none ∧ (outcome json c is op).2 = []) := by
  constructor
  · intro h
    exact ⟨h.valid, h.refused delay hdelay⟩
  · rintro ⟨hvalid, hrefused⟩
    refine ⟨hvalid, fun d hd => ?_⟩
    obtain rfl : delay = d := Option.some.inj (hdelay.symm.trans hd)
    exact hrefused

/-- An operation that refuses its job is sound. -/
theorem sound_of_refused {op : Op} (herr : (outcome json c is op).1 ≠ none) (hout : (outcome json c is op).2 = []) :
    Sound json c is op := by
  refine ⟨?_, fun _ _ _ => ⟨herr, hout⟩⟩
  rw [hout]
  nofun

/-- An operation that hands its item over is sound exactly if the delay of the item fits. -/
theorem sound_iff_of_handed {op : Op} {i : Item} (hdelay : op.delay? is = some i.options.delay)
    (hout : (outcome json c is op).2 = [(i, c.handleItem json i)]) :
    Sound json c is op ↔ Fits i.options.delay := by
  rw [sound_iff_of_delay hdelay, hout]
  simp only [List.mem_singleton, forall_eq, valid_handleItem, reduceCtorEq, and_false, imp_false, not_not, and_self]

/-- An operation without a job is sound. -/
theorem sound_of_none {op : Op} (hdelay : op.delay? is = none) (hout : (outcome json c is op).2 = []) :
    Sound json c is op := by
  constructor
  · rw [hout]
    nofun
  · rw [hdelay]
    nofun

variable (json is) in
/-- What `Push` refuses. -/
theorem outcome_push_refused {jb : Job} (h : c.pipeline ≠ jb.options.pipeline ∨ 900 < jb.options.delay) (f : Faults) :
    (outcome json c is (.push jb f)).1 ≠ none ∧ (outcome json c is (.push jb f)).2 = [] := by
  by_cases hpipe : c.pipeline = jb.options.pipeline
  · have hmax := h.resolve_left (not_not_intro hpipe)
    simp [outcome, Consumer.pushJob, Consumer.push, hpipe, hmax]
  · simp [outcome, Consumer.pushJob, Consumer.push, hpipe]

theorem sound_push_iff {jb : Job} {f : Faults} :
    Sound json c is (.push jb f) ↔ Checked c is (.push jb f) := by
  by_cases hpipe : c.pipeline = jb.options.pipeline
  · by_cases hmax : 900 < jb.options.delay
    · -- refused for its size, so it is not negative
      have hpos : 0 ≤ jb.options.delay := by
        rw [Int64.lt_iff_toInt_lt, show (900 : Int64).toInt = 900 from rfl] at hmax
        rw [Int64.le_iff_toInt_le, show (0 : Int64).toInt = 0 from rfl]
        omega
      obtain ⟨herr, hout⟩ := outcome_push_refused json is (.inr hmax) f
      exact iff_of_true (sound_of_refused herr hout) fun _ => hpos
    · rw [sound_iff_of_handed (i := fromJob jb) rfl (by simp [outcome, Consumer.pushJob, Consumer.push, hpipe, hmax])]
      show Fits jb.options.delay ↔ (_ → _)
      rw [Fits]
      exact ⟨fun h _ => h.1, fun h => ⟨h hpipe, Int64.not_lt.mp hmax⟩⟩
  · obtain ⟨herr, hout⟩ := outcome_push_refused json is (.inl hpipe) f
    exact iff_of_true (sound_of_refused herr hout) fun h => absurd h hpipe

theorem sound_nack_iff {n : Nat} {f : Faults} : Sound json c is (.nack n f) ↔ Checked c is (.nack n f) := by
  cases hi : is[n]? with
  | none => exact iff_of_true (sound_of_none (by simp [Op.delay?, hi]) (by simp [outcome, hi])) (by simp [Checked, hi])
  | some i =>
    rw [sound_iff_of_handed (i := i) (by simp [Op.delay?, hi]) (by simp [outcome, hi, Item.nack])]
    simp [Checked, hi]

theorem sound_requeue_iff {n : Nat} {headers : Headers} {delay : Int64} {f : Faults} :
    Sound json c is (.requeue n headers delay f) ↔ Checked c is (.requeue n headers delay f) := by
  cases hi : is[n]? with
  | none =>
    refine iff_of_true (sound_of_none (by simp [Op.delay?, hi]) (by simp [outcome, hi])) fun hn => ?_
    rw [List.getElem?_eq_getElem hn] at hi
    cases hi
  | some i =>
    obtain ⟨hn, -⟩ := List.getElem?_eq_some_iff.mp hi
    rw [sound_iff_of_handed (i := (i.requeue json c headers delay f).1) (by simp [Op.delay?, hi, Item.requeue])
      (by simp [outcome, hi, Item.requeue, Item.nack])]
    exact ⟨fun h _ => h, fun h => h hn⟩

theorem sound_op_iff {op : Op} : Sound json c is op ↔ Checked c is op := by
  cases op with
  | push jb f => exact sound_push_iff
  | receive msg => exact iff_of_true (sound_of_none rfl rfl) trivial
  | nack n f => exact sound_nack_iff
  | requeue n headers delay f => exact sound_requeue_iff

/-- **A run is sound exactly if every delay that gets past the check of `Push` is in range.** -/
theorem delays_sound_iff (json : Json) (c : Consumer) (is : List Item) (ops : List Op) :
    (∀ pre op post, ops = pre ++ op :: post → Sound json c (Run.exec (step json c) is pre) op) ↔
      Run.Along (step json c) (Checked c) is ops := by
  simp only [sound_op_iff]
  exact Run.Along.forall_iff

/-- A `Push` with the delay -1 is sent so. A `Requeue` with the delay 901 is sent so, and then a `Nack` of
the item. A `Requeue` with the delay 2^32 is sent with the delay 0. None of them returns an error. -/
theorem unfit_delays_sent :
    let c : Consumer := ⟨ascii "sqs", none⟩
    let job : Job := ⟨[], ascii "1", [], none, ⟨10, ascii "sqs", 0⟩⟩
    let late : Job := ⟨[], ascii "1", [], none, ⟨10, ascii "sqs", -1⟩⟩
    let is := [c.received (fromJob job) 1 none]
    let requeued := step .plain c is (.requeue 0 none 901 {})
    ¬ Sound .plain c is (.push late {}) ∧ ¬ Sound .plain c is (.requeue 0 none 901 {}) ∧
      ¬ Sound .plain c requeued (.nack 0 {}) ∧ ¬ Sound .plain c is (.requeue 0 none 4294967296 {}) ∧
      (outcome .plain c is (.push late {})).1 = none ∧
      (outcome .plain c is (.push late {})).2.map (·.2.delaySeconds) = [-1] ∧
      (outcome .plain c is (.requeue 0 none 4294967296 {})).1 = none ∧
      (outcome .plain c is (.requeue 0 none 4294967296 {})).2.map (·.2.delaySeconds) = [0] := by
  intro c job late is requeued
  refine ⟨fun h => ?_, fun h => ?_, fun h => ?_, fun h => ?_, rfl, by decide, rfl, by decide⟩
  · exact absurd (h.valid _ List.mem_cons_self) (by decide)
  · exact absurd (h.valid _ List.mem_cons_self) (by decide)
  · exact absurd (h.valid _ List.mem_cons_self) (by decide)
  · exact absurd (h.valid _ List.mem_cons_self) (by decide)

end

end RoadRunner.Sqs
