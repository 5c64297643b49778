import RoadRunner.Amqp.Delayed

/-!
# What the broker takes as acknowledged

`Ack`, `Nack` and `Requeue` of `amqp/amqpjobs/item.go` and the listener of `listener.go`, with the broker's side
of one channel: the tags of the deliveries that are outstanding and of those that are acknowledged. The calls are
those of `Amqp/Delayed.lean`; here their acks and nacks reach the channel, in any order.

An ack with `multiple` covers all outstanding deliveries up to its tag. An ack or a nack of a tag that is not
outstanding closes the channel, and what is outstanding then goes back to the queue.

* `Finished`: an ack with `multiple` finds no outstanding delivery with a lower tag whose job is not, and the
  listener acks nothing by itself.
* `covered_iff`: the deliveries are always `Covered` exactly if every step is `Finished`.
* `covered_of_single`: without `multiple_ack` only the listener's acks matter.
-/

namespace RoadRunner.Amqp.Acks

open Broker Calls Update
open Delayed (Held Effect)

/-- An AMQP channel, as the broker sees it. -/
structure Channel where
  /-- The jobs that the listener has made of deliveries. -/
  items : List Held := []
  /-- The tag of the next delivery. -/
  tag : Nat := 1
  /-- The tags of the deliveries that are not settled. -/
  outstanding : List Nat := []
  /-- The tags that the broker takes as acknowledged. -/
  acked : List Nat := []
  /-- The tags of the jobs for which `Ack` or `Requeue` was called. -/
  called : List Nat := []
  closed : Bool := false

namespace Channel

/-- The outstanding deliveries that an ack covers. -/
def covered (s : Channel) (tag : Nat) (multiple : Bool) : List Nat :=
  s.outstanding.filter fun t => t = tag ∨ multiple ∧ t < tag

/-- The broker closes the channel. -/
def close (s : Channel) : Channel := { s with outstanding := [], closed := true }

/-- `basic.ack`. -/
def ack (s : Channel) (tag : Nat) (multiple : Bool) : Channel :=
  if s.closed then s
  else if tag ∈ s.outstanding then
    { s with
      outstanding := s.outstanding.filter fun t => ¬ (t = tag ∨ multiple ∧ t < tag)
      acked := s.acked ++ s.covered tag multiple }
  else s.close

/-- `basic.nack` of one delivery. -/
def nack (s : Channel) (tag : Nat) : Channel :=
  if s.closed then s
  else if tag ∈ s.outstanding then { s with outstanding := s.outstanding.erase tag }
  else s.close

end Channel

/-- A step of a call for a job, or the ack of the listener for a delivery that it cannot convert. -/
inductive Instr where
  | job (e : Effect)
  | listener (tag : Nat)

/-- What one step of a call does to the channel. -/
def act (s : Channel) : Instr → Channel
  | .job (.ack h multiple) => s.ack h.tag multiple
  | .job (.nack h _) => s.nack h.tag
  | .job _ => s
  | .listener tag => s.ack tag false

/-- `Ack` or `Requeue`. -/
def acks : Delayed.Call → Bool
  | .ack _ | .requeue _ _ _ => true
  | .nack _ => false

/-- What can begin on a channel. -/
inductive Op where
  /-- The broker delivers; `fails` if an ack of the listener does. -/
  | deliver (d : Delivery) (fails : Bool)
  /-- A call for the `n`-th job. -/
  | call (n : Nat) (call : Delayed.Call)

/-- The listener takes a delivery. A panic ends the process. -/
def deliver (json : Json) (c : Consumer) (s : Channel) (d : Delivery) (fails : Bool) : Channel × List Instr :=
  if s.closed then (s, [])
  else
    let next := { s with tag := s.tag + 1, outstanding := s.outstanding ++ [s.tag] }
    match c.fromDelivery json d with
    | .ok item => ({ next with items := s.items ++ [{ tag := s.tag, message := .foreign d, item }] }, [])
    | .error _ => (next, if fails then [] else [.listener s.tag])
    | .panicked _ => (s, [])

/-- How an operation begins, and its further steps. -/
def start (json : Json) (c : Consumer) (s : Channel) : Op → Channel × List Instr
  | .deliver d fails => deliver json c s d fails
  | .call n call =>
    match s.items[n]? with
    | none => (s, [])
    | some h =>
      ({ s with called := if acks call then s.called ++ [h.tag] else s.called }, (call.outcome h).1.map .job)

/-- The channel as a system of calls. -/
def system (json : Json) (c : Consumer) : System Channel Op Instr Unit where
  start := start json c
  act s e _ := some (act s e)

/-- The broker takes a delivery as acknowledged only if `Ack` or `Requeue` was called for its job. -/
def Covered (s : State Channel Instr) : Prop := ∀ t ∈ s.shared.acked, t ∈ s.shared.called

/-- The delivery is outstanding on a channel that is open. -/
def Channel.Waits (s : Channel) (tag : Nat) : Prop := s.closed = false ∧ tag ∈ s.outstanding

instance (s : Channel) (tag : Nat) : Decidable (s.Waits tag) := inferInstanceAs (Decidable (_ ∧ _))

/-- What a step covers is finished. -/
def Channel.Finished (s : Channel) : Instr → Prop
  | .job (.ack h true) => s.Waits h.tag → ∀ t ∈ s.outstanding, t < h.tag → t ∈ s.called
  | .job _ => True
  | .listener tag => ¬ s.Waits tag

instance (s : Channel) : (e : Instr) → Decidable (s.Finished e)
  | .job (.ack h true) =>
    inferInstanceAs (Decidable (s.Waits h.tag → ∀ t ∈ s.outstanding, t < h.tag → t ∈ s.called))
  | .job (.ack _ false) | .job (.count _) | .job (.publish _) | .job (.nack _ _) | .job (.keep _) =>
    inferInstanceAs (Decidable True)
  | .listener tag => inferInstanceAs (Decidable (¬ s.Waits tag))

/-- The next step of a call acknowledges finished jobs only. -/
def Finished (s : State Channel Instr) : Move Op Unit → Prop
  | .start _ => True
  | .next n _ => ∀ e ∈ (s.calls[n]?).bind List.head?, s.shared.Finished e

instance (s : State Channel Instr) : (m : Move Op Unit) → Decidable (Finished s m)
  | .start _ => inferInstanceAs (Decidable True)
  | .next n _ => inferInstanceAs (Decidable (∀ e ∈ (s.calls[n]?).bind List.head?, s.shared.Finished e))

/-! ## The steps that are left -/

/-- An ack of a call is for a job that was acked or requeued, and the listener's is for no job. -/
def Instr.Sane (s : Channel) : Instr → Prop
  | .job (.ack h _) => h.tag ∈ s.called
  | .job _ => True
  | .listener t => t < s.tag ∧ t ∉ s.called ∧ ∀ h ∈ s.items, h.tag ≠ t

/-- The jobs and the acks in progress are of deliveries made before. -/
structure Inv (s : State Channel Instr) : Prop where
  calls : ∀ es ∈ s.calls, ∀ e ∈ es, e.Sane s.shared
  items : ∀ h ∈ s.shared.items, h.tag < s.shared.tag
  called : ∀ t ∈ s.shared.called, ∃ h ∈ s.shared.items, h.tag = t

/-- What a step changes: deliveries are settled, or the channel is closed. -/
theorem act_same (s : Channel) (e : Instr) :
    (act s e).items = s.items ∧ (act s e).tag = s.tag ∧ (act s e).called = s.called := by
  have hack : ∀ tag multiple, (s.ack tag multiple).items = s.items ∧ (s.ack tag multiple).tag = s.tag ∧
      (s.ack tag multiple).called = s.called := by
    intro tag multiple
    unfold Channel.ack
    split
    · exact ⟨rfl, rfl, rfl⟩
    · split <;> exact ⟨rfl, rfl, rfl⟩
  cases e with
  | listener tag => exact hack tag false
  | job e =>
    cases e with
    | ack h multiple => exact hack h.tag multiple
    | nack h requeue =>
      change (s.nack h.tag).items = _ ∧ (s.nack h.tag).tag = _ ∧ (s.nack h.tag).called = _
      unfold Channel.nack
      split
      · exact ⟨rfl, rfl, rfl⟩
      · split <;> exact ⟨rfl, rfl, rfl⟩
    | count d => exact ⟨rfl, rfl, rfl⟩
    | publish m => exact ⟨rfl, rfl, rfl⟩
    | keep h => exact ⟨rfl, rfl, rfl⟩

/-- What the calls in progress rely on: tags and jobs are added only, and calls are for jobs. -/
structure Grows (s s' : Channel) : Prop where
  tag : s.tag ≤ s'.tag
  items : s.items ⊆ s'.items
  called : s.called ⊆ s'.called
  newItems : ∀ h ∈ s'.items, h ∈ s.items ∨ h.tag = s.tag ∧ s.tag < s'.tag
  newCalled : ∀ t ∈ s'.called, t ∈ s.called ∨ ∃ h ∈ s.items, h.tag = t

theorem Grows.of_same {s s' : Channel} (hitems : s'.items = s.items) (htag : s'.tag = s.tag)
    (hcalled : s'.called = s.called) : Grows s s' where
  tag := htag.ge
  items := by rw [hitems]; exact List.Subset.refl _
  called := by rw [hcalled]; exact List.Subset.refl _
  newItems := by rw [hitems]; exact fun h hh => .inl hh
  newCalled := by rw [hcalled]; exact fun t ht => .inl ht

theorem grows_act (s : Channel) (e : Instr) : Grows s (act s e) :=
  .of_same (act_same s e).1 (act_same s e).2.1 (act_same s e).2.2

theorem Instr.Sane.grows {s s' : Channel} {e : Instr} (h : e.Sane s) (hg : Grows s s') : e.Sane s' := by
  cases e with
  | listener t =>
    obtain ⟨hlt, hfree, hjob⟩ := h
    refine ⟨Nat.lt_of_lt_of_le hlt hg.tag, fun hmem => ?_, fun k hk => ?_⟩
    · rcases hg.newCalled t hmem with hmem | ⟨k, hk, hkt⟩
      · exact hfree hmem
      · exact hjob k hk hkt
    · rcases hg.newItems k hk with hk | hk
      · exact hjob k hk
      · exact hk.1 ▸ hlt.ne'
  | job e =>
    cases e with
    | ack k multiple => exact hg.called h
    | _ => trivial

theorem Inv.grows {s : State Channel Instr} (hs : Inv s) {shared : Channel} (hg : Grows s.shared shared)
    {calls : List (List Instr)} (hcalls : ∀ es ∈ calls, ∀ e ∈ es, e.Sane shared) : Inv ⟨shared, calls⟩ where
  calls := hcalls
  items h hh := by
    rcases hg.newItems h hh with hmem | ⟨heq, hlt⟩
    · exact Nat.lt_of_lt_of_le (hs.items h hmem) hg.tag
    · exact heq ▸ hlt
  called t ht := by
    obtain ⟨h, hh, heq⟩ := (hg.newCalled t ht).elim (hs.called t) id
    exact ⟨h, hg.items hh, heq⟩

/-- `Ack` and `Requeue` ack the delivery they are called for, `Nack` acks none. -/
theorem mem_outcome_ack {call : Delayed.Call} {h h' : Held} {multiple : Bool}
    (hmem : Effect.ack h' multiple ∈ (call.outcome h).1) : acks call = true ∧ h'.tag = h.tag := by
  have huncount : ∀ i, Effect.ack h' multiple ∉ Delayed.uncount i := by
    intro i
    unfold Delayed.uncount
    split <;> simp
  have hack : ∀ f k m, Effect.ack h' multiple ∈ (Delayed.ackDelivery f k m).1 → h' = k := by
    intro f k m
    unfold Delayed.ackDelivery
    split
    · simp
    · simp +contextual
  have hnack : ∀ f k requeue, Effect.ack h' multiple ∉ (Delayed.nackDelivery f k requeue).1 := by
    intro f k requeue
    unfold Delayed.nackDelivery
    split <;> simp
  cases call with
  | ack f =>
    rcases List.mem_append.mp hmem with hmem | hmem
    · exact absurd hmem (huncount _)
    · exact ⟨rfl, by rw [hack _ _ _ hmem]⟩
  | nack f =>
    rcases List.mem_append.mp hmem with hmem | hmem
    · exact absurd hmem (huncount _)
    · exact absurd hmem (hnack _ _ _)
  | requeue headers delay f =>
    have hhandled := Delayed.handleItem_handled { f with expired := false } (h.overwrite headers delay).item
    simp only [Delayed.Call.outcome, Delayed.requeue] at hmem
    generalize Delayed.handleItem { f with expired := false } (h.overwrite headers delay).item = o
      at hhandled hmem
    have hpublish : Effect.ack h' multiple ∉ o.1 := by cases hhandled <;> simp
    refine ⟨rfl, ?_⟩
    cases herr : o.2 with
    | some err =>
      simp only [herr] at hmem
      rcases List.mem_append.mp hmem with hmem | hmem
      · exact absurd hmem (List.not_mem_append (huncount _) hpublish)
      · exact absurd hmem (hnack _ _ _)
    | none =>
      simp only [herr] at hmem
      rcases List.mem_append.mp hmem with hmem | hmem
      · exact absurd hmem (List.not_mem_append (huncount _) hpublish)
      · rw [hack _ _ _ hmem]
        rfl

section

variable {json : Json} {c : Consumer} {s : State Channel Instr}

theorem Inv.next (hs : Inv s) (n : Nat) (k : Unit) : Inv ((system json c).next s n k) := by
  refine next_invariant hs fun e es shared hn hact => ?_
  obtain rfl : act s.shared e = shared := Option.some.inj hact
  have hg := grows_act s.shared e
  have hsane : ∀ fs ∈ s.calls, ∀ f ∈ fs, f.Sane (act s.shared e) :=
    fun fs hfs f hf => (hs.calls fs hfs f hf).grows hg
  exact hs.grows hg (forall_set hsane n fun f hf =>
    hsane _ (List.mem_of_getElem? hn) f (List.mem_cons_of_mem e hf))

/-- A call starts. -/
theorem Inv.concat (hs : Inv s) {shared : Channel} (hg : Grows s.shared shared) {es : List Instr}
    (hes : ∀ e ∈ es, e.Sane shared) : Inv ⟨shared, s.calls ++ [es]⟩ :=
  hs.grows hg (forall_concat (fun fs hfs f hf => (hs.calls fs hfs f hf).grows hg) hes)

theorem Inv.deliver (hs : Inv s) (d : Delivery) (fails : Bool) :
    Inv ⟨(deliver json c s.shared d fails).1, s.calls ++ [(deliver json c s.shared d fails).2]⟩ := by
  unfold Acks.deliver
  split
  · exact hs.concat (.of_same rfl rfl rfl) (List.forall_mem_nil _)
  · split
    case h_1 item _ =>
      refine hs.concat ?_ (List.forall_mem_nil _)
      refine ⟨Nat.le_succ _, List.subset_append_left _ _, List.Subset.refl _, fun h hh => ?_, fun t ht => .inl ht⟩
      rcases List.mem_append.mp hh with hh | hh
      · exact .inl hh
      · rw [List.mem_singleton.mp hh]
        exact .inr ⟨rfl, Nat.lt_succ_self _⟩
    case h_2 =>
      refine hs.concat ?_ fun e he => ?_
      · exact ⟨Nat.le_succ _, List.Subset.refl _, List.Subset.refl _, fun h hh => .inl hh, fun t ht => .inl ht⟩
      split at he
      · cases he
      · obtain rfl := List.mem_singleton.mp he
        refine ⟨Nat.lt_succ_self _, fun hmem => ?_, fun h hh => (hs.items h hh).ne⟩
        obtain ⟨h, hh, heq⟩ := hs.called _ hmem
        exact (hs.items h hh).ne heq
    case h_3 => exact hs.concat (.of_same rfl rfl rfl) (List.forall_mem_nil _)

theorem Inv.start (hs : Inv s) (op : Op) :
    Inv ⟨(start json c s.shared op).1, s.calls ++ [(start json c s.shared op).2]⟩ := by
  cases op with
  | deliver d fails => exact hs.deliver d fails
  | call n call =>
    simp only [Acks.start]
    split
    · exact hs.concat (.of_same rfl rfl rfl) (List.forall_mem_nil _)
    · rename_i h hn
      have hmem : h ∈ s.shared.items := List.mem_of_getElem? hn
      refine hs.concat ?_ fun e he => ?_
      · refine ⟨le_rfl, List.Subset.refl _, ?_, fun k hk => .inl hk, fun t ht => ?_⟩
        · dsimp only
          split
          · exact List.subset_append_left _ _
          · exact List.Subset.refl _
        · dsimp only at ht
          split at ht
          · exact (List.mem_append.mp ht).imp_right fun ht => ⟨h, hmem, (List.mem_singleton.mp ht).symm⟩
          · exact .inl ht
      · obtain ⟨f, hf, rfl⟩ := List.mem_map.mp he
        cases f with
        | ack k multiple =>
          obtain ⟨hacks, htag⟩ := mem_outcome_ack hf
          change k.tag ∈ if acks call = true then s.shared.called ++ [h.tag] else s.shared.called
          rw [hacks, htag]
          exact List.mem_append_right _ List.mem_cons_self
        | _ => trivial

theorem Inv.step (hs : Inv s) (m : Move Op Unit) : Inv ((system json c).step s m) := by
  cases m with
  | start op => exact hs.start op
  | next n k =>
    change Inv ((system json c).next s n k)
    exact hs.next n k

/-! ## The acknowledged deliveries -/

theorem acked_ack (t : Channel) (tag : Nat) (multiple : Bool) :
    (t.ack tag multiple).acked = if t.Waits tag then t.acked ++ t.covered tag multiple else t.acked := by
  unfold Channel.ack
  by_cases hclosed : t.closed = true
  · simp [Channel.Waits, hclosed]
  · by_cases htag : tag ∈ t.outstanding
    · simp [Channel.Waits, hclosed, htag]
    · simp [Channel.Waits, hclosed, htag, Channel.close]

/-- An ack adds only deliveries whose jobs are finished. -/
theorem ack_covered_iff {t : Channel} (ht : ∀ u ∈ t.acked, u ∈ t.called) (tag : Nat) (multiple : Bool) :
    (∀ u ∈ (t.ack tag multiple).acked, u ∈ t.called) ↔
      (t.Waits tag → ∀ u ∈ t.outstanding, u = tag ∨ multiple ∧ u < tag → u ∈ t.called) := by
  rw [acked_ack]
  by_cases hw : t.Waits tag
  · rw [if_pos hw, List.forall_mem_append]
    simp only [hw, Channel.covered, List.mem_filter, decide_eq_true_eq, and_imp, forall_const]
    exact and_iff_right ht
  · rw [if_neg hw]
    exact iff_of_true ht fun h => absurd h hw

theorem act_covered_iff {t : Channel} (ht : ∀ u ∈ t.acked, u ∈ t.called) {e : Instr} (he : e.Sane t) :
    (∀ u ∈ (act t e).acked, u ∈ (act t e).called) ↔ t.Finished e := by
  rw [(act_same t e).2.2]
  cases e with
  | listener tag =>
    refine (ack_covered_iff ht tag false).trans ⟨fun h hw => ?_, fun h hw => absurd hw h⟩
    exact he.2.1 (h hw tag hw.2 (.inl rfl))
  | job e =>
    cases e with
    | ack h multiple =>
      refine (ack_covered_iff ht h.tag multiple).trans ?_
      have htag : h.tag ∈ t.called := he
      cases multiple with
      | false =>
        refine iff_of_true (fun _ u _ hu => ?_) trivial
        obtain rfl : u = h.tag := by simpa using hu
        exact htag
      | true =>
        refine forall_congr' fun _ => forall_congr' fun u => forall_congr' fun _ => ?_
        constructor
        · exact fun hall hlt => hall (.inr ⟨rfl, hlt⟩)
        · rintro hlow (rfl | ⟨-, hlt⟩)
          · exact htag
          · exact hlow hlt
    | nack h requeue =>
      refine iff_of_true (fun u hu => ht u ?_) trivial
      have hsame : (t.nack h.tag).acked = t.acked := by
        unfold Channel.nack
        split
        · rfl
        · split <;> rfl
      exact hsame ▸ hu
    | count d => exact iff_of_true ht trivial
    | publish m => exact iff_of_true ht trivial
    | keep h => exact iff_of_true ht trivial

/-- The start of a call acknowledges nothing. -/
theorem start_covered {t : Channel} (ht : ∀ u ∈ t.acked, u ∈ t.called) (op : Op) :
    ∀ u ∈ (start json c t op).1.acked, u ∈ (start json c t op).1.called := by
  cases op with
  | deliver d fails =>
    change ∀ u ∈ (deliver json c t d fails).1.acked, u ∈ (deliver json c t d fails).1.called
    unfold deliver
    split
    · exact ht
    · split <;> exact ht
  | call n call =>
    simp only [Acks.start]
    split
    · exact ht
    · intro u hu
      dsimp only
      split
      · exact List.mem_append_left _ (ht u hu)
      · exact ht u hu

theorem step_covered_iff (hs : Inv s) (hcov : Covered s) (m : Move Op Unit) :
    Covered ((system json c).step s m) ↔ Finished s m := by
  cases m with
  | start op => exact iff_of_true (start_covered hcov op) trivial
  | next n k =>
    change Covered ((system json c).next s n k) ↔ ∀ e ∈ (s.calls[n]?).bind List.head?, s.shared.Finished e
    unfold System.next
    cases hn : s.calls[n]? with
    | none => simpa using hcov
    | some es =>
      cases es with
      | nil => simpa using hcov
      | cons e es =>
        have hsane := hs.calls _ (List.mem_of_getElem? hn) e List.mem_cons_self
        simp only [Option.bind_some, List.head?_cons, Option.mem_def, Option.some.injEq, forall_eq']
        exact act_covered_iff hcov hsane

end

/-- The channel is open and nothing was delivered. -/
def opened : State Channel Instr := ⟨{}, []⟩

theorem inv_opened : Inv opened := ⟨List.forall_mem_nil _, List.forall_mem_nil _, List.forall_mem_nil _⟩

/-- In every state of every run, only deliveries whose jobs were acked or requeued are acknowledged, exactly if
no ack with `multiple` covers another unfinished one and the listener does not ack one itself. -/
theorem covered_iff (json : Json) (c : Consumer) (moves : List (Move Op Unit)) :
    (∀ before after, moves = before ++ after → Covered (Run.exec (system json c).step opened before)) ↔
      Run.Along (system json c).step Finished opened moves :=
  Run.Along.always_iff (I := Inv)
    (fun _ m hs hcov hfin => ⟨hs.step m, (step_covered_iff hs hcov m).mpr hfin⟩)
    (fun _ m hs hcov hstep => (step_covered_iff hs hcov m).mp hstep) inv_opened (List.forall_mem_nil _)

/-- A delivery that is a job. -/
def plainDelivery : Delivery := ⟨[(rrID, .string (ascii "1")), (rrJob, .string (ascii "job"))], []⟩

/-- Of two jobs the second one is acked, with `multiple`: the broker takes both as acknowledged. A delivery that
is no job is acknowledged by the listener. -/
theorem covers_unfinished :
    let multiple := Run.exec (system Json.plain { multipleAck := true }).step opened
      [.start (.deliver plainDelivery false), .start (.deliver plainDelivery false), .start (.call 1 (.ack {})),
        .next 2 ()]
    let malformed := Run.exec (system Json.plain {}).step opened [.start (.deliver ⟨[], []⟩ false), .next 0 ()]
    (multiple.shared.acked = [1, 2] ∧ multiple.shared.called = [2]) ∧
      malformed.shared.acked = [1] ∧ malformed.shared.called = [] := by
  decide +kernel

/-! ## Without multiple acks -/

/-- The step is no ack with `multiple` and no ack of the listener. -/
def Instr.Single : Instr → Prop
  | .job e => e.Single
  | .listener _ => False

/-- No ack in progress or to come has `multiple` set. -/
structure Single (s : State Channel Instr) : Prop where
  items : ∀ h ∈ s.shared.items, h.item.options.multipleAsk = false
  calls : ∀ es ∈ s.calls, ∀ e ∈ es, e.Single

/-- A delivery is not one that the listener acks. -/
def Converted (json : Json) (c : Consumer) : Move Op Unit → Prop
  | .start (.deliver d _) => ∀ err, c.fromDelivery json d ≠ .error err
  | _ => True

theorem Instr.Single.finished {e : Instr} (h : e.Single) (t : Channel) : t.Finished e := by
  cases e with
  | listener tag => exact h.elim
  | job e =>
    cases e with
    | ack k multiple =>
      obtain rfl : multiple = false := h.2
      trivial
    | _ => trivial

section

variable {json : Json} {c : Consumer} {s : State Channel Instr}

theorem Single.next (hs : Single s) (n : Nat) (k : Unit) : Single ((system json c).next s n k) := by
  refine next_invariant hs fun e es shared hn hact => ?_
  obtain rfl : act s.shared e = shared := Option.some.inj hact
  have hes := hs.calls _ (List.mem_of_getElem? hn)
  refine ⟨?_, forall_set hs.calls n fun f hf => hes f (List.mem_cons_of_mem e hf)⟩
  rw [(act_same s.shared e).1]
  exact hs.items

theorem Single.start (hc : c.multipleAck = false) (hs : Single s) {op : Op} (hop : Converted json c (.start op)) :
    Single ⟨(start json c s.shared op).1, s.calls ++ [(start json c s.shared op).2]⟩ := by
  cases op with
  | deliver d fails =>
    change Single ⟨(deliver json c s.shared d fails).1, s.calls ++ [(deliver json c s.shared d fails).2]⟩
    unfold deliver
    split
    · exact ⟨hs.items, forall_concat hs.calls (List.forall_mem_nil _)⟩
    · split
      case h_1 item hitem =>
        have hsingle := (Consumer.multipleAsk_of_fromDelivery hitem).trans hc
        exact ⟨forall_concat hs.items hsingle, forall_concat hs.calls (List.forall_mem_nil _)⟩
      case h_2 err herr => exact absurd herr (hop err)
      case h_3 => exact ⟨hs.items, forall_concat hs.calls (List.forall_mem_nil _)⟩
  | call n call =>
    simp only [Acks.start]
    split
    · exact ⟨hs.items, forall_concat hs.calls (List.forall_mem_nil _)⟩
    · rename_i h hn
      have hfair := (Delayed.Call.outcome_fair (hs.items h (List.mem_of_getElem? hn)) call).1
      refine ⟨hs.items, forall_concat hs.calls fun e he => ?_⟩
      obtain ⟨f, hf, rfl⟩ := List.mem_map.mp he
      exact hfair.single f hf

/-- Without `multiple_ack` and with deliveries that are jobs, only finished jobs are acknowledged. -/
theorem covered_of_single (hc : c.multipleAck = false) {moves : List (Move Op Unit)}
    (hmoves : ∀ m ∈ moves, Converted json c m) : Covered (Run.exec (system json c).step opened moves) := by
  have halong : Run.Along (system json c).step Finished opened moves := by
    refine Run.Along.imp (I := Single) (D := fun _ m => Converted json c m) (fun s m hs hm => ?_)
      ⟨List.forall_mem_nil _, List.forall_mem_nil _⟩ (Run.Along.of_forall _ hmoves)
    cases m with
    | start op => exact ⟨trivial, hs.start hc hm⟩
    | next n k =>
      refine ⟨fun e he => ?_, ?_⟩
      · obtain ⟨es, hes, hhead⟩ := Option.bind_eq_some_iff.mp he
        exact (hs.calls es (List.mem_of_getElem? hes) e (List.mem_of_head? hhead)).finished s.shared
      · change Single ((system json c).next s n k)
        exact hs.next n k
  have hinv : Inv (Run.exec (system json c).step opened moves) ∧
      Covered (Run.exec (system json c).step opened moves) :=
    halong.invariant (I := fun s => Inv s ∧ Covered s)
      (fun s m hs hfin => ⟨hs.1.step m, (step_covered_iff hs.1 hs.2 m).mpr hfin⟩)
      ⟨inv_opened, List.forall_mem_nil _⟩
  exact hinv.2

end

end RoadRunner.Amqp.Acks
