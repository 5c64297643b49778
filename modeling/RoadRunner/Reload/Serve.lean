import RoadRunner.Reload.Runs

/-!
# From events to resets

The model of `Serve` and `Stop` of `reload/plugin.go`: the goroutine of `StartPolling`, the one that forwards the events
of the watcher to `thCh`, the loop that collects them and resets services when the timer fires, and a call of `Stop`.
The configurations that the loop collects with the names of the services are not read, and are left out.

Stopping a timer does not take back what it has sent on its channel: a timeout that the loop has not seen yet stays
there when the timer is set again.

* `events_reset`: no event is lost on its way, a service is reset only if it is dirty, and while the loop runs, all
  services with an event get reset.
* `stop_returns_iff`: `Stop` can return unless a reset has failed and more events are left than the channels hold.
-/

namespace RoadRunner.Reload.Serve

/-- The loop that collects events. -/
inductive Loop where
  | selecting
  /-- In the range over `updated`, with the services that are left. -/
  | resetting (left : List Bytes)
  | ended
  deriving DecidableEq

/-- A call of `Stop`. -/
inductive Stopping where
  | uncalled
  /-- In `s.watcher.Stop()`. -/
  | closing
  /-- At the send on `stopc`. -/
  | signalling
  | returned
  deriving DecidableEq

/-- The main loop receives an event, or resets a service. -/
inductive Entry where
  | received (service : Bytes)
  | reset (service : Bytes)
  deriving DecidableEq

/-- The plugin: the watcher, the channels and the main loop. -/
structure Plugin where
  /-- The watcher, and the events of all its polls. -/
  watched : State
  /-- The goroutine of `StartPolling` runs. -/
  polling : Bool := true
  /-- The services of the events that this goroutine has still to send. -/
  emitting : List Bytes := []
  /-- What the forwarding goroutine holds. -/
  held : Option Bytes := none
  thCh : List Bytes := []
  updated : Finset Bytes := ∅
  loop : Loop := .selecting
  /-- The timer runs. -/
  armed : Bool := true
  /-- There is a timeout in `timer.C`. -/
  fired : Bool := false
  stopc : Bool := false
  errCh : Option Err := none
  stopping : Stopping := .uncalled
  log : List Entry := []

/-- `thresholdChanBuffer`. -/
def thresholdChanBuffer : Nat := 1000

/-- The plugin when its goroutines have been started. -/
def serving (w : Watcher) : Plugin := { watched := ⟨w, []⟩ }

/-- `Serve`. -/
def serve (interval : Int64) (w : Watcher) : Except Err Plugin :=
  if interval < 1000000000 then .error (.op "reload_plugin_serve" (.str "reload interval is too fast"))
  else .ok (serving w)

/-- What can happen. -/
inductive Move where
  /-- The ticker of `waitEvent`. -/
  | tick (t : Tick)
  /-- The polling goroutine sends an event to the forwarding one. -/
  | send
  /-- The forwarding goroutine sends it on `thCh`. -/
  | forward
  | receive
  /-- The timer fires. -/
  | fire
  /-- The loop receives from `timer.C`, and goes through `updated` in the order. -/
  | timeout (order : List Bytes)
  /-- The call of `Reset` for the next service returns. -/
  | reset (err : Option Err)
  /-- `Stop` is called. -/
  | stop
  /-- The polling goroutine receives from `close`. -/
  | close
  /-- `Stop` sends on `stopc`. -/
  | signal
  /-- The loop receives from `stopc`. -/
  | quit

/-- Where the loop is with the services `left` to reset. -/
def Loop.over : List Bytes → Loop
  | [] => .selecting
  | left => .resetting left

/-- The loop after a call of `Reset`. -/
def Plugin.afterReset (s : Plugin) (service : Bytes) (left : List Bytes) : Option Err → Plugin
  | none => { s with
      log := s.log ++ [.reset service]
      loop := .over left
      updated := if left = [] then ∅ else s.updated }
  | some err => { s with loop := .ended, armed := false, errCh := some (.op "reload_plugin_serve" err) }

/-- One move. -/
def step (cwd : Option Path) (s : Plugin) : Move → Plugin
  | .tick t =>
    if s.polling ∧ s.emitting = [] then
      { s with
        watched := advance cwd s.watched t
        emitting := (tick cwd s.watched.watcher t).2.map Event.service }
    else s
  | .send =>
    match s.emitting, s.held with
    | e :: es, none => { s with emitting := es, held := some e }
    | _, _ => s
  | .forward =>
    match s.held with
    | some e => if s.thCh.length < thresholdChanBuffer then { s with held := none, thCh := s.thCh ++ [e] } else s
    | none => s
  | .receive =>
    match s.loop, s.thCh with
    | .selecting, e :: es =>
      { s with thCh := es, updated := insert e s.updated, armed := true, log := s.log ++ [.received e] }
    | _, _ => s
  | .fire => if s.armed then { s with armed := false, fired := true } else s
  | .timeout order =>
    if s.loop = .selecting ∧ s.fired ∧ Orders.Lists order s.updated then { s with fired := false, loop := .over order }
    else s
  | .reset err =>
    match s.loop with
    | .resetting (service :: left) => s.afterReset service left err
    | _ => s
  | .stop => if s.stopping = .uncalled then { s with stopping := .closing } else s
  | .close =>
    if s.stopping = .closing ∧ s.polling ∧ s.emitting = [] then { s with polling := false, stopping := .signalling }
    else s
  | .signal => if s.stopping = .signalling ∧ !s.stopc then { s with stopc := true, stopping := .returned } else s
  | .quit => if s.loop = .selecting ∧ s.stopc then { s with loop := .ended, stopc := false, armed := false } else s

/-! ## What a step can do -/

/-- What a move can do. -/
inductive Stepped (cwd : Option Path) (s : Plugin) : Plugin → Prop where
  | idle : Stepped cwd s s
  | tick (t : Tick) (hpolling : s.polling) (hemitting : s.emitting = []) : Stepped cwd s
      { s with watched := advance cwd s.watched t, emitting := (tick cwd s.watched.watcher t).2.map Event.service }
  | send {e : Bytes} {es : List Bytes} (hemitting : s.emitting = e :: es) (hheld : s.held = none) : Stepped cwd s
      { s with emitting := es, held := some e }
  | forward {e : Bytes} (hheld : s.held = some e) (hroom : s.thCh.length < thresholdChanBuffer) : Stepped cwd s
      { s with held := none, thCh := s.thCh ++ [e] }
  | receive {e : Bytes} {es : List Bytes} (hloop : s.loop = .selecting) (hthCh : s.thCh = e :: es) : Stepped cwd s
      { s with thCh := es, updated := insert e s.updated, armed := true, log := s.log ++ [.received e] }
  | fire (harmed : s.armed) : Stepped cwd s { s with armed := false, fired := true }
  | timeout {order : List Bytes} (hloop : s.loop = .selecting) (hfired : s.fired)
      (horder : Orders.Lists order s.updated) : Stepped cwd s { s with fired := false, loop := .over order }
  | reset {service : Bytes} {left : List Bytes} (hloop : s.loop = .resetting (service :: left)) (err : Option Err) :
      Stepped cwd s (s.afterReset service left err)
  | stop (hstopping : s.stopping = .uncalled) : Stepped cwd s { s with stopping := .closing }
  | close (hstopping : s.stopping = .closing) (hpolling : s.polling) (hemitting : s.emitting = []) : Stepped cwd s
      { s with polling := false, stopping := .signalling }
  | signal (hstopping : s.stopping = .signalling) (hstopc : s.stopc = false) : Stepped cwd s
      { s with stopc := true, stopping := .returned }
  | quit (hloop : s.loop = .selecting) (hstopc : s.stopc) : Stepped cwd s
      { s with loop := .ended, stopc := false, armed := false }

theorem stepped (cwd : Option Path) (s : Plugin) (m : Move) : Stepped cwd s (step cwd s m) := by
  cases m with
  | tick t =>
    simp only [step]
    split
    case isTrue h => exact .tick t h.1 h.2
    case isFalse => exact .idle
  | send =>
    simp only [step]
    split
    case h_1 hemitting hheld => exact .send hemitting hheld
    case h_2 => exact .idle
  | forward =>
    simp only [step]
    split
    case h_1 e hheld =>
      split
      case isTrue hroom => exact .forward hheld hroom
      case isFalse => exact .idle
    case h_2 => exact .idle
  | receive =>
    simp only [step]
    split
    case h_1 hloop hthCh => exact .receive hloop hthCh
    case h_2 => exact .idle
  | fire =>
    simp only [step]
    split
    case isTrue harmed => exact .fire harmed
    case isFalse => exact .idle
  | timeout order =>
    simp only [step]
    split
    case isTrue h => exact .timeout h.1 h.2.1 h.2.2
    case isFalse => exact .idle
  | reset err =>
    simp only [step]
    split
    case h_1 hloop => exact .reset hloop err
    case h_2 => exact .idle
  | stop =>
    simp only [step]
    split
    case isTrue h => exact .stop h
    case isFalse => exact .idle
  | close =>
    simp only [step]
    split
    case isTrue h => exact .close h.1 h.2.1 h.2.2
    case isFalse => exact .idle
  | signal =>
    simp only [step]
    split
    case isTrue h => exact .signal h.1 (by simpa using h.2)
    case isFalse => exact .idle
  | quit =>
    simp only [step]
    split
    case isTrue h => exact .quit h.1 h.2
    case isFalse => exact .idle

/-! ## What the loop has to reset -/

/-- The events that the loop received. -/
def received (log : List Entry) : List Bytes :=
  log.filterMap fun
    | .received service => some service
    | .reset _ => none

/-- An event for the service was received after its last reset. -/
def Dirty (service : Bytes) (log : List Entry) : Prop :=
  ∃ pre post, log = pre ++ .received service :: post ∧ .reset service ∉ post

theorem not_dirty_nil (service : Bytes) : ¬ Dirty service [] := by
  rintro ⟨pre, post, h, -⟩
  simp at h

theorem dirty_received {service e : Bytes} {log : List Entry} :
    Dirty service (log ++ [.received e]) ↔ service = e ∨ Dirty service log := by
  constructor
  · rintro ⟨pre, post, h, hpost⟩
    rcases List.eq_nil_or_concat post with rfl | ⟨post, x, rfl⟩
    · have hlast := (List.append_inj' h rfl).2
      simp only [List.cons.injEq, Entry.received.injEq, and_true] at hlast
      exact .inl hlast.symm
    · rw [List.concat_eq_append, ← List.cons_append, ← List.append_assoc] at h
      obtain ⟨rfl, -⟩ := List.append_inj' h rfl
      exact .inr ⟨pre, post, rfl, fun hmem => hpost (by simp [hmem])⟩
  · rintro (rfl | ⟨pre, post, rfl, hpost⟩)
    · exact ⟨log, [], rfl, List.not_mem_nil⟩
    · exact ⟨pre, post ++ [.received e], by simp, by simp [hpost]⟩

theorem dirty_reset {service e : Bytes} {log : List Entry} :
    Dirty service (log ++ [.reset e]) ↔ service ≠ e ∧ Dirty service log := by
  constructor
  · rintro ⟨pre, post, h, hpost⟩
    rcases List.eq_nil_or_concat post with rfl | ⟨post, x, rfl⟩
    · have hlast := (List.append_inj' h rfl).2
      simp at hlast
    · rw [List.concat_eq_append, ← List.cons_append, ← List.append_assoc] at h
      obtain ⟨rfl, hx⟩ := List.append_inj' h rfl
      obtain rfl : Entry.reset e = x := by simpa using hx
      refine ⟨?_, pre, post, rfl, fun hmem => hpost (by simp [hmem])⟩
      rintro rfl
      exact hpost (by simp)
  · rintro ⟨hne, pre, post, rfl, hpost⟩
    refine ⟨pre, post ++ [.reset e], by simp, ?_⟩
    simp only [List.mem_append, List.mem_singleton, Entry.reset.injEq, not_or]
    exact ⟨hpost, hne⟩

/-- The services that the loop has to reset. -/
def Loop.Agrees (updated : Finset Bytes) (log : List Entry) : Loop → Prop
  | .selecting => ∀ service, Dirty service log ↔ service ∈ updated
  | .resetting left => left ≠ [] ∧ left.Nodup ∧ ∀ service, Dirty service log ↔ service ∈ left
  | .ended => True

/-- What holds in every run. -/
structure Inv (s : Plugin) : Prop where
  fifo : received s.log ++ (s.thCh ++ (s.held.toList ++ s.emitting)) = s.watched.events.map Event.service
  /-- Only dirty services are reset. -/
  resets : ∀ pre service post, s.log = pre ++ .reset service :: post → Dirty service pre
  agrees : s.loop.Agrees s.updated s.log
  /-- What is collected is waited for. -/
  armed : s.loop = .selecting → s.updated ≠ ∅ → s.armed ∨ s.fired
  room : s.thCh.length ≤ thresholdChanBuffer
  polling : s.stopping = .uncalled ∨ s.stopping = .closing → s.polling = true
  stopc : s.stopping ≠ .returned → s.stopc = false
  failed : s.errCh.isSome → s.loop = .ended
  ended : s.loop = .ended → s.errCh.isSome ∨ s.stopping = .returned

theorem received_concat (log : List Entry) (e : Bytes) : received (log ++ [.received e]) = received log ++ [e] := by
  simp [received]

theorem received_concat_reset (log : List Entry) (e : Bytes) : received (log ++ [.reset e]) = received log := by
  simp [received]

/-- A reset that is logged last, or before. -/
theorem resets_concat {log : List Entry} {e : Entry}
    (h : ∀ pre service post, log = pre ++ .reset service :: post → Dirty service pre)
    (hlast : ∀ service, e = .reset service → Dirty service log) :
    ∀ pre service post, log ++ [e] = pre ++ .reset service :: post → Dirty service pre := by
  intro pre service post heq
  rcases List.eq_nil_or_concat post with rfl | ⟨post, x, rfl⟩
  · obtain ⟨rfl, he⟩ := List.append_inj' heq rfl
    exact hlast service (List.singleton_inj.mp he)
  · rw [List.concat_eq_append, ← List.cons_append, ← List.append_assoc] at heq
    obtain ⟨rfl, -⟩ := List.append_inj' heq rfl
    exact h pre service post rfl

theorem Loop.over_eq_ended {left : List Bytes} : Loop.over left ≠ .ended := by
  cases left <;> simp [Loop.over]

/-- The loop agrees with what it has left. -/
theorem agrees_over (updated : Finset Bytes) {log : List Entry} {left : List Bytes} (hnodup : left.Nodup)
    (h : ∀ service, Dirty service log ↔ service ∈ left) :
    (Loop.over left).Agrees (if left = [] then ∅ else updated) log := by
  cases left with
  | nil => simpa [Loop.over, Loop.Agrees] using h
  | cons service left => exact ⟨List.cons_ne_nil service left, hnodup, h⟩

variable {cwd : Option Path} {s s' : Plugin}

theorem Inv.reset (h : Inv s) {service : Bytes} {left : List Bytes} (hloop : s.loop = .resetting (service :: left))
    (err : Option Err) : Inv (s.afterReset service left err) := by
  have hagrees := h.agrees
  rw [hloop] at hagrees
  obtain ⟨-, hnodup, hdirty⟩ := hagrees
  have herr : s.errCh = none := by
    by_contra hne
    have hended := h.failed (Option.isSome_iff_ne_none.mpr hne)
    rw [hloop] at hended
    cases hended
  cases err with
  | none =>
    refine ⟨?_, ?_, ?_, ?_, h.room, h.polling, h.stopc, ?_, ?_⟩
    · simpa only [Plugin.afterReset, received_concat_reset] using h.fifo
    · refine resets_concat h.resets ?_
      intro name hname
      obtain rfl := Entry.reset.inj hname
      exact (hdirty _).mpr List.mem_cons_self
    · refine agrees_over s.updated (List.nodup_cons.mp hnodup).2 fun name => ?_
      rw [Plugin.afterReset, dirty_reset, hdirty, List.mem_cons]
      constructor
      · rintro ⟨hne, rfl | hmem⟩
        · exact absurd rfl hne
        · exact hmem
      · intro hmem
        exact ⟨fun heq => (List.nodup_cons.mp hnodup).1 (heq ▸ hmem), .inr hmem⟩
    · intro hsel hne
      cases left with
      | nil => simp [Plugin.afterReset] at hne
      | cons name left => simp [Plugin.afterReset, Loop.over] at hsel
    · intro hfailed
      rw [Plugin.afterReset, herr] at hfailed
      cases hfailed
    · exact fun hended => absurd hended Loop.over_eq_ended
  | some err =>
    exact ⟨h.fifo, h.resets, trivial, fun hsel => (by cases hsel), h.room, h.polling, h.stopc, fun _ => rfl,
      fun _ => .inl rfl⟩

theorem Inv.stepped (h : Inv s) (hstep : Stepped cwd s s') : Inv s' := by
  cases hstep with
  | idle => exact h
  | tick t hpolling hemitting =>
    refine ⟨?_, h.resets, h.agrees, h.armed, h.room, h.polling, h.stopc, h.failed, h.ended⟩
    have hfifo := h.fifo
    rw [hemitting, List.append_nil] at hfifo
    simp only [advance, List.map_append, ← hfifo, List.append_assoc]
  | send hemitting hheld =>
    refine ⟨?_, h.resets, h.agrees, h.armed, h.room, h.polling, h.stopc, h.failed, h.ended⟩
    simpa [hemitting, hheld] using h.fifo
  | forward hheld hroom =>
    refine ⟨?_, h.resets, h.agrees, h.armed, ?_, h.polling, h.stopc, h.failed, h.ended⟩
    · simpa [hheld] using h.fifo
    · simpa using hroom
  | @receive e es hloop hthCh =>
    have hagrees := h.agrees
    have hroom := h.room
    rw [hloop] at hagrees
    rw [hthCh, List.length_cons] at hroom
    refine ⟨?_, ?_, ?_, fun _ _ => .inl rfl, Nat.le_of_succ_le hroom, h.polling, h.stopc, h.failed, h.ended⟩
    · simpa [hthCh, received_concat] using h.fifo
    · exact resets_concat h.resets fun service he => by cases he
    · simp only [hloop]
      intro service
      rw [dirty_received, Finset.mem_insert, hagrees service]
  | fire harmed =>
    exact ⟨h.fifo, h.resets, h.agrees, fun _ _ => .inr rfl, h.room, h.polling, h.stopc, h.failed, h.ended⟩
  | @timeout order hloop hfired horder =>
    have hagrees := h.agrees
    rw [hloop] at hagrees
    have hdirty : ∀ service, Dirty service s.log ↔ service ∈ order := fun service =>
      (hagrees service).trans horder.mem_iff.symm
    have hupdated : (if order = [] then ∅ else s.updated) = s.updated := by
      split
      case isTrue hnil => rw [← horder.2, hnil, List.toFinset_nil]
      case isFalse => rfl
    refine ⟨h.fifo, h.resets, ?_, ?_, h.room, h.polling, h.stopc, ?_, ?_⟩
    · exact hupdated ▸ agrees_over s.updated horder.1 hdirty
    · intro hsel hne
      cases order with
      | nil => exact absurd (horder.2.symm.trans List.toFinset_nil) hne
      | cons service left => cases hsel
    · intro hfailed
      have hended := h.failed hfailed
      rw [hloop] at hended
      cases hended
    · exact fun hended => absurd hended Loop.over_eq_ended
  | reset hloop err => exact h.reset hloop err
  | stop hstopping =>
    have hpolling := h.polling (.inl hstopping)
    exact ⟨h.fifo, h.resets, h.agrees, h.armed, h.room, fun _ => hpolling, fun _ => h.stopc (by simp [hstopping]),
      h.failed, fun hended => (h.ended hended).imp_right fun hret => by simp [hstopping] at hret⟩
  | close hstopping hpolling hemitting =>
    exact ⟨h.fifo, h.resets, h.agrees, h.armed, h.room, fun hrunning => (by simp at hrunning),
      fun _ => h.stopc (by simp [hstopping]), h.failed,
      fun hended => (h.ended hended).imp_right fun hret => by simp [hstopping] at hret⟩
  | signal hstopping hstopc =>
    exact ⟨h.fifo, h.resets, h.agrees, h.armed, h.room, fun hrunning => (by simp at hrunning),
      fun hne => absurd rfl hne, h.failed, fun _ => .inr rfl⟩
  | quit hloop hstopc =>
    have hreturned : s.stopping = .returned := by
      by_contra hne
      rw [h.stopc hne] at hstopc
      cases hstopc
    exact ⟨h.fifo, h.resets, trivial, fun hsel => (by cases hsel), h.room, h.polling, fun _ => rfl,
      fun _ => rfl, fun _ => .inr hreturned⟩

theorem serving_inv (w : Watcher) : Inv (serving w) where
  fifo := rfl
  resets pre service post h := by simp [serving] at h
  agrees service := iff_of_false (not_dirty_nil service) (Finset.notMem_empty service)
  armed _ h := absurd rfl h
  room := Nat.zero_le _
  polling _ := rfl
  stopc _ := rfl
  failed h := by cases h
  ended h := by cases h

theorem inv_exec (cwd : Option Path) (w : Watcher) (ms : List Move) : Inv (Run.exec (step cwd) (serving w) ms) :=
  Run.exec_invariant (I := Inv) (fun s m h => h.stepped (stepped cwd s m)) ms (serving_inv w)

/-! ## All that is collected gets reset -/

/-- How far the loop is from having nothing to reset. -/
def Plugin.loopDistance (s : Plugin) : Nat :=
  match s.loop with
  | .selecting => if s.updated = ∅ then 0 else s.updated.card + 2 + if s.fired then 0 else 1
  | .resetting left => left.length + 1
  | .ended => 0

/-- How far the events are from having been reset. -/
def Plugin.distance (s : Plugin) : Nat :=
  7 * s.emitting.length + 6 * s.held.toList.length + 5 * s.thCh.length + s.loopDistance

/-- All events have been dealt with. -/
structure Plugin.Idle (s : Plugin) : Prop where
  emitting : s.emitting = []
  held : s.held = none
  thCh : s.thCh = []
  loop : s.loop = .selecting
  updated : s.updated = ∅

/-- The loop goes on, and nothing comes from outside. -/
structure Onward (s s' : Plugin) : Prop where
  watched : s'.watched = s.watched
  errCh : s'.errCh = s.errCh
  stopping : s'.stopping = s.stopping
  loop : s'.loop ≠ .ended

theorem Onward.trans {s₁ s₂ s₃ : Plugin} (h : Onward s₁ s₂) (h' : Onward s₂ s₃) : Onward s₁ s₃ :=
  ⟨h'.watched.trans h.watched, h'.errCh.trans h.errCh, h'.stopping.trans h.stopping, h'.loop⟩

theorem loopDistance_over (left : List Bytes) (s : Plugin) :
    { s with loop := .over left, updated := if left = [] then ∅ else s.updated }.loopDistance ≤ left.length + 1 := by
  cases left with
  | nil => simp [Plugin.loopDistance, Loop.over]
  | cons service left => exact Nat.le_refl _

/-- The loop resets the next service. -/
theorem exists_reset {left : List Bytes} (h : Inv s) (hloop : s.loop = .resetting left) :
    ∃ m, Onward s (step cwd s m) ∧ (step cwd s m).distance < s.distance := by
  have hagrees := h.agrees
  rw [hloop] at hagrees
  obtain ⟨service, left, rfl⟩ := List.exists_cons_of_ne_nil hagrees.1
  have hstep : step cwd s (.reset none) = s.afterReset service left none := by simp only [step, hloop]
  have hover := loopDistance_over left { s with log := s.log ++ [.reset service] }
  have hold : s.loopDistance = left.length + 2 := by simp [Plugin.loopDistance, hloop]
  refine ⟨.reset none, ?_, ?_⟩
  · rw [hstep]
    exact ⟨rfl, rfl, rfl, Loop.over_eq_ended⟩
  · rw [hstep, Plugin.distance, Plugin.distance, hold]
    exact Nat.add_lt_add_left (Nat.lt_of_le_of_lt hover (Nat.lt_succ_self _)) _

/-- The loop receives an event. -/
theorem exists_receive {e : Bytes} {es : List Bytes} (hloop : s.loop = .selecting) (hthCh : s.thCh = e :: es) :
    ∃ m, Onward s (step cwd s m) ∧ (step cwd s m).distance < s.distance := by
  have hstep : step cwd s .receive =
      { s with thCh := es, updated := insert e s.updated, armed := true, log := s.log ++ [.received e] } := by
    simp only [step, hloop, hthCh]
  refine ⟨.receive, ?_, ?_⟩
  · rw [hstep]
    exact ⟨rfl, rfl, rfl, by simp [hloop]⟩
  · have hcard := Finset.card_insert_le e s.updated
    have hfired : (if s.fired then 0 else 1) ≤ 1 := by split <;> decide
    rw [hstep]
    simp only [Plugin.distance, Plugin.loopDistance, hloop, hthCh, Finset.insert_ne_empty, if_false, List.length_cons]
    by_cases hempty : s.updated = ∅
    · rw [hempty, Finset.card_empty] at hcard
      rw [hempty, if_pos rfl]
      omega
    · rw [if_neg hempty]
      omega

/-- The timer fires, or its timeout is received. -/
theorem exists_timeout (h : Inv s) (hloop : s.loop = .selecting) (hne : s.updated ≠ ∅) :
    ∃ m, Onward s (step cwd s m) ∧ (step cwd s m).distance < s.distance := by
  by_cases hfired : s.fired
  · obtain ⟨order, horder⟩ := Orders.exists_lists s.updated
    have hstep : step cwd s (.timeout order) = { s with fired := false, loop := .over order } :=
      if_pos ⟨hloop, hfired, horder⟩
    have hlength : order.length = s.updated.card := by rw [← horder.2, List.toFinset_card_of_nodup horder.1]
    refine ⟨.timeout order, ?_, ?_⟩
    · rw [hstep]
      exact ⟨rfl, rfl, rfl, Loop.over_eq_ended⟩
    · rw [hstep]
      cases order with
      | nil => exact absurd (horder.2.symm.trans List.toFinset_nil) hne
      | cons service left =>
        simp only [Plugin.distance, Plugin.loopDistance, Loop.over, hloop, if_neg hne, hfired, hlength]
        simp
  · have harmed := (h.armed hloop hne).resolve_right hfired
    have hstep : step cwd s .fire = { s with armed := false, fired := true } := if_pos harmed
    refine ⟨.fire, ?_, ?_⟩
    · rw [hstep]
      exact ⟨rfl, rfl, rfl, by simp [hloop]⟩
    · rw [hstep]
      simp [Plugin.distance, Plugin.loopDistance, hloop, hne, hfired]

variable (cwd) in
theorem Inv.progress (h : Inv s) (hloop : s.loop ≠ .ended) (hidle : ¬ s.Idle) :
    ∃ m, Onward s (step cwd s m) ∧ (step cwd s m).distance < s.distance := by
  cases hl : s.loop with
  | ended => exact absurd hl hloop
  | resetting left => exact exists_reset h hl
  | selecting =>
    cases hthCh : s.thCh with
    | cons e es => exact exists_receive hl hthCh
    | nil =>
      cases hheld : s.held with
      | some e =>
        have hroom : s.thCh.length < thresholdChanBuffer := by simp [hthCh, thresholdChanBuffer]
        have hstep : step cwd s .forward = { s with held := none, thCh := s.thCh ++ [e] } := by
          simp only [step, hheld, if_pos hroom]
        refine ⟨.forward, ?_, ?_⟩
        · rw [hstep]
          exact ⟨rfl, rfl, rfl, hloop⟩
        · rw [hstep]
          simp only [Plugin.distance, Plugin.loopDistance, hheld, hthCh, List.length_append, Option.toList,
            List.length_cons, List.length_nil]
          omega
      | none =>
        cases hemitting : s.emitting with
        | cons e es =>
          have hstep : step cwd s .send = { s with emitting := es, held := some e } := by
            simp only [step, hemitting, hheld]
          refine ⟨.send, ?_, ?_⟩
          · rw [hstep]
            exact ⟨rfl, rfl, rfl, hloop⟩
          · rw [hstep]
            simp only [Plugin.distance, Plugin.loopDistance, hheld, hemitting, Option.toList, List.length_cons,
              List.length_nil]
            omega
        | nil => exact exists_timeout h hl fun hempty => hidle ⟨hemitting, hheld, hthCh, hl, hempty⟩

variable (cwd) in
/-- While the loop runs, all events can be received and all services reset. -/
theorem Inv.exists_idle (h : Inv s) (hloop : s.loop ≠ .ended) :
    ∃ ms, Inv (Run.exec (step cwd) s ms) ∧ Onward s (Run.exec (step cwd) s ms) ∧ (Run.exec (step cwd) s ms).Idle := by
  have hfewer : ∀ t, Inv t ∧ Onward s t → ¬ t.Idle →
      ∃ m, (Inv (step cwd t m) ∧ Onward s (step cwd t m)) ∧ (step cwd t m).distance < t.distance := by
    rintro t ⟨ht, honward⟩ hidle
    obtain ⟨m, hm, hlt⟩ := ht.progress cwd honward.loop hidle
    exact ⟨m, ⟨ht.stepped (Serve.stepped cwd t m), honward.trans hm⟩, hlt⟩
  obtain ⟨ms, ⟨hinv, honward⟩, hidle⟩ :=
    Run.exists_drain Plugin.Idle Plugin.distance hfewer ⟨h, ⟨rfl, rfl, rfl, hloop⟩⟩
  exact ⟨ms, hinv, honward, hidle⟩

/-- **Events and resets.** In every run of the goroutines, with any ticks of the watcher, timeouts and failing resets:
the events that the loop has received are, in their order, the first ones that the watcher reported, and the others are
on their way; a service is reset only after an event for it since its last reset; and as long as the loop has not ended,
it can go on, without any new event, until it has received all events and no service is left with an event after its
last reset. -/
theorem events_reset (cwd : Option Path) (w : Watcher) (ms : List Move) :
    let s := Run.exec (step cwd) (serving w) ms
    received s.log ++ (s.thCh ++ (s.held.toList ++ s.emitting)) = s.watched.events.map Event.service ∧
    (∀ pre service post, s.log = pre ++ .reset service :: post → Dirty service pre) ∧
    (s.loop ≠ .ended → ∃ ms', let s' := Run.exec (step cwd) s ms'
      s'.watched = s.watched ∧ s'.errCh = s.errCh ∧ s'.stopping = s.stopping ∧
      received s'.log = s'.watched.events.map Event.service ∧ ∀ service, ¬ Dirty service s'.log) := by
  intro s
  have h := inv_exec cwd w ms
  refine ⟨h.fifo, h.resets, fun hloop => ?_⟩
  obtain ⟨ms', hinv, honward, hidle⟩ := h.exists_idle cwd hloop
  refine ⟨ms', honward.watched, honward.errCh, honward.stopping, ?_, fun service => ?_⟩
  · have hfifo := hinv.fifo
    rw [hidle.thCh, hidle.held, hidle.emitting] at hfifo
    simpa using hfifo
  · have hagrees := hinv.agrees
    rw [hidle.loop, hidle.updated] at hagrees
    exact fun hdirty => Finset.notMem_empty service ((hagrees service).mp hdirty)

/-! ## Stop -/

/-- The events that the loop has not received. -/
def Plugin.left (s : Plugin) : Nat := s.thCh.length + s.held.toList.length + s.emitting.length

variable (cwd) in
/-- Once the polling goroutine waits for a tick, `Stop` returns. -/
theorem exists_returned (h : Inv s) (hclosing : s.stopping = .closing) (hemitting : s.emitting = []) :
    ∃ ms, (Run.exec (step cwd) s ms).stopping = .returned := by
  have hclose : step cwd s .close = { s with polling := false, stopping := .signalling } :=
    if_pos ⟨hclosing, h.polling (.inr hclosing), hemitting⟩
  have hstopc : s.stopc = false := h.stopc (by simp [hclosing])
  have hsignal : (step cwd (step cwd s .close) .signal).stopping = .returned := by
    rw [hclose]
    simp [step, hstopc]
  exact ⟨[.close, .signal], hsignal⟩

theorem toList_length_le (o : Option Bytes) : o.toList.length ≤ 1 := by
  cases o <;> simp

/-- The loop has ended and does not receive: the polling goroutine sends what the others can hold. -/
theorem exists_sent (hclosing : s.stopping = .closing) (hleft : s.left ≤ thresholdChanBuffer + 1) (h : Inv s) :
    ∃ ms, Inv (Run.exec (step cwd) s ms) ∧ (Run.exec (step cwd) s ms).stopping = .closing ∧
      (Run.exec (step cwd) s ms).emitting = [] := by
  have hfewer : ∀ t : Plugin, Inv t ∧ t.stopping = .closing ∧ t.left ≤ thresholdChanBuffer + 1 → ¬ t.emitting = [] →
      ∃ m, (Inv (step cwd t m) ∧ (step cwd t m).stopping = .closing ∧ (step cwd t m).left ≤ thresholdChanBuffer + 1) ∧
        2 * (step cwd t m).emitting.length + (step cwd t m).held.toList.length <
          2 * t.emitting.length + t.held.toList.length := by
    rintro t ⟨ht, hc, hl⟩ hne
    obtain ⟨e, es, hemitting⟩ := List.exists_cons_of_ne_nil hne
    rw [Plugin.left, hemitting, List.length_cons] at hl
    cases hheld : t.held with
    | none =>
      have hstep : step cwd t .send = { t with emitting := es, held := some e } := by
        simp only [step, hemitting, hheld]
      rw [hheld] at hl
      refine ⟨.send, ⟨ht.stepped (stepped cwd t _), ?_, ?_⟩, ?_⟩
      · rw [hstep]
        exact hc
      · rw [hstep]
        simp only [Plugin.left, Option.toList, List.length_cons, List.length_nil] at hl ⊢
        omega
      · rw [hstep, hemitting]
        simp only [Option.toList, List.length_cons, List.length_nil]
        omega
    | some f =>
      rw [hheld] at hl
      simp only [Option.toList, List.length_cons, List.length_nil] at hl
      have hroom : t.thCh.length < thresholdChanBuffer := by omega
      have hstep : step cwd t .forward = { t with held := none, thCh := t.thCh ++ [f] } := by
        simp only [step, hheld, if_pos hroom]
      refine ⟨.forward, ⟨ht.stepped (stepped cwd t _), ?_, ?_⟩, ?_⟩
      · rw [hstep]
        exact hc
      · rw [hstep]
        simp only [Plugin.left, hemitting, Option.toList, List.length_append, List.length_cons, List.length_nil]
        omega
      · rw [hstep]
        simp only [Option.toList, List.length_cons, List.length_nil]
        omega
  obtain ⟨ms, ⟨hinv, hc, -⟩, hemitting⟩ := Run.exists_drain (fun t : Plugin => t.emitting = [])
    (fun t => 2 * t.emitting.length + t.held.toList.length) hfewer ⟨h, hclosing, hleft⟩
  exact ⟨ms, hinv, hc, hemitting⟩

/-- The loop has ended, and the polling goroutine does not get to receive from `close`. -/
structure Stuck (s : Plugin) : Prop where
  ended : s.loop = .ended
  closing : s.stopping = .closing
  room : s.thCh.length ≤ thresholdChanBuffer
  left : thresholdChanBuffer + 1 < s.left

theorem Stuck.emitting_ne_nil (h : Stuck s) : s.emitting ≠ [] := by
  intro hnil
  have hroom := h.room
  have hleft := h.left
  have hheld := toList_length_le s.held
  rw [Plugin.left, hnil, List.length_nil] at hleft
  omega

theorem Stuck.stepped (h : Stuck s) (hstep : Stepped cwd s s') : Stuck s' := by
  have hleft := h.left
  cases hstep with
  | idle => exact h
  | tick t hpolling hemitting => exact absurd hemitting h.emitting_ne_nil
  | send hemitting hheld =>
    refine ⟨h.ended, h.closing, h.room, ?_⟩
    simp only [Plugin.left, hemitting, hheld, Option.toList, List.length_cons, List.length_nil] at hleft ⊢
    omega
  | forward hheld hroom =>
    refine ⟨h.ended, h.closing, ?_, ?_⟩
    · simpa using hroom
    · simp only [Plugin.left, hheld, Option.toList, List.length_append, List.length_cons, List.length_nil] at hleft ⊢
      omega
  | receive hloop => exact absurd (h.ended.symm.trans hloop) (by simp)
  | fire harmed => exact ⟨h.ended, h.closing, h.room, hleft⟩
  | timeout hloop => exact absurd (h.ended.symm.trans hloop) (by simp)
  | reset hloop err => exact absurd (h.ended.symm.trans hloop) (by simp)
  | stop hstopping => exact absurd (h.closing.symm.trans hstopping) (by simp)
  | close hstopping hpolling hemitting => exact absurd hemitting h.emitting_ne_nil
  | signal hstopping => exact absurd (h.closing.symm.trans hstopping) (by simp)
  | quit hloop => exact absurd (h.ended.symm.trans hloop) (by simp)

/-- **When `Stop` returns.** In every run, `Stop`, while it waits for the polling goroutine, can return if and only if
no reset has failed, or the events that the loop has left fit into `thCh` and the forwarding goroutine. -/
theorem stop_returns_iff (cwd : Option Path) (w : Watcher) (ms : List Move)
    (hclosing : (Run.exec (step cwd) (serving w) ms).stopping = .closing) :
    let s := Run.exec (step cwd) (serving w) ms
    (∃ ms', (Run.exec (step cwd) s ms').stopping = .returned) ↔ s.errCh = none ∨ s.left ≤ thresholdChanBuffer + 1 := by
  intro s
  have h := inv_exec cwd w ms
  constructor
  · rintro ⟨ms', hreturned⟩
    by_contra hnot
    obtain ⟨hfailed, hleft⟩ := not_or.mp hnot
    have hstuck : Stuck s :=
      ⟨h.failed (Option.isSome_iff_ne_none.mpr hfailed), hclosing, h.room, Nat.lt_of_not_le hleft⟩
    have hclosing' := (Run.exec_invariant (I := Stuck) (fun t m ht => ht.stepped (stepped cwd t m)) ms' hstuck).closing
    rw [hreturned] at hclosing'
    cases hclosing'
  · intro hor
    have hsent : ∃ ms', Inv (Run.exec (step cwd) s ms') ∧ (Run.exec (step cwd) s ms').stopping = .closing ∧
        (Run.exec (step cwd) s ms').emitting = [] := by
      rcases hor with hnone | hleft
      · have hloop : s.loop ≠ .ended := by
          intro hended
          rcases h.ended hended with hsome | hreturned
          · exact absurd hnone (Option.isSome_iff_ne_none.mp hsome)
          · exact absurd (hclosing.symm.trans hreturned) (by simp)
        obtain ⟨ms', hinv, honward, hidle⟩ := h.exists_idle cwd hloop
        exact ⟨ms', hinv, honward.stopping.trans hclosing, hidle.emitting⟩
      · exact exists_sent hclosing hleft h
    obtain ⟨ms', hinv, hc, hemitting⟩ := hsent
    obtain ⟨ms'', hreturned⟩ := exists_returned cwd hinv hc hemitting
    refine ⟨ms' ++ ms'', ?_⟩
    rwa [Run.exec, List.foldl_append]

/-- A file and its directory are gone, the reset for the first of the two events fails, and `Stop` is called. -/
def failedReset : List Move :=
  [.tick failedTick, .send, .forward, .receive, .fire, .timeout [http], .reset (some (.lib "Reset")), .stop]

/-- `Stop` returns, as the other event has room. -/
theorem stop_returns_after_failure :
    let s := Run.exec (step none) (serving (single http ⟨oneDirectory, oneFileList⟩)) failedReset
    s.errCh ≠ none ∧ s.left = 1 ∧ ∃ ms', (Run.exec (step none) s ms').stopping = .returned := by
  have hleft : (Run.exec (step none) (serving (single http ⟨oneDirectory, oneFileList⟩)) failedReset).left = 1 := by
    decide +kernel
  refine ⟨by decide +kernel, hleft, (stop_returns_iff none _ failedReset (by decide +kernel)).mpr (.inr ?_)⟩
  rw [hleft, thresholdChanBuffer]
  omega

end RoadRunner.Reload.Serve
