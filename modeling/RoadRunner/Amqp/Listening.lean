import RoadRunner.Amqp.Redial

/-!
# What the AMQP consumer listens to

Results about `Run`, `Pause`, `Resume` and the redials (`RoadRunner.Amqp.Redial`).

* **Paused.** `Listens`: one consumer if `listeners` is 1, and else none. It is looked at while the connection is
  up and the redialer waits for its loss (`Live`). `listens_iff`: it holds in every state exactly if the steps
  meet `Keeps`. A redial consumes whatever `listeners` is, and so does a second `Run`.
* **Prefetch.** `Limited`: a channel is consumed with a `Qos` of the prefetch, and has at most that many unacked
  deliveries. `limited_iff`: this holds exactly as long as no redial gets to its `Consume`.
-/

namespace RoadRunner.Amqp.Redial

open Update

variable {cfg : Config} {s : State}

/-! ## Pause -/

/-- How many channels are consumed. -/
def State.consumers (s : State) : Nat := s.channels.countP Channel.consuming

/-- The connection is up, and every loss so far was followed by a redial. -/
structure Live (s : State) : Prop where
  running : s.halted = false
  up : s.conn = .up
  waiting : s.redialer = .enter ∨ ∃ signal, s.redialer = .select signal

/-- There is one consumer if `listeners` is 1, and else none. -/
structure Listens (s : State) : Prop where
  consumed_iff : 0 < s.consumers ↔ s.listeners = 1
  single : s.consumers ≤ 1

/-- What a step may not do: `Run` while something is consumed; `Pause` that leaves a consumer, because the
consume channel is another one or because both calls fail; and the end of a redial while paused. -/
def Keeps (cfg : Config) (s : State) : Action → Prop
  | .run p fails => cfg.pipeline = p → fails = none → Live s → s.listeners ≠ 1
  | .pause cancel close => Live s → s.listeners ≠ 0 → ∀ n ∈ s.consumeChan,
      (∃ ch ∈ s.channels[n]?, ch.consuming = true) ∧ (cancel && close) = false
  | .redial .put => s.halted = false → s.conn = .up → (∃ pch, s.redialer = .opened pch) → s.listeners = 1
  | _ => True

/-- What the phase of the redialer says about the connection and the consumers. -/
def Phase.Fits (conn : Conn) (consumers : Nat) : Phase → Prop
  | .select (some _) => conn ≠ .up
  | .trashing | .dialing => consumers = 0
  | .opened _ => conn = .up → consumers = 1
  | _ => True

/-- What holds in every run, for `listens_iff`. -/
structure Tracked (s : State) : Prop where
  circulates : Circulates s
  listeners : s.listeners = 0 ∨ s.listeners = 1
  down : s.conn ≠ .up → s.consumers = 0
  phase : s.redialer.Fits s.conn s.consumers

@[simp] theorem consumers_openChannel (ch : Channel) :
    (s.openChannel ch).consumers = s.consumers + ch.consuming.toNat := countP_concat _ _ _

theorem decrement_one {l : UInt32} (h : l = 1) : l + ~~~0 = 0 := by
  rw [h]
  decide

theorem countP_cancel (l : List Channel) : (l.map Channel.cancel).countP Channel.consuming = 0 := by
  rw [List.countP_map]
  exact List.countP_eq_zero.mpr fun _ _ => Bool.false_ne_true

theorem countP_deliver (l : List Channel) (n : Nat) :
    (l.modify n Channel.deliver).countP Channel.consuming = l.countP Channel.consuming := by
  refine countP_modify_of_eq _ (fun ch => ?_) l n
  unfold Channel.deliver
  split <;> rfl

theorem countP_settle (l : List Channel) (n : Nat) :
    (l.modify n Channel.settle).countP Channel.consuming = l.countP Channel.consuming :=
  countP_modify_of_eq Channel.consuming (f := Channel.settle) (fun _ => rfl) l n

theorem countP_modify_cancel_le (l : List Channel) (n : Nat) :
    (l.modify n Channel.cancel).countP Channel.consuming ≤ l.countP Channel.consuming := by
  cases h : l[n]? with
  | none => rw [List.modify_eq_self (List.getElem?_eq_none_iff.mp h)]
  | some ch =>
    have hcount : _ + _ = _ + 0 := countP_modify Channel.consuming h Channel.cancel
    omega

/-- Without the lock, the phase says nothing about the consumers. -/
theorem Phase.Fits.of_unlocked (hlocked : s.locked = false) {conn : Conn} {k : Nat} (h : s.redialer.Fits conn k)
    (k' : Nat) : s.redialer.Fits conn k' := by
  unfold State.locked at hlocked
  cases hr : s.redialer with
  | trashing | dialing | opened => simp [hr] at hlocked
  | select signal =>
    rw [hr] at h
    cases signal <;> exact h
  | enter | stopping | closing | returned => trivial

theorem Phase.Fits.closed (p : Phase) : p.Fits .closed 0 := by
  unfold Phase.Fits
  split <;> simp

/-- A step that changes nothing of what is tracked. -/
theorem Tracked.congr (h : Tracked s) {t : State} (hcirc : Circulates t) (hl : t.listeners = s.listeners)
    (hconn : t.conn = s.conn) (hr : t.redialer = s.redialer) (hc : t.consumers = s.consumers) : Tracked t where
  circulates := hcirc
  listeners := hl ▸ h.listeners
  down := by rw [hconn, hc]; exact h.down
  phase := by rw [hconn, hc, hr]; exact h.phase

/-- An attempt that fails consumes nothing. -/
theorem consumers_attempt (stage : Stage) : (s.attempt (some stage)).consumers = s.consumers := by
  cases stage <;> simp [State.attempt, State.consumers]

theorem Tracked.attempt (h : Tracked s) (hr : s.redialer = .dialing) (fails : Option Stage)
    (hcirc : Circulates (s.attempt fails)) : Tracked (s.attempt fails) := by
  have hzero : s.consumers = 0 := by simpa only [hr, Phase.Fits] using h.phase
  match fails with
  | none =>
    have hone : (s.attempt none).consumers = 1 := by simpa [State.attempt, State.consumers] using hzero
    exact ⟨hcirc, h.listeners, fun hdown => absurd rfl hdown, fun _ => hone⟩
  | some stage =>
    have hzero' : (s.attempt (some stage)).consumers = 0 := (consumers_attempt stage).trans hzero
    refine ⟨hcirc, ?_, fun _ => hzero', ?_⟩
    · rw [attempt_listeners]
      exact h.listeners
    · rw [attempt_redialer, hr]
      exact hzero'

theorem Tracked.step (h : Tracked s) (a : Action) (hrun : (step cfg s a).halted = false) :
    Tracked (step cfg s a) := by
  have hcirc : Circulates (Redial.step cfg s a) := h.circulates.step a
  have hphase := h.phase
  have hmoved := step_moved cfg s a
  generalize Redial.step cfg s a = s' at hmoved hrun hcirc ⊢
  cases hmoved with
  | idle => exact h
  | crashed => cases hrun
  | refused => exact h.congr hcirc rfl rfl rfl rfl
  | failed _ ch hch => exact h.congr hcirc rfl rfl rfl (by simp [hch.consuming])
  | ran hup hlocked => exact ⟨hcirc, .inr rfl, fun hdown => absurd hup hdown, hphase.of_unlocked hlocked _⟩
  | resumed hup hlocked hl =>
    rw [h.listeners.resolve_right hl] at hcirc ⊢
    exact ⟨hcirc, .inr rfl, fun hdown => absurd hup hdown, hphase.of_unlocked hlocked _⟩
  | @paused cancel close n hlocked hl hn =>
    have hdec := decrement_one (h.listeners.resolve_left hl)
    rw [hdec] at hcirc ⊢
    refine ⟨hcirc, .inl rfl, fun hdown => ?_, hphase.of_unlocked hlocked _⟩
    have hzero := h.down hdown
    have hle := countP_modify_cancel_le s.channels n
    simp only [State.consumers] at hzero ⊢
    split
    · exact hzero
    · omega
  | stopped => exact h.congr hcirc rfl rfl rfl rfl
  | lost err hup =>
    refine ⟨hcirc, h.listeners, fun _ => countP_cancel _, ?_⟩
    simp only [State.consumers, countP_cancel]
    exact Phase.Fits.closed _
  | delivered n => exact h.congr hcirc rfl rfl rfl (countP_deliver s.channels n)
  | settled n => exact h.congr hcirc rfl rfl rfl (countP_settle s.channels n)
  | used m => exact h.congr hcirc rfl rfl rfl rfl
  | watched hr =>
    refine ⟨hcirc, h.listeners, h.down, ?_⟩
    dsimp only
    split
    · trivial
    · assumption
  | noticed hr =>
    rw [hr] at hphase
    exact ⟨hcirc, h.listeners, h.down, h.down hphase⟩
  | trashed hr hslot =>
    rw [hr] at hphase
    exact ⟨hcirc, h.listeners, h.down, hphase⟩
  | attempted fails hr => exact h.attempt hr fails hcirc
  | ended | gaveUp | put | received | took => exact ⟨hcirc, h.listeners, h.down, trivial⟩
  | closed hr => exact ⟨hcirc, h.listeners, fun _ => countP_cancel _, trivial⟩

theorem Live.unlocked (h : Live s) : s.locked = false := by
  obtain hr | ⟨signal, hr⟩ := h.waiting <;> simp [State.locked, hr]

theorem Listens.congr (h : Listens s) {t : State} (hl : t.listeners = s.listeners) (hc : t.consumers = s.consumers) :
    Listens t := ⟨by rw [hl, hc]; exact h.consumed_iff, by rw [hc]; exact h.single⟩

theorem Listens.of_one (hl : s.listeners = 1) (hc : s.consumers = 1) : Listens s :=
  ⟨by simp [hl, hc], hc.le⟩

theorem Listens.of_zero (hl : s.listeners = 0) (hc : s.consumers = 0) : Listens s :=
  ⟨by simp [hl, hc], by omega⟩

theorem Listens.consumers_eq_zero (h : Listens s) (hl : s.listeners ≠ 1) : s.consumers = 0 := by
  have := mt h.consumed_iff.mp hl
  omega

theorem Listens.consumers_eq_one (h : Listens s) (hl : s.listeners = 1) : s.consumers = 1 := by
  have := h.consumed_iff.mpr hl
  have := h.single
  omega

/-- `Cancel`, or `Close`, of the one channel that is consumed. -/
theorem consumers_cancel (hone : s.consumers = 1) (n : Nat) :
    (s.channels.modify n Channel.cancel).countP Channel.consuming = 0 ↔
      ∃ ch ∈ s.channels[n]?, ch.consuming = true := by
  cases hn : s.channels[n]? with
  | none =>
    rw [List.modify_eq_self (List.getElem?_eq_none_iff.mp hn), ← State.consumers, hone]
    simp
  | some ch =>
    have hcount : (s.channels.modify n Channel.cancel).countP Channel.consuming + ch.consuming.toNat = 1 :=
      (countP_modify Channel.consuming hn Channel.cancel).trans hone
    cases hch : ch.consuming with
    | false =>
      rw [hch, Bool.toNat_false] at hcount
      exact iff_of_false (by omega) (by simp [hch])
    | true =>
      rw [hch, Bool.toNat_true] at hcount
      exact iff_of_true (by omega) ⟨ch, rfl, hch⟩

theorem consumers_subscribed (cfg : Config) (h : s.consumers = 0) :
    (s.openChannel (.subscribed cfg.prefetch)).consumers = 1 := by
  rw [consumers_openChannel, h]
  rfl

theorem Listens.step {a : Action} (ht : Tracked s) (hs : Live s → Listens s) (hkeeps : Keeps cfg s a)
    (hlive : Live (step cfg s a)) : Listens (step cfg s a) := by
  have hmoved := step_moved cfg s a
  generalize Redial.step cfg s a = s' at hmoved hlive ⊢
  obtain ⟨hrun, hup', hwaiting⟩ := hlive
  cases hmoved with
  | idle => exact hs ⟨hrun, hup', hwaiting⟩
  | crashed => cases hrun
  | refused | stopped | used => exact (hs ⟨hrun, hup', hwaiting⟩).congr rfl rfl
  | failed _ ch hch => exact (hs ⟨hrun, hup', hwaiting⟩).congr rfl (by simp [hch.consuming])
  | ran hup hlocked =>
    have hlive : Live s := ⟨hrun, hup, hwaiting⟩
    exact .of_one rfl (consumers_subscribed cfg ((hs hlive).consumers_eq_zero (hkeeps rfl rfl hlive)))
  | resumed hup hlocked hl =>
    have hzero := (hs ⟨hrun, hup, hwaiting⟩).consumers_eq_zero hl
    rw [ht.listeners.resolve_right hl]
    exact .of_one rfl (consumers_subscribed cfg hzero)
  | @paused cancel close n hlocked hl hn =>
    have hlive : Live s := ⟨hrun, hup', hwaiting⟩
    have hl1 := ht.listeners.resolve_left hl
    have hdec := decrement_one hl1
    obtain ⟨hconsuming, hcancel⟩ := hkeeps hlive hl n hn
    rw [hdec]
    refine .of_zero rfl ?_
    simp only [State.consumers, hcancel]
    exact (consumers_cancel ((hs hlive).consumers_eq_one hl1) n).mpr hconsuming
  | lost => cases hup'
  | delivered n => exact (hs ⟨hrun, hup', hwaiting⟩).congr rfl (countP_deliver s.channels n)
  | settled n => exact (hs ⟨hrun, hup', hwaiting⟩).congr rfl (countP_settle s.channels n)
  | watched hr => exact (hs ⟨hrun, hup', .inl hr⟩).congr rfl rfl
  | put hr hslot =>
    have hphase := ht.phase
    rw [hr] at hphase
    exact .of_one (hkeeps hrun hup' ⟨_, hr⟩) (hphase hup')
  | attempted fails hr =>
    -- the redialer has still to put the publish channel, or to try again
    match fails with
    | none => obtain hr' | ⟨signal, hr'⟩ := hwaiting <;> cases hr'
    | some stage =>
      rw [attempt_redialer, hr] at hwaiting
      obtain hr' | ⟨signal, hr'⟩ := hwaiting <;> cases hr'
  | noticed | ended | trashed | gaveUp | received | took | closed =>
    obtain hr' | ⟨signal, hr'⟩ := hwaiting <;> cases hr'

/-! ### Steps that are not kept -/

theorem step_run (h : Live s) :
    step cfg s (.run cfg.pipeline none) = { s.openChannel (.subscribed cfg.prefetch) with listeners := 1 } := by
  simp [step, State.run, State.consume, h.running, h.up, h.unlocked]

theorem step_pause (h : Live s) (hl : s.listeners = 1) {n : Nat} (hn : s.consumeChan = some n) (cancel close : Bool) :
    step cfg s (.pause cancel close) =
      { s with
        listeners := 0
        channels := if cancel && close then s.channels else s.channels.modify n Channel.cancel } := by
  have hdec := decrement_one hl
  simp only [step, State.pause, h.running, h.unlocked, hn, hdec]
  simp [hl]

theorem step_put (hrun : s.halted = false) {pch : Nat} (hr : s.redialer = .opened pch)
    (hslot : s.publishChan.slot = none) : step cfg s (.redial .put) = s.setSlot (some pch) .enter := by
  rw [step_redial hrun]
  simp only [State.redial, hr, hslot]

theorem Keeps.of_listens {a : Action} (ht : s.halted = false → Tracked s) (hs : Live s → Listens s)
    (hs' : Live (step cfg s a) → Listens (step cfg s a)) : Keeps cfg s a := by
  unfold Keeps
  split
  case h_1 p fails =>
    rintro rfl rfl hlive hl
    rw [step_run hlive] at hs'
    have hsingle : (s.openChannel (.subscribed cfg.prefetch)).consumers ≤ 1 :=
      (hs' ⟨hlive.running, hlive.up, hlive.waiting⟩).single
    have hone := (hs hlive).consumers_eq_one hl
    rw [consumers_openChannel, hone] at hsingle
    simp [Channel.subscribed] at hsingle
  case h_2 cancel close =>
    intro hlive hl n hn
    have hl1 := (ht hlive.running).listeners.resolve_left hl
    have hone := (hs hlive).consumers_eq_one hl1
    rw [step_pause hlive hl1 hn] at hs'
    have hzero := (hs' ⟨hlive.running, hlive.up, hlive.waiting⟩).consumers_eq_zero (by decide : (0 : UInt32) ≠ 1)
    cases hcancel : cancel && close with
    | true =>
      simp only [State.consumers, hcancel, if_true] at hzero hone
      omega
    | false =>
      simp only [State.consumers, hcancel] at hzero
      exact ⟨(consumers_cancel hone n).mp hzero, rfl⟩
  case h_3 =>
    rintro hrun hup ⟨pch, hr⟩
    have hphase := (ht hrun).phase
    rw [hr] at hphase
    rw [step_put hrun hr ((ht hrun).circulates.slot_of_opened hr)] at hs'
    have hone : 0 < (s.setSlot (some pch) .enter).consumers := (hphase hup).symm ▸ Nat.one_pos
    exact (hs' ⟨hrun, hup, .inl rfl⟩).consumed_iff.mp hone
  case h_4 => trivial

/-- For every run: while the connection is up, deliveries are consumed exactly if `listeners` is 1, and by one
consumer, exactly if every step of the run meets `Keeps`. -/
theorem listens_iff (cfg : Config) (acts : List Action) :
    (∀ pre post, acts = pre ++ post →
      Live (Run.exec (step cfg) {} pre) → Listens (Run.exec (step cfg) {} pre)) ↔
      Run.Along (step cfg) (Keeps cfg) {} acts := by
  have hinit : Tracked {} := ⟨rfl, .inl rfl, fun h => absurd rfl h, trivial⟩
  refine Run.Along.always_iff (I := fun s : State => s.halted = false → Tracked s)
    (P := fun s => Live s → Listens s) ?_ ?_ (fun _ => hinit) (fun _ => .of_zero rfl rfl)
  · intro s a ht hs hkeeps
    cases hrun : s.halted with
    | true =>
      rw [step_halted hrun]
      exact ⟨ht, hs⟩
    | false => exact ⟨(ht hrun).step a, Listens.step (ht hrun) hs hkeeps⟩
  · intro s a ht hs hs'
    exact .of_listens ht hs hs'

/-- The pipeline is paused, and then the connection is lost and restored. -/
def pausedRestored : List Action :=
  [.run [] none, .pause false false, .redial .watch, .lose true, .redial .notice, .redial .trash,
    .redial (.attempt none), .redial .put]

theorem pausedRestored_consumed :
    let s := Run.exec (step {}) {} pausedRestored
    Live s ∧ s.listeners = 0 ∧ s.consumers = 1 :=
  ⟨⟨by decide, by decide, .inl (by decide)⟩, by decide, by decide⟩

-- `Run` a second time
example : (Run.exec (step {}) {} [.run [] none, .run [] none]).consumers = 2 := by decide

/-! ## Prefetch -/

/-- On a channel that is consumed. -/
structure Channel.Limited (prefetch : Int) (ch : Channel) : Prop where
  qos : ch.consumed = true → ch.qos = some prefetch
  unacked : ch.consuming = true → ch.unacked ≤ prefetch

/-- No redial gets to its `Consume`. -/
def Unrestored (s : State) : Action → Prop
  | .redial (.attempt fails) =>
    s.halted = false → s.redialer = .dialing → fails ≠ none ∧ fails ≠ some .consume
  | _ => True

/-- What is known of every channel. -/
structure Channel.Bounded (prefetch : Int) (ch : Channel) : Prop where
  qos : ch.consumed = true → ch.qos = some prefetch
  consumed : ch.consuming = true → ch.consumed = true
  unacked : ch.unacked ≤ prefetch

namespace Channel

variable {prefetch : Int} {ch : Channel}

theorem Bounded.limited (h : ch.Bounded prefetch) : ch.Limited prefetch := ⟨h.qos, fun _ => h.unacked⟩

theorem Bounded.cancel (h : ch.Bounded prefetch) : ch.cancel.Bounded prefetch := ⟨h.qos, nofun, h.unacked⟩

theorem Bounded.settle (h : ch.Bounded prefetch) : ch.settle.Bounded prefetch := by
  have hunacked := h.unacked
  refine ⟨h.qos, h.consumed, ?_⟩
  simp only [Channel.settle]
  omega

theorem Bounded.deliver (hpos : 0 < prefetch) (hlimit : prefetch % 65536 ≠ 0) (h : ch.Bounded prefetch) :
    ch.deliver.Bounded prefetch := by
  unfold Channel.deliver
  split
  case isFalse => exact h
  case isTrue hfree =>
    rw [Bool.and_eq_true] at hfree
    have hqos := h.qos (h.consumed hfree.1)
    have hroom : prefetch % 65536 = 0 ∨ ch.unacked < prefetch % 65536 := by
      simpa [Channel.free, hqos] using hfree.2
    refine ⟨h.qos, h.consumed, ?_⟩
    dsimp only
    omega

theorem Unused.bounded (hpos : 0 < prefetch) (h : ch.Unused prefetch) : ch.Bounded prefetch where
  qos := h.qos
  consumed hc := by rw [h.consuming] at hc; cases hc
  unacked := by rw [h.unacked]; exact Int.le_of_lt hpos

theorem bounded_subscribed (hpos : 0 < prefetch) : (subscribed prefetch).Bounded prefetch :=
  ⟨fun _ => rfl, fun _ => rfl, Int.le_of_lt hpos⟩

theorem bounded_new (hpos : 0 < prefetch) : ({} : Channel).Bounded prefetch := ⟨nofun, nofun, Int.le_of_lt hpos⟩

end Channel

section

variable (hpos : 0 < cfg.prefetch)
include hpos

theorem bounded_attempt (h : ∀ ch ∈ s.channels, ch.Bounded cfg.prefetch) {fails : Option Stage}
    (hfails : fails ≠ none ∧ fails ≠ some .consume) : ∀ ch ∈ (s.attempt fails).channels, ch.Bounded cfg.prefetch := by
  match fails with
  | none => exact absurd rfl hfails.1
  | some .consume => exact absurd rfl hfails.2
  | some .publishChannel => exact forall_concat h (Channel.bounded_new hpos)
  | some .dial | some .init | some .consumeChannel => exact h

theorem bounded_step (hlimit : cfg.prefetch % 65536 ≠ 0) (h : ∀ ch ∈ s.channels, ch.Bounded cfg.prefetch) {a : Action}
    (ha : Unrestored s a) : ∀ ch ∈ (step cfg s a).channels, ch.Bounded cfg.prefetch := by
  cases hrun : s.halted with
  | true => rwa [step_halted hrun]
  | false =>
    have hcancel : ∀ ch ∈ s.channels.map Channel.cancel, ch.Bounded cfg.prefetch := by
      intro ch hch
      obtain ⟨ch, hmem, rfl⟩ := List.mem_map.mp hch
      exact (h ch hmem).cancel
    have hmoved := step_moved cfg s a
    generalize step cfg s a = s' at hmoved ⊢
    cases hmoved with
    | failed _ ch hch => exact forall_concat h (hch.bounded hpos)
    | ran | resumed => exact forall_concat h (Channel.bounded_subscribed hpos)
    | @paused cancel close n =>
      dsimp only
      split
      · exact h
      · exact forall_modify h (fun _ hch => hch.cancel) n
    | lost | closed => exact hcancel
    | delivered n => exact forall_modify h (fun _ hch => hch.deliver hpos hlimit) n
    | settled n => exact forall_modify h (fun _ hch => hch.settle) n
    | attempted fails hr => exact bounded_attempt hpos h (ha hrun hr)
    | idle | crashed | refused | stopped | used | watched | noticed | ended | trashed | gaveUp | put | received |
      took => exact h

end

/-- The redial consumes without a limit. -/
theorem Unrestored.of_limited {a : Action} (h : ∀ ch ∈ (step cfg s a).channels, ch.Limited cfg.prefetch) :
    Unrestored s a := by
  unfold Unrestored
  split
  case h_2 => trivial
  case h_1 fails =>
    intro hrun hr
    rw [step_redial hrun] at h
    simp only [State.redial, if_pos hr] at h
    constructor
    · rintro rfl
      have hqos := (h { consumed := true, consuming := true } (by simp [State.attempt])).qos rfl
      cases hqos
    · rintro rfl
      have hqos := (h { consumed := true } (by simp [State.attempt])).qos rfl
      cases hqos

/-- For every run, with a prefetch that is a limit as a `uint16`: every channel is consumed with a `Qos` of the
prefetch, and has at most that many unacked deliveries, exactly if no redial gets to its `Consume`. -/
theorem limited_iff (cfg : Config) (hpos : 0 < cfg.prefetch) (hlimit : cfg.prefetch % 65536 ≠ 0)
    (acts : List Action) :
    (∀ pre post, acts = pre ++ post → ∀ ch ∈ (Run.exec (step cfg) {} pre).channels, ch.Limited cfg.prefetch) ↔
      Run.Along (step cfg) Unrestored {} acts := by
  have hinit : ∀ ch ∈ ({} : State).channels, ch.Bounded cfg.prefetch :=
    List.forall_mem_singleton.mpr (Channel.bounded_new hpos)
  refine Run.Along.always_iff (I := fun s : State => ∀ ch ∈ s.channels, ch.Bounded cfg.prefetch)
    (P := fun s : State => ∀ ch ∈ s.channels, ch.Limited cfg.prefetch) ?_ ?_ hinit
    (fun ch hch => (hinit ch hch).limited)
  · intro s a hs _ ha
    have hs' := bounded_step hpos hlimit hs ha
    exact ⟨hs', fun ch hch => (hs' ch hch).limited⟩
  · intro s a _ _ hs'
    exact .of_limited hs'

instance (s : State) : ∀ a, Decidable (Unrestored s a)
  | .redial (.attempt _) => inferInstanceAs (Decidable (_ → _))
  | .run _ _ | .pause _ _ | .resume _ | .stop | .lose _ | .deliver _ | .settle _ | .user _ | .redial .watch |
    .redial .notice | .redial .trash | .redial .giveUp | .redial .put | .redial .receive | .redial .take |
    .redial .close => inferInstanceAs (Decidable True)

/-- More deliveries than the limit, of which one is settled. -/
def busy : List Action := .run [] none :: List.replicate 12 (.deliver 1) ++ [.settle 1]

theorem busy_limited :
    (0 < ({} : Config).prefetch ∧ ({} : Config).prefetch % 65536 ≠ 0) ∧
      ∀ pre post, busy = pre ++ post →
        ∀ ch ∈ (Run.exec (step {}) {} pre).channels, ch.Limited ({} : Config).prefetch :=
  ⟨by decide, (limited_iff {} (by decide) (by decide) busy).mpr (by decide)⟩

/-- The connection is lost and restored, and 11 messages are delivered. -/
def flooded : List Action :=
  [.run [] none, .redial .watch, .lose true, .redial .notice, .redial .trash, .redial (.attempt none), .redial .put] ++
    List.replicate 11 (.deliver 2)

theorem flooded_unlimited :
    ({ consumed := true, consuming := true, unacked := 11 } : Channel) ∈ (Run.exec (step {}) {} flooded).channels ∧
      ({} : Config).prefetch = 10 := by
  decide

end RoadRunner.Amqp.Redial
