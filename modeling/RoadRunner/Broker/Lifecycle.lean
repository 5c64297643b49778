import RoadRunner.Jobs.Lifecycle

/-!
# Listeners that are stopped through a buffered channel

The model of `Run`, `Pause`, `Resume` and `Stop` of `sqs/sqsjobs` and `beanstalk/beanstalkjobs`, for the name of the
registered pipeline. A call reads `listeners`, may return at once, and otherwise has a list of atomic steps left. The
send on `pauseCh` (sqs) or `stopCh` (beanstalk) waits only while the channel is full. A goroutine that listens receives
between two requests, and ends then: a call can return before, and what it has sent may end another listener than the
one it was meant for.

* `Ok`: the listeners that are left when they have received what was sent are as many as `listeners` says, less the
  one that `Stop` has ended.
* `buffered_sound_iff`: the calls return and leave an `Ok` state exactly if the run is `Exclusive`.
* `listeners_counted`: in every run, exclusive or not, `listeners` counts modulo `2 ^ 32`.
-/

namespace RoadRunner.Broker.Lifecycle

open Calls Update
open Jobs.Lifecycle (listeners_eq_one listeners_eq_zero)

/-- The two consumers. -/
inductive Driver where
  | sqs
  | beanstalk
  deriving DecidableEq

/-- A consumer: the counter, the listeners and the stop channel. -/
structure Consumer where
  listeners : UInt32 := 0
  /-- The goroutines that run `listen`. -/
  goroutines : Nat := 0
  /-- What has been sent on the channel and not been received. -/
  sent : Nat := 0
  /-- The calls of `Stop` that have gone on. -/
  stops : Nat := 0
  deriving DecidableEq

/-- A listener receives and returns. -/
def Consumer.receive (c : Consumer) : Consumer :=
  if 0 < c.goroutines ∧ 0 < c.sent then { c with goroutines := c.goroutines - 1, sent := c.sent - 1 } else c

/-- One step of a call. -/
inductive Instr where
  /-- `atomic.AddUint32(&c.listeners, 1)`. -/
  | inc
  /-- `atomic.AddUint32(&c.listeners, ^uint32(0))`. -/
  | dec
  /-- `go c.listen()`. -/
  | start
  /-- `c.pauseCh <- struct{}{}`, or the same on `stopCh`. -/
  | send
  deriving DecidableEq

/-- `Pause`, `Resume` and `Stop`. -/
inductive Call where
  | pause
  | resume
  | stop
  deriving DecidableEq

namespace Driver

/-- The capacity of the channel. -/
def capacity : Driver → Nat
  | sqs => 1
  | beanstalk => 2

/-- One step. A send waits for room in the channel. -/
def act (d : Driver) (c : Consumer) : Instr → Unit → Option Consumer
  | .inc, _ => some { c with listeners := c.listeners + 1 }
  | .dec, _ => some { c with listeners := c.listeners + ~~~0 }
  | .start, _ => some { c with goroutines := c.goroutines + 1 }
  | .send, _ => if c.sent < d.capacity then some { c with sent := c.sent + 1 } else none

/-- `Run`. -/
def run : List Instr := [.inc, .start]

/-- The test at the start of the call. -/
def GoesOn (d : Driver) (c : Consumer) : Call → Prop
  | .pause => c.listeners ≠ 0
  | .resume => c.listeners ≠ 1
  | .stop =>
    match d with
    | sqs => 0 < c.listeners
    | beanstalk => c.listeners = 1

instance (d : Driver) (c : Consumer) : ∀ call, Decidable (d.GoesOn c call)
  | .pause => inferInstanceAs (Decidable (_ ≠ _))
  | .resume => inferInstanceAs (Decidable (_ ≠ _))
  | .stop =>
    match d with
    | sqs => inferInstanceAs (Decidable (_ < _))
    | beanstalk => inferInstanceAs (Decidable (_ = _))

/-- What a call that goes on does. -/
def steps : Call → List Instr
  | .pause => [.dec, .send]
  | .resume => [.start, .inc]
  | .stop => [.send]

end Driver

/-- A `Stop` that goes on is counted. -/
def Consumer.counted (c : Consumer) : Call → Consumer
  | .stop => { c with stops := c.stops + 1 }
  | _ => c

/-- What happens without a new call. -/
inductive Act where
  | next (n : Nat)
  | receive
  deriving DecidableEq

/-- A call begins, or something goes on. -/
inductive Move where
  | call (call : Call)
  | act (a : Act)
  deriving DecidableEq

namespace Driver

variable (d : Driver)

/-- The consumer as a system of calls. -/
def system : System Consumer Call Instr Unit where
  start c call := if d.GoesOn c call then (c.counted call, steps call) else (c, [])
  act := d.act

/-- A call goes on, or a listener receives its stop token. -/
def go (s : State Consumer Instr) : Act → State Consumer Instr
  | .next n => d.system.next s n ()
  | .receive => { s with shared := s.shared.receive }

/-- One move. -/
def step (s : State Consumer Instr) : Move → State Consumer Instr
  | .call call => d.system.step s (.start call)
  | .act a => d.go s a

/-- A consumer after `Run`. -/
def running : State Consumer Instr := ⟨run.foldl (fun c e => (d.act c e ()).getD c) {}, []⟩

end Driver

/-- The counter is right, and each stop token finds a listener. -/
structure Ok (c : Consumer) : Prop where
  le : c.listeners.toNat ≤ 1
  /-- Everything that was sent is received. -/
  received : c.sent ≤ c.goroutines
  left : c.goroutines + c.stops = c.sent + c.listeners.toNat

/-- The calls in progress can return, and whenever they have, the consumer is `Ok`. -/
structure Driver.Sound (d : Driver) (s : State Consumer Instr) : Prop where
  returns : ∃ as, (Run.exec d.go s as).Quiet
  ok : ∀ as, (Run.exec d.go s as).Quiet → Ok (Run.exec d.go s as).shared

namespace Instr

/-- How often a step counts up. -/
def incs : Instr → Nat
  | .inc => 1
  | _ => 0

/-- How often a step counts down. -/
def decs : Instr → Nat
  | .dec => 1
  | _ => 0

/-- 1 if the instruction changes `listeners`. -/
def changes (e : Instr) : Nat := e.incs + e.decs

/-- How many listeners there are more, once all that was sent is received. -/
def left : Instr → Int
  | .start => 1
  | .send => -1
  | _ => 0

end Instr

/-- A call goes on only if no call in progress has still to change `listeners`, and no `Stop` has gone on. -/
def Driver.Exclusive (d : Driver) (s : State Consumer Instr) : Move → Prop
  | .call call => d.GoesOn s.shared call → pending Instr.changes s.calls = 0 ∧ s.shared.stops = 0
  | .act _ => True

/-! ## How many listeners are left -/

/-- The listeners that will be left. -/
def Consumer.left (c : Consumer) : Int := c.goroutines - c.sent

/-- The listeners that are left when the calls have returned and all that was sent is received. -/
def left (s : State Consumer Instr) : Int := total Consumer.left Instr.left s

@[simp] theorem receive_listeners (c : Consumer) : c.receive.listeners = c.listeners := by
  unfold Consumer.receive
  split <;> rfl

@[simp] theorem receive_stops (c : Consumer) : c.receive.stops = c.stops := by
  unfold Consumer.receive
  split <;> rfl

@[simp] theorem receive_left (c : Consumer) : c.receive.left = c.left := by
  unfold Consumer.receive Consumer.left
  split
  · simp only
    omega
  · rfl

@[simp] theorem counted_listeners (c : Consumer) (call : Call) : (c.counted call).listeners = c.listeners := by
  cases call <;> rfl

@[simp] theorem counted_left (c : Consumer) (call : Call) : (c.counted call).left = c.left := by
  cases call <;> rfl

variable {d : Driver} {s : State Consumer Instr}

/-- What a step can do. -/
inductive Acted (d : Driver) (c : Consumer) : Instr → Consumer → Prop where
  | inc : Acted d c .inc { c with listeners := c.listeners + 1 }
  | dec : Acted d c .dec { c with listeners := c.listeners + ~~~0 }
  | start : Acted d c .start { c with goroutines := c.goroutines + 1 }
  | send (hroom : c.sent < d.capacity) : Acted d c .send { c with sent := c.sent + 1 }

theorem acted {c c' : Consumer} {e : Instr} {k : Unit} (h : d.system.act c e k = some c') : Acted d c e c' := by
  cases e with
  | inc =>
    obtain rfl := Option.some.inj h
    exact .inc
  | dec =>
    obtain rfl := Option.some.inj h
    exact .dec
  | start =>
    obtain rfl := Option.some.inj h
    exact .start
  | send =>
    obtain ⟨hroom, hc⟩ := Option.ite_none_right_eq_some.mp h
    obtain rfl := Option.some.inj hc
    exact .send hroom

theorem act_left {c c' : Consumer} {e : Instr} {k : Unit} (h : d.system.act c e k = some c') :
    c'.left = c.left + e.left := by
  cases acted h <;> simp only [Consumer.left, Instr.left] <;> omega

theorem left_go (a : Act) : left (d.go s a) = left s := by
  cases a with
  | next n => exact total_next (fun _ _ _ _ h => act_left h) s n ()
  | receive => simp [left, total, Driver.go]

theorem left_exec (as : List Act) : left (Run.exec d.go s as) = left s :=
  Run.exec_invariant (I := fun t => left t = left s) (fun _ a ht => (left_go a).trans ht) as rfl

/-- A call that returns at once. -/
theorem step_returns {call : Call} (hgo : ¬ d.GoesOn s.shared call) :
    d.step s (.call call) = ⟨s.shared, s.calls ++ [[]]⟩ := by
  simp only [Driver.step, System.step, Driver.system, if_neg hgo]

theorem step_goesOn {call : Call} (hgo : d.GoesOn s.shared call) :
    d.step s (.call call) = ⟨s.shared.counted call, s.calls ++ [Driver.steps call]⟩ := by
  simp only [Driver.step, System.step, Driver.system, if_pos hgo]

theorem left_goesOn {call : Call} (hgo : d.GoesOn s.shared call) :
    left (d.step s (.call call)) = left s + weight Instr.left (Driver.steps call) := by
  simp only [step_goesOn hgo, left, total, counted_left, pending_concat, add_assoc]

/-- `Stop` goes on in the same states of both drivers, if there is one listener at most. -/
theorem goesOn_stop {c : Consumer} (hle : c.listeners.toNat ≤ 1) (hgo : d.GoesOn c .stop) : c.listeners = 1 := by
  cases d with
  | sqs => exact listeners_eq_one hle (UInt32.pos_iff_ne_zero.mp hgo)
  | beanstalk => exact hgo

/-! ## The calls against `listeners` -/

/-- What a call can have left. -/
inductive Shape : List Instr → Prop where
  | returned : Shape []
  | pausing : Shape [.dec, .send]
  | sending : Shape [.send]
  | resuming : Shape [.start, .inc]
  | counting : Shape [.inc]

/-- `listeners` against the calls that have still to change it. -/
inductive Phase (s : State Consumer Instr) : Prop where
  | settled (hincs : pending Instr.incs s.calls = 0) (hdecs : pending Instr.decs s.calls = 0)
      (hle : s.shared.listeners.toNat ≤ 1) (hnonneg : 0 ≤ left s)
      (hleft : left s + s.shared.stops = s.shared.listeners.toNat)
  | pausing (hincs : pending Instr.incs s.calls = 0) (hdecs : pending Instr.decs s.calls = 1)
      (hl : s.shared.listeners = 1) (hleft : left s = 0) (hstops : s.shared.stops = 0)
  | resuming (hincs : pending Instr.incs s.calls = 1) (hdecs : pending Instr.decs s.calls = 0)
      (hl : s.shared.listeners = 0) (hleft : left s = 1) (hstops : s.shared.stops = 0)

/-- What holds if no two calls overlap. -/
structure Inv (s : State Consumer Instr) : Prop where
  shape : ∀ es ∈ s.calls, Shape es
  phase : Phase s

theorem pending_changes (calls : List (List Instr)) :
    pending Instr.changes calls = pending Instr.incs calls + pending Instr.decs calls :=
  pending_add Instr.decs Instr.incs calls

theorem Phase.nonneg (h : Phase s) : 0 ≤ left s := by
  cases h with
  | settled _ _ _ hnonneg => exact hnonneg
  | pausing _ _ _ hleft => omega
  | resuming _ _ _ hleft => omega

/-- A step that does not change `listeners`. -/
theorem Phase.of_eq {s' : State Consumer Instr} (h : Phase s) (hl : s'.shared.listeners = s.shared.listeners)
    (hstops : s'.shared.stops = s.shared.stops) (hincs : pending Instr.incs s'.calls = pending Instr.incs s.calls)
    (hdecs : pending Instr.decs s'.calls = pending Instr.decs s.calls) (hleft : left s' = left s) : Phase s' := by
  cases h with
  | settled hi hd hle hn h =>
    exact .settled (hincs.trans hi) (hdecs.trans hd) (hl ▸ hle) (hleft ▸ hn) (by rw [hleft, hstops, hl, h])
  | pausing hi hd h₁ h h₀ =>
    exact .pausing (hincs.trans hi) (hdecs.trans hd) (hl.trans h₁) (hleft.trans h) (hstops.trans h₀)
  | resuming hi hd h₁ h h₀ =>
    exact .resuming (hincs.trans hi) (hdecs.trans hd) (hl.trans h₁) (hleft.trans h) (hstops.trans h₀)

theorem Inv.next (h : Inv s) (n : Nat) : Inv (d.system.next s n ()) := by
  have hleft : left (d.system.next s n ()) = left s := left_go (.next n)
  have hnext := next_next d.system s n ()
  generalize d.system.next s n () = s' at hnext hleft ⊢
  cases hnext with
  | idle => exact h
  | @acted e es c hn hact =>
    have hincs := pending_set_tail (w := Instr.incs) hn
    have hdecs := pending_set_tail (w := Instr.decs) hn
    have hphase := h.phase
    have hshape := h.shape _ (List.mem_of_getElem? hn)
    cases hshape with
    | pausing =>
      obtain - | - := acted hact
      simp only [Instr.incs, Instr.decs] at hincs hdecs
      cases hphase with
      | settled _ hd => omega
      | resuming _ hd => omega
      | pausing hi hd hl hzero hstops =>
        have hdec : s.shared.listeners + ~~~0 = 0 := by rw [hl]; decide
        have hincs' : pending Instr.incs (s.calls.set n [.send]) = 0 := by omega
        have hdecs' : pending Instr.decs (s.calls.set n [.send]) = 0 := by omega
        rw [hdec] at hleft ⊢
        exact ⟨forall_set h.shape n .sending,
          .settled hincs' hdecs' (Nat.zero_le 1) (hleft.trans hzero).ge (by rw [hleft]; simp [hzero, hstops])⟩
    | sending =>
      obtain - | - | - | - := acted hact
      refine ⟨forall_set h.shape n .returned, hphase.of_eq rfl rfl ?_ ?_ hleft⟩
      · simpa [Instr.incs] using hincs
      · simpa [Instr.decs] using hdecs
    | resuming =>
      obtain - | - | - | - := acted hact
      refine ⟨forall_set h.shape n .counting, hphase.of_eq rfl rfl ?_ ?_ hleft⟩
      · simpa [Instr.incs] using hincs
      · simpa [Instr.decs] using hdecs
    | counting =>
      obtain - | - := acted hact
      simp only [Instr.incs, Instr.decs] at hincs hdecs
      cases hphase with
      | settled hi => omega
      | pausing hi => omega
      | resuming hi hd hl hone hstops =>
        have hinc : s.shared.listeners + 1 = 1 := by rw [hl]; decide
        have hincs' : pending Instr.incs (s.calls.set n []) = 0 := by omega
        have hdecs' : pending Instr.decs (s.calls.set n []) = 0 := by omega
        rw [hinc] at hleft ⊢
        exact ⟨forall_set h.shape n .returned,
          .settled hincs' hdecs' (Nat.le_refl 1) (by rw [hleft, hone]; decide) (by rw [hleft]; simp [hone, hstops])⟩

theorem Inv.go (h : Inv s) (a : Act) : Inv (d.go s a) := by
  cases a with
  | next n => exact h.next n
  | receive =>
    exact ⟨h.shape, h.phase.of_eq (receive_listeners _) (receive_stops _) rfl rfl (left_go (d := d) .receive)⟩

theorem Driver.capacity_pos (d : Driver) : 0 < d.capacity := by
  cases d <;> decide

/-- A call that has more to do than to send can go on. -/
theorem Shape.exists_act {e : Instr} {es : List Instr} (h : Shape (e :: es)) (hsend : e :: es ≠ [.send])
    (c : Consumer) : ∃ c', d.act c e () = some c' ∧ c'.sent = c.sent := by
  cases h with
  | pausing => exact ⟨_, rfl, rfl⟩
  | sending => exact absurd rfl hsend
  | resuming => exact ⟨_, rfl, rfl⟩
  | counting => exact ⟨_, rfl, rfl⟩

/-- How far the calls are from having returned: what is sent may have to be received first. -/
def distance (s : State Consumer Instr) : Nat := 2 * pending (fun _ => 1) s.calls + s.shared.sent

theorem distance_next {n : Nat} {e : Instr} {es : List Instr} {c : Consumer} (hn : s.calls[n]? = some (e :: es))
    (hact : d.act s.shared e () = some c) (hsent : c.sent ≤ s.shared.sent + 1) :
    distance (d.go s (.next n)) < distance s := by
  have hstep : d.go s (.next n) = ⟨c, s.calls.set n es⟩ := by
    simp only [Driver.go, System.next, hn, Driver.system, hact]
  have htail := pending_set_tail (w := fun _ => 1) hn
  simp only [hstep, distance]
  omega

theorem Inv.progress (h : Inv s) (hquiet : ¬ s.Quiet) : ∃ a, distance (d.go s a) < distance s := by
  by_cases hfree : ∃ es ∈ s.calls, es ≠ [] ∧ es ≠ [.send]
  · obtain ⟨es, hmem, hne, hsend⟩ := hfree
    obtain ⟨n, hn⟩ := List.getElem?_of_mem hmem
    obtain ⟨e, es, rfl⟩ := List.exists_cons_of_ne_nil hne
    obtain ⟨c, hact, hsent⟩ := (h.shape _ hmem).exists_act hsend s.shared
    exact ⟨.next n, distance_next hn hact (by omega)⟩
  · -- only sends are left, and there are more listeners than what was sent
    have hsends : ∀ es ∈ s.calls, es = [] ∨ es = [.send] := by
      intro es hes
      by_contra hnot
      exact hfree ⟨es, hes, fun he => hnot (.inl he), fun he => hnot (.inr he)⟩
    obtain ⟨es, hes, hne⟩ : ∃ es ∈ s.calls, es ≠ [] := by simpa [State.Quiet] using hquiet
    obtain rfl := (hsends es hes).resolve_left hne
    obtain ⟨n, hn⟩ := List.getElem?_of_mem hes
    by_cases hroom : s.shared.sent < d.capacity
    · exact ⟨.next n, distance_next hn (if_pos hroom) (Nat.le_refl _)⟩
    · have hweight : ∀ es ∈ s.calls, weight Instr.left es ≤ 0 := by
        intro es hes
        rcases hsends es hes with rfl | rfl <;> decide
      have hpending : pending Instr.left s.calls ≤ -1 := pending_le_weight hweight hes
      have hnonneg := h.phase.nonneg
      have hpos := d.capacity_pos
      have hgoroutines : 0 < s.shared.goroutines := by
        rw [left, total, Consumer.left] at hnonneg
        omega
      refine ⟨.receive, ?_⟩
      rw [distance, distance, Driver.go, Consumer.receive, if_pos ⟨hgoroutines, by omega⟩]
      simp only
      omega

theorem Inv.ok (h : Inv s) (hquiet : s.Quiet) : Ok s.shared := by
  have hleft : left s = s.shared.goroutines - s.shared.sent := total_of_quiet hquiet
  have hincs : pending Instr.incs s.calls = 0 := pending_of_quiet hquiet
  have hdecs : pending Instr.decs s.calls = 0 := pending_of_quiet hquiet
  cases h.phase with
  | settled _ _ hle hn hl => exact ⟨hle, by omega, by omega⟩
  | pausing _ hd => omega
  | resuming hi => omega

theorem Inv.sound (h : Inv s) : d.Sound s where
  returns := by
    have hfewer : ∀ s, Inv s → ¬ s.Quiet → ∃ a, Inv (d.go s a) ∧ distance (d.go s a) < distance s :=
      fun s hs hq => (hs.progress hq).imp fun a ha => ⟨hs.go a, ha⟩
    obtain ⟨as, -, hquiet⟩ := Run.exists_drain State.Quiet distance hfewer h
    exact ⟨as, hquiet⟩
  ok as hquiet := (Run.exec_invariant (I := Inv) (fun _ a ht => ht.go a) as h).ok hquiet

theorem Inv.call (h : Inv s) {call : Call} (hex : d.Exclusive s (.call call)) : Inv (d.step s (.call call)) := by
  by_cases hgo : d.GoesOn s.shared call
  · obtain ⟨hchanges, hstops⟩ := hex hgo
    rw [pending_changes] at hchanges
    have hleft := left_goesOn hgo
    rw [step_goesOn hgo] at hleft ⊢
    cases h.phase with
    | pausing _ hd => omega
    | resuming hi => omega
    | settled hi hd hle hn hl =>
      have hincs := pending_concat Instr.incs s.calls (Driver.steps call)
      have hdecs := pending_concat Instr.decs s.calls (Driver.steps call)
      rw [hi] at hincs
      rw [hd] at hdecs
      rw [hstops] at hl
      cases call with
      | pause =>
        have hone := listeners_eq_one hle hgo
        have hleft' : left s = 1 := by simpa [hone] using hl
        rw [hleft'] at hleft
        exact ⟨forall_concat h.shape .pausing, .pausing hincs hdecs hone hleft hstops⟩
      | resume =>
        have hzero := listeners_eq_zero hle hgo
        have hleft' : left s = 0 := by simpa [hzero] using hl
        rw [hleft'] at hleft
        exact ⟨forall_concat h.shape .resuming, .resuming hincs hdecs hzero hleft hstops⟩
      | stop =>
        have hone := goesOn_stop hle hgo
        have hleft' : left s = 1 := by simpa [hone] using hl
        rw [hleft'] at hleft
        have hcounted : (s.shared.counted .stop).stops = 1 := congrArg (· + 1) hstops
        exact ⟨forall_concat h.shape .sending,
          .settled hincs hdecs hle hleft.ge (by rw [hleft, hcounted, counted_listeners, hone, UInt32.toNat_one]; rfl)⟩
  · rw [step_returns hgo]
    refine ⟨forall_concat h.shape .returned, h.phase.of_eq rfl rfl ?_ ?_ ?_⟩
    · simp
    · simp
    · simp [left, total]

/-! ## Calls that are not exclusive -/

theorem Acted.stops {c c' : Consumer} {e : Instr} (h : Acted d c e c') : c'.stops = c.stops := by
  cases h <;> rfl

theorem go_stops (a : Act) : (d.go s a).shared.stops = s.shared.stops := by
  cases a with
  | next n =>
    have hnext := next_next d.system s n ()
    change (d.system.next s n ()).shared.stops = _
    generalize d.system.next s n () = s' at hnext ⊢
    cases hnext with
    | idle => rfl
    | acted hn hact => exact (acted hact).stops
  | receive => exact receive_stops s.shared

/-- The listeners that are left in a sound state. -/
theorem Driver.Sound.bounds (h : d.Sound s) : 0 ≤ left s ∧ left s + s.shared.stops ≤ 1 := by
  obtain ⟨as, hquiet⟩ := h.returns
  obtain ⟨hle, hreceived, hleft⟩ := h.ok as hquiet
  have hstops : (Run.exec d.go s as).shared.stops = s.shared.stops :=
    Run.exec_invariant (I := fun t : State Consumer Instr => t.shared.stops = s.shared.stops)
      (fun _ a ht => (go_stops a).trans ht) as rfl
  have heq : left s = (Run.exec d.go s as).shared.left := (left_exec as).symm.trans (total_of_quiet hquiet)
  rw [Consumer.left] at heq
  omega

/-- A second `Pause` or `Stop` sends what no listener receives, and a second `Resume` starts one listener too many. -/
theorem Inv.exclusive_of_sound (h : Inv s) {call : Call} (hsound : d.Sound (d.step s (.call call))) :
    d.Exclusive s (.call call) := by
  intro hgo
  have hbounds := hsound.bounds
  rw [left_goesOn hgo, step_goesOn hgo] at hbounds
  rw [pending_changes]
  cases h.phase with
  | settled hi hd hle hn hl =>
    refine ⟨by omega, ?_⟩
    cases call with
    | pause =>
      have hweight : weight Instr.left (Driver.steps .pause) = -1 := rfl
      omega
    | resume =>
      rw [listeners_eq_zero hle hgo, UInt32.toNat_zero] at hl
      omega
    | stop =>
      have hweight : weight Instr.left (Driver.steps .stop) = -1 := rfl
      omega
  | pausing _ _ hl hleft =>
    cases call with
    | pause =>
      have hweight : weight Instr.left (Driver.steps .pause) = -1 := rfl
      omega
    | resume => exact absurd hl hgo
    | stop =>
      have hweight : weight Instr.left (Driver.steps .stop) = -1 := rfl
      omega
  | resuming _ _ hl hleft hstops =>
    cases call with
    | pause => exact absurd hl hgo
    | resume =>
      have hweight : weight Instr.left (Driver.steps .resume) = 1 := rfl
      omega
    | stop =>
      have hone := goesOn_stop (by rw [hl]; decide) hgo
      exact absurd (hl.symm.trans hone) (by decide)

theorem Driver.running_eq (d : Driver) : d.running = ⟨{ listeners := 1, goroutines := 1 }, []⟩ := by
  cases d <;> decide

theorem Driver.running_inv (d : Driver) : Inv d.running := by
  rw [d.running_eq]
  refine ⟨fun es hes => by simp at hes, .settled rfl rfl ?_ ?_ ?_⟩
  · simp
  · simp [left, total, pending, Consumer.left]
  · simp [left, total, pending, Consumer.left]

/-- **Pause, Resume and Stop.** In every state of a run from a running consumer, the calls in progress can return, and
when they have, one listener is left if `listeners` is 1 and no `Stop` has gone on, none is left otherwise, and a
listener receives everything that was sent, if and only if no call goes on while another one has still to change
`listeners`, or after a `Stop` that has gone on. -/
theorem buffered_sound_iff (d : Driver) (ms : List Move) :
    (∀ pre post, ms = pre ++ post → d.Sound (Run.exec d.step d.running pre)) ↔
      Run.Along d.step d.Exclusive d.running ms := by
  refine Run.Along.always_iff (I := Inv) ?_ ?_ d.running_inv d.running_inv.sound
  · intro s m hs _ hex
    have hs' : Inv (d.step s m) := by
      cases m with
      | call call => exact hs.call hex
      | act a => exact hs.go a
    exact ⟨hs', hs'.sound⟩
  · intro s m hs _ hs'
    cases m with
    | call call => exact hs.exclusive_of_sound hs'
    | act a => trivial

/-! ## What `listeners` counts -/

/-- How the instruction changes `listeners`, and what it changes by the same. -/
def Instr.drift (e : Instr) : ZMod (2 ^ 32) := e.left - (e.incs - e.decs)

/-- What there is too much of listeners. -/
def Consumer.drift (c : Consumer) : ZMod (2 ^ 32) := c.left + c.stops - c.listeners.toNat

theorem toNat_add_cast (a b : UInt32) : ((a + b).toNat : ZMod (2 ^ 32)) = a.toNat + b.toNat := by
  rw [UInt32.toNat_add, ZMod.natCast_mod, Nat.cast_add]

theorem toNat_not_zero_cast : ((~~~0 : UInt32).toNat : ZMod (2 ^ 32)) = -1 := by
  have hsum : (~~~0 + 1 : UInt32).toNat = 0 := by decide
  have hcast := toNat_add_cast (~~~0) 1
  rw [hsum, UInt32.toNat_one, Nat.cast_zero, Nat.cast_one] at hcast
  exact eq_neg_of_add_eq_zero_left hcast.symm

theorem act_drift {c c' : Consumer} {e : Instr} {k : Unit} (h : d.system.act c e k = some c') :
    c'.drift = c.drift + e.drift := by
  have hleft := act_left h
  unfold Consumer.drift Instr.drift
  rw [hleft]
  cases acted h <;> simp only [toNat_add_cast, toNat_not_zero_cast, UInt32.toNat_one, Instr.incs, Instr.decs] <;>
    push_cast <;> ring

theorem drift_step (m : Move) : total Consumer.drift Instr.drift (d.step s m) = total Consumer.drift Instr.drift s := by
  cases m with
  | call call =>
    by_cases hgo : d.GoesOn s.shared call
    · have hsteps : (s.shared.counted call).drift + weight Instr.drift (Driver.steps call) = s.shared.drift := by
        cases call <;>
          simp only [Consumer.drift, Consumer.counted, Consumer.left, Driver.steps, weight_cons, weight_nil,
            Instr.drift, Instr.left, Instr.incs, Instr.decs] <;> push_cast <;> ring
      rw [step_goesOn hgo, total, total, pending_concat, ← hsteps]
      ring
    · rw [step_returns hgo, total, total, pending_concat, weight_nil, add_zero]
  | act a =>
    cases a with
    | next n => exact total_next (fun _ _ _ _ h => act_drift h) s n ()
    | receive => simp [total, Driver.step, Driver.go, Consumer.drift]

/-- **What `listeners` counts.** Whatever calls are made, and however their steps and the listeners interleave: when
the calls have returned, `listeners` is, modulo `2 ^ 32`, the number of goroutines that listen, less what was sent to
end them, and with the calls of `Stop`. -/
theorem listeners_counted (d : Driver) (ms : List Move) :
    let s := Run.exec d.step d.running ms
    s.Quiet → (s.shared.listeners.toNat : ZMod (2 ^ 32)) + s.shared.sent = s.shared.goroutines + s.shared.stops := by
  intro s hquiet
  have hrunning : total Consumer.drift Instr.drift d.running = 0 := by
    simp [d.running_eq, total, pending, Consumer.drift, Consumer.left]
  have htotal : total Consumer.drift Instr.drift s = 0 :=
    Run.exec_invariant (I := fun t => total Consumer.drift Instr.drift t = 0)
      (fun _ m ht => (drift_step m).trans ht) ms hrunning
  rw [total_of_quiet hquiet, Consumer.drift, Consumer.left] at htotal
  push_cast at htotal
  linear_combination -htotal

/-- Two calls of `Pause` run side by side: both have passed the test before one of them goes on. -/
def pausedTwice : List Move :=
  [.call .pause, .call .pause, .act (.next 0), .act (.next 1), .act (.next 0), .act .receive, .act (.next 1)]

/-- When they have returned, `listeners` has passed 0, and a second signal waits for the next listener. -/
theorem listeners_counted_paused :
    let s := Run.exec (Driver.step .sqs) Driver.sqs.running pausedTwice
    s.shared = ⟨4294967295, 0, 1, 0⟩ ∧
      (s.shared.listeners.toNat : ZMod (2 ^ 32)) + s.shared.sent = s.shared.goroutines + s.shared.stops :=
  ⟨by decide +kernel, listeners_counted .sqs pausedTwice (by decide +kernel)⟩

end RoadRunner.Broker.Lifecycle
