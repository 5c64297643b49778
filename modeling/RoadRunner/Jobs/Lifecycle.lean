import RoadRunner.Lib.Calls
import RoadRunner.Lib.Update

/-!
# Pause and Resume

The model of `Run`, `Pause` and `Resume` of `memory/memoryjobs` and `boltdb/boltjobs`, and of the start and
the stop of their listener goroutines. Each call reads `listeners`, may return at once, and otherwise has a
fixed list of atomic steps left (`pause`, `resume`): a change of `listeners`, the start of a goroutine, or a
send on `stopCh`, which waits for a goroutine that receives.

The in-memory driver has one kind of goroutine (`consume`), boltdb has two.

* `listeners_sound_iff`: the calls return and leave an `Ok` state exactly if the run is `Exclusive`.
-/

namespace RoadRunner.Jobs.Lifecycle

open Calls Update

/-- The two consumers. -/
inductive Driver where
  | memory
  | boltdb
  deriving DecidableEq

/-- The goroutine of `consume` or of `listener`, and that of `delayedJobsListener`. -/
inductive Listener where
  | listener
  | delayedJobsListener
  deriving DecidableEq

/-- A consumer: the counter, and its goroutines. -/
structure Consumer where
  listeners : UInt32 := 0
  /-- The goroutines that run. -/
  listener : Nat := 0
  delayedJobsListener : Nat := 0
  deriving DecidableEq

/-- One step of a call. -/
inductive Instr where
  /-- `atomic.AddUint32(&c.listeners, d)`. -/
  | add (d : UInt32)
  /-- `atomic.StoreUint32(&c.listeners, v)`. -/
  | store (v : UInt32)
  /-- `go`. -/
  | start (l : Listener)
  /-- `c.stopCh <- struct{}{}`. -/
  | stop
  deriving DecidableEq

/-- One step; a send on `stopCh` is received by a goroutine of the kind `l`. -/
def act (c : Consumer) : Instr → Listener → Option Consumer
  | .add d, _ => some { c with listeners := c.listeners + d }
  | .store v, _ => some { c with listeners := v }
  | .start .listener, _ => some { c with listener := c.listener + 1 }
  | .start .delayedJobsListener, _ => some { c with delayedJobsListener := c.delayedJobsListener + 1 }
  | .stop, .listener => if c.listener = 0 then none else some { c with listener := c.listener - 1 }
  | .stop, .delayedJobsListener =>
    if c.delayedJobsListener = 0 then none
    else some { c with delayedJobsListener := c.delayedJobsListener - 1 }

namespace Driver

/-- `Run` of a consumer that is not active. -/
def run : Driver → List Instr
  | memory => [.start .listener, .store 1]
  | boltdb => [.start .listener, .start .delayedJobsListener, .add 1]

/-- `Pause`, after the test. -/
def pause : Driver → List Instr
  | memory => [.add (~~~0), .stop]
  | boltdb => [.stop, .stop, .add (~~~0)]

/-- `Resume`, after the test. -/
def resume : Driver → List Instr
  | memory => [.start .listener, .store 1]
  | boltdb => [.start .listener, .start .delayedJobsListener, .add 1]

end Driver

/-- `Pause` and `Resume`. -/
inductive Call where
  | pause
  | resume
  deriving DecidableEq

/-- The test at the start of the call. -/
def GoesOn (c : Consumer) : Call → Prop
  | .pause => c.listeners ≠ 0
  | .resume => c.listeners ≠ 1

instance (c : Consumer) : ∀ call, Decidable (GoesOn c call)
  | .pause => inferInstanceAs (Decidable (_ ≠ _))
  | .resume => inferInstanceAs (Decidable (_ ≠ _))

namespace Driver

/-- What a call that goes on does. -/
def steps (d : Driver) : Call → List Instr
  | .pause => d.pause
  | .resume => d.resume

/-- The consumer as a system of calls. -/
def system (d : Driver) : System Consumer Call Instr Listener where
  start c call := (c, if GoesOn c call then d.steps call else [])
  act := act

/-- A consumer after `Run`. -/
def running (d : Driver) : State Consumer Instr :=
  ⟨d.run.foldl (fun c e => (act c e .listener).getD c) {}, []⟩

/-- The counter is 0 or 1, and so are the goroutines. -/
def Ok (d : Driver) (c : Consumer) : Prop :=
  c.listeners.toNat ≤ 1 ∧ c.listener = c.listeners.toNat ∧
    c.delayedJobsListener = match d with
      | memory => 0
      | boltdb => c.listeners.toNat

end Driver

namespace Instr

/-- How often a step adds. -/
def adds : Instr → Nat
  | .add _ => 1
  | _ => 0

/-- How often a step stores. -/
def stores : Instr → Nat
  | .store _ => 1
  | _ => 0

/-- 1 if the instruction changes `listeners`. -/
def changes (e : Instr) : Nat := e.adds + e.stores

/-- How many goroutines the instruction adds. -/
def goroutines : Instr → Int
  | .start _ => 1
  | .stop => -1
  | _ => 0

end Instr

/-- A call goes on only if no call in progress has still to change `listeners`. -/
def Exclusive (s : State Consumer Instr) : Move Call Listener → Prop
  | .start call => GoesOn s.shared call → pending Instr.changes s.calls = 0
  | .next _ _ => True

/-! ## How many goroutines are left -/

/-- All goroutines. -/
def Consumer.goroutines (c : Consumer) : Int := c.listener + c.delayedJobsListener

/-- The number of goroutines once the calls have returned. -/
def left (s : State Consumer Instr) : Int := total Consumer.goroutines Instr.goroutines s

theorem act_goroutines {c c' : Consumer} {e : Instr} {l : Listener} (h : act c e l = some c') :
    c'.goroutines = c.goroutines + e.goroutines := by
  unfold Consumer.goroutines
  match e, l with
  | .add _, _ | .store _, _ =>
    cases h
    simp [Instr.goroutines]
  | .start .listener, _ | .start .delayedJobsListener, _ =>
    cases h
    simp only [Instr.goroutines]
    omega
  | .stop, .listener | .stop, .delayedJobsListener =>
    simp only [act] at h
    split at h
    · cases h
    · cases h
      simp only [Instr.goroutines]
      omega

variable {d : Driver} {s : State Consumer Instr}

theorem left_next (n : Nat) (l : Listener) : left (d.system.next s n l) = left s :=
  total_next (fun _ _ _ _ h => act_goroutines h) s n l

theorem left_start (call : Call) (hgo : GoesOn s.shared call) :
    left (d.system.step s (.start call)) = left s + weight Instr.goroutines (d.steps call) := by
  simp only [left, total, System.step, Driver.system, if_pos hgo, pending_concat, add_assoc]

/-- A call that returns at once. -/
theorem start_returns {call : Call} (hgo : ¬ GoesOn s.shared call) :
    d.system.step s (.start call) = ⟨s.shared, s.calls ++ [[]]⟩ := by
  simp only [System.step, Driver.system, if_neg hgo]

theorem start_goesOn {call : Call} (hgo : GoesOn s.shared call) :
    d.system.step s (.start call) = ⟨s.shared, s.calls ++ [d.steps call]⟩ := by
  simp only [System.step, Driver.system, if_pos hgo]

/-- The kinds of goroutines that the driver has. -/
def Driver.kinds : Driver → Nat
  | memory => 1
  | boltdb => 2

/-- In a sound state the goroutines that are left are those of an `Ok` state. -/
theorem left_of_sound (h : Sound d.system d.Ok s) : 0 ≤ left s ∧ left s ≤ d.kinds := by
  obtain ⟨ms, hquiet⟩ := h.returns
  obtain ⟨hle, hlistener, hdelayed⟩ := h.ok ms hquiet
  have hleft : left s = (d.system.finish s ms).shared.goroutines :=
    (total_finish (fun _ _ _ _ h => act_goroutines h) s ms).symm.trans (total_of_quiet hquiet)
  rw [hleft, Consumer.goroutines, hlistener]
  cases d with
  | memory => simp only [Driver.kinds] at hdelayed ⊢; omega
  | boltdb => simp only [Driver.kinds] at hdelayed ⊢; omega

theorem listeners_eq_one {l : UInt32} (hle : l.toNat ≤ 1) (h : l ≠ 0) : l = 1 := by
  rw [ne_eq, ← UInt32.toNat_inj, UInt32.toNat_zero] at h
  rw [← UInt32.toNat_inj, UInt32.toNat_one]
  omega

theorem listeners_eq_zero {l : UInt32} (hle : l.toNat ≤ 1) (h : l ≠ 1) : l = 0 := by
  rw [ne_eq, ← UInt32.toNat_inj, UInt32.toNat_one] at h
  rw [← UInt32.toNat_inj, UInt32.toNat_zero]
  omega

/-- The run rule for an invariant that the calls keep exactly if they are exclusive. -/
theorem sound_everywhere_iff {I : State Consumer Instr → Prop} (hinit : I d.running)
    (hnext : ∀ s n l, I s → I (d.system.next s n l))
    (hprogress : ∀ s, I s → ¬ s.Quiet → ∃ (n : Nat) (e : Instr) (es : List Instr) (l : Listener) (c : Consumer),
      s.calls[n]? = some (e :: es) ∧ act s.shared e l = some c)
    (hok : ∀ s, I s → s.Quiet → d.Ok s.shared)
    (hstart : ∀ s call, I s → Exclusive s (.start call) → I (d.system.step s (.start call)))
    (hneed : ∀ s call, I s → Sound d.system d.Ok (d.system.step s (.start call)) → Exclusive s (.start call))
    (ms : List (Move Call Listener)) :
    (∀ pre post, ms = pre ++ post → Sound d.system d.Ok (Run.exec d.system.step d.running pre)) ↔
      Run.Along d.system.step Exclusive d.running ms := by
  have hsound : ∀ {s}, I s → Sound d.system d.Ok s := Sound.of_invariant hnext hprogress hok
  refine Run.Along.always_iff (I := I) ?_ ?_ hinit (hsound hinit)
  · intro s m hs _ hex
    have hs' : I (d.system.step s m) := by
      cases m with
      | start call => exact hstart s call hs hex
      | next n l => exact hnext s n l hs
    exact ⟨hs', hsound hs'⟩
  · intro s m hs _ hs'
    cases m with
    | start call => exact hneed s call hs hs'
    | next n l => trivial

/-! ## The in-memory driver -/

namespace Memory

/-- What a call can have left. -/
inductive Shape : List Instr → Prop where
  | returned : Shape []
  | pausing : Shape [.add (~~~0), .stop]
  | stopping : Shape [.stop]
  | resuming : Shape [.start .listener, .store 1]
  | storing : Shape [.store 1]

/-- `listeners` against the calls that have still to change it. -/
inductive Phase (s : State Consumer Instr) : Prop where
  | settled (hadds : pending Instr.adds s.calls = 0) (hstores : pending Instr.stores s.calls = 0)
      (hle : s.shared.listeners.toNat ≤ 1) (hleft : left s = s.shared.listeners.toNat)
  | pausing (hadds : pending Instr.adds s.calls = 1) (hstores : pending Instr.stores s.calls = 0)
      (hl : s.shared.listeners = 1) (hleft : left s = 0)
  | resuming (hadds : pending Instr.adds s.calls = 0) (hstores : pending Instr.stores s.calls = 1)
      (hl : s.shared.listeners = 0) (hleft : left s = 1)

/-- What holds if no two calls overlap. -/
structure Inv (s : State Consumer Instr) : Prop where
  shape : ∀ es ∈ s.calls, Shape es
  single : s.shared.delayedJobsListener = 0
  phase : Phase s

theorem pending_changes (calls : List (List Instr)) :
    pending Instr.changes calls = pending Instr.adds calls + pending Instr.stores calls :=
  pending_add Instr.stores Instr.adds calls

/-- A step that does not change `listeners`. -/
theorem Phase.of_eq {s s' : State Consumer Instr} (h : Phase s) (hl : s'.shared.listeners = s.shared.listeners)
    (hadds : pending Instr.adds s'.calls = pending Instr.adds s.calls)
    (hstores : pending Instr.stores s'.calls = pending Instr.stores s.calls) (hleft : left s' = left s) :
    Phase s' := by
  cases h with
  | settled ha hs hle h => exact .settled (hadds.trans ha) (hstores.trans hs) (hl ▸ hle) (by rw [hleft, h, hl])
  | pausing ha hs h₁ h => exact .pausing (hadds.trans ha) (hstores.trans hs) (hl.trans h₁) (hleft.trans h)
  | resuming ha hs h₁ h => exact .resuming (hadds.trans ha) (hstores.trans hs) (hl.trans h₁) (hleft.trans h)

theorem Inv.next {s : State Consumer Instr} (h : Inv s) (n : Nat) (l : Listener) :
    Inv (Driver.memory.system.next s n l) := by
  have hleft : left (Driver.memory.system.next s n l) = left s := left_next n l
  have hnext := next_next Driver.memory.system s n l
  generalize Driver.memory.system.next s n l = s' at hnext hleft ⊢
  cases hnext with
  | idle => exact h
  | @acted e es c hn hact =>
    have hadds := pending_set_tail (w := Instr.adds) hn
    have hstores := pending_set_tail (w := Instr.stores) hn
    have hphase := h.phase
    have hshape := h.shape _ (List.mem_of_getElem? hn)
    cases hshape with
    | pausing =>
      simp only [Instr.adds, Instr.stores] at hadds hstores
      cases hphase with
      | settled ha => omega
      | resuming ha => omega
      | pausing ha hs hl hzero =>
        have hdec : s.shared.listeners + ~~~0 = 0 := by rw [hl]; decide
        obtain rfl : c = { s.shared with listeners := 0 } := by
          simpa only [Driver.system, act, hdec, Option.some.injEq, eq_comm] using hact
        have hadds' : pending Instr.adds (s.calls.set n [.stop]) = 0 := by omega
        have hstores' : pending Instr.stores (s.calls.set n [.stop]) = 0 := by omega
        exact ⟨forall_set h.shape n .stopping, h.single,
          .settled hadds' hstores' (Nat.zero_le 1) (hleft.trans hzero)⟩
    | stopping =>
      cases l with
      | listener =>
        simp only [Driver.system, act] at hact
        split at hact
        · cases hact
        · cases hact
          refine ⟨forall_set h.shape n .returned, h.single, hphase.of_eq rfl ?_ ?_ hleft⟩
          · simpa [Instr.adds] using hadds
          · simpa [Instr.stores] using hstores
      | delayedJobsListener =>
        simp only [Driver.system, act, if_pos h.single] at hact
        cases hact
    | resuming =>
      obtain rfl : { s.shared with listener := s.shared.listener + 1 } = c := Option.some.inj hact
      refine ⟨forall_set h.shape n .storing, h.single, hphase.of_eq rfl ?_ ?_ hleft⟩
      · simpa [Instr.adds] using hadds
      · simpa [Instr.stores] using hstores
    | storing =>
      simp only [Instr.adds, Instr.stores] at hadds hstores
      cases hphase with
      | settled ha hs => omega
      | pausing ha hs => omega
      | resuming ha hs hl hone =>
        obtain rfl : { s.shared with listeners := 1 } = c := Option.some.inj hact
        have hadds' : pending Instr.adds (s.calls.set n []) = 0 := by omega
        have hstores' : pending Instr.stores (s.calls.set n []) = 0 := by omega
        exact ⟨forall_set h.shape n .returned, h.single,
          .settled hadds' hstores' (Nat.le_refl 1) (hleft.trans hone)⟩

theorem Inv.progress {s : State Consumer Instr} (h : Inv s) (hquiet : ¬ s.Quiet) :
    ∃ (n : Nat) (e : Instr) (es : List Instr) (l : Listener) (c : Consumer),
      s.calls[n]? = some (e :: es) ∧ act s.shared e l = some c := by
  by_cases hfree : ∃ es ∈ s.calls, Shape es ∧ es ≠ [] ∧ es ≠ [.stop]
  · obtain ⟨es, hmem, hshape, hne, hstop⟩ := hfree
    obtain ⟨n, hn⟩ := List.getElem?_of_mem hmem
    cases hshape with
    | returned => exact absurd rfl hne
    | stopping => exact absurd rfl hstop
    | pausing => exact ⟨n, _, _, .listener, _, hn, rfl⟩
    | resuming => exact ⟨n, _, _, .listener, _, hn, rfl⟩
    | storing => exact ⟨n, _, _, .listener, _, hn, rfl⟩
  · -- only sends are left, and there are as many goroutines to receive them
    have hstops : ∀ es ∈ s.calls, es = [] ∨ es = [.stop] := by
      intro es hes
      by_contra hnot
      exact hfree ⟨es, hes, h.shape es hes, fun he => hnot (.inl he), fun he => hnot (.inr he)⟩
    obtain ⟨es, hes, hne⟩ : ∃ es ∈ s.calls, es ≠ [] := by simpa [State.Quiet] using hquiet
    have hes' := (hstops es hes).resolve_left hne
    subst hes'
    obtain ⟨n, hn⟩ := List.getElem?_of_mem hes
    have hweight : ∀ es ∈ s.calls, weight Instr.goroutines es ≤ 0 := by
      intro es hes
      rcases hstops es hes with rfl | rfl <;> decide
    have hpending : pending Instr.goroutines s.calls ≤ -1 := pending_le_weight hweight hes
    have hleft : left s = s.shared.goroutines + pending Instr.goroutines s.calls := rfl
    have hnonneg : 0 ≤ left s := by
      cases h.phase with
      | settled _ _ _ hl => omega
      | pausing _ _ _ hl => omega
      | resuming _ _ _ hl => omega
    have hsingle := h.single
    have hpos : s.shared.listener ≠ 0 := by
      rw [Consumer.goroutines] at hleft
      omega
    exact ⟨n, .stop, [], .listener, _, hn, if_neg hpos⟩

theorem Inv.ok {s : State Consumer Instr} (h : Inv s) (hquiet : s.Quiet) : Driver.memory.Ok s.shared := by
  have hleft : left s = s.shared.goroutines := total_of_quiet hquiet
  have hadds : pending Instr.adds s.calls = 0 := pending_of_quiet hquiet
  have hstores : pending Instr.stores s.calls = 0 := pending_of_quiet hquiet
  have hsingle := h.single
  rw [Consumer.goroutines] at hleft
  cases h.phase with
  | settled _ _ hle hl => exact ⟨hle, by omega, hsingle⟩
  | pausing ha => omega
  | resuming _ hs => omega

theorem Inv.start {s : State Consumer Instr} (h : Inv s) (call : Call) (hex : Exclusive s (.start call)) :
    Inv (Driver.memory.system.step s (.start call)) := by
  by_cases hgo : GoesOn s.shared call
  · have hchanges := hex hgo
    rw [pending_changes] at hchanges
    have hleft : left (Driver.memory.system.step s (.start call)) = _ := left_start call hgo
    rw [start_goesOn hgo] at hleft ⊢
    cases h.phase with
    | pausing ha => omega
    | resuming _ hs => omega
    | settled ha hs hle hl =>
      have hadds := pending_concat Instr.adds s.calls (Driver.memory.steps call)
      have hstores := pending_concat Instr.stores s.calls (Driver.memory.steps call)
      cases call with
      | pause =>
        have hone := listeners_eq_one hle hgo
        rw [hone] at hl
        simp only [Driver.steps, Driver.pause, weight_cons, weight_nil, Instr.adds, Instr.stores, Instr.goroutines,
          hl, ha, hs] at hadds hstores hleft
        exact ⟨forall_concat h.shape .pausing, h.single, .pausing hadds hstores hone hleft⟩
      | resume =>
        have hzero := listeners_eq_zero hle hgo
        rw [hzero] at hl
        simp only [Driver.steps, Driver.resume, weight_cons, weight_nil, Instr.adds, Instr.stores, Instr.goroutines,
          hl, ha, hs] at hadds hstores hleft
        exact ⟨forall_concat h.shape .resuming, h.single, .resuming hadds hstores hzero hleft⟩
  · rw [start_returns hgo]
    refine ⟨forall_concat h.shape .returned, h.single, h.phase.of_eq rfl ?_ ?_ ?_⟩
    · simp
    · simp
    · simp [left, total]

/-- A second `Pause` waits for ever, and a second `Resume` starts one goroutine too many. -/
theorem Inv.exclusive_of_sound {s : State Consumer Instr} (h : Inv s) {call : Call}
    (hsound : Sound Driver.memory.system Driver.memory.Ok (Driver.memory.system.step s (.start call))) :
    Exclusive s (.start call) := by
  intro hgo
  have hbounds := left_of_sound hsound
  rw [left_start call hgo, Driver.kinds] at hbounds
  rw [pending_changes]
  cases h.phase with
  | settled ha hs => omega
  | pausing _ _ hl hleft =>
    cases call with
    | pause =>
      have hweight : weight Instr.goroutines (Driver.memory.steps .pause) = -1 := rfl
      omega
    | resume => exact absurd hl hgo
  | resuming _ _ hl hleft =>
    cases call with
    | pause => exact absurd hl hgo
    | resume =>
      have hweight : weight Instr.goroutines (Driver.memory.steps .resume) = 1 := rfl
      omega

theorem running_inv : Inv Driver.memory.running :=
  ⟨nofun, rfl, .settled rfl rfl (Nat.le_refl 1) rfl⟩

end Memory

/-! ## The boltdb driver -/

namespace Boltdb

/-- A call in progress, with the state it has left the consumer in. -/
inductive At : List Instr → Consumer → Prop where
  | pausing : At [.stop, .stop, .add (~~~0)] ⟨1, 1, 1⟩
  | stopping {a b : Nat} (h : a + b = 1) : At [.stop, .add (~~~0)] ⟨1, a, b⟩
  | stopped : At [.add (~~~0)] ⟨1, 0, 0⟩
  | resuming : At [.start .listener, .start .delayedJobsListener, .add 1] ⟨0, 0, 0⟩
  | starting : At [.start .delayedJobsListener, .add 1] ⟨0, 1, 0⟩
  | started : At [.add 1] ⟨0, 1, 1⟩

/-- No call is in progress, or one is. -/
inductive Inv (s : State Consumer Instr) : Prop where
  | settled (hquiet : s.Quiet) (hc : s.shared = ⟨0, 0, 0⟩ ∨ s.shared = ⟨1, 1, 1⟩)
  | busy (n : Nat) (es : List Instr) (hn : s.calls[n]? = some es)
      (hothers : ∀ fs ∈ s.calls.set n [], fs = []) (hat : At es s.shared)
      (hleft : left s = if s.shared.listeners = 1 then 0 else 2)

theorem At.act {e : Instr} {es : List Instr} {c c' : Consumer} {l : Listener} (h : At (e :: es) c)
    (hact : act c e l = some c') :
    (es = [] ∧ (c' = ⟨0, 0, 0⟩ ∨ c' = ⟨1, 1, 1⟩)) ∨ (At es c' ∧ c'.listeners = c.listeners) := by
  cases h with
  | pausing =>
    cases l with
    | listener => cases hact; exact .inr ⟨.stopping rfl, rfl⟩
    | delayedJobsListener => cases hact; exact .inr ⟨.stopping rfl, rfl⟩
  | @stopping a b h =>
    cases l with
    | listener =>
      obtain rfl | rfl : a = 0 ∨ a = 1 := by omega
      · cases hact
      · obtain rfl : b = 0 := by omega
        cases hact
        exact .inr ⟨.stopped, rfl⟩
    | delayedJobsListener =>
      obtain rfl | rfl : b = 0 ∨ b = 1 := by omega
      · cases hact
      · obtain rfl : a = 0 := by omega
        cases hact
        exact .inr ⟨.stopped, rfl⟩
  | stopped => cases hact; exact .inl ⟨rfl, .inl rfl⟩
  | resuming => cases hact; exact .inr ⟨.starting, rfl⟩
  | starting => cases hact; exact .inr ⟨.started, rfl⟩
  | started => cases hact; exact .inl ⟨rfl, .inr rfl⟩

theorem Inv.next {s : State Consumer Instr} (h : Inv s) (n : Nat) (l : Listener) :
    Inv (Driver.boltdb.system.next s n l) := by
  have hleft' : left (Driver.boltdb.system.next s n l) = left s := left_next n l
  have hnext := next_next Driver.boltdb.system s n l
  generalize Driver.boltdb.system.next s n l = s' at hnext hleft' ⊢
  cases hnext with
  | idle => exact h
  | @acted e es c hn hact =>
    cases h with
    | settled hquiet => cases hquiet _ (List.mem_of_getElem? hn)
    | busy m fs hm hothers hat hleft =>
      obtain rfl : n = m := by
        by_contra hne
        rw [← List.getElem?_set_ne (Ne.symm hne)] at hn
        cases hothers _ (List.mem_of_getElem? hn)
      obtain rfl : fs = e :: es := Option.some.inj (hm.symm.trans hn)
      have hlt := (List.getElem?_eq_some_iff.mp hn).1
      rcases hat.act hact with ⟨rfl, hc⟩ | ⟨hat', hl⟩
      · exact .settled hothers hc
      · refine .busy n es (by simp [hlt]) ?_ hat' (by rw [hleft', hleft, hl])
        rwa [List.set_set]

theorem Inv.progress {s : State Consumer Instr} (h : Inv s) (hquiet : ¬ s.Quiet) :
    ∃ (n : Nat) (e : Instr) (es : List Instr) (l : Listener) (c : Consumer),
      s.calls[n]? = some (e :: es) ∧ act s.shared e l = some c := by
  cases h with
  | settled h => exact absurd h hquiet
  | busy n es hn hothers hat hleft =>
    obtain ⟨c, calls⟩ := s
    cases hat with
    | @stopping a b h =>
      obtain rfl | rfl : a = 0 ∨ a = 1 := by omega
      · obtain rfl : b = 1 := by omega
        exact ⟨n, _, _, .delayedJobsListener, _, hn, rfl⟩
      · exact ⟨n, _, _, .listener, _, hn, rfl⟩
    | pausing => exact ⟨n, _, _, .listener, _, hn, rfl⟩
    | stopped => exact ⟨n, _, _, .listener, _, hn, rfl⟩
    | resuming => exact ⟨n, _, _, .listener, _, hn, rfl⟩
    | starting => exact ⟨n, _, _, .listener, _, hn, rfl⟩
    | started => exact ⟨n, _, _, .listener, _, hn, rfl⟩

theorem Inv.ok {s : State Consumer Instr} (h : Inv s) (hquiet : s.Quiet) : Driver.boltdb.Ok s.shared := by
  cases h with
  | settled _ hc =>
    rcases hc with hc | hc
    · rw [hc]; exact ⟨Nat.zero_le 1, rfl, rfl⟩
    · rw [hc]; exact ⟨Nat.le_refl 1, rfl, rfl⟩
  | busy n es hn hothers hat =>
    rw [hquiet es (List.mem_of_getElem? hn)] at hat
    cases hat

/-- Every call in progress has still to change `listeners`. -/
theorem At.changes {es : List Instr} {c : Consumer} (h : At es c) : 0 < weight Instr.changes es := by
  cases h <;> decide

theorem At.listeners {es : List Instr} {c : Consumer} (h : At es c) : c.listeners = 1 ∨ c.listeners = 0 := by
  cases h <;> simp

theorem Inv.start {s : State Consumer Instr} (h : Inv s) (call : Call) (hex : Exclusive s (.start call)) :
    Inv (Driver.boltdb.system.step s (.start call)) := by
  by_cases hgo : GoesOn s.shared call
  · have hchanges := hex hgo
    have hleft : left (Driver.boltdb.system.step s (.start call)) = _ := left_start call hgo
    rw [start_goesOn hgo] at hleft ⊢
    cases h with
    | busy n es hn _ hat =>
      have hpos := hat.changes
      have hle := weight_le_pending (w := Instr.changes) (List.mem_of_getElem? hn)
      omega
    | settled hquiet hc =>
      have hold : left s = s.shared.goroutines := total_of_quiet hquiet
      obtain ⟨c, calls⟩ := s
      have hset : (calls ++ [Driver.boltdb.steps call]).set calls.length [] = calls ++ [[]] := by
        simp [List.set_append_right]
      refine .busy calls.length (Driver.boltdb.steps call) (by simp) (hset ▸ forall_concat hquiet rfl) ?_ ?_
      · rcases hc with rfl | rfl
        · cases call with
          | pause => exact absurd rfl hgo
          | resume => exact .resuming
        · cases call with
          | pause => exact .pausing
          | resume => exact absurd rfl hgo
      · rw [hleft, hold]
        rcases hc with rfl | rfl
        · cases call with
          | pause => exact absurd rfl hgo
          | resume => rfl
        · cases call with
          | pause => rfl
          | resume => exact absurd rfl hgo
  · have hleft : left ⟨s.shared, s.calls ++ [[]]⟩ = left s := by simp [left, total]
    rw [start_returns hgo]
    cases h with
    | settled hquiet hc => exact .settled (forall_concat hquiet rfl) hc
    | busy n es hn hothers hat hleft' =>
      have hlt := (List.getElem?_eq_some_iff.mp hn).1
      refine .busy n es ?_ ?_ hat (hleft.trans hleft')
      · rw [List.getElem?_append_left hlt]
        exact hn
      · rw [List.set_append_left _ _ hlt]
        exact forall_concat hothers rfl

/-- A second `Pause` waits for ever, and a second `Resume` starts one pair too many. -/
theorem Inv.exclusive_of_sound {s : State Consumer Instr} (h : Inv s) {call : Call}
    (hsound : Sound Driver.boltdb.system Driver.boltdb.Ok (Driver.boltdb.system.step s (.start call))) :
    Exclusive s (.start call) := by
  intro hgo
  have hbounds := left_of_sound hsound
  rw [left_start call hgo, Driver.kinds] at hbounds
  cases h with
  | settled hquiet => exact pending_of_quiet hquiet
  | busy n es hn _ hat hleft =>
    exfalso
    have hl := hat.listeners
    rcases hl with hl | hl
    · rw [if_pos hl] at hleft
      cases call with
      | resume => exact hgo hl
      | pause =>
        have hweight : weight Instr.goroutines (Driver.boltdb.steps .pause) = -2 := rfl
        omega
    · rw [if_neg (by rw [hl]; decide)] at hleft
      cases call with
      | pause => exact hgo hl
      | resume =>
        have hweight : weight Instr.goroutines (Driver.boltdb.steps .resume) = 2 := rfl
        omega

theorem running_inv : Inv Driver.boltdb.running := .settled nofun (.inr rfl)

end Boltdb

/-! ## Both drivers -/

/-- In every state of a run from a running consumer the calls in progress can return and leave an `Ok` state,
if and only if no call goes on while another one has still to change `listeners`. -/
theorem listeners_sound_iff (d : Driver) (ms : List (Move Call Listener)) :
    (∀ pre post, ms = pre ++ post → Sound d.system d.Ok (Run.exec d.system.step d.running pre)) ↔
      Run.Along d.system.step Exclusive d.running ms := by
  cases d with
  | memory =>
    exact sound_everywhere_iff Memory.running_inv (fun _ n l h => h.next n l) (fun _ h => h.progress)
      (fun _ h => h.ok) (fun _ call h => h.start call) (fun _ _ h => h.exclusive_of_sound) ms
  | boltdb =>
    exact sound_everywhere_iff Boltdb.running_inv (fun _ n l h => h.next n l) (fun _ h => h.progress)
      (fun _ h => h.ok) (fun _ call h => h.start call) (fun _ _ h => h.exclusive_of_sound) ms

/-- `Pause`, and then two `Resume`s that both make their test before either changes `listeners`. -/
def twoResumes : Driver → List (Move Call Listener)
  | .memory => [.start .pause, .next 0 .listener, .next 0 .listener, .start .resume, .start .resume,
      .next 1 .listener, .next 1 .listener, .next 2 .listener, .next 2 .listener]
  | .boltdb => [.start .pause, .next 0 .listener, .next 0 .delayedJobsListener, .next 0 .listener, .start .resume,
      .start .resume, .next 1 .listener, .next 1 .listener, .next 1 .listener, .next 2 .listener, .next 2 .listener,
      .next 2 .listener]

/-- All calls have returned, and two listeners run. -/
theorem two_resumes_two_listeners :
    let s := fun d : Driver => Run.exec d.system.step d.running (twoResumes d)
    (s .memory).Quiet ∧ (s .memory).shared = ⟨1, 2, 0⟩ ∧ (s .boltdb).Quiet ∧ (s .boltdb).shared = ⟨2, 2, 2⟩ := by
  decide +kernel

end RoadRunner.Jobs.Lifecycle
