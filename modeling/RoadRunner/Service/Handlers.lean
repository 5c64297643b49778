import RoadRunner.Service.Process

/-!
# The handlers of a service process

The model of `execHandler` of `service/process.go`, beside the goroutine of `wait`. Every `start` that succeeds starts a
handler, which looks at the process once a second. It ends only if a timeout is set, and then at a tick at which the
flag `stopped` is set or the child that was started last has run for longer than the timeout.

* `Watched`: a process with the time and its handlers. `Event`, `Watched.step`: what can happen.
* `one_handler_iff`: at most one handler runs at every moment of a run, exactly if all handlers have ended before each
  restart.
-/

namespace RoadRunner.Service

/-- A process, with the time and its handlers. -/
structure Watched where
  process : Process
  /-- No timeout is `0`. -/
  execTimeout : Int
  now : Int := 0
  startTime : Int := 0
  /-- Whether it runs, for each handler as they were started. -/
  handlers : List Bool := [true]
  /-- The children to which a handler has sent an interrupt. -/
  interrupted : List Nat := []
  /-- A handler has panicked, and the program has ended. -/
  crashed : Bool := false
  deriving DecidableEq

/-- What can happen. -/
inductive Event where
  | process (m : Move)
  /-- A tick of the `n`-th handler. -/
  | tick (n : Nat)
  /-- Time goes on. -/
  | pass (d : Nat)
  deriving DecidableEq

/-- The goroutine of `wait` calls `start`, and `Start` succeeds. -/
def Watched.Starts (s : Watched) (e : Event) : Prop :=
  s.crashed = false ∧ s.process.wait = .locks ∧ e = .process (.wait true)

instance (s : Watched) (e : Event) : Decidable (s.Starts e) := inferInstanceAs (Decidable (_ ∧ _ ∧ _))

/-- The conditions under which a handler returns. -/
def Watched.Over (s : Watched) : Prop :=
  s.execTimeout ≠ 0 ∧ (s.process.stopped = true ∨ s.startTime + s.execTimeout < s.now)

instance (s : Watched) : Decidable s.Over := inferInstanceAs (Decidable (_ ∧ _))

/-- A tick of a handler. The lock is taken while an error of `Start` is reported. -/
def Watched.tick (s : Watched) (n : Nat) : Watched :=
  if s.handlers[n]? ≠ some true ∨ s.process.wait = .reports then s
  else if s.Over then
    match s.process.command with
    -- `Signal` of a nil process
    | none => { s with crashed := true }
    | some child => { s with handlers := s.handlers.set n false, interrupted := s.interrupted ++ [child] }
  else s

/-- One event. -/
def Watched.step (s : Watched) (e : Event) : Watched :=
  if s.crashed then s
  else
    match e with
    | .process m =>
      if s.Starts (.process m) then
        { s with process := Service.step s.process m, startTime := s.now, handlers := s.handlers ++ [true] }
      else { s with process := Service.step s.process m }
    | .tick n => s.tick n
    | .pass d => { s with now := s.now + d }

/-- The number of handlers that run. -/
def Watched.running (s : Watched) : Nat := if s.crashed then 0 else s.handlers.countP id

/-- The process after its first start. -/
def watched (remainAfterExit : Bool) (execTimeout : Int) : Watched := { process := { remainAfterExit }, execTimeout }

/-- The `n`-th handler ends at a tick. -/
def Watched.Ends (s : Watched) (n : Nat) : Prop :=
  s.crashed = false ∧ s.handlers[n]? = some true ∧ s.process.wait ≠ .reports ∧ s.Over ∧ s.process.command ≠ none

/-! ## An event -/

theorem Watched.step_of_crashed {s : Watched} (h : s.crashed = true) (e : Event) : s.step e = s := if_pos h

theorem Watched.step_start {s : Watched} (hcrashed : s.crashed = false) (hwait : s.process.wait = .locks) :
    s.step (.process (.wait true)) =
      { s with
        process := Service.step s.process (.wait true)
        startTime := s.now
        handlers := s.handlers ++ [true] } := by
  rw [Watched.step, if_neg (by simp [hcrashed])]
  exact if_pos ⟨hcrashed, hwait, rfl⟩

theorem Watched.step_tick {s : Watched} {n : Nat} (h : s.Ends n) :
    (s.step (.tick n)).handlers = s.handlers.set n false ∧ (s.step (.tick n)).crashed = false := by
  obtain ⟨hcrashed, hn, hlock, hover, hcommand⟩ := h
  obtain ⟨child, hchild⟩ := Option.ne_none_iff_exists'.mp hcommand
  have hstep : s.step (.tick n) =
      { s with handlers := s.handlers.set n false, interrupted := s.interrupted ++ [child] } := by
    rw [Watched.step, if_neg (by simp [hcrashed]), Watched.tick, if_neg (by simp [hn, hlock]), if_pos hover, hchild]
  rw [hstep]
  exact ⟨rfl, hcrashed⟩

/-- Every other event leaves the handlers as they are, or ends the program. -/
theorem Watched.step_other {s : Watched} {e : Event} (hstart : ¬ s.Starts e) (htick : ∀ n, e = .tick n → ¬ s.Ends n) :
    (s.step e).handlers = s.handlers ∧ ((s.step e).crashed = false → s.crashed = false) := by
  by_cases hcrashed : s.crashed = true
  · rw [Watched.step_of_crashed hcrashed]
    exact ⟨rfl, id⟩
  · have hrun : s.crashed = false := Bool.eq_false_iff.mpr hcrashed
    refine ⟨?_, fun _ => hrun⟩
    cases e with
    | process m => rw [Watched.step, if_neg hcrashed, if_neg hstart]
    | pass d => rw [Watched.step, if_neg hcrashed]
    | tick n =>
      rw [Watched.step, if_neg hcrashed, Watched.tick]
      split
      · rfl
      case isFalse hfree =>
        rw [not_or, not_not] at hfree
        split
        case isTrue hover =>
          cases hcommand : s.process.command with
          | none => rfl
          | some child =>
            exact absurd ⟨hrun, hfree.1, hfree.2, hover, by rw [hcommand]; nofun⟩ (htick n rfl)
        case isFalse => rfl

/-- An event starts a handler, ends one, or does neither. -/
theorem Watched.step_cases (s : Watched) (e : Event) :
    (s.Starts e ∧ (s.step e).handlers = s.handlers ++ [true] ∧ (s.step e).crashed = false) ∨
      (¬ s.Starts e ∧ ∃ n, e = .tick n ∧ s.Ends n ∧
        (s.step e).handlers = s.handlers.set n false ∧ (s.step e).crashed = false) ∨
      (¬ s.Starts e ∧ (∀ n, e = .tick n → ¬ s.Ends n) ∧ (s.step e).handlers = s.handlers ∧
        ((s.step e).crashed = false → s.crashed = false)) := by
  by_cases hstart : s.Starts e
  · obtain ⟨hcrashed, hwait, rfl⟩ := hstart
    rw [Watched.step_start hcrashed hwait]
    exact .inl ⟨⟨hcrashed, hwait, rfl⟩, rfl, hcrashed⟩
  · by_cases htick : ∀ n, e = .tick n → ¬ s.Ends n
    · exact .inr (.inr ⟨hstart, htick, Watched.step_other hstart htick⟩)
    · push Not at htick
      obtain ⟨n, rfl, hends⟩ := htick
      exact .inr (.inl ⟨hstart, n, rfl, hends, Watched.step_tick hends⟩)

/-- The number of handlers goes up by one at a start, and never otherwise. -/
theorem Watched.running_step (s : Watched) (e : Event) :
    if s.Starts e then (s.step e).running = s.running + 1 else (s.step e).running ≤ s.running := by
  rcases s.step_cases e with ⟨hstart, hhandlers, hcrashed⟩ | ⟨hstart, n, -, hends, hhandlers, hcrashed⟩ |
      ⟨hstart, -, hhandlers, hcrashed⟩
  · rw [if_pos hstart, Watched.running, Watched.running, hhandlers, hcrashed, hstart.1, Update.countP_concat]
    rfl
  · have hcount := Update.countP_set (p := id) hends.2.1 false
    rw [if_neg hstart, Watched.running, Watched.running, hhandlers, hcrashed, hends.1]
    simp at hcount ⊢
    omega
  · rw [if_neg hstart, Watched.running, Watched.running, hhandlers]
    cases h : (s.step e).crashed with
    | true => exact Nat.zero_le _
    | false => exact Nat.le_of_eq (by rw [hcrashed h])

/-- At most one handler runs after an event, if no handler runs at a start. -/
theorem Watched.running_step_le_one_iff {s : Watched} (h : s.running ≤ 1) (e : Event) :
    (s.step e).running ≤ 1 ↔ (s.Starts e → s.running = 0) := by
  have hstep := s.running_step e
  split at hstep
  case isTrue hstart =>
    rw [hstep, imp_iff_right hstart]
    omega
  case isFalse hstart => exact iff_of_true (Nat.le_trans hstep h) fun hs => absurd hs hstart

/-! ## Runs -/

/-- The state after some events since the first start. -/
def Watched.after (remainAfterExit : Bool) (execTimeout : Int) (events : List Event) : Watched :=
  Run.exec Watched.step (watched remainAfterExit execTimeout) events

section

variable {remainAfterExit : Bool} {execTimeout : Int} {events : List Event}

/-- A handler that has ended does not run again, and one that has not ends only at a tick of its own. -/
theorem Watched.ended_step (s : Watched) (e : Event) (n : Nat) :
    (s.step e).handlers[n]? ≠ some false ↔ s.handlers[n]? ≠ some false ∧ ¬ (e = .tick n ∧ s.Ends n) := by
  rcases s.step_cases e with ⟨⟨-, -, rfl⟩, hhandlers, -⟩ | ⟨-, m, rfl, hends, hhandlers, -⟩ | ⟨-, hother, hhandlers, -⟩
  · -- the new handler runs
    rw [hhandlers, and_iff_left (fun h => by cases h.1), List.getElem?_append]
    split
    · rfl
    case isFalse hlt =>
      rw [List.getElem?_eq_none (Nat.le_of_not_lt hlt), List.getElem?_singleton]
      split <;> simp
  · rw [hhandlers, List.getElem?_set]
    by_cases hm : m = n
    · subst hm
      have hlt := (List.getElem?_eq_some_iff.mp hends.2.1).1
      rw [if_pos rfl, if_pos hlt]
      exact iff_of_false (fun h => h rfl) fun h => h.2 ⟨rfl, hends⟩
    · rw [if_neg hm, and_iff_left fun h => hm (Event.tick.inj h.1)]
  · rw [hhandlers, and_iff_left fun h => hother n h.1 h.2]

/-- A handler has ended exactly if one of its ticks has ended it. -/
theorem handler_ended_iff (n : Nat) :
    (Watched.after remainAfterExit execTimeout events).handlers[n]? = some false ↔
      ∃ l r, events = l ++ .tick n :: r ∧ (Watched.after remainAfterExit execTimeout l).Ends n := by
  have hstart : (watched remainAfterExit execTimeout).handlers[n]? ≠ some false := by
    cases n with
    | zero => nofun
    | succ n => nofun
  have hrun : (Watched.after remainAfterExit execTimeout events).handlers[n]? ≠ some false ↔
      (watched remainAfterExit execTimeout).handlers[n]? ≠ some false ∧
        Run.Along Watched.step (fun s e => ¬ (e = .tick n ∧ s.Ends n)) (watched remainAfterExit execTimeout) events :=
    Run.Along.exec_iff (I := fun _ => True) (P := fun s : Watched => s.handlers[n]? ≠ some false)
      (fun _ _ _ => trivial) (fun s e _ => Watched.ended_step s e n) trivial
  rw [← not_iff_not, ← Ne, hrun, and_iff_right hstart, ← Run.Along.forall_iff]
  constructor
  · rintro h ⟨l, r, heq, hends⟩
    exact h l (.tick n) r heq ⟨rfl, hends⟩
  · rintro h l e r heq ⟨rfl, hends⟩
    exact h ⟨l, r, heq, hends⟩

theorem Watched.running_eq_zero_iff {s : Watched} (h : s.crashed = false) :
    s.running = 0 ↔ ∀ n < s.handlers.length, s.handlers[n]? = some false := by
  rw [Watched.running, h, if_neg Bool.false_ne_true, List.countP_eq_zero]
  constructor
  · intro hall n hn
    rw [List.getElem?_eq_getElem hn, Option.some_inj]
    exact Bool.eq_false_iff.mpr (hall _ (List.getElem_mem hn))
  · intro hall b hb
    obtain ⟨n, hn, rfl⟩ := List.mem_iff_getElem.mp hb
    have hfalse := hall n hn
    rw [List.getElem?_eq_getElem hn, Option.some_inj] at hfalse
    simp [hfalse]

end

/-- **The handlers of a process.** For every timeout and every run of a process, with any exits, restarts and ticks, at
most one handler runs at every moment, exactly if at each restart every handler that was started before had a tick at
which a timeout was set and the process was stopped or its time was over. -/
theorem one_handler_iff (remainAfterExit : Bool) (execTimeout : Int) (events : List Event) :
    (∀ pre post, events = pre ++ post → (Watched.after remainAfterExit execTimeout pre).running ≤ 1) ↔
      ∀ pre e post, events = pre ++ e :: post → (Watched.after remainAfterExit execTimeout pre).Starts e →
        ∀ n < (Watched.after remainAfterExit execTimeout pre).handlers.length,
          ∃ l r, pre = l ++ .tick n :: r ∧ (Watched.after remainAfterExit execTimeout l).Ends n := by
  have hrun : (∀ pre post, events = pre ++ post → (Watched.after remainAfterExit execTimeout pre).running ≤ 1) ↔
      Run.Along Watched.step (fun s e => s.Starts e → s.running = 0) (watched remainAfterExit execTimeout) events :=
    Run.Along.always_iff (I := fun _ => True) (P := fun s : Watched => s.running ≤ 1)
      (fun s e _ hone hnone => ⟨trivial, (Watched.running_step_le_one_iff hone e).mpr hnone⟩)
      (fun s e _ hone => (Watched.running_step_le_one_iff hone e).mp) trivial (Nat.le_refl 1)
  rw [hrun, ← Run.Along.forall_iff]
  refine forall₅_congr fun pre e post _ hstart => ?_
  exact (Watched.running_eq_zero_iff hstart.1).trans (forall₂_congr fun n _ => handler_ended_iff n)

/-- The child exits and is started again, without a timeout and with one that is not over. -/
theorem second_handler_runs :
    let events : List Event :=
      [.process (.exit 0), .process (.wait true), .process (.wait true), .process (.wait true), .process (.wait true)]
    (Watched.after true 0 events).running = 2 ∧ (Watched.after true 60000000000 events).running = 2 ∧
      (Watched.after true 60000000000 (events ++ [.pass 2000000000, .tick 0, .tick 1])).running = 2 := by
  decide

end RoadRunner.Service
