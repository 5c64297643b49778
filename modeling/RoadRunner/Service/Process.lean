import RoadRunner.Lib.Run
import RoadRunner.Lib.Update

/-!
# Stopping a service process

The model of `start`, `wait` and `stop` of `service/process.go`. A process has a goroutine that waits for the
child, reads the flag `stopped`, sleeps for the restart delay, and starts the next child; `stop` sets the flag and
then, with the lock, kills the child that `command` has.

* `Place`: where the goroutine is. The part of `start` under the lock is one step, since `stop` needs the lock too;
  only a failed `Start` may keep the lock for longer, while it waits to report its error.
* `stays_iff`: the process stays stopped whatever happens then, exactly if the goroutine is not between its look at
  the flag and the next start when `stop` returns.
-/

namespace RoadRunner.Service

/-- Where the goroutine of `wait` is. -/
inductive Place where
  /-- In `command.Wait()`. -/
  | waits
  /-- About to load `stopped`. -/
  | loads
  /-- In the restart delay. -/
  | sleeps
  /-- About to take the lock in `start`. -/
  | locks
  /-- In `start` with the lock, about to send the error of `Start` to `errCh`. -/
  | reports
  | ended
  deriving DecidableEq

/-- Where the call of `stop` is. -/
inductive Calling where
  | idle
  /-- About to take the lock. -/
  | locks
  | returned
  deriving DecidableEq

/-- A child process. -/
structure Child where
  running : Bool := true
  killed : Bool := false
  /-- It was started after `stop` had returned. -/
  late : Bool := false
  deriving DecidableEq

/-- `Process`, with its goroutine and `stop`. -/
structure Process where
  remainAfterExit : Bool
  stopped : Bool := false
  /-- The children, as they were started. -/
  children : List Child := [{}]
  /-- The child that is `command.Process`, if that is not nil. -/
  command : Option Nat := some 0
  wait : Place := .waits
  stop : Calling := .idle
  deriving DecidableEq

/-- What can happen. -/
inductive Move where
  /-- The `n`-th child exits. -/
  | exit (n : Nat)
  /-- The goroutine takes a step. `ok` if `Start` succeeds, or `errCh` takes the error. -/
  | wait (ok : Bool)
  | stop
  deriving DecidableEq

/-- The child that the goroutine waits for runs. -/
def Process.alive (p : Process) : Bool := p.children.getLast?.any Child.running

/-- A step of the goroutine of `wait`, with the `start` that it calls. -/
def Process.waitStep (p : Process) (ok : Bool) : Process :=
  match p.wait with
  | .waits =>
    if p.alive then p
    else { p with wait := if p.remainAfterExit then .loads else .ended }
  | .loads => { p with wait := if p.stopped then .ended else .sleeps }
  | .sleeps => { p with wait := .locks }
  | .locks =>
    if ok then
      { p with
        children := p.children ++ [{ late := p.stop = .returned }]
        command := some p.children.length
        wait := .waits }
    else { p with command := none, wait := .reports }
  | .reports => if ok then { p with wait := .ended } else p
  | .ended => p

/-- The children after a kill signal to `command.Process`. -/
def Process.kill (p : Process) : List Child :=
  match p.command with
  | some n => p.children.modify n fun c => { c with killed := true }
  | none => p.children

/-- A step of `stop`. The lock is taken while an error is reported. -/
def Process.stopStep (p : Process) : Process :=
  match p.stop with
  | .idle => { p with stopped := true, stop := .locks }
  | .locks =>
    if p.wait = .reports then p
    else { p with children := p.kill, stop := .returned }
  | .returned => p

/-- One move. -/
def step (p : Process) : Move → Process
  | .exit n => { p with children := p.children.modify n fun c => { c with running := false } }
  | .wait ok => p.waitStep ok
  | .stop => p.stopStep

/-- Once `stop` has returned, no child was started since, and none runs that was not killed. -/
def Stays (p : Process) : Prop :=
  p.stop = .returned → ∀ c ∈ p.children, c.late = false ∧ (c.running = true → c.killed = true)

/-- The goroutine has found the flag unset and will start a child. -/
def Process.Restarting (p : Process) : Prop := p.wait = .sleeps ∨ p.wait = .locks

instance (p : Process) : Decidable p.Restarting := inferInstanceAs (Decidable (_ ∨ _))

/-! ## In every state -/

/-- The flag is set once `stop` has begun; only the last child can run, while the goroutine waits for it and
`command` has it; and no child is late before `stop` has returned. -/
structure Inv (p : Process) : Prop where
  flag : p.stop ≠ .idle → p.stopped = true
  only : ∀ n c, p.children[n]? = some c → c.running = true →
    n + 1 = p.children.length ∧ p.command = some n ∧ p.wait = .waits
  early : p.stop ≠ .returned → ∀ c ∈ p.children, c.late = false

theorem inv_init (remainAfterExit : Bool) : Inv { remainAfterExit } := by
  refine ⟨fun h => absurd rfl h, fun n c hc _ => ?_, fun _ c hc => ?_⟩
  · obtain ⟨rfl, rfl⟩ : n = 0 ∧ c = {} := by
      cases n with
      | zero => exact ⟨rfl, (Option.some.inj hc).symm⟩
      | succ n => cases hc
    exact ⟨rfl, rfl, rfl⟩
  · rw [List.mem_singleton.mp hc]

/-- If the goroutine does not wait, or the last child does not run, none does. -/
theorem Inv.not_running {p : Process} (h : Inv p) (hidle : p.wait = .waits → p.alive = false) {n : Nat} {c : Child}
    (hc : p.children[n]? = some c) : c.running = false := by
  by_contra hrun
  obtain ⟨hlast, -, hwaits⟩ := h.only n c hc (by simpa using hrun)
  have halive := hidle hwaits
  rw [Process.alive, List.getLast?_eq_getElem?, show p.children.length - 1 = n by omega, hc] at halive
  exact hrun halive

/-- A kill signal marks the child of `command`, and changes nothing else. -/
theorem getElem?_kill {p : Process} {n : Nat} {c : Child} (hc : p.kill[n]? = some c) :
    ∃ d, p.children[n]? = some d ∧ c.running = d.running ∧ c.late = d.late ∧
      (p.command = some n → c.killed = true) := by
  unfold Process.kill at hc
  split at hc
  case h_1 k hcmd =>
    rw [List.getElem?_modify] at hc
    obtain ⟨d, hd, rfl⟩ := Option.map_eq_some_iff.mp hc
    refine ⟨d, hd, ?_⟩
    by_cases hk : k = n
    · simp [hk]
    · simp [hk, hcmd]
  case h_2 hcmd => exact ⟨c, hc, rfl, rfl, by rw [hcmd]; nofun⟩

@[simp] theorem length_kill (p : Process) : p.kill.length = p.children.length := by
  unfold Process.kill
  split <;> simp

/-- The goroutine goes on and no child runs, whatever `command` is. -/
theorem Inv.moves {p : Process} (h : Inv p) (hidle : p.wait = .waits → p.alive = false) (command : Option Nat)
    (place : Place) : Inv { p with command := command, wait := place } := by
  refine ⟨h.flag, fun n c hc hr => ?_, h.early⟩
  rw [h.not_running hidle hc] at hr
  cases hr

theorem Inv.exit {p : Process} (h : Inv p) (n : Nat) : Inv (step p (.exit n)) := by
  refine ⟨h.flag, fun m c hc hr => ?_, fun hstop => ?_⟩
  · rw [step, List.getElem?_modify] at hc
    obtain ⟨d, hd, rfl⟩ := Option.map_eq_some_iff.mp hc
    by_cases hn : n = m
    · simp [hn] at hr
    · simpa [step] using h.only m d hd (by simpa [hn] using hr)
  · exact Update.forall_modify (f := fun c => { c with running := false }) (h.early hstop) (fun c hc => hc) n

/-- The next child is the last, and `command`. -/
theorem Inv.start {p : Process} (h : Inv p) (hidle : p.wait = .waits → p.alive = false) :
    Inv { p with
      children := p.children ++ [{ late := p.stop = .returned }]
      command := some p.children.length
      wait := .waits } := by
  refine ⟨h.flag, fun n c hc hr => ?_, fun hstop => ?_⟩
  · rw [List.getElem?_append] at hc
    split at hc
    · rw [h.not_running hidle hc] at hr
      cases hr
    · rename_i hn
      have hn' : n = p.children.length := by
        obtain ⟨hlt, -⟩ := List.getElem?_eq_some_iff.mp hc
        simp at hlt
        omega
      subst hn'
      simp
  · exact Update.forall_concat (h.early hstop) (decide_eq_false hstop)

theorem Inv.waitStep {p : Process} (h : Inv p) (ok : Bool) : Inv (p.waitStep ok) := by
  -- away from `command.Wait()` no child runs
  have hidle : p.wait ≠ .waits → p.wait = .waits → p.alive = false := fun hne hwait => absurd hwait hne
  rw [Process.waitStep]
  split
  case h_1 hwait =>
    split
    · exact h
    · rename_i halive
      exact h.moves (fun _ => by simpa using halive) _ _
  case h_2 hwait => exact h.moves (hidle (by rw [hwait]; nofun)) _ _
  case h_3 hwait => exact h.moves (hidle (by rw [hwait]; nofun)) _ _
  case h_4 hwait =>
    split
    · exact h.start (hidle (by rw [hwait]; nofun))
    · exact h.moves (hidle (by rw [hwait]; nofun)) _ _
  case h_5 hwait =>
    split
    · exact h.moves (hidle (by rw [hwait]; nofun)) _ _
    · exact h
  case h_6 => exact h

theorem Inv.stopStep {p : Process} (h : Inv p) : Inv p.stopStep := by
  rw [Process.stopStep]
  split
  case h_1 hstop => exact ⟨fun _ => rfl, h.only, fun _ => h.early (by rw [hstop]; nofun)⟩
  case h_2 hstop =>
    have hflag := h.flag (by rw [hstop]; nofun)
    split
    · exact h
    · refine ⟨fun _ => hflag, fun n c hc hr => ?_, fun hne => absurd rfl hne⟩
      obtain ⟨d, hd, hrun, -⟩ := getElem?_kill hc
      simpa using h.only n d hd (hrun ▸ hr)
  case h_3 => exact h

theorem inv_step {p : Process} (h : Inv p) (m : Move) : Inv (step p m) := by
  cases m with
  | exit n => exact h.exit n
  | wait ok => exact h.waitStep ok
  | stop => exact h.stopStep

/-! ## After `stop` has returned -/

/-- `stop` has returned, the goroutine will not start a child, and no child is late or runs without having been
killed. -/
structure After (p : Process) : Prop where
  stopped : p.stopped = true
  returned : p.stop = .returned
  place : p.wait = .waits ∨ p.wait = .loads ∨ p.wait = .ended
  children : ∀ c ∈ p.children, c.late = false ∧ (c.running = true → c.killed = true)

theorem after_step {p : Process} (h : After p) (m : Move) : After (step p m) := by
  cases m with
  | exit n =>
    refine ⟨h.stopped, h.returned, h.place, Update.forall_modify h.children (fun c hc => ?_) n⟩
    exact ⟨hc.1, fun hr => by cases hr⟩
  | wait ok =>
    rw [step, Process.waitStep]
    rcases h.place with hwait | hwait | hwait
    · rw [hwait]
      dsimp only
      split
      · exact h
      · refine ⟨h.stopped, h.returned, ?_, h.children⟩
        split
        · exact .inr (.inl rfl)
        · exact .inr (.inr rfl)
    · rw [hwait]
      exact ⟨h.stopped, h.returned, .inr (.inr (if_pos h.stopped)), h.children⟩
    · rw [hwait]
      exact h
  | stop =>
    rw [step, Process.stopStep, h.returned]
    exact h

/-- The return of `stop`, if the goroutine is not about to start a child. -/
theorem after_stop {p : Process} (h : Inv p) (hstop : p.stop = .locks) (hfree : p.wait ≠ .reports)
    (hplace : ¬ p.Restarting) : After (step p .stop) := by
  rw [step, Process.stopStep, hstop]
  dsimp only
  rw [if_neg hfree]
  have hlate := h.early (by rw [hstop]; nofun)
  refine ⟨h.flag (by rw [hstop]; nofun), rfl, ?_, fun c hc => ?_⟩
  · unfold Process.Restarting at hplace
    cases hw : p.wait <;> simp_all
  · obtain ⟨n, hn⟩ := List.mem_iff_getElem?.mp hc
    obtain ⟨d, hd, hrun, hl, hkilled⟩ := getElem?_kill hn
    refine ⟨hl.trans (hlate d (List.mem_of_getElem? hd)), fun hr => hkilled ?_⟩
    exact (h.only n d hd (hrun ▸ hr)).2.1

/-- A child that is started after `stop` has returned is late. -/
theorem not_stays_of_start (p : Process) (hwait : p.wait = .locks) (hstop : p.stop = .returned) :
    ¬ Stays (step p (.wait true)) := by
  intro h
  have heq : step p (.wait true) =
      { p with
        children := p.children ++ [{ late := p.stop = .returned }]
        command := some p.children.length
        wait := .waits } := by
    rw [step, Process.waitStep, hwait]
    rfl
  rw [heq] at h
  have hlate := (h hstop _ (List.mem_append_right _ List.mem_cons_self)).1
  simp [hstop] at hlate

theorem After.stays {p : Process} (h : After p) : Stays p := fun _ => h.children

/-- **A stopped service stays stopped** exactly if it is not restarting: for every run up to the moment at which
`stop` gets the lock, no child is started and none is left running whatever happens after `stop` has returned,
exactly if the goroutine is not between its look at the flag and the next start. -/
theorem stays_iff (remainAfterExit : Bool) (pre : List Move)
    (hstop : (Run.exec step { remainAfterExit } pre).stop = .locks)
    (hfree : (Run.exec step { remainAfterExit } pre).wait ≠ .reports) :
    (∀ post, Stays (Run.exec step { remainAfterExit } (pre ++ .stop :: post))) ↔
      ¬ (Run.exec step { remainAfterExit } pre).Restarting := by
  have hinv : Inv (Run.exec step { remainAfterExit } pre) :=
    Run.exec_invariant (I := Inv) (fun p m h => inv_step h m) pre (inv_init remainAfterExit)
  have hexec : ∀ post, Run.exec step { remainAfterExit } (pre ++ .stop :: post) =
      Run.exec step (step (Run.exec step { remainAfterExit } pre) .stop) post := by
    intro post
    rw [Run.exec, List.foldl_append]
    rfl
  simp only [hexec]
  generalize Run.exec step { remainAfterExit } pre = p at *
  constructor
  · intro h hplace
    -- the goroutine goes on to start a child
    have hret : step p .stop = { p with children := p.kill, stop := .returned } := by
      rw [step, Process.stopStep, hstop]
      exact if_neg hfree
    rw [hret] at h
    rcases hplace with hwait | hwait
    · have hlocks : step { p with children := p.kill, stop := .returned } (.wait true) =
          { p with children := p.kill, stop := .returned, wait := .locks } := by
        rw [step, Process.waitStep, hwait]
      have hstays := h [.wait true, .wait true]
      rw [Run.exec_cons, hlocks] at hstays
      exact not_stays_of_start { p with children := p.kill, stop := .returned, wait := .locks } rfl rfl hstays
    · exact not_stays_of_start { p with children := p.kill, stop := .returned } hwait rfl (h [.wait true])
  · intro hplace post
    have hafter := after_stop hinv hstop hfree hplace
    exact (Run.exec_invariant (I := After) (fun q m h => after_step h m) post hafter).stays

/-- `stop` is called while the child runs. -/
theorem stays_while_waiting :
    let pre := [Move.stop]
    ∀ post, Stays (Run.exec step { remainAfterExit := true } (pre ++ .stop :: post)) :=
  (stays_iff true [.stop] rfl nofun).mpr (by decide)

/-- The child exits, the goroutine finds the flag unset and sleeps; `stop` is called and returns; and then the
goroutine starts a child, which runs and has not been killed. -/
theorem restarted_after_stop :
    let p := Run.exec step { remainAfterExit := true }
      [.exit 0, .wait true, .wait true, .stop, .stop, .wait true, .wait true]
    p.stop = .returned ∧ p.children = [{ running := false, killed := true }, { late := true }] ∧ ¬ Stays p := by
  intro p
  refine ⟨by decide, by decide, fun h => ?_⟩
  exact absurd (h (by decide) { late := true } (by decide)).1 (by decide)

end RoadRunner.Service
