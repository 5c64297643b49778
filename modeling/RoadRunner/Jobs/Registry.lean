import RoadRunner.Jobs.Declare
import RoadRunner.Lib.Update

/-!
# The two maps under concurrent calls

`Declare` and `Destroy` of `jobs/plugin.go` again, now as calls that run side by side and whose driver calls
all succeed. Each `Load`, `Store` and `LoadAndDelete` is one step; what comes before the first of them and
after the last (the constructor, `Register`, `Run`, `Stop`) does not touch the maps.

* `Progress`: a call by the step it takes next; `act`: that step. `act_declare`, `act_destroy`: the steps of a
  call that runs alone are `Dynamic.declare` and `Dynamic.destroy`.
* `Progress.half`: the call has changed `consumers` and not yet `pipelines`. `Acted`: what a step can do, in
  these terms.
* `Exclusive`: no call changes `consumers` under a name for which a call of the other kind is half-way.
* `registry_agrees`: with `Exclusive` steps the two maps have the same names whenever no call is in progress.
* `settles_iff_exclusive`: the condition is exact if the calls that are half-way may finish in any order.
-/

namespace RoadRunner.Jobs.Pipelines

/-- A call in progress, by the step it takes next. -/
inductive Progress (D : Type) where
  /-- `Declare`: `consumers.Store`. -/
  | storeConsumer (pipeline : Pipeline) (d : D)
  /-- `Declare`: `pipelines.Store`. -/
  | storePipeline (pipeline : Pipeline)
  /-- `Destroy`: `pipelines.Load`. -/
  | load (pp : Bytes)
  /-- `Destroy`: `consumers.LoadAndDelete`. -/
  | deleteConsumer (pp : Bytes) (ppl : Pipeline)
  /-- `Destroy`: `pipelines.LoadAndDelete`. -/
  | deletePipeline (pp : Bytes)
  | returned
  deriving DecidableEq

namespace Concurrent

variable {D : Type}

/-- The next step of a call, with the step it takes then. -/
def act (r : Registry D) : Progress D → Registry D × Progress D
  | .storeConsumer pipeline d =>
    ({ r with consumers := Function.update r.consumers pipeline.name (some d) }, .storePipeline pipeline)
  | .storePipeline pipeline =>
    ({ r with pipelines := Function.update r.pipelines pipeline.name (some pipeline) }, .returned)
  | .load pp =>
    match r.pipelines pp with
    | none => (r, .returned)
    | some ppl => (r, .deleteConsumer pp ppl)
  | .deleteConsumer pp ppl =>
    match r.consumers ppl.name with
    | none => (r, .returned)
    | some _ => ({ r with consumers := Function.update r.consumers ppl.name none }, .deletePipeline pp)
  | .deletePipeline pp => ({ r with pipelines := Function.update r.pipelines pp none }, .returned)
  | .returned => (r, .returned)

/-- The registry, with the calls in progress. -/
structure State (D : Type) extends Registry D where
  calls : List (Progress D) := []

/-- A call begins, or goes on. -/
inductive Move (D : Type) where
  /-- A `Declare` whose driver is known and has made the consumer `d`. -/
  | declare (pipeline : Pipeline) (d : D)
  | destroy (pp : Bytes)
  | next (i : Nat)
  deriving DecidableEq

/-- The `i`-th call takes its next step. -/
def State.next (s : State D) (i : Nat) : State D :=
  match s.calls[i]? with
  | none => s
  | some c => ⟨(act s.toRegistry c).1, s.calls.set i (act s.toRegistry c).2⟩

/-- One move. -/
def State.step (s : State D) : Move D → State D
  | .declare pipeline d => { s with calls := s.calls ++ [.storeConsumer pipeline d] }
  | .destroy pp => { s with calls := s.calls ++ [.load pp] }
  | .next i => s.next i

/-- No pipeline is declared. -/
def start : State D := { pipelines := fun _ => none, consumers := fun _ => none }

/-- A `Declare` that runs alone. -/
theorem act_declare (s : Dynamic) {pipeline : Pipeline} (hne : pipeline.driver ≠ [])
    (hmem : pipeline.driver ∈ s.jobConstructors) :
    (act (act s.toRegistry (.storeConsumer pipeline s.built.length)).1 (.storePipeline pipeline)).1 =
      (s.declare pipeline none none none).2.toRegistry := by
  by_cases hc : pipeline.name ∈ s.consume
  · simp [Dynamic.declare, hne, hmem, hc, act, Dynamic.store, Dynamic.build]
  · simp [Dynamic.declare, hne, hmem, hc, act, Dynamic.store, Dynamic.build]

/-- A `Destroy` that runs alone. -/
theorem act_destroy (s : Dynamic) (pp : Bytes) :
    let a := act s.toRegistry (.load pp)
    let b := act a.1 a.2
    (act b.1 b.2).1 = (s.destroy pp none).2.toRegistry := by
  dsimp only
  unfold Dynamic.destroy
  cases hppl : s.pipelines pp with
  | none => simp [act, hppl]
  | some ppl =>
    cases hd : s.consumers ppl.name with
    | none => simp [act, hppl, hd]
    | some d => simp [act, hppl, hd, Dynamic.delete, Dynamic.stop]

end Concurrent

/-! ## Calls that are half-way -/

/-- The call has changed `consumers` under a name and not yet `pipelines`: `true` for a `Declare`. -/
def Progress.half {D : Type} : Progress D → Option (Bool × Bytes)
  | .storePipeline pipeline => some (true, pipeline.name)
  | .deletePipeline pp => some (false, pp)
  | _ => none

/-- A pipeline is loaded under its own name. -/
def Progress.Named {D : Type} : Progress D → Prop
  | .deleteConsumer pp ppl => ppl.name = pp
  | _ => True

namespace Concurrent

variable {D : Type}

/-- What a step of a call can do: nothing to the maps, the first change or the second one. -/
inductive Acted (r : Registry D) (c : Progress D) : Registry D → Progress D → Prop where
  | idle {c' : Progress D} (h : c.half = none) (h' : c'.half = none) : Acted r c r c'
  | opened {c' : Progress D} {consumers : Bytes → Option D} {b : Bool} {n : Bytes} (h : c.half = none)
      (h' : c'.half = some (b, n)) (hn : (consumers n).isSome = b)
      (hne : ∀ m, m ≠ n → consumers m = r.consumers m) : Acted r c { r with consumers } c'
  | closed {pipelines : Bytes → Option Pipeline} {b : Bool} {n : Bytes} (h : c.half = some (b, n))
      (hn : (pipelines n).isSome = b) (hne : ∀ m, m ≠ n → pipelines m = r.pipelines m) :
      Acted r c { r with pipelines } .returned

theorem acted_act (r : Registry D) {c : Progress D} (hc : c.Named) : Acted r c (act r c).1 (act r c).2 := by
  cases c with
  | storeConsumer pipeline d =>
    exact .opened (n := pipeline.name) rfl rfl (by rw [Function.update_self]; rfl)
      fun m hm => Function.update_of_ne hm _ _
  | storePipeline pipeline =>
    exact .closed rfl (by rw [Function.update_self]; rfl) fun m hm => Function.update_of_ne hm _ _
  | load pp =>
    cases h : r.pipelines pp with
    | none => simpa only [act, h] using .idle rfl rfl
    | some ppl => simpa only [act, h] using .idle rfl rfl
  | deleteConsumer pp ppl =>
    obtain rfl : ppl.name = pp := hc
    cases h : r.consumers ppl.name with
    | none => simpa only [act, h] using .idle rfl rfl
    | some d =>
      simp only [act, h]
      exact .opened (n := ppl.name) rfl rfl (by rw [Function.update_self]; rfl)
        fun m hm => Function.update_of_ne hm _ _
  | deletePipeline pp =>
    exact .closed (n := pp) rfl (by rw [Function.update_self]; rfl) fun m hm => Function.update_of_ne hm _ _
  | returned => exact .idle rfl rfl

/-- How many calls are half-way on the name `n`: calls of `Declare` if `b`, and else of `Destroy`. -/
def State.pending (s : State D) (b : Bool) (n : Bytes) : Nat :=
  s.calls.countP fun c => c.half = some (b, n)

/-- Every pipeline is kept under its name. -/
structure State.Named (s : State D) : Prop where
  pipelines : ∀ n ppl, s.pipelines n = some ppl → ppl.name = n
  calls : ∀ c ∈ s.calls, c.Named

/-- The consumer of a name on which a call is half-way is there if the call is a `Declare`, and else it is not;
on other names the maps agree. -/
structure State.Ok (s : State D) : Prop extends s.Named where
  half : ∀ b n, 0 < s.pending b n → (s.consumers n).isSome = b
  agree : ∀ n, (∀ b, s.pending b n = 0) → (s.pipelines n).isSome = (s.consumers n).isSome

/-- The call that the `i`-th one is after its next step. -/
def State.after (s : State D) (i : Nat) : Option (Progress D) := (s.calls[i]?).map fun c => (act s.toRegistry c).2

/-- A call that gets half-way finds no call of the other kind half-way on the name. -/
def Exclusive (s : State D) : Move D → Prop
  | .declare _ _ => True
  | .destroy _ => True
  | .next i => ∀ h ∈ (s.after i).bind Progress.half, s.pending (!h.1) h.2 = 0

instance (s : State D) : (m : Move D) → Decidable (Exclusive s m)
  | .declare _ _ => inferInstanceAs (Decidable True)
  | .destroy _ => inferInstanceAs (Decidable True)
  | .next i => inferInstanceAs (Decidable (∀ h ∈ (s.after i).bind Progress.half, s.pending (!h.1) h.2 = 0))

theorem act_named {r : Registry D} (hr : ∀ n ppl, r.pipelines n = some ppl → ppl.name = n) (c : Progress D) :
    (∀ n ppl, (act r c).1.pipelines n = some ppl → ppl.name = n) ∧ (act r c).2.Named := by
  cases c with
  | storeConsumer pipeline d => exact ⟨hr, trivial⟩
  | storePipeline pipeline =>
    refine ⟨fun n ppl h => ?_, trivial⟩
    rcases Update.of_update h with ⟨rfl, hnew⟩ | ⟨-, hold⟩
    · rw [← Option.some.inj hnew]
    · exact hr n ppl hold
  | load pp =>
    cases h : r.pipelines pp with
    | none => simpa only [act, h] using ⟨hr, trivial⟩
    | some ppl => simpa only [act, h] using ⟨hr, hr pp ppl h⟩
  | deleteConsumer pp ppl =>
    cases h : r.consumers ppl.name with
    | none => simpa only [act, h] using ⟨hr, trivial⟩
    | some d => simpa only [act, h] using ⟨hr, trivial⟩
  | deletePipeline pp =>
    refine ⟨fun n ppl h => ?_, trivial⟩
    rcases Update.of_update h with ⟨-, hnone⟩ | ⟨-, hold⟩
    · cases hnone
    · exact hr n ppl hold
  | returned => exact ⟨hr, trivial⟩

/-- The `i`-th call, now at `c`, goes on to `c'`. -/
theorem pending_set {calls : List (Progress D)} {i : Nat} {c : Progress D} (h : calls[i]? = some c)
    (c' : Progress D) (b : Bool) (n : Bytes) :
    (calls.set i c').countP (fun c => c.half = some (b, n)) + (decide (c.half = some (b, n))).toNat =
      calls.countP (fun c => c.half = some (b, n)) + (decide (c'.half = some (b, n))).toNat :=
  Update.countP_set _ h c'

theorem State.Named.next {s : State D} (hs : s.Named) (i : Nat) : (s.next i).Named := by
  unfold State.next
  split
  · exact hs
  · rename_i c hc
    have hact := act_named hs.pipelines c
    exact ⟨hact.1, Update.forall_set hs.calls i hact.2⟩

theorem pending_half_pos {s : State D} {i : Nat} {c : Progress D} (hc : s.calls[i]? = some c) {b : Bool} {n : Bytes}
    (h : c.half = some (b, n)) : 0 < s.pending b n :=
  List.countP_pos_iff.mpr ⟨c, List.mem_of_getElem? hc, decide_eq_true h⟩

/-- A call takes an exclusive step. -/
theorem State.Ok.acted {s : State D} (hs : s.Ok) {i : Nat} {c c' : Progress D} {r : Registry D}
    (hc : s.calls[i]? = some c) (hact : Acted s.toRegistry c r c')
    (hex : ∀ b n, c'.half = some (b, n) → s.pending (!b) n = 0) :
    (∀ b n, 0 < (⟨r, s.calls.set i c'⟩ : State D).pending b n → (r.consumers n).isSome = b) ∧
      ∀ n, (∀ b, (⟨r, s.calls.set i c'⟩ : State D).pending b n = 0) →
        (r.pipelines n).isSome = (r.consumers n).isSome := by
  have hset : ∀ b n, (⟨r, s.calls.set i c'⟩ : State D).pending b n + (decide (c.half = some (b, n))).toNat =
      s.pending b n + (decide (c'.half = some (b, n))).toNat := pending_set hc c'
  cases hact with
  | idle h h' =>
    have heq : ∀ b n, (⟨s.toRegistry, s.calls.set i c'⟩ : State D).pending b n = s.pending b n := by
      intro b n
      simpa [h, h'] using hset b n
    exact ⟨fun b n hp => hs.half b n (heq b n ▸ hp), fun n hp => hs.agree n fun b => heq b n ▸ hp b⟩
  | @opened _ consumers b n h h' hn hne =>
    have heq : ∀ b' m, m ≠ n →
        (⟨{ s.toRegistry with consumers }, s.calls.set i c'⟩ : State D).pending b' m = s.pending b' m := by
      intro b' m hm
      simpa [h, h', hm.symm] using hset b' m
    refine ⟨fun b' m hp => ?_, fun m hp => ?_⟩
    · by_cases hm : m = n
      · subst hm
        change (consumers m).isSome = b'
        by_cases hb : b' = b
        · rw [hb]; exact hn
        · -- no call of the other kind is half-way on the name
          obtain rfl : b' = !b := Bool.eq_not.mpr hb
          have hzero := hex b m h'
          have := hset (!b) m
          simp [h, h', hzero] at this
          omega
      · change (consumers m).isSome = b'
        rw [hne m hm]
        exact hs.half b' m (heq b' m hm ▸ hp)
    · by_cases hm : m = n
      · subst hm
        have := hset b m
        simp [h, h', hp b] at this
      · change (s.pipelines m).isSome = (consumers m).isSome
        rw [hne m hm]
        exact hs.agree m fun b' => heq b' m hm ▸ hp b'
  | @closed pipelines b n h hn hne =>
    have heq : ∀ b' m, (⟨{ s.toRegistry with pipelines }, s.calls.set i .returned⟩ : State D).pending b' m +
        (decide (some (b, n) = some (b', m))).toNat = s.pending b' m := by
      intro b' m
      rw [← h]
      exact hset b' m
    refine ⟨fun b' m hp => ?_, fun m hp => ?_⟩
    · exact hs.half b' m (Nat.lt_of_lt_of_le hp (heq b' m ▸ Nat.le_add_right _ _))
    · by_cases hm : m = n
      · subst hm
        change (pipelines m).isSome = (s.consumers m).isSome
        rw [hn, hs.half b m (pending_half_pos hc h)]
      · change (pipelines m).isSome = (s.consumers m).isSome
        rw [hne m hm]
        refine hs.agree m fun b' => ?_
        have := heq b' m
        simp [hp b', Ne.symm hm] at this
        omega

theorem State.Ok.next {s : State D} (hs : s.Ok) {i : Nat} (hex : Exclusive s (.next i)) : (s.next i).Ok := by
  have hnamed := hs.toNamed.next i
  unfold State.next at hnamed ⊢
  split
  · exact hs
  · rename_i c hc
    rw [hc] at hnamed
    obtain ⟨hhalf, hagree⟩ := hs.acted hc (acted_act s.toRegistry (hs.calls c (List.mem_of_getElem? hc)))
      fun b n h => hex (b, n) (by simp [State.after, hc, h])
    exact ⟨hnamed, hhalf, hagree⟩

/-- A call that starts is not half-way. -/
theorem State.Ok.start {s : State D} (hs : s.Ok) {c : Progress D} (hc : c.half = none) (hnamed : c.Named) :
    ({ s with calls := s.calls ++ [c] } : State D).Ok := by
  have heq : ∀ b n, ({ s with calls := s.calls ++ [c] } : State D).pending b n = s.pending b n := by
    intro b n
    change (s.calls ++ [c]).countP _ = s.calls.countP _
    rw [Update.countP_concat, hc]
    simp
  exact ⟨⟨hs.pipelines, Update.forall_concat hs.calls hnamed⟩, fun b n hp => hs.half b n (heq b n ▸ hp),
    fun n hp => hs.agree n fun b => heq b n ▸ hp b⟩

theorem State.Ok.step {s : State D} (hs : s.Ok) {m : Move D} (hex : Exclusive s m) : (s.step m).Ok := by
  cases m with
  | declare pipeline d => exact hs.start rfl trivial
  | destroy pp => exact hs.start rfl trivial
  | next i => exact hs.next hex

theorem ok_start : (start : State D).Ok :=
  ⟨⟨fun _ _ h => (nomatch h), List.forall_mem_nil _⟩, fun _ _ h => absurd h (Nat.lt_irrefl 0), fun _ _ => rfl⟩

/-- No call is in progress. -/
def State.Quiet (s : State D) : Prop := ∀ c ∈ s.calls, c = .returned

instance [DecidableEq D] (s : State D) : Decidable s.Quiet :=
  inferInstanceAs (Decidable (∀ c ∈ s.calls, c = .returned))

/-- Whenever no call is in progress, the two maps have the same names, if the steps are exclusive. -/
theorem registry_agrees {moves : List (Move D)} (hex : Run.Along State.step Exclusive start moves)
    {before after : List (Move D)} (hmoves : moves = before ++ after)
    (hquiet : (Run.exec State.step (start : State D) before).Quiet) (n : Bytes) :
    ((Run.exec State.step (start : State D) before).pipelines n).isSome ↔
      ((Run.exec State.step (start : State D) before).consumers n).isSome := by
  have hbefore : Run.Along State.step Exclusive (start : State D) before :=
    (Run.Along.append.mp (hmoves ▸ hex)).1
  have hok : (Run.exec State.step (start : State D) before).Ok :=
    hbefore.invariant (fun _ _ hs hc => hs.step hc) ok_start
  refine iff_of_eq (congrArg (· = true) (hok.agree n fun b => ?_))
  refine List.countP_eq_zero.mpr fun c hc => ?_
  rw [hquiet c hc]
  simp [Progress.half]

/-- The pipeline `p`. -/
def pipelineP : Pipeline := ⟨ascii "p", ascii "memory", 10⟩

/-- `Declare` of the pipeline `p` from its start to its end. -/
def declaredP : List (Move Nat) := [.declare pipelineP 0, .next 0, .next 0]

/-- `Destroy` of the pipeline `p`, while the pipeline `q` is declared: each step of one call is between steps of the
other. -/
def overlapping : List (Move Nat) :=
  declaredP ++ ([.destroy (ascii "p"), .declare ⟨ascii "q", ascii "memory", 10⟩ 1, .next 1, .next 2, .next 1, .next 2,
    .next 1] : List (Move Nat))

theorem registry_agrees_overlapping :
    let s := Run.exec State.step start overlapping
    Run.Along State.step Exclusive start overlapping ∧ s.Quiet ∧ s.consumers (ascii "q") = some 1 ∧
      ∀ n, (s.pipelines n).isSome ↔ (s.consumers n).isSome := by
  have hex : Run.Along State.step Exclusive start overlapping := by decide +kernel
  have hquiet : (Run.exec State.step start overlapping).Quiet := by decide +kernel
  exact ⟨hex, hquiet, by decide +kernel, registry_agrees hex (List.append_nil _).symm hquiet⟩

/-- The pipeline `p` is destroyed while it is declared again. In the first run the second `Declare` stores its
consumer before, and its pipeline after, both deletions; in the second one it stores both in between. -/
theorem registry_differs :
    let stored := Run.exec State.step start (declaredP ++ ([.destroy (ascii "p"), .next 1, .declare pipelineP 1,
      .next 2, .next 1, .next 1, .next 2] : List (Move Nat)))
    let deleted := Run.exec State.step start (declaredP ++ ([.destroy (ascii "p"), .next 1, .next 1,
      .declare pipelineP 1, .next 2, .next 2, .next 1] : List (Move Nat)))
    (stored.Quiet ∧ stored.pipelines (ascii "p") = some pipelineP ∧ stored.consumers (ascii "p") = none) ∧
      deleted.Quiet ∧ deleted.pipelines (ascii "p") = none ∧ deleted.consumers (ascii "p") = some 1 := by
  decide +kernel

/-! ## The condition is exact -/

/-- The `i`-th call takes its next step, if it is half-way. -/
def State.settle (s : State D) (i : Nat) : State D :=
  if ((s.calls[i]?).bind Progress.half).isSome then s.next i else s

/-- No call is half-way. -/
def State.Settled (s : State D) : Prop := ∀ c ∈ s.calls, c.half = none

/-- In whichever order the calls that are half-way finish, the two maps have the same names then. -/
def Settles (s : State D) : Prop :=
  ∀ is, (Run.exec State.settle s is).Settled →
    ∀ n, ((Run.exec State.settle s is).pipelines n).isSome = ((Run.exec State.settle s is).consumers n).isSome

/-- The calls of one kind that are half-way. -/
def State.kind (s : State D) (b : Bool) : Nat := s.calls.countP fun c => c.half.map Prod.fst = some b

/-- A call that was half-way on `n` has returned. -/
structure Closed (s s' : State D) (b : Bool) (n : Bytes) : Prop where
  consumers : s'.consumers = s.consumers
  pipelines : (s'.pipelines n).isSome = b
  others : ∀ m, m ≠ n → s'.pipelines m = s.pipelines m
  pending : ∀ b' m, s'.pending b' m + (decide (some (b, n) = some (b', m))).toNat = s.pending b' m
  kind : ∀ b', s'.kind b' + (decide (some b = some b')).toNat = s.kind b'

theorem settle_closed {s : State D} {i : Nat} {c : Progress D} (hc : s.calls[i]? = some c) {b : Bool} {n : Bytes}
    (h : c.half = some (b, n)) : Closed s (s.settle i) b n := by
  have hnext : s.settle i = ⟨(act s.toRegistry c).1, s.calls.set i (act s.toRegistry c).2⟩ := by
    simp [State.settle, State.next, hc, h]
  have hpending := pending_set hc .returned
  have hkind : ∀ b', (s.calls.set i .returned).countP (fun c => c.half.map Prod.fst = some b') +
      (decide (c.half.map Prod.fst = some b')).toNat =
        s.calls.countP (fun c => c.half.map Prod.fst = some b') :=
    fun b' => Update.countP_set (fun c : Progress D => c.half.map Prod.fst = some b') hc .returned
  rw [h] at hpending hkind
  have hnamed : c.Named := by
    cases c with
    | deleteConsumer => cases h
    | _ => trivial
  have hact := acted_act s.toRegistry hnamed
  rw [hnext]
  generalize (act s.toRegistry c).1 = r, (act s.toRegistry c).2 = c' at hact
  cases hact with
  | idle h' => cases h.symm.trans h'
  | opened h' => cases h.symm.trans h'
  | @closed pipelines b' n' h' hn hne =>
    obtain ⟨rfl, rfl⟩ := Prod.mk.inj (Option.some.inj (h.symm.trans h'))
    exact ⟨rfl, hn, hne, hpending, hkind⟩

theorem State.Ok.settle {s : State D} (hs : s.Ok) (i : Nat) : (s.settle i).Ok := by
  unfold State.settle
  split
  case isFalse => exact hs
  case isTrue h =>
    obtain ⟨⟨b, n⟩, hhalf⟩ := Option.isSome_iff_exists.mp h
    obtain ⟨c, hc, hhalf⟩ := Option.bind_eq_some_iff.mp hhalf
    -- a call that is half-way returns, so its step is exclusive
    refine hs.next fun k hk => ?_
    have hret : (act s.toRegistry c).2.half = none := by
      cases c with
      | storePipeline | deletePipeline | returned => rfl
      | _ => cases hhalf
    simp [State.after, hc, hret] at hk

theorem Ok.settles {s : State D} (hs : s.Ok) : Settles s := by
  intro is hsettled n
  have hok : (Run.exec State.settle s is).Ok := Run.exec_invariant (fun _ i h => h.settle i) is hs
  refine hok.agree n fun b => List.countP_eq_zero.mpr fun c hc => ?_
  simp [hsettled c hc]

/-- All calls of one kind that are half-way can finish. -/
theorem exists_settle {I : State D → Prop} {b : Bool} (hstep : ∀ s s' n, I s → Closed s s' b n → I s')
    {s : State D} (hs : I s) :
    ∃ is, I (Run.exec State.settle s is) ∧ (Run.exec State.settle s is).kind b = 0 := by
  refine Run.exists_drain (I := I) (fun s => s.kind b = 0) (fun s => s.kind b) (fun s hI hne => ?_) hs
  obtain ⟨c, hc, hkind⟩ := List.countP_pos_iff.mp (Nat.pos_of_ne_zero hne)
  obtain ⟨i, hi⟩ := List.getElem?_of_mem hc
  obtain ⟨⟨b', n⟩, hhalf, rfl⟩ := Option.map_eq_some_iff.mp (of_decide_eq_true hkind)
  have hclosed := settle_closed hi hhalf
  refine ⟨i, hstep s _ n hI hclosed, ?_⟩
  have hcount := hclosed.kind b'
  simp only [decide_true, Bool.toNat_true] at hcount
  change (s.settle i).kind b' < s.kind b'
  omega

theorem pending_of_kind {s : State D} {b : Bool} (h : s.kind b = 0) (n : Bytes) : s.pending b n = 0 := by
  refine List.countP_eq_zero.mpr fun c hc hhalf => List.countP_eq_zero.mp h c hc ?_
  simp [of_decide_eq_true hhalf]

theorem settled_of_kind {s : State D} (h : ∀ b, s.kind b = 0) : s.Settled := by
  intro c hc
  cases hhalf : c.half with
  | none => rfl
  | some k => exact absurd (by simp [hhalf]) (List.countP_eq_zero.mp (h k.1) c hc)

/-- A call is half-way on `n` that does not go with the consumer of the name. -/
def Lagging (b : Bool) (n : Bytes) (s : State D) : Prop := (s.consumers n).isSome = b ∧ 0 < s.pending (!b) n

/-- Only calls of this kind are left, and one of them is or was half-way on `n`. -/
def Deciding (b : Bool) (n : Bytes) (s : State D) : Prop :=
  (s.consumers n).isSome = b ∧ s.kind b = 0 ∧ (0 < s.pending (!b) n ∨ (s.pipelines n).isSome = !b)

theorem Lagging.closed {b : Bool} {n m : Bytes} {s s' : State D} (h : Lagging b n s) (hclosed : Closed s s' b m) :
    Lagging b n s' := by
  have hcount := hclosed.pending (!b) n
  simp at hcount
  exact ⟨hclosed.consumers ▸ h.1, hcount ▸ h.2⟩

theorem Deciding.closed {b : Bool} {n m : Bytes} {s s' : State D} (h : Deciding b n s)
    (hclosed : Closed s s' (!b) m) : Deciding b n s' := by
  obtain ⟨hcons, hkind, hpend⟩ := h
  have hcount := hclosed.kind b
  simp at hcount
  refine ⟨hclosed.consumers ▸ hcons, hcount.trans hkind, ?_⟩
  by_cases hm : m = n
  · exact .inr (hm ▸ hclosed.pipelines)
  · have hpending := hclosed.pending (!b) n
    simp [hm] at hpending
    rw [hpending, hclosed.others n (Ne.symm hm)]
    exact hpend

/-- The call that does not go with the consumer may finish last. -/
theorem Lagging.not_settles {b : Bool} {n : Bytes} {s : State D} (h : Lagging b n s) : ¬ Settles s := by
  obtain ⟨is, hlag, hkind⟩ := exists_settle (b := b) (fun _ _ _ hs hclosed => Lagging.closed hs hclosed) h
  have hdeciding : Deciding b n (Run.exec State.settle s is) := ⟨hlag.1, hkind, .inl hlag.2⟩
  obtain ⟨js, ⟨hcons, hkind, hlast⟩, hdone⟩ :=
    exists_settle (b := !b) (fun _ _ _ hs hclosed => Deciding.closed hs hclosed) hdeciding
  intro hsettles
  have hend := hsettles (is ++ js)
  rw [Run.exec, List.foldl_append] at hend
  have hsettled := settled_of_kind (s := Run.exec State.settle (Run.exec State.settle s is) js) fun b' => by
    by_cases hb : b' = b
    · rw [hb]; exact hkind
    · rw [Bool.eq_not.mpr hb]; exact hdone
  have hpipe := hlast.resolve_left (by rw [pending_of_kind hdone n]; exact Nat.lt_irrefl 0)
  have hne : b = !b := hcons.symm.trans ((hend hsettled n).symm.trans hpipe)
  cases b <;> cases hne

/-- The calls that are half-way may finish in any order at any time exactly if the steps are exclusive. -/
theorem settles_iff_exclusive (moves : List (Move D)) :
    (∀ before after, moves = before ++ after → Settles (Run.exec State.step (start : State D) before)) ↔
      Run.Along State.step Exclusive (start : State D) moves := by
  refine Run.Along.always_iff (I := State.Ok) (fun s m hs _ hex => ⟨hs.step hex, Ok.settles (hs.step hex)⟩)
    (fun s m hs _ hsettles => ?_) ok_start (Ok.settles ok_start)
  cases m with
  | declare pipeline d => trivial
  | destroy pp => trivial
  | next i =>
    rintro ⟨b, n⟩ hafter
    obtain ⟨c', hc', hhalf⟩ := Option.bind_eq_some_iff.mp hafter
    obtain ⟨c, hc, rfl⟩ := Option.map_eq_some_iff.mp hc'
    have hact := acted_act s.toRegistry (hs.calls c (List.mem_of_getElem? hc))
    by_contra hne
    refine Lagging.not_settles (b := b) (n := n) ⟨?_, ?_⟩ hsettles
    all_goals
      simp only [State.step, State.next, hc]
      generalize (act s.toRegistry c).1 = r, (act s.toRegistry c).2 = c' at hact hhalf
    · cases hact with
      | idle _ h' => cases h'.symm.trans hhalf
      | opened _ h' hn =>
        obtain ⟨rfl, rfl⟩ := Prod.mk.inj (Option.some.inj (h'.symm.trans hhalf))
        exact hn
      | closed => cases hhalf
    · cases hact with
      | idle _ h' => cases h'.symm.trans hhalf
      | opened h' =>
        have hset := pending_set hc c' (!b) n
        simp [h', hhalf] at hset
        change 0 < (s.calls.set i c').countP _
        rw [hset]
        exact Nat.pos_of_ne_zero hne
      | closed => cases hhalf

end Concurrent

end RoadRunner.Jobs.Pipelines
