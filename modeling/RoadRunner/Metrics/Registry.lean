import RoadRunner.Metrics.Rpc
import RoadRunner.Lib.Interleave

/-!
# Concurrent declarations of collectors

Any number of calls of `Declare` at once. Each takes its three steps in its own time: the look into the map (with
the construction of the collector), the store into the map, and the registration. The store comes before the
registration and is not taken back.

* `Consistent`: if no call is in progress every collector of the map is registered; and a call that has returned an
  error has not changed the map.
* `consistent_iff`: a run is consistent throughout exactly if every registration succeeds.
-/

namespace RoadRunner.Metrics

/-! ## One call -/

/-- Where a `Declare` is. -/
inductive Progress (F : Type) where
  | loads
  | stores (c : Collector F)
  | registers (c : Collector F)
  | ended (out : Outcome)
  deriving DecidableEq

/-- A call of `Declare`. -/
structure Declaring (F : Type) where
  /-- The identity of its collector. -/
  ident : Nat
  nc : NamedCollector F
  progress : Progress F := .loads
  /-- Its store has changed the map. -/
  changed : Bool := false
  deriving DecidableEq

section

variable {F : Type} (env : Prometheus F)

theorem ident_of_load {ident : Nat} {nc : NamedCollector F} {p : Plugin F} {c : Collector F}
    (h : load env ident nc p = .ok c) : c.ident = ident := by
  unfold load newCollector orPanic at h
  repeat' split at h
  all_goals first | cases h; rfl | cases h

/-- A collector of the map after a store is the stored one, or was there. -/
theorem Plugin.of_store {p : Plugin F} {name n : Bytes} {c e : Collector F}
    (h : (p.store name c).collectors n = some e) : n = name ∧ e = c ∨ p.collectors n = some e := by
  rcases Update.of_update h with ⟨hn, hnew⟩ | ⟨-, hold⟩
  · exact .inl ⟨hn, (Option.some.inj hnew).symm⟩
  · exact .inr hold

variable [DecidableEq F]

/-- The next step of a `Declare`. -/
def advance (p : Plugin F) (d : Declaring F) : Plugin F × Declaring F :=
  match d.progress with
  | .loads =>
    match load env d.ident d.nc p with
    | .error out => (p, { d with progress := .ended out })
    | .ok c => (p, { d with progress := .stores c })
  | .stores c =>
    (p.store d.nc.name c, { d with progress := .registers c, changed := p.collectors d.nc.name ≠ some c })
  | .registers c => ((register env c p).2, { d with progress := .ended (register env c p).1 })
  | .ended _ => (p, d)

/-- Three steps in a row are `Declare`. -/
theorem advance_declare (ident : Nat) (nc : NamedCollector F) (p : Plugin F) :
    let once := advance env p { ident, nc }
    let twice := advance env once.1 once.2
    let thrice := advance env twice.1 twice.2
    thrice.1 = (declare env ident nc p).2 ∧ thrice.2.progress = .ended (declare env ident nc p).1 := by
  cases hload : load env ident nc p with
  | error out => simp [advance, declare, hload]
  | ok c => simp [advance, declare, hload]

@[simp] theorem ident_advance (p : Plugin F) (d : Declaring F) : (advance env p d).2.ident = d.ident := by
  unfold advance
  repeat' split
  all_goals rfl

/-- What the step of a call does to the map and to the registry. -/
theorem advance_cases (p : Plugin F) (d : Declaring F) :
    ((advance env p d).1 = p ∧ ∀ c, d.progress ≠ .registers c) ∨
      (∃ c, d.progress = .stores c ∧ (advance env p d).1 = p.store d.nc.name c ∧
        (advance env p d).2.progress = .registers c) ∨
      (∃ c err, d.progress = .registers c ∧ refuses env p.registry c = some err ∧ (advance env p d).1 = p ∧
        (advance env p d).2 = { d with progress := .ended (.returns (some (.op "metrics_plugin_declare" err))) }) ∨
      (∃ c, d.progress = .registers c ∧ refuses env p.registry c = none ∧
        (advance env p d).1 = { p with registry := p.registry ++ [c] } ∧
        (advance env p d).2 = { d with progress := .ended (.returns none) }) := by
  cases hd : d.progress with
  | loads =>
    refine .inl ⟨?_, nofun⟩
    simp only [advance, hd]
    split <;> rfl
  | stores c => exact .inr (.inl ⟨c, rfl, by simp [advance, hd], by simp [advance, hd]⟩)
  | registers c =>
    cases hr : refuses env p.registry c with
    | some err => exact .inr (.inr (.inl ⟨c, err, rfl, hr, by simp [advance, hd, register, hr]⟩))
    | none => exact .inr (.inr (.inr ⟨c, rfl, hr, by simp [advance, hd, register, hr]⟩))
  | ended out => exact .inl ⟨by simp [advance, hd], nofun⟩

variable {env}

/-- A collector of the map after the step of a call is the one it stores, or was there. -/
theorem of_advance {p : Plugin F} {d : Declaring F} {name : Bytes} {c : Collector F}
    (h : (advance env p d).1.collectors name = some c) : d.progress = .stores c ∨ p.collectors name = some c := by
  rcases advance_cases env p d with ⟨heq, -⟩ | ⟨e, hstores, heq, -⟩ | ⟨e, err, -, -, heq, -⟩ | ⟨e, -, -, heq, -⟩
  · rw [heq] at h
    exact .inr h
  · rw [heq] at h
    rcases Plugin.of_store h with ⟨-, rfl⟩ | hold
    · exact .inl hstores
    · exact .inr hold
  · rw [heq] at h
    exact .inr h
  · rw [heq] at h
    exact .inr h

end

/-! ## Runs -/

/-- The plugin and the calls of `Declare` so far. -/
abbrev Calls (F : Type) := Interleave.State (Plugin F) (Declaring F)

/-- What can happen. -/
inductive Move (F : Type) where
  /-- A call begins. -/
  | declare (nc : NamedCollector F)
  /-- The `n`-th call takes its next step. -/
  | step (n : Nat)

/-- A plugin after `Serve`: the collectors of the map are registered, and have identities below `first`. -/
structure Served (F : Type) where
  plugin : Plugin F
  first : Nat
  registered : ∀ name c, plugin.collectors name = some c → c ∈ plugin.registry
  below : ∀ name c, plugin.collectors name = some c → c.ident < first

section

variable {F : Type}

/-- A step of the system. The collector of a new call has an identity of its own. -/
def stepCalls [DecidableEq F] (env : Prometheus F) (first : Nat) (st : Calls F) : Move F → Calls F
  | .declare nc => { st with procs := st.procs ++ [{ ident := first + st.procs.length, nc }] }
  | .step n => Interleave.next (advance env) st n

/-- All calls have ended. -/
def Quiet (st : Calls F) : Prop := ∀ d ∈ st.procs, ∃ out, d.progress = .ended out

/-- What is named is registered, and a failed call has changed nothing. -/
structure Consistent (st : Calls F) : Prop where
  registered : Quiet st → ∀ name c, st.shared.collectors name = some c → c ∈ st.shared.registry
  unchanged : ∀ d ∈ st.procs, ∀ err, d.progress = .ended (.returns (some err)) → d.changed = false

/-- If the step is a registration, it succeeds. -/
def Registers (env : Prometheus F) (st : Calls F) : Move F → Prop
  | .declare _ => True
  | .step n => ∀ d c, st.procs[n]? = some d → d.progress = .registers c → refuses env st.shared.registry c = none

/-! ## The invariant -/

/-- No collector of the map has the identity. -/
def Fresh (p : Plugin F) (ident : Nat) : Prop := ∀ name c, p.collectors name = some c → c.ident ≠ ident

/-- What is known of a call: its collector has its identity, and is in the map only after the store, which has
then changed the map. -/
def Own (p : Plugin F) (d : Declaring F) : Prop :=
  match d.progress with
  | .loads => Fresh p d.ident ∧ d.changed = false
  | .stores c => c.ident = d.ident ∧ Fresh p d.ident ∧ d.changed = false
  | .registers _ => d.changed = true
  | .ended _ => True

/-- What holds in every run. -/
structure Inv (first : Nat) (st : Calls F) : Prop where
  idents : st.procs.map Declaring.ident = (List.range st.procs.length).map (first + ·)
  below : ∀ name c, st.shared.collectors name = some c → c.ident < first + st.procs.length
  own : ∀ d ∈ st.procs, Own st.shared d
  placed : ∀ name c, st.shared.collectors name = some c →
    c ∈ st.shared.registry ∨ ∃ d ∈ st.procs, d.progress = .registers c

theorem Own.mono {p q : Plugin F} {d : Declaring F} (h : Own p d) (hfresh : Fresh p d.ident → Fresh q d.ident) :
    Own q d := by
  unfold Own at h ⊢
  split at h <;> simp_all

/-- The collector that a call is about to store has the call's identity. -/
theorem Own.ident_stores {p : Plugin F} {d : Declaring F} (h : Own p d) {c : Collector F}
    (hstores : d.progress = .stores c) : c.ident = d.ident := by
  rw [Own, hstores] at h
  exact h.1

/-- The identities are all different. -/
theorem Inv.nodup {first : Nat} {st : Calls F} (h : Inv first st) : (st.procs.map Declaring.ident).Nodup := by
  rw [h.idents]
  exact List.nodup_range.map fun a b hab => by simpa using hab

theorem Inv.ident_lt {first : Nat} {st : Calls F} (h : Inv first st) {d : Declaring F} (hd : d ∈ st.procs) :
    d.ident < first + st.procs.length := by
  have hmem := List.mem_map_of_mem (f := Declaring.ident) hd
  rw [h.idents] at hmem
  obtain ⟨n, hn, heq⟩ := List.mem_map.mp hmem
  rw [List.mem_range] at hn
  omega

/-- In a state of the invariant a quiet map is registered. -/
theorem Inv.registered {first : Nat} {st : Calls F} (h : Inv first st) (hquiet : Quiet st) (name : Bytes)
    (c : Collector F) (hc : st.shared.collectors name = some c) : c ∈ st.shared.registry := by
  rcases h.placed name c hc with hmem | ⟨d, hd, hr⟩
  · exact hmem
  · obtain ⟨out, hout⟩ := hquiet d hd
    rw [hr] at hout
    cases hout

theorem Served.inv (s : Served F) : Inv s.first ⟨s.plugin, []⟩ :=
  ⟨rfl, fun name c hc => s.below name c hc, nofun, fun name c hc => .inl (s.registered name c hc)⟩

theorem Served.consistent (s : Served F) : Consistent ⟨s.plugin, []⟩ := ⟨fun _ => s.registered, nofun⟩

variable [DecidableEq F] {env : Prometheus F}

theorem own_advance {p : Plugin F} {d : Declaring F} (h : Own p d) : Own (advance env p d).1 (advance env p d).2 := by
  cases hd : d.progress with
  | loads =>
    obtain ⟨hfresh, hchanged⟩ : Fresh p d.ident ∧ d.changed = false := by simpa [Own, hd] using h
    cases hload : load env d.ident d.nc p with
    | error out => simp [advance, hd, hload, Own]
    | ok c => simp [advance, hd, hload, Own, ident_of_load env hload, hfresh, hchanged]
  | stores c =>
    obtain ⟨hident, hfresh, -⟩ : c.ident = d.ident ∧ Fresh p d.ident ∧ d.changed = false := by
      simpa [Own, hd] using h
    -- the collector is a new one, so the store changes the map
    have hnew : p.collectors d.nc.name ≠ some c := fun heq => hfresh _ _ heq hident
    simp [advance, hd, Own, hnew]
  | registers c => simp [advance, hd, Own]
  | ended out => simp [advance, hd, Own]

theorem own_advance_other {p : Plugin F} {d e : Declaring F} (hne : d.ident ≠ e.ident) (hd : Own p d)
    (he : Own p e) : Own (advance env p d).1 e := by
  refine he.mono fun hfresh name c hc => ?_
  rcases of_advance hc with hstores | hold
  · rw [hd.ident_stores hstores]
    exact hne
  · exact hfresh name c hold

variable (env) in
/-- A new call keeps the invariant. -/
theorem Inv.declare {first : Nat} {st : Calls F} (h : Inv first st) (nc : NamedCollector F) :
    Inv first (stepCalls env first st (.declare nc)) := by
  refine ⟨?_, fun name c hc => ?_, ?_, fun name c hc => ?_⟩
  · simp [stepCalls, h.idents, List.range_succ]
  · have := h.below name c hc
    simp only [stepCalls, List.length_append, List.length_singleton]
    omega
  · refine Update.forall_concat h.own ⟨fun name c hc => ?_, rfl⟩
    have := h.below name c hc
    show c.ident ≠ first + st.procs.length
    omega
  · refine (h.placed name c hc).imp_right ?_
    rintro ⟨d, hd, hr⟩
    exact ⟨d, List.mem_append_left _ hd, hr⟩

/-- The step of a call keeps the invariant, if it is not a registration that fails. -/
theorem Inv.advance {first : Nat} {st : Calls F} (h : Inv first st) {n : Nat} {d : Declaring F}
    (hd : st.procs[n]? = some d)
    (hregisters : ∀ c, d.progress = .registers c → refuses env st.shared.registry c = none) :
    Inv first ⟨(advance env st.shared d).1, st.procs.set n (advance env st.shared d).2⟩ := by
  have hnext := Interleave.next_of_some (f := Metrics.advance env) hd
  have hmem := List.mem_of_getElem? hd
  refine ⟨?_, ?_, ?_, ?_⟩
  · have hidents := Interleave.idents_next (f := Metrics.advance env) (ident_advance env) st n
    rw [hnext] at hidents
    rw [hidents, h.idents, List.length_set]
  · intro name c hc
    rw [List.length_set]
    rcases of_advance hc with hstores | hold
    · rw [(h.own d hmem).ident_stores hstores]
      exact h.ident_lt hmem
    · exact h.below name c hold
  · rw [← hnext]
    exact Interleave.each_next (I := Own) (fun p d => own_advance) (fun p d e => own_advance_other) h.nodup h.own n
  · intro name c hc
    -- the calls that are about to register `c`, with this one apart
    rw [Update.exists_set_iff hd]
    have hplaced := h.placed name c
    rw [Update.exists_iff_elsewhere hd] at hplaced
    rcases advance_cases env st.shared d with ⟨heq, hnot⟩ | ⟨e, hstores, heq, hprog⟩ | ⟨e, err, hprog, href, -⟩ |
      ⟨e, hprog, -, heq, -⟩
    · rw [heq] at hc ⊢
      exact (hplaced hc).imp_right fun hr => .inr (hr.resolve_left (hnot c))
    · rw [heq] at hc ⊢
      rcases Plugin.of_store hc with ⟨-, rfl⟩ | hold
      · exact .inr (.inl hprog)
      · refine (hplaced hold).imp_right fun hr => .inr (hr.resolve_left ?_)
        rw [hstores]
        nofun
    · rw [hregisters e hprog] at href
      cases href
    · rw [heq] at hc ⊢
      rcases hplaced hc with hmem | hr | hr
      · exact .inl (List.mem_append_left _ hmem)
      · obtain rfl : e = c := by simpa [hprog] using hr
        exact .inl (List.mem_append_right _ (List.mem_singleton_self _))
      · exact .inr (.inr hr)

/-- A call that comes to return an error has not changed the map, if it does not come from a registration. -/
theorem unchanged_advance {p : Plugin F} {d : Declaring F} (h : Own p d)
    (hold : ∀ err, d.progress = .ended (.returns (some err)) → d.changed = false)
    (hregisters : ∀ c, d.progress = .registers c → refuses env p.registry c = none) :
    ∀ err, (Metrics.advance env p d).2.progress = .ended (.returns (some err)) →
      (Metrics.advance env p d).2.changed = false := by
  intro err hend
  cases hd : d.progress with
  | loads =>
    rw [Own, hd] at h
    cases hload : load env d.ident d.nc p with
    | error out => simpa [Metrics.advance, hd, hload] using h.2
    | ok c => simp [Metrics.advance, hd, hload] at hend
  | stores c => simp [Metrics.advance, hd] at hend
  | registers c => simp [Metrics.advance, hd, register, hregisters c hd] at hend
  | ended out =>
    have hsame : Metrics.advance env p d = (p, d) := by simp [Metrics.advance, hd]
    rw [hsame] at hend ⊢
    exact hold err hend

/-- A step that is not a registration that fails keeps the invariant, and the registry consistent. -/
theorem consistent_step {first : Nat} {st : Calls F} {m : Move F} (hinv : Inv first st) (hok : Consistent st)
    (hregisters : Registers env st m) :
    Inv first (stepCalls env first st m) ∧ Consistent (stepCalls env first st m) := by
  cases m with
  | declare nc =>
    have hinv' := hinv.declare env nc
    exact ⟨hinv', hinv'.registered, Update.forall_concat hok.unchanged nofun⟩
  | step n =>
    rw [stepCalls]
    rcases Interleave.next_cases (advance env) st n with hnext | ⟨d, hd, hnext⟩
    · rw [hnext]
      exact ⟨hinv, hok⟩
    · rw [hnext]
      have hinv' := hinv.advance hd (hregisters d · hd)
      have hmem := List.mem_of_getElem? hd
      exact ⟨hinv', hinv'.registered, Update.forall_set hok.unchanged n
        (unchanged_advance (hinv.own d hmem) (hok.unchanged d hmem) (hregisters d · hd))⟩

/-- A registration that fails leaves a call that returns an error and has changed the map. -/
theorem registers_of_consistent {first : Nat} {st : Calls F} {m : Move F} (hinv : Inv first st)
    (hok : Consistent (stepCalls env first st m)) : Registers env st m := by
  cases m with
  | declare nc => trivial
  | step n =>
    intro d c hd hprog
    by_contra hrefused
    obtain ⟨err, herr⟩ := Option.ne_none_iff_exists'.mp hrefused
    have hadvance : (advance env st.shared d).2 =
        { d with progress := .ended (.returns (some (.op "metrics_plugin_declare" err))) } := by
      simp [advance, hprog, register, herr]
    have hchanged : d.changed = true := by
      have hown := hinv.own d (List.mem_of_getElem? hd)
      rwa [Own, hprog] at hown
    rw [stepCalls, Interleave.next_of_some hd, hadvance] at hok
    have hunchanged := hok.unchanged _ (List.mem_set (List.getElem?_eq_some_iff.mp hd).1 _) _ rfl
    rw [hchanged] at hunchanged
    cases hunchanged

end

/-- **The registry is consistent** in every state of a run exactly if every registration of the run succeeds. -/
theorem consistent_iff {F : Type} [DecidableEq F] (env : Prometheus F) (s : Served F) (moves : List (Move F)) :
    (∀ pre post, moves = pre ++ post → Consistent (Run.exec (stepCalls env s.first) ⟨s.plugin, []⟩ pre)) ↔
      Run.Along (stepCalls env s.first) (Registers env) ⟨s.plugin, []⟩ moves := by
  refine Run.Along.always_iff (I := Inv s.first) ?_ ?_ s.inv s.consistent
  · intro st m hinv hok hregisters
    exact consistent_step hinv hok hregisters
  · intro st m hinv _ hok
    exact registers_of_consistent hinv hok

/-- A gauge that another plugin has. -/
def upGauge : Collector Int := ⟨0, .gauge, ascii "up", [], [], [], [], []⟩

/-- The gauge is registered under its name. -/
def Served.one : Served Int where
  plugin := ⟨fun name => if name = ascii "up" then some upGauge else none, [upGauge], []⟩
  first := 1
  registered name c hc := by
    obtain rfl : upGauge = c := Option.some.inj (Option.ite_none_right_eq_some.mp hc).2
    exact List.mem_singleton_self upGauge
  below name c hc := by
    obtain rfl : upGauge = c := Option.some.inj (Option.ite_none_right_eq_some.mp hc).2
    exact Nat.one_pos

/-- Integers as values; a name that starts with a digit is not valid. -/
def digits : Prometheus Int where
  negative v := v < 0
  ge a b := b ≤ a
  utf8 _ := true
  checksVec := false
  invalid c := if c.name.head?.any (fun b => 48 ≤ b && b ≤ 57) then some (.lib "NewDesc") else none
  clashes a b := a.name = b.name

/-- To a plugin with the gauge `up`, a gauge with the name `1` is declared: the call returns an error, and the gauge is
in the map and is not registered. Two calls that declare the gauge `g` at once both store theirs: the one in the map is
not the one that is registered. -/
theorem declared_not_registered :
    let gauge (name : String) : NamedCollector Int := { name := ascii name, type := .gauge }
    let alone := Run.exec (stepCalls digits 1) ⟨Served.one.plugin, []⟩
      [.declare (gauge "1"), .step 0, .step 0, .step 0]
    let both := Run.exec (stepCalls digits 1) ⟨Served.one.plugin, []⟩
      [.declare (gauge "g"), .declare (gauge "g"), .step 0, .step 1, .step 0, .step 1, .step 0, .step 1]
    (∃ c, alone.shared.collectors (ascii "1") = some c ∧ c ∉ alone.shared.registry) ∧
      alone.procs.map (·.progress) =
        [.ended (.returns (some (.op "metrics_plugin_declare" (.lib "NewDesc"))))] ∧
      alone.procs.map (·.changed) = [true] ∧
      (both.shared.collectors (ascii "g")).map (·.ident) = some 2 ∧ both.shared.registry.map (·.ident) = [0, 1] := by
  intro gauge alone both
  refine ⟨⟨_, rfl, by decide⟩, by decide, by decide, by decide, by decide⟩

end RoadRunner.Metrics
