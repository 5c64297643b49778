import RoadRunner.Metrics.Rpc
import RoadRunner.Lib.Fill

/-!
# The collectors of the configuration (`metrics/config.go`)

The configuration describes collectors as the clients of `Declare` do, and `getCollectors` has a switch of its own over
their types. Both give the options to the constructors of the prometheus client.

* `Built`: a plain collector or a vector, with its options. `Collector.built`: the one that `Declare` constructs.
* `configured`: the body of the loop. `configured_eq`: what it has in common with `Declare`.
* `declared_agrees_iff`: when an entry and a declaration agree.
-/

namespace RoadRunner.Metrics

/-- `Collector` of the configuration. -/
structure Description (F : Type) where
  nameSpace : Bytes := []
  subsystem : Bytes := []
  type : CollectorType
  help : Bytes := []
  labels : List Bytes := []
  buckets : List F := []
  /-- Nil, or the entries of the map. -/
  objectives : Option (List (F × F)) := none

/-- What `Declare` reads of a description. -/
def Description.named {F : Type} (d : Description F) (name : Bytes) : NamedCollector F :=
  ⟨name, d.nameSpace, d.subsystem, d.type, d.help, d.labels, d.buckets⟩

/-- The options of a collector. -/
structure Opts (F : Type) where
  name : Bytes
  nameSpace : Bytes
  subsystem : Bytes
  help : Bytes
  buckets : List F := []
  /-- The constructor takes nil for the empty map. -/
  objectives : List (F × F) := []

/-- A collector, or a vector of them. -/
inductive Built (F : Type) where
  | plain (kind : Kind) (opts : Opts F)
  | vec (kind : Kind) (opts : Opts F) (labels : List Bytes)

/-- The collector with its options. What `Declare` constructs has no objectives. -/
def Collector.built {F : Type} (c : Collector F) (objectives : List (F × F)) : Built F :=
  let opts : Opts F := ⟨c.name, c.nameSpace, c.subsystem, c.help, c.buckets, objectives⟩
  if c.labels ≠ [] then .vec c.kind opts c.labels else .plain c.kind opts

section

variable {F : Type} (env : Prometheus F)

/-- `NewHistogram`, `NewGauge`, `NewCounter` and `NewSummary`. -/
def newPlain (kind : Kind) (opts : Opts F) : Except Outcome (Built F) :=
  match kind with
  | .histogram =>
    match newHistogram env [] opts.buckets with
    | some p => .error (.panics p)
    | none => .ok (.plain .histogram opts)
  | kind => .ok (.plain kind opts)

/-- `NewHistogramVec`, `NewGaugeVec`, `NewCounterVec` and `NewSummaryVec`. -/
def newVec (kind : Kind) (opts : Opts F) (labels : List Bytes) : Except Outcome (Built F) :=
  match kind with
  | .histogram =>
    match if env.checksVec = true then newHistogram env labels opts.buckets else none with
    | some p => .error (.panics p)
    | none => .ok (.vec .histogram opts labels)
  | .summary => if quantileLabel ∈ labels then .error (.panics .quantileLabel) else .ok (.vec .summary opts labels)
  | kind => .ok (.vec kind opts labels)

/-- A collector with labels is a vector. -/
def newBuilt (kind : Kind) (opts : Opts F) (labels : List Bytes) : Except Outcome (Built F) :=
  if labels ≠ [] then newVec env kind opts labels else newPlain env kind opts

/-- The errors of the two switches for a type that they do not have. -/
def invalidType (text name : Bytes) : Err :=
  .errorf₂ "invalid metric type `%s` for `%s`" (.str text.text) (.str name.text)

/-- The error for an unknown type. -/
def unknownType (text : Bytes) : Err :=
  .op "metrics_plugin_declare" (.errorf "unknown collector type %s" (.str text.text))

/-- The body of the loop of `getCollectors`. -/
def configured (name : Bytes) (m : Description F) : Except Outcome (Built F) :=
  match m.type with
  | .histogram =>
    newBuilt env .histogram { name, nameSpace := m.nameSpace, subsystem := m.subsystem, help := m.help,
                              buckets := m.buckets } m.labels
  | .gauge => newBuilt env .gauge { name, nameSpace := m.nameSpace, subsystem := m.subsystem, help := m.help } m.labels
  | .counter =>
    newBuilt env .counter { name, nameSpace := m.nameSpace, subsystem := m.subsystem, help := m.help } m.labels
  | .summary =>
    newBuilt env .summary { name, nameSpace := m.nameSpace, subsystem := m.subsystem, help := m.help,
                            objectives := m.objectives.getD [] } m.labels
  | .unknown text => .error (.returns (some (invalidType text name)))

/-- `getCollectors`, for a nil map or the entries of a map in the order in which the loop visits them. -/
def getCollectors (collect : Option (List (Bytes × Description F))) : Except Outcome (Fill.Map Bytes (Built F)) :=
  match collect with
  | none => .ok ∅
  | some entries => entries.foldlM (fun collectors e => (configured env e.1 e.2).map (collectors.insert e.1)) ∅

end

/-! ## Declared and configured -/

section

variable {F : Type} {env : Prometheus F} {name : Bytes} {d : Description F}

/-- The objectives that the options have in the configuration. -/
def Description.given (d : Description F) : List (F × F) := if d.type = .summary then d.objectives.getD [] else []

/-- Both switches call the same constructor, if they have the type. -/
theorem newBuilt_eq {ident : Nat} {kind : Kind} {opts : Opts F} {labels : List Bytes} {q : Option Panic}
    (hplain : labels = [] → newPlain env kind opts = q.elim (.ok (.plain kind opts)) fun p => .error (.panics p))
    (hvec : labels ≠ [] →
      newVec env kind opts labels = q.elim (.ok (.vec kind opts labels)) fun p => .error (.panics p)) :
    newBuilt env kind opts labels =
      (orPanic ⟨ident, kind, opts.name, opts.nameSpace, opts.subsystem, opts.help, opts.buckets, labels⟩ q).map
        (·.built opts.objectives) := by
  rw [newBuilt]
  by_cases h : labels = []
  · rw [if_neg (not_not.mpr h), hplain h]
    cases q with
    | none => exact congrArg Except.ok (if_neg (not_not.mpr h)).symm
    | some p => rfl
  · rw [if_pos h, hvec h]
    cases q with
    | none => exact congrArg Except.ok (if_pos h).symm
    | some p => rfl

/-- The loop builds what `Declare` constructs, with the objectives. -/
theorem configured_eq (ident : Nat) (h : ∀ text, d.type ≠ .unknown text) :
    configured env name d = (newCollector env ident (d.named name)).map (·.built d.given) := by
  rw [configured, newCollector, Description.given, Description.named]
  cases htype : d.type with
  | histogram =>
    refine newBuilt_eq (fun hlabels => ?_) fun hlabels => ?_
    · rw [if_pos (.inl hlabels), newPlain, hlabels]
      cases newHistogram env [] d.buckets <;> rfl
    · rw [newVec]
      by_cases hchecks : env.checksVec = true
      · rw [if_pos hchecks, if_pos (.inr hchecks)]
        cases newHistogram env d.labels d.buckets <;> rfl
      · rw [if_neg hchecks, if_neg (not_or.mpr ⟨hlabels, hchecks⟩)]
        rfl
  | gauge => exact newBuilt_eq (q := none) (fun _ => rfl) fun _ => rfl
  | counter => exact newBuilt_eq (q := none) (fun _ => rfl) fun _ => rfl
  | summary =>
    refine newBuilt_eq (fun hlabels => ?_) fun _ => ?_
    · rw [if_neg (hlabels ▸ List.not_mem_nil)]
      rfl
    · rw [newVec]
      split <;> rfl
  | unknown text => exact absurd htype (h text)

theorem configured_unknown {text : Bytes} (h : d.type = .unknown text) :
    configured env name d = .error (.returns (some (invalidType text name))) := by
  rw [configured, h]

theorem newCollector_unknown (ident : Nat) {text : Bytes} (h : d.type = .unknown text) :
    newCollector env ident (d.named name) = .error (.returns (some (unknownType text))) := by
  rw [newCollector, Description.named, h]
  rfl

/-- Other errors than that of the type are panics. -/
theorem newCollector_returns {ident : Nat} {nc : NamedCollector F} {err : Option Err}
    (h : newCollector env ident nc = .error (.returns err)) : ∃ text, nc.type = .unknown text := by
  have hpanics : ∀ (c : Collector F) (q : Option Panic), orPanic c q ≠ .error (.returns err) := by
    rintro c (_ | p) hq <;> cases hq
  rw [newCollector] at h
  cases htype : nc.type with
  | unknown text => exact ⟨text, rfl⟩
  | histogram =>
    rw [htype] at h
    exact absurd h (hpanics _ _)
  | summary =>
    rw [htype] at h
    exact absurd h (hpanics _ _)
  | gauge =>
    rw [htype] at h
    cases h
  | counter =>
    rw [htype] at h
    cases h

/-- What is built for an entry is a collector that `Declare` constructs, with the objectives. -/
theorem configured_ok {b : Built F} (h : configured env name d = .ok b) (ident : Nat) :
    ∃ c, newCollector env ident (d.named name) = .ok c ∧ b = c.built d.given := by
  have hknown : ∀ text, d.type ≠ .unknown text := by
    intro text htext
    rw [configured_unknown htext] at h
    cases h
  rw [configured_eq ident hknown] at h
  cases hc : newCollector env ident (d.named name) with
  | error out =>
    rw [hc] at h
    cases h
  | ok c =>
    rw [hc] at h
    exact ⟨c, rfl, (Except.ok.inj h).symm⟩

theorem configured_returns {err : Option Err} (h : configured env name d = .error (.returns err)) :
    ∃ text, d.type = .unknown text ∧ err = some (invalidType text name) := by
  by_cases hknown : ∀ text, d.type ≠ .unknown text
  · rw [configured_eq 0 hknown] at h
    cases hc : newCollector env 0 (d.named name) with
    | ok c =>
      rw [hc] at h
      cases h
    | error out =>
      rw [hc] at h
      cases h
      obtain ⟨text, htext⟩ := newCollector_returns hc
      exact absurd htext (hknown text)
  · push Not at hknown
    obtain ⟨text, htext⟩ := hknown
    rw [configured_unknown htext] at h
    cases h
    exact ⟨text, htext, rfl⟩

theorem text_injective : Function.Injective Bytes.text := by
  intro a b h
  have hchar : Function.Injective fun x : UInt8 => Char.ofNat x.toNat := by
    intro x y hxy
    have hvalid : ∀ z : UInt8, (Char.ofNat z.toNat).toNat = z.toNat := by
      intro z
      have hz := z.toNat_lt
      rw [Char.toNat_ofNat, if_pos (.inl (by omega))]
    exact UInt8.toNat_inj.mp (by rw [← hvalid x, ← hvalid y]; exact congrArg Char.toNat hxy)
  exact List.map_injective_iff.mpr hchar (String.ofList_injective h)

/-- An order of the entries in which the loop is stopped by the type of this one. -/
theorem invalid_iff {entries : List (Bytes × Description F)} (hnodup : (entries.map Prod.fst).Nodup)
    (hmem : (name, d) ∈ entries) :
    (∃ entries' text, entries'.Perm entries ∧
        getCollectors env (some entries') = .error (.returns (some (invalidType text name)))) ↔
      ∃ text, d.type = .unknown text := by
  constructor
  · rintro ⟨entries', text, hperm, herror⟩
    obtain ⟨⟨name', d'⟩, hmem', herr⟩ := Fill.exists_of_foldlM_insert herror
    obtain ⟨text', htype, heq⟩ := configured_returns herr
    simp only [Option.some_inj, invalidType, Err.errorf₂.injEq, Err.str.injEq] at heq
    obtain rfl := text_injective heq.2.2
    have hsame := List.inj_on_of_nodup_map hnodup hmem (hperm.subset hmem') rfl
    obtain rfl := (Prod.mk.inj hsame).2
    exact ⟨text', htype⟩
  · rintro ⟨text, htype⟩
    obtain ⟨l, r, rfl⟩ := List.append_of_mem hmem
    refine ⟨(name, d) :: (l ++ r), text, List.perm_middle.symm, ?_⟩
    rw [getCollectors, List.foldlM_cons, configured_unknown htype]
    rfl

theorem built_inj {c : Collector F} {objectives objectives' : List (F × F)}
    (h : c.built objectives = c.built objectives') : objectives = objectives' := by
  unfold Collector.built at h
  split at h
  · exact (Opts.mk.inj (Built.vec.inj h).2.1).2.2.2.2.2
  · exact (Opts.mk.inj (Built.plain.inj h).2).2.2.2.2.2

/-- A summary is constructed unless it has the label of quantiles. -/
theorem newCollector_summary (ident : Nat) (htype : d.type = .summary) :
    (∃ c, newCollector env ident (d.named name) = .ok c) ↔ quantileLabel ∉ d.labels := by
  rw [newCollector, Description.named, htype]
  dsimp only
  by_cases h : quantileLabel ∈ d.labels
  · rw [if_pos h]
    refine iff_of_false ?_ (not_not.mpr h)
    rintro ⟨c, hc⟩
    cases hc
  · rw [if_neg h]
    exact iff_of_true ⟨_, rfl⟩ h

theorem load_of_free {p : Plugin F} (hp : p.collectors name = none) (ident : Nat) :
    load env ident (d.named name) p = newCollector env ident (d.named name) := by
  rw [load, Description.named, hp]

/-- **Declared and configured collectors.** For every name and description: in every configuration with this entry, the
collector that is built for it is the one that `Declare` constructs for a free name, and the type is invalid exactly if
it is unknown to `Declare`. This holds exactly if a summary that can be constructed has no objectives. -/
theorem declared_agrees_iff (env : Prometheus F) (name : Bytes) (d : Description F) :
    (∀ (p : Plugin F) (ident : Nat) (entries : List (Bytes × Description F)), p.collectors name = none →
        (entries.map Prod.fst).Nodup → (name, d) ∈ entries →
        (∀ collectors, getCollectors env (some entries) = .ok collectors →
          ∃ c, load env ident (d.named name) p = .ok c ∧ collectors.lookup name = some (c.built [])) ∧
        ((∃ entries' text, entries'.Perm entries ∧
            getCollectors env (some entries') = .error (.returns (some (invalidType text name)))) ↔
          ∃ text, load env ident (d.named name) p = .error (.returns (some (unknownType text))))) ↔
      (d.type = .summary → quantileLabel ∉ d.labels → d.objectives.getD [] = []) := by
  constructor
  · intro h htype hlabels
    obtain ⟨c, hc⟩ : ∃ c, newCollector env 0 (d.named name) = .ok c := (newCollector_summary 0 htype).mpr hlabels
    have hknown : ∀ text, d.type ≠ .unknown text := fun text htext => by cases htype.symm.trans htext
    have hcollectors : getCollectors env (some [(name, d)]) =
        .ok ((∅ : Fill.Map _ _).insert name (c.built d.given)) := by
      rw [getCollectors, List.foldlM_cons, configured_eq 0 hknown, hc]
      rfl
    obtain ⟨c', hc', hlookup⟩ := (h ⟨fun _ => none, [], []⟩ 0 [(name, d)] rfl (List.nodup_singleton _)
      List.mem_cons_self).1 _ hcollectors
    rw [load_of_free rfl, hc] at hc'
    obtain rfl := Except.ok.inj hc'
    rw [Finmap.lookup_insert] at hlookup
    have hgiven := built_inj (Option.some.inj hlookup)
    rwa [Description.given, if_pos htype] at hgiven
  · intro h p ident entries hp hnodup hmem
    rw [load_of_free hp]
    constructor
    · intro collectors hcollectors
      obtain ⟨b, hb, hlookup⟩ := (Fill.lookup_of_foldlM_insert hnodup hcollectors).1 _ hmem
      obtain ⟨c, hc, rfl⟩ := configured_ok hb ident
      have hgiven : d.given = [] := by
        rw [Description.given]
        split
        case isTrue htype => exact h htype ((newCollector_summary ident htype).mp ⟨c, hc⟩)
        case isFalse => rfl
      exact ⟨c, hc, by rw [hlookup, hgiven]⟩
    · rw [invalid_iff hnodup hmem]
      constructor
      · rintro ⟨text, htype⟩
        exact ⟨text, newCollector_unknown ident htype⟩
      · rintro ⟨text, herror⟩
        exact newCollector_returns herror

end

/-- The configured summary has the objectives, the declared one has none. -/
theorem objectives_not_declared :
    let env : Prometheus Int := ⟨(· < 0), (· ≥ ·), fun _ => true, true, fun _ => none, fun _ _ => false⟩
    let d : Description Int := { type := .summary, objectives := some [(50, 5)] }
    (∃ c, load env 0 (d.named (ascii "latency")) ⟨fun _ => none, [], []⟩ = .ok c ∧
        c.built [] = .plain .summary ⟨ascii "latency", [], [], [], [], []⟩) ∧
      ∃ collectors, getCollectors env (some [(ascii "latency", d)]) = .ok collectors ∧
        collectors.lookup (ascii "latency") = some (.plain .summary ⟨ascii "latency", [], [], [], [], [(50, 5)]⟩) := by
  intro env d
  exact ⟨⟨_, rfl, rfl⟩, _, rfl, Finmap.lookup_insert _⟩

end RoadRunner.Metrics
