import RoadRunner.Basic
import RoadRunner.Lib.Run

/-!
# The RPC methods of the metrics plugin

The model of `metrics/rpc.go`, with the part of the prometheus client that the methods call. A value is of any
type `F`.

* `newHistogram`: the constructor that panics. For a plain histogram it is called by `Declare`; for a vector of
  them it is called when the first metric is made, unless the vector's constructor checks its options too
  (`checksVec`).
* `never_panics_iff`: no call of a run panics exactly if every call is `Safe`.
-/

namespace RoadRunner.Metrics

/-- The type of a collector, as it is sent. -/
inductive CollectorType where
  | histogram
  | gauge
  | counter
  | summary
  | unknown (text : Bytes)
  deriving DecidableEq

/-- `NamedCollector`, with the fields that `Declare` reads. -/
structure NamedCollector (F : Type) where
  name : Bytes
  nameSpace : Bytes := []
  subsystem : Bytes := []
  type : CollectorType
  help : Bytes := []
  labels : List Bytes := []
  buckets : List F := []
  deriving DecidableEq

/-- `Metric`: the arguments of the other methods. -/
structure Metric (F : Type) where
  name : Bytes
  value : F
  labels : List Bytes := []
  deriving DecidableEq

/-- The kinds of collectors. -/
inductive Kind where
  | histogram
  | gauge
  | counter
  | summary
  deriving DecidableEq

/-- A collector; one with labels is a vector. Two collectors may have the same options, so each has an
identity. -/
structure Collector (F : Type) where
  ident : Nat
  kind : Kind
  name : Bytes
  nameSpace : Bytes
  subsystem : Bytes
  help : Bytes
  buckets : List F := []
  labels : List Bytes
  deriving DecidableEq

/-- A panic of the client library. -/
inductive Panic where
  /-- A counter cannot decrease in value. -/
  | decrease
  /-- The buckets of a histogram must be in increasing order. -/
  | buckets
  /-- `le` is not allowed as a label of a histogram. -/
  | bucketLabel
  /-- `quantile` is not allowed as a label of a summary. -/
  | quantileLabel
  deriving DecidableEq

/-- How a call ends. -/
inductive Outcome where
  | returns (err : Option Err)
  | panics (p : Panic)
  deriving DecidableEq

/-- What the client library does with numbers and texts. -/
structure Prometheus (F : Type) where
  /-- `v < 0`. -/
  negative : F → Bool
  /-- `a >= b`. -/
  ge : F → F → Bool
  utf8 : Bytes → Bool
  /-- `NewHistogramVec` checks its options, and not only the first metric that is made. -/
  checksVec : Bool
  /-- The error of the descriptor, for names and labels that are not valid. -/
  invalid : Collector F → Option Err
  /-- The two collectors cannot both be registered. -/
  clashes : Collector F → Collector F → Bool

/-- `bucketLabel` of the client library. -/
def bucketLabel : Bytes := ascii "le"

/-- `quantileLabel` of the client library. -/
def quantileLabel : Bytes := ascii "quantile"

/-- The collectors map and the registry of the plugin, and what the metrics were given. -/
structure Plugin (F : Type) where
  collectors : Bytes → Option (Collector F)
  registry : List (Collector F)
  /-- The collector, the operation, the label values and the value. -/
  samples : List (Nat × String × List Bytes × F) := []

section

variable {F : Type} (env : Prometheus F)

/-! ## Declare -/

/-- A bucket is not below the next one. -/
def unsorted : List F → Bool
  | a :: b :: bs => env.ge a b || unsorted (b :: bs)
  | _ => false

/-- `newHistogram` panics. -/
def newHistogram (labels : List Bytes) (buckets : List F) : Option Panic :=
  if bucketLabel ∈ labels then some .bucketLabel
  else if unsorted env buckets then some .buckets
  else none

/-- The collector, unless its constructor panics. -/
def orPanic (c : Collector F) : Option Panic → Except Outcome (Collector F)
  | some p => .error (.panics p)
  | none => .ok c

/-- The switch of `Declare`. -/
def newCollector (ident : Nat) (nc : NamedCollector F) : Except Outcome (Collector F) :=
  let collector (kind : Kind) (buckets : List F) : Collector F :=
    ⟨ident, kind, nc.name, nc.nameSpace, nc.subsystem, nc.help, buckets, nc.labels⟩
  match nc.type with
  | .histogram =>
    orPanic (collector .histogram nc.buckets)
      (if nc.labels = [] ∨ env.checksVec = true then newHistogram env nc.labels nc.buckets else none)
  | .gauge => .ok (collector .gauge [])
  | .counter => .ok (collector .counter [])
  | .summary =>
    orPanic (collector .summary []) (if quantileLabel ∈ nc.labels then some .quantileLabel else none)
  | .unknown text =>
    .error (.returns (some (.op "metrics_plugin_declare" (.errorf "unknown collector type %s" (.str text.text)))))

/-- `Declare` up to the collector: the name must not be in the map. -/
def load (ident : Nat) (nc : NamedCollector F) (p : Plugin F) : Except Outcome (Collector F) :=
  match p.collectors nc.name with
  | some _ =>
    .error (.returns (some (.op "metrics_plugin_declare" (.errorf
      "tried to register existing collector with the name `%s`" (.str nc.name.text)))))
  | none => newCollector env ident nc

/-- `collectors.Store`. -/
def Plugin.store (p : Plugin F) (name : Bytes) (c : Collector F) : Plugin F :=
  { p with collectors := Function.update p.collectors name (some c) }

/-- `registry.Register`: the descriptor must be valid, and none that clashes with it registered. -/
def refuses (registry : List (Collector F)) (c : Collector F) : Option Err :=
  match env.invalid c with
  | some err => some err
  | none => if registry.any (env.clashes c) then some (.lib "AlreadyRegisteredError") else none

/-- `Register`, and the return of `Declare`. -/
def register (c : Collector F) (p : Plugin F) : Outcome × Plugin F :=
  match refuses env p.registry c with
  | some err => (.returns (some (.op "metrics_plugin_declare" err)), p)
  | none => (.returns none, { p with registry := p.registry ++ [c] })

/-- `Declare`; `ident` is the identity of the collector. -/
def declare (ident : Nat) (nc : NamedCollector F) (p : Plugin F) : Outcome × Plugin F :=
  match load env ident nc p with
  | .error out => (out, p)
  | .ok c => register env c (p.store nc.name c)

/-! ## The other methods -/

/-- What the methods that take a `Metric` have of their own. -/
structure Method where
  op : String
  undefined : String
  unsupported : String
  /-- The kinds of collectors that the switch has, with the text for a vector without labels. A plain summary is
  taken for a histogram, since it has the same methods. -/
  required : Kind → Option String

/-- `GetMetricWithLabelValues`: the metric that the labels name, which is made if there is none. -/
def getMetric (c : Collector F) (labels : List Bytes) : Except Outcome Unit :=
  if labels.length ≠ c.labels.length then .error (.returns (some (.lib "inconsistent label cardinality")))
  else if !labels.all env.utf8 then .error (.returns (some (.lib "label value is not valid UTF-8")))
  else
    match c.kind with
    | .histogram =>
      match newHistogram env c.labels c.buckets with
      | some p => .error (.panics p)
      | none => .ok ()
    | _ => .ok ()

/-- An error of the client, as a method returns it. -/
def Outcome.wrap (op : String) : Outcome → Outcome
  | .returns (some err) => .returns (some (.op op err))
  | out => out

/-- The value is given to the metric with these labels. Only a counter can panic. -/
def Method.give (method : Method) (c : Collector F) (labels : List Bytes) (value : F) (p : Plugin F) :
    Outcome × Plugin F :=
  if c.kind = .counter ∧ env.negative value = true then (.panics .decrease, p)
  else (.returns none, { p with samples := p.samples ++ [(c.ident, method.op, labels, value)] })

/-- One of the methods, by its texts and its effect. -/
def Method.run (method : Method) (m : Metric F) (p : Plugin F) : Outcome × Plugin F :=
  let error (format : String) : Outcome :=
    .returns (some (.op method.op (.errorf format (.str m.name.text))))
  match p.collectors m.name with
  | none => (error method.undefined, p)
  | some c =>
    match method.required c.kind with
    | none => (error method.unsupported, p)
    | some required =>
      if c.labels = [] then method.give env c [] m.value p
      else if m.labels = [] then (error required, p)
      else
        match getMetric env c m.labels with
        | .error out => (out.wrap method.op, p)
        | .ok () => method.give env c m.labels m.value p

/-- The texts of `Add`, and what it does. -/
def Method.add : Method where
  op := "metrics_plugin_add"
  undefined := "undefined collector %s, try first Declare the desired collector"
  unsupported := "collector %s does not support method `Add`"
  required
    | .gauge => some "required labels for collector %s"
    | .counter => some "required labels for collector `%s`"
    | _ => none

/-- The texts of `Sub`, and what it does. -/
def Method.sub : Method where
  op := "metrics_plugin_sub"
  undefined := "undefined collector %s"
  unsupported := "collector `%s` does not support method `Sub`"
  required
    | .gauge => some "required labels for collector %s"
    | _ => none

/-- The texts of `Observe`, and what it does. -/
def Method.observe : Method where
  op := "metrics_plugin_observe"
  undefined := "undefined collector %s"
  unsupported := "collector `%s` does not support method `Observe`"
  required
    | .summary | .histogram => some "required labels for collector `%s`"
    | _ => none

/-- The texts of `Set`, and what it does. -/
def Method.set : Method where
  op := "metrics_plugin_set"
  undefined := "undefined collector %s"
  unsupported := "collector `%s` does not support method Set"
  required
    | .gauge => some "required labels for collector %s"
    | _ => none

/-- `rpcServer.Add`. -/
def add (m : Metric F) (p : Plugin F) : Outcome × Plugin F := Method.add.run env m p

/-- `rpcServer.Sub`. -/
def sub (m : Metric F) (p : Plugin F) : Outcome × Plugin F := Method.sub.run env m p

/-- `rpcServer.Observe`. -/
def observe (m : Metric F) (p : Plugin F) : Outcome × Plugin F := Method.observe.run env m p

/-- `rpcServer.Set`. -/
def set (m : Metric F) (p : Plugin F) : Outcome × Plugin F := Method.set.run env m p

/-! ## Runs -/

/-- A call of the RPC server. -/
inductive Call (F : Type) where
  | declare (ident : Nat) (nc : NamedCollector F)
  | add (m : Metric F)
  | sub (m : Metric F)
  | observe (m : Metric F)
  | set (m : Metric F)

/-- Run a call. -/
def Call.run (p : Plugin F) : Call F → Outcome × Plugin F
  | .declare ident nc => Metrics.declare env ident nc p
  | .add m => Metrics.add env m p
  | .sub m => Metrics.sub env m p
  | .observe m => Metrics.observe env m p
  | .set m => Metrics.set env m p

/-- A histogram can be made with these labels and buckets. -/
def Histogrammable (labels : List Bytes) (buckets : List F) : Prop :=
  bucketLabel ∉ labels ∧ unsorted env buckets = false

/-- The labels of a call name a metric of the collector. -/
def Names (c : Collector F) (labels : List Bytes) : Prop :=
  c.labels = [] ∨ labels.length = c.labels.length ∧ ∀ l ∈ labels, env.utf8 l = true

/-- The call keeps away from the panics: no reserved label and no unsorted bucket gets to a constructor, and no
negative value to a counter. -/
def Safe (p : Plugin F) : Call F → Prop
  | .declare _ nc =>
    p.collectors nc.name = none →
      (nc.type = .histogram → nc.labels = [] ∨ env.checksVec = true → Histogrammable env nc.labels nc.buckets) ∧
        (nc.type = .summary → quantileLabel ∉ nc.labels)
  | .add m =>
    ∀ c ∈ p.collectors m.name, c.kind = .counter → Names env c m.labels → env.negative m.value = false
  | .observe m =>
    ∀ c ∈ p.collectors m.name, c.kind = .histogram → Names env c m.labels → c.labels ≠ [] →
      Histogrammable env c.labels c.buckets
  | .sub _ | .set _ => True

end

/-! ## Panics -/

section

variable {F : Type} {env : Prometheus F}

/-- The call comes back. -/
def Outcome.Returns (out : Outcome) : Prop := ∃ err, out = .returns err

@[simp] theorem returns_returns (err : Option Err) : (Outcome.returns err).Returns := ⟨err, rfl⟩

@[simp] theorem not_returns_panics (q : Panic) : ¬ (Outcome.panics q).Returns := nofun

@[simp] theorem returns_wrap (op : String) (out : Outcome) : (out.wrap op).Returns ↔ out.Returns := by
  obtain (_ | err) | q := out <;> simp [Outcome.wrap]

theorem newHistogram_eq_none {labels : List Bytes} {buckets : List F} :
    newHistogram env labels buckets = none ↔ Histogrammable env labels buckets := by
  unfold newHistogram Histogrammable
  split
  · simp_all
  · split <;> simp_all

theorem returns_register (c : Collector F) (p : Plugin F) : (register env c p).1.Returns := by
  unfold register
  split <;> simp

/-- A constructor that may panic, and then the other steps of `Declare`. -/
theorem returns_orPanic {c : Collector F} {q : Option Panic} {p : Plugin F} {name : Bytes} :
    (match orPanic c q with
      | .error out => (out, p)
      | .ok c => register env c (p.store name c)).1.Returns ↔ q = none := by
  cases q with
  | none => exact iff_of_true (returns_register _ _) rfl
  | some q => exact iff_of_false (not_returns_panics q) nofun

theorem returns_declare_iff {ident : Nat} {nc : NamedCollector F} {p : Plugin F} :
    (declare env ident nc p).1.Returns ↔ Safe env p (.declare ident nc) := by
  cases hname : p.collectors nc.name with
  | some c => simp [declare, load, Safe, hname]
  | none =>
    simp only [declare, load, Safe, hname, newCollector, forall_const]
    cases htype : nc.type with
    | histogram =>
      rw [returns_orPanic]
      split
      · rename_i hcheck
        simp [newHistogram_eq_none, hcheck]
      · rename_i hcheck
        simp [hcheck]
    | gauge => simp [returns_register]
    | counter => simp [returns_register]
    | summary =>
      rw [returns_orPanic]
      simp
    | unknown text => simp

theorem returns_give_iff {method : Method} {c : Collector F} {labels : List Bytes} {v : F} {p : Plugin F} :
    (method.give env c labels v p).1.Returns ↔ (c.kind = .counter → env.negative v = false) := by
  unfold Method.give
  split <;> simp_all

/-- What `GetMetricWithLabelValues` can come to: the labels name no metric, or it cannot be made, or it is there. -/
theorem getMetric_cases {c : Collector F} {labels : List Bytes} (hvec : c.labels ≠ []) :
    (¬ Names env c labels ∧ ∃ err, getMetric env c labels = .error (.returns err)) ∨
      (Names env c labels ∧ (c.kind = .histogram ∧ ¬ Histogrammable env c.labels c.buckets) ∧
        ∃ q, getMetric env c labels = .error (.panics q)) ∨
      (Names env c labels ∧ (c.kind = .histogram → Histogrammable env c.labels c.buckets) ∧
        getMetric env c labels = .ok ()) := by
  unfold getMetric Names
  by_cases hlength : labels.length = c.labels.length
  · by_cases hutf8 : ∀ l ∈ labels, env.utf8 l = true
    · right
      rw [if_neg (not_not.mpr hlength), if_neg (by simpa using hutf8)]
      cases hkind : c.kind with
      | histogram =>
        dsimp only
        cases hnew : newHistogram env c.labels c.buckets with
        | none => exact .inr ⟨.inr ⟨hlength, hutf8⟩, fun _ => newHistogram_eq_none.mp hnew, rfl⟩
        | some q =>
          refine .inl ⟨.inr ⟨hlength, hutf8⟩, ⟨rfl, fun hok => ?_⟩, q, rfl⟩
          rw [newHistogram_eq_none.mpr hok] at hnew
          cases hnew
      | gauge => exact .inr ⟨.inr ⟨hlength, hutf8⟩, nofun, rfl⟩
      | counter => exact .inr ⟨.inr ⟨hlength, hutf8⟩, nofun, rfl⟩
      | summary => exact .inr ⟨.inr ⟨hlength, hutf8⟩, nofun, rfl⟩
    · left
      rw [if_neg (not_not.mpr hlength), if_pos (by simpa using hutf8)]
      exact ⟨fun h => h.elim hvec fun h => hutf8 h.2, _, rfl⟩
  · left
    rw [if_pos hlength]
    exact ⟨fun h => h.elim hvec fun h => hlength h.1, _, rfl⟩

/-- A method comes back exactly if no value gets to a metric that it panics for. -/
theorem returns_run_iff {method : Method} {m : Metric F} {p : Plugin F} :
    (method.run env m p).1.Returns ↔
      ∀ c ∈ p.collectors m.name, (method.required c.kind).isSome → Names env c m.labels →
        (c.kind = .histogram → c.labels ≠ [] → Histogrammable env c.labels c.buckets) ∧
          (c.kind = .counter → env.negative m.value = false) := by
  unfold Method.run
  cases hc : p.collectors m.name with
  | none => simp
  | some c =>
    dsimp only
    cases hrequired : method.required c.kind with
    | none => simp [hrequired]
    | some required =>
      dsimp only
      simp only [Option.mem_def, Option.some.injEq, forall_eq', hrequired, Option.isSome_some, forall_const]
      by_cases hplain : c.labels = []
      · rw [if_pos hplain, returns_give_iff]
        simp [Names, hplain]
      rw [if_neg hplain]
      by_cases hlabels : m.labels = []
      · -- no labels name no metric of a vector
        have hnames : ¬ Names env c m.labels := by
          rintro (h | ⟨h, -⟩)
          · exact hplain h
          · rw [hlabels, List.length_nil, eq_comm, List.length_eq_zero_iff] at h
            exact hplain h
        rw [if_pos hlabels]
        exact iff_of_true (returns_returns _) fun h => absurd h hnames
      rw [if_neg hlabels]
      rcases @getMetric_cases _ env _ m.labels hplain with
        ⟨hnames, err, hget⟩ | ⟨hnames, ⟨hkind, hbad⟩, q, hget⟩ | ⟨hnames, hgood, hget⟩
      · rw [hget]
        dsimp only
        rw [returns_wrap]
        exact iff_of_true (returns_returns _) fun h => absurd h hnames
      · rw [hget]
        dsimp only
        rw [returns_wrap]
        exact iff_of_false (not_returns_panics q) fun h => hbad ((h hnames).1 hkind hplain)
      · rw [hget]
        dsimp only
        rw [returns_give_iff]
        exact ⟨fun h _ => ⟨fun hkind _ => hgood hkind, h⟩, fun h => (h hnames).2⟩

theorem returns_iff {p : Plugin F} {call : Call F} : (call.run env p).1.Returns ↔ Safe env p call := by
  cases call with
  | declare ident nc => exact returns_declare_iff
  | add m =>
    rw [Call.run, add, returns_run_iff, Safe]
    refine forall₂_congr fun c _ => ?_
    cases hkind : c.kind <;> simp [Method.add]
  | sub m =>
    rw [Call.run, sub, returns_run_iff, Safe]
    refine iff_true_intro fun c _ => ?_
    cases hkind : c.kind <;> simp [Method.sub]
  | observe m =>
    rw [Call.run, observe, returns_run_iff, Safe]
    refine forall₂_congr fun c _ => ?_
    cases hkind : c.kind <;> simp [Method.observe]
  | set m =>
    rw [Call.run, set, returns_run_iff, Safe]
    refine iff_true_intro fun c _ => ?_
    cases hkind : c.kind <;> simp [Method.set]

end

/-- **No call panics** exactly if every call is safe: for every sequence of calls on any map of collectors. -/
theorem never_panics_iff {F : Type} (env : Prometheus F) (p : Plugin F) (calls : List (Call F)) :
    (∀ pre call post, calls = pre ++ call :: post →
      ∃ err, (call.run env (Run.exec (fun p call => (Call.run env p call).2) p pre)).1 = .returns err) ↔
      Run.Along (fun p call => (Call.run env p call).2) (Safe env) p calls := by
  rw [← Run.Along.forall_iff]
  exact forall_congr' fun pre => forall_congr' fun call => forall_congr' fun post =>
    imp_congr_right fun _ => returns_iff

/-- Integers as values, with every text valid and a clash for every name that is registered. -/
def integers : Prometheus Int where
  negative v := v < 0
  ge a b := b ≤ a
  utf8 _ := true
  checksVec := false
  invalid _ := none
  clashes a b := a.name = b.name

/-- A counter is declared and given -1. A histogram is declared with the buckets 2 and 1. A vector of histograms is
declared with the label `le` and given a value. Each of them panics. -/
theorem calls_panic :
    let p : Plugin Int := ⟨fun _ => none, [], []⟩
    let counter : NamedCollector Int := { name := ascii "c", type := .counter }
    let histogram : NamedCollector Int := { name := ascii "h", type := .histogram, buckets := [2, 1] }
    let vector : NamedCollector Int := { name := ascii "v", type := .histogram, labels := [ascii "le"] }
    (add integers ⟨ascii "c", -1, []⟩ (declare integers 0 counter p).2).1 = .panics .decrease ∧
      (declare integers 0 histogram p).1 = .panics .buckets ∧
      (observe integers ⟨ascii "v", 1, [ascii "a"]⟩ (declare integers 0 vector p).2).1 = .panics .bucketLabel := by
  decide

end RoadRunner.Metrics
