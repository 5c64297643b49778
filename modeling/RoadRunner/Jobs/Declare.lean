import RoadRunner.Jobs.Push
import RoadRunner.Lib.Run
import RoadRunner.Lib.Update

/-!
# Declaring and destroying pipelines

The model of `Declare` and `Destroy` of `jobs/plugin.go`. A consumer is the number under which its
constructor returned it; `built` has all of them, with whether they have been stopped. What the calls of the
drivers return is an input.

* `Stepped`: what a call can do. Every proof about runs goes through it.
* `reachable_iff`: no consumer is orphaned exactly if no name is declared twice, and no `Register`, `Run` or
  `Stop` fails (`Kept`).
-/

namespace RoadRunner.Jobs.Pipelines

/-- A consumer that its constructor has returned, by the name of its pipeline. -/
structure Built where
  name : Bytes
  /-- `Stop` has returned no error. -/
  stopped : Bool := false
  deriving DecidableEq

/-- The registry, with the known drivers and what was built. -/
structure Dynamic extends Registry Nat where
  jobConstructors : List Bytes
  /-- The pipelines to be consumed on start. -/
  consume : List Bytes
  built : List Built := []

/-- A call, with what the calls of the driver that it makes return. -/
inductive Call where
  | declare (pipeline : Pipeline) (consumerFromPipeline register run : Option Err)
  | destroy (pp : Bytes) (stop : Option Err)
  deriving DecidableEq

namespace Dynamic

/-- The plugin without pipelines. -/
def empty (jobConstructors consume : List Bytes) : Dynamic :=
  { pipelines := fun _ => none, consumers := fun _ => none, jobConstructors, consume }

/-- The constructor has returned a consumer for the pipeline `name`. -/
def build (s : Dynamic) (name : Bytes) : Dynamic := { s with built := s.built ++ [⟨name, false⟩] }

/-- `consumers.Store`, `pipelines.Store`. -/
def store (s : Dynamic) (pipeline : Pipeline) (d : Nat) : Dynamic :=
  { s with
    consumers := Function.update s.consumers pipeline.name (some d)
    pipelines := Function.update s.pipelines pipeline.name (some pipeline) }

/-- `consumers.LoadAndDelete`, `pipelines.LoadAndDelete`. -/
def delete (s : Dynamic) (name pp : Bytes) : Dynamic :=
  { s with
    consumers := Function.update s.consumers name none
    pipelines := Function.update s.pipelines pp none }

/-- `Stop` of the consumer `d` has returned no error. -/
def stop (s : Dynamic) (d : Nat) : Dynamic :=
  { s with built := s.built.modify d fun b => { b with stopped := true } }

/-- `Declare`. -/
def declare (s : Dynamic) (pipeline : Pipeline) (consumerFromPipeline register run : Option Err) :
    Option Err × Dynamic :=
  if pipeline.driver = [] then
    (some (.op "jobs_plugin_declare" (.errorf "no associated driver with the pipeline, pipeline name: %s"
      (.str pipeline.name.text))), s)
  else if pipeline.driver ∈ s.jobConstructors then
    match consumerFromPipeline with
    | some err => (some (.op "jobs_plugin_declare" err), s)
    | none =>
      let d := s.built.length
      let s := s.build pipeline.name
      match register with
      | some _ =>
        (some (.op "jobs_plugin_declare" (.errorf₂ "pipe register failed for the driver: %s with pipe name: %s"
          (.str pipeline.driver.text) (.str pipeline.name.text))), s)
      | none =>
        match if pipeline.name ∈ s.consume then run else none with
        | some err => (some (.op "jobs_plugin_declare" err), s)
        | none => (none, s.store pipeline d)
  else (none, s)

/-- `Destroy`. -/
def destroy (s : Dynamic) (pp : Bytes) (stop : Option Err) : Option Err × Dynamic :=
  match s.pipelines pp with
  | none => (some (.op "jobs_plugin_destroy" (.errorf "no such pipeline, requested: %s" (.str pp.text))), s)
  | some ppl =>
    match s.consumers ppl.name with
    | none => (some (.op "jobs_plugin_destroy" (.errorf "consumer not registered for the requested driver: %s"
        (.str ppl.driver.text))), s)
    | some d =>
      match stop with
      | some err => (some (.op "jobs_plugin_destroy" err), s.delete ppl.name pp)
      | none => (none, (s.delete ppl.name pp).stop d)

/-- The registry after a call. -/
def step (s : Dynamic) : Call → Dynamic
  | .declare pipeline consumerFromPipeline register run => (s.declare pipeline consumerFromPipeline register run).2
  | .destroy pp stop => (s.destroy pp stop).2

/-! ## What a call can do -/

/-- The call gets as far as a consumer of its own. -/
def Builds (s : Dynamic) (pipeline : Pipeline) (consumerFromPipeline : Option Err) : Prop :=
  pipeline.driver ≠ [] ∧ pipeline.driver ∈ s.jobConstructors ∧ consumerFromPipeline = none

instance (s : Dynamic) (pipeline : Pipeline) (consumerFromPipeline : Option Err) :
    Decidable (s.Builds pipeline consumerFromPipeline) :=
  inferInstanceAs (Decidable (_ ∧ _ ∧ _))

/-- Neither `Register` nor a `Run` that is called returns an error. -/
def Starts (s : Dynamic) (pipeline : Pipeline) (register run : Option Err) : Prop :=
  register = none ∧ (pipeline.name ∈ s.consume → run = none)

instance (s : Dynamic) (pipeline : Pipeline) (register run : Option Err) :
    Decidable (s.Starts pipeline register run) :=
  inferInstanceAs (Decidable (_ ∧ _))

/-- What a call can do. -/
inductive Stepped (s : Dynamic) : Call → Dynamic → Prop where
  | notBuilt {pipeline : Pipeline} {consumerFromPipeline register run : Option Err}
      (h : ¬ s.Builds pipeline consumerFromPipeline) :
      Stepped s (.declare pipeline consumerFromPipeline register run) s
  | notStarted {pipeline : Pipeline} {consumerFromPipeline register run : Option Err}
      (hbuilds : s.Builds pipeline consumerFromPipeline) (h : ¬ s.Starts pipeline register run) :
      Stepped s (.declare pipeline consumerFromPipeline register run) (s.build pipeline.name)
  | declared {pipeline : Pipeline} {consumerFromPipeline register run : Option Err}
      (hbuilds : s.Builds pipeline consumerFromPipeline) (hstarts : s.Starts pipeline register run) :
      Stepped s (.declare pipeline consumerFromPipeline register run)
        ((s.build pipeline.name).store pipeline s.built.length)
  | unknown {pp : Bytes} {stop : Option Err}
      (h : ∀ ppl, s.pipelines pp = some ppl → s.consumers ppl.name = none) :
      Stepped s (.destroy pp stop) s
  | notStopped {pp : Bytes} {err : Err} {ppl : Pipeline} {d : Nat} (hppl : s.pipelines pp = some ppl)
      (hd : s.consumers ppl.name = some d) :
      Stepped s (.destroy pp (some err)) (s.delete ppl.name pp)
  | destroyed {pp : Bytes} {ppl : Pipeline} {d : Nat} (hppl : s.pipelines pp = some ppl)
      (hd : s.consumers ppl.name = some d) :
      Stepped s (.destroy pp none) ((s.delete ppl.name pp).stop d)

theorem step_stepped (s : Dynamic) (c : Call) : Stepped s c (s.step c) := by
  cases c with
  | declare pipeline consumerFromPipeline register run =>
    change Stepped s _ (s.declare pipeline consumerFromPipeline register run).2
    unfold declare
    split
    case isTrue h => exact .notBuilt fun hb => hb.1 h
    case isFalse hne =>
    split
    case isFalse h => exact .notBuilt fun hb => h hb.2.1
    case isTrue hmem =>
    cases consumerFromPipeline with
    | some err => exact .notBuilt fun hb => nomatch hb.2.2
    | none =>
    have hbuilds : s.Builds pipeline none := ⟨hne, hmem, rfl⟩
    cases register with
    | some err => exact .notStarted hbuilds fun hs => nomatch hs.1
    | none =>
    dsimp only [build]
    split
    case h_1 err h =>
      obtain ⟨hc, rfl⟩ : pipeline.name ∈ s.consume ∧ run = some err := by simpa using h
      exact .notStarted hbuilds fun hs => nomatch hs.2 hc
    case h_2 h => exact .declared hbuilds ⟨rfl, fun hc => by simpa [hc] using h⟩
  | destroy pp stop =>
    change Stepped s _ (s.destroy pp stop).2
    unfold destroy
    split
    case h_1 h => exact .unknown fun ppl hppl => nomatch h.symm.trans hppl
    case h_2 ppl hppl =>
    split
    case h_1 h =>
      refine .unknown fun ppl' hppl' => ?_
      obtain rfl := Option.some.inj (hppl.symm.trans hppl')
      exact h
    case h_2 d hd =>
    cases stop with
    | some err => exact .notStopped hppl hd
    | none => exact .destroyed hppl hd

/-! ## Orphans -/

/-- The consumers in the map are built for their name and not stopped. -/
def Listed (s : Dynamic) : Prop := ∀ n d, s.consumers n = some d → s.built[d]? = some ⟨n, false⟩

/-- Every consumer that is built and not stopped is in the map, under the name of its pipeline. -/
def Reachable (s : Dynamic) : Prop :=
  ∀ d b, s.built[d]? = some b → b.stopped = false → s.consumers b.name = some d

/-- A call orphans no consumer. -/
def Kept (s : Dynamic) : Call → Prop
  | .declare pipeline consumerFromPipeline register run =>
    s.Builds pipeline consumerFromPipeline → s.Starts pipeline register run ∧ s.consumers pipeline.name = none
  | .destroy pp stop => (s.pipelines pp).bind (fun ppl => s.consumers ppl.name) ≠ none → stop = none

instance (s : Dynamic) : (c : Call) → Decidable (s.Kept c)
  | .declare _ _ _ _ => inferInstanceAs (Decidable (_ → _))
  | .destroy _ _ => inferInstanceAs (Decidable (_ → _))

theorem build_built {s : Dynamic} {name : Bytes} {d : Nat} {b : Built} :
    (s.build name).built[d]? = some b ↔ s.built[d]? = some b ∨ d = s.built.length ∧ b = ⟨name, false⟩ := by
  change (s.built ++ [_])[d]? = some b ↔ _
  rw [List.getElem?_append]
  split
  case isTrue h => simp [h.ne]
  case isFalse h =>
    have hnone : s.built[d]? = none := List.getElem?_eq_none (by omega)
    rw [hnone, List.getElem?_singleton]
    by_cases hd : d = s.built.length
    · simp [hd, eq_comm]
    · have hsub : d - s.built.length ≠ 0 := by omega
      simp [hd, hsub]

/-- The consumer that is built next is not built yet. -/
theorem ne_length {s : Dynamic} {d : Nat} {b : Built} (h : s.built[d]? = some b) : d ≠ s.built.length :=
  (List.getElem?_eq_some_iff.mp h).1.ne

theorem stop_built {s : Dynamic} {d e : Nat} {b : Built} (hb : b.stopped = false) :
    (s.stop d).built[e]? = some b ↔ s.built[e]? = some b ∧ e ≠ d := by
  change (s.built.modify d _)[e]? = some b ↔ _
  rw [List.getElem?_modify]
  by_cases he : d = e
  · subst he
    simp only [↓reduceIte, Option.map_eq_map, Option.map_eq_some_iff, ne_eq, not_true_eq_false, and_false, iff_false]
    rintro ⟨b', -, rfl⟩
    cases hb
  · simp [he, Ne.symm he]

theorem Listed.build {s : Dynamic} (h : s.Listed) (name : Bytes) : (s.build name).Listed :=
  fun n d hd => build_built.mpr (.inl (h n d hd))

theorem Listed.stepped {s s' : Dynamic} (h : s.Listed) {c : Call} (hstep : Stepped s c s') : s'.Listed := by
  cases hstep with
  | notBuilt => exact h
  | notStarted => exact h.build _
  | unknown => exact h
  | @declared pipeline =>
    intro n d hd
    rcases Update.of_update hd with ⟨rfl, hnew⟩ | ⟨-, hold⟩
    · exact build_built.mpr (.inr ⟨(Option.some.inj hnew).symm, rfl⟩)
    · exact h.build _ n d hold
  | @notStopped pp err ppl d =>
    intro n e he
    rcases Update.of_update he with ⟨-, hnone⟩ | ⟨-, hold⟩
    · cases hnone
    · exact h n e hold
  | @destroyed pp ppl d hppl hd =>
    intro n e he
    rcases Update.of_update he with ⟨-, hnone⟩ | ⟨hn, hold⟩
    · cases hnone
    · refine (stop_built rfl).mpr ⟨h n e hold, ?_⟩
      -- the consumer that is stopped is listed under another name
      rintro rfl
      have hname := (h n e hold).symm.trans (h ppl.name e hd)
      exact hn (congrArg Built.name (Option.some.inj hname))

theorem not_reachable_build {s : Dynamic} (h : s.Listed) (name : Bytes) : ¬ (s.build name).Reachable := by
  intro hr
  have hnew : s.consumers name = some s.built.length := hr _ ⟨name, false⟩ (build_built.mpr (.inr ⟨rfl, rfl⟩)) rfl
  exact ne_length (h name _ hnew) rfl

theorem reachable_store_iff {s : Dynamic} (h : s.Listed) (pipeline : Pipeline) :
    ((s.build pipeline.name).store pipeline s.built.length).Reachable ↔
      s.Reachable ∧ s.consumers pipeline.name = none := by
  constructor
  · intro hr
    have hold : ∀ d b, s.built[d]? = some b → b.stopped = false →
        s.consumers b.name = some d ∧ b.name ≠ pipeline.name := by
      intro d b hb hrun
      have hd : Function.update s.consumers pipeline.name _ b.name = some d :=
        hr d b (build_built.mpr (.inl hb)) hrun
      rcases Update.of_update hd with ⟨-, hnew⟩ | ⟨hn, hold⟩
      · exact absurd (Option.some.inj hnew).symm (ne_length hb)
      · exact ⟨hold, hn⟩
    refine ⟨fun d b hb hrun => (hold d b hb hrun).1, ?_⟩
    cases hc : s.consumers pipeline.name with
    | none => rfl
    | some d => exact absurd rfl (hold d _ (h _ d hc) rfl).2
  · rintro ⟨hr, hnone⟩ d b hb hrun
    change Function.update s.consumers pipeline.name _ b.name = some d
    rcases build_built.mp hb with hb | ⟨rfl, rfl⟩
    · have hd := hr d b hb hrun
      rw [Function.update_of_ne (fun hn => by rw [hn, hnone] at hd; cases hd)]
      exact hd
    · rw [Function.update_self]

/-- The consumer `d` leaves the map. -/
theorem not_reachable_delete {s : Dynamic} (h : s.Listed) {name pp : Bytes} {d : Nat}
    (hd : s.consumers name = some d) : ¬ (s.delete name pp).Reachable := by
  intro hr
  have hnone : Function.update s.consumers name none name = some d := hr d _ (h name d hd) rfl
  rw [Function.update_self] at hnone
  cases hnone

theorem reachable_stop_iff {s : Dynamic} (h : s.Listed) {name pp : Bytes} {d : Nat}
    (hd : s.consumers name = some d) : ((s.delete name pp).stop d).Reachable ↔ s.Reachable := by
  constructor
  · intro hr e b hb hrun
    by_cases he : e = d
    · subst he
      obtain rfl := Option.some.inj (hb.symm.trans (h name e hd))
      exact hd
    · have hmap : Function.update s.consumers name none b.name = some e :=
        hr e b ((stop_built hrun).mpr ⟨hb, he⟩) hrun
      rcases Update.of_update hmap with ⟨-, hnone⟩ | ⟨-, hold⟩
      · cases hnone
      · exact hold
  · intro hr e b hb hrun
    obtain ⟨hb, he⟩ := (stop_built hrun).mp hb
    have hmap := hr e b hb hrun
    change Function.update s.consumers name none b.name = some e
    rw [Function.update_of_ne (fun hn => by rw [hn, hd] at hmap; exact he (Option.some.inj hmap).symm)]
    exact hmap

/-- An orphan stays one, and a call makes one exactly if it is not `Kept`. -/
theorem reachable_stepped_iff {s s' : Dynamic} (h : s.Listed) {c : Call} (hstep : Stepped s c s') :
    s'.Reachable ↔ s.Reachable ∧ s.Kept c := by
  cases hstep with
  | notBuilt hno => exact (and_iff_left fun hb => absurd hb hno).symm
  | notStarted hbuilds hno =>
    exact iff_of_false (not_reachable_build h _) fun hk => hno (hk.2 hbuilds).1
  | declared hbuilds hstarts =>
    rw [reachable_store_iff h]
    exact and_congr_right' ⟨fun hnone _ => ⟨hstarts, hnone⟩, fun hk => (hk hbuilds).2⟩
  | @unknown pp stop hno =>
    refine (and_iff_left fun hsome => absurd ?_ hsome).symm
    rw [Option.bind_eq_none_iff]
    exact hno
  | @notStopped pp err ppl d hppl hd =>
    refine iff_of_false (not_reachable_delete h hd) fun hk => ?_
    have hnone : some err = none := hk.2 (by rw [hppl, Option.bind_some, hd]; exact Option.some_ne_none d)
    cases hnone
  | destroyed hppl hd => rw [reachable_stop_iff h hd]; exact (and_iff_left fun _ => rfl).symm

/-- Over every sequence of calls, no consumer that runs gets out of reach exactly if every call is `Kept`: a
consumer that is built is registered, run if it has to be, and stored under a free name, and one that is
destroyed is stopped. -/
theorem reachable_iff {s : Dynamic} (hlisted : s.Listed) (calls : List Call) :
    (Run.exec step s calls).Reachable ↔ s.Reachable ∧ Run.Along step Kept s calls :=
  Run.Along.exec_iff (I := Listed) (fun s c h => h.stepped (step_stepped s c))
    (fun s c h => reachable_stepped_iff h (step_stepped s c)) hlisted

theorem listed_empty (jobConstructors consume : List Bytes) : (empty jobConstructors consume).Listed :=
  fun _ _ h => nomatch h

theorem reachable_empty (jobConstructors consume : List Bytes) : (empty jobConstructors consume).Reachable :=
  fun _ _ h => nomatch h

/-- The plugin with the in-memory driver, which consumes the pipeline `p`. -/
def memoryOnly : Dynamic := empty [ascii "memory"] [ascii "p"]

/-- `Declare` of the pipeline `p`. -/
def declareP (register run : Option Err) : Call := .declare ⟨ascii "p", ascii "memory", 10⟩ none register run

/-- A pipeline that is declared, destroyed and declared again. -/
theorem reachable_redeclared :
    memoryOnly.Listed ∧
      (Run.exec step memoryOnly [declareP none none, .destroy (ascii "p") none, declareP none none]).Reachable :=
  ⟨listed_empty _ _, (reachable_iff (listed_empty _ _) _).mpr ⟨reachable_empty _ _, by decide +kernel⟩⟩

/-- A second `Declare` of a name, a `Register` or a `Run` that fails, and a `Stop` that fails: each leaves the
consumer 0 running and not in the map. -/
theorem orphans :
    let redeclared := Run.exec step memoryOnly [declareP none none, declareP none none]
    let unregistered := Run.exec step memoryOnly [declareP (some (.lib "Register")) none]
    let notRun := Run.exec step memoryOnly [declareP none (some (.lib "Run"))]
    let notStopped := Run.exec step memoryOnly [declareP none none, .destroy (ascii "p") (some (.lib "Stop"))]
    [redeclared, unregistered, notRun, notStopped].map (fun s => (s.built[0]?, s.consumers (ascii "p"))) =
      [(some ⟨ascii "p", false⟩, some 1), (some ⟨ascii "p", false⟩, none), (some ⟨ascii "p", false⟩, none),
        (some ⟨ascii "p", false⟩, none)] := by
  decide +kernel

end Dynamic

end RoadRunner.Jobs.Pipelines
