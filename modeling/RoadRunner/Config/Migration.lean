import RoadRunner.Basic
import RoadRunner.Lib.Decimal
import RoadRunner.Lib.Traverse

/-!
# The migration of a configuration from 2.6 to 2.7

The model of `config/versions.go` and of what `config/plugin.go` does around it. A pipeline of a 2.6 file has the
options of its driver beside the driver's name; a 2.7 file has them under `config`, which is where the drivers read
them. For an older file, `Init` decodes the options into a struct and sets it as `config`, and then replaces every
`${ENV}` that it finds in the file.

* `Value`, `Options`: what a file has. `Viper`: what decoding a value gives, for an arbitrary decoder.
* `Driver.migrated`, `Driver.config`: the fields of the structs `v2_6` and `v2_7`, and of the driver's own struct.
* `v26to27_eq`: when the migration succeeds, and what it does to each pipeline.
* `migration_same_iff`: the drivers read what they would read from a 2.7 file with the same options, exactly if
  every option that is not migrated has the value of its absence, and no option has another value before the
  replacement than after it.

The flags and the environment variables that override single keys are left out.
-/

namespace RoadRunner.Config

/-! ## Values and structs -/

/-- The type of a field. -/
inductive Kind where
  | bool
  | string
  | int
  | int32
  | int64
  | uint64
  | duration
  | uint32Ptr
  | stringPtr
  | stringMap
  deriving DecidableEq

/-- A value of a file: a string, a map, or something else. -/
inductive Value (V : Type) where
  | str (s : Bytes)
  | map (entries : List (Bytes × Value V))
  | other (v : V)

/-- A section of the configuration. -/
abbrev Options (V : Type) := List (Bytes × Value V)

/-- The tags of a struct, with the types of its fields. -/
abbrev Fields := List (Bytes × Kind)

/-- How values are decoded. -/
structure Viper (V F : Type) where
  /-- A value for a field of this type, or an error. -/
  decode : Kind → Value V → Option F
  zero : Kind → F
  /-- The section `jobs` without its pipelines can be decoded. -/
  decodeJobs : Options V → Bool

section

variable {V F : Type}

/-- The value of a field. One without an entry is zero. -/
def Viper.field (viper : Viper V F) (options : Options V) (field : Bytes × Kind) : Option F :=
  match options.lookup field.1 with
  | none => some (viper.zero field.2)
  | some value => viper.decode field.2 value

/-- Decode a map into a struct. -/
def Viper.decodeStruct (viper : Viper V F) (fields : Fields) (options : Options V) : Option (List (Bytes × F)) :=
  fields.mapM fun field => (viper.field options field).map fun v => (field.1, v)

/-- Decode a struct into another one, by their tags. -/
def Viper.copyStruct (viper : Viper V F) (fields : Fields) (conf : List (Bytes × F)) : List (Bytes × F) :=
  fields.map fun field => (field.1, (conf.lookup field.1).getD (viper.zero field.2))

end

/-! ## Drivers -/

/-- The drivers that are migrated. -/
inductive Driver where
  | amqp
  | beanstalk
  | boltdb
  | memory
  | nats
  | sqs
  deriving DecidableEq

namespace Driver

/-- The name of a driver in the configuration. -/
def name : Driver → Bytes
  | amqp => ascii "amqp"
  | beanstalk => ascii "beanstalk"
  | boltdb => ascii "boltdb"
  | memory => ascii "memory"
  | nats => ascii "nats"
  | sqs => ascii "sqs"

/-- The driver of a name. -/
def ofName (dr : Bytes) : Option Driver :=
  [amqp, beanstalk, boltdb, memory, nats, sqs].find? fun d => d.name = dr

/-- The struct of `v2_6`. The one of `v2_7` has the same fields, and every one of them is copied. -/
def migrated : Driver → Fields
  | amqp => [
      (ascii "priority", .int64),
      (ascii "prefetch", .int),
      (ascii "queue", .string),
      (ascii "exchange", .string),
      (ascii "exchange_type", .string),
      (ascii "routing_key", .string),
      (ascii "exclusive", .bool),
      (ascii "multiple_ask", .bool),
      (ascii "requeue_on_fail", .bool)]
  | beanstalk => [
      (ascii "priority", .int64),
      (ascii "tube_priority", .uint32Ptr),
      (ascii "tube", .string),
      (ascii "reserve_timeout", .duration)]
  | boltdb => [
      (ascii "priority", .int64),
      (ascii "file", .string),
      (ascii "prefetch", .int)]
  | memory => [
      (ascii "priority", .int64)]
  | nats => [
      (ascii "priority", .int64),
      (ascii "subject", .string),
      (ascii "stream", .string),
      (ascii "prefetch", .int),
      (ascii "rate_limit", .uint64),
      (ascii "delete_after_ack", .bool),
      (ascii "deliver_new", .bool),
      (ascii "delete_stream_on_stop", .bool)]
  | sqs => [
      (ascii "priority", .int64),
      (ascii "visibility_timeout", .int32),
      (ascii "wait_time_seconds", .int32),
      (ascii "prefetch", .int32),
      (ascii "queue", .stringPtr),
      (ascii "attributes", .stringMap),
      (ascii "tags", .stringMap)]

/-- The struct that the driver reads its options into. -/
def config : Driver → Fields
  | amqp => [
      (ascii "addr", .string),
      (ascii "prefetch", .int),
      (ascii "queue", .string),
      (ascii "priority", .int64),
      (ascii "exchange", .string),
      (ascii "exchange_type", .string),
      (ascii "routing_key", .string),
      (ascii "exclusive", .bool),
      (ascii "durable", .bool),
      (ascii "delete_queue_on_stop", .bool),
      (ascii "multiple_ask", .bool),
      (ascii "requeue_on_fail", .bool)]
  | beanstalk => [
      (ascii "addr", .string),
      (ascii "timeout", .duration),
      (ascii "priority", .int64),
      (ascii "tube_priority", .uint32Ptr),
      (ascii "tube", .string),
      (ascii "reserve_timeout", .duration)]
  | boltdb => [
      (ascii "permissions", .int),
      (ascii "file", .string),
      (ascii "priority", .int64),
      (ascii "prefetch", .int)]
  | memory => [
      (ascii "priority", .int64),
      (ascii "prefetch", .uint64)]
  | nats => [
      (ascii "addr", .string),
      (ascii "priority", .int64),
      (ascii "subject", .string),
      (ascii "stream", .string),
      (ascii "prefetch", .int),
      (ascii "rate_limit", .uint64),
      (ascii "delete_after_ack", .bool),
      (ascii "deliver_new", .bool),
      (ascii "delete_stream_on_stop", .bool)]
  | sqs => [
      (ascii "key", .string),
      (ascii "secret", .string),
      (ascii "region", .string),
      (ascii "session_token", .string),
      (ascii "endpoint", .string),
      (ascii "visibility_timeout", .int32),
      (ascii "wait_time_seconds", .int32),
      (ascii "prefetch", .int32),
      (ascii "queue", .stringPtr),
      (ascii "attributes", .stringMap),
      (ascii "tags", .stringMap)]

end Driver

/-! ## The configuration -/

/-- What is under `config`. -/
inductive Setting (V F : Type) where
  /-- A map of the file. -/
  | file (options : Options V)
  /-- A struct that `Set` has stored. -/
  | conf (fields : List (Bytes × F))

/-- A pipeline of the configuration. -/
structure Pipeline (V F : Type) where
  driver : Bytes
  /-- The options beside the driver. -/
  options : Options V := []
  config : Option (Setting V F) := none

/-- The section `jobs`. -/
structure Jobs (V F : Type) where
  /-- The options beside the pipelines. -/
  options : Options V := []
  /-- The names of the pipelines, in the order of the loop. -/
  names : List Bytes
  pipeline : Bytes → Pipeline V F

/-- A semantic version, with the text that it was read from. -/
structure Version where
  text : String
  major : Nat
  minor : Nat
  patch : Nat

namespace Version

/-- `Version.LessThan`. -/
def LessThan (v w : Version) : Prop :=
  v.major < w.major ∨ v.major = w.major ∧ (v.minor < w.minor ∨ v.minor = w.minor ∧ v.patch < w.patch)

instance (v w : Version) : Decidable (v.LessThan w) := inferInstanceAs (Decidable (_ ∨ _ ∧ (_ ∨ _ ∧ _)))

/-- `Version.Equal`. -/
def Equal (v w : Version) : Prop := v.major = w.major ∧ v.minor = w.minor ∧ v.patch = w.patch

instance (v w : Version) : Decidable (v.Equal w) := inferInstanceAs (Decidable (_ ∧ _ ∧ _))

/-- `Version.String`. -/
def string (v : Version) : String := toString v.major ++ "." ++ toString v.minor ++ "." ++ toString v.patch

end Version

/-- `defaultVersion`. -/
def defaultVersion : Version := ⟨"2.6", 2, 6, 0⟩

section

variable {V F : Type}

/-- `Set` of the struct under `config`. -/
def Jobs.set (jobs : Jobs V F) (key : Bytes) (conf27 : List (Bytes × F)) : Jobs V F :=
  { jobs with
    pipeline := Function.update jobs.pipeline key { jobs.pipeline key with config := some (.conf conf27) } }

/-- One round of the loop of `v26to27`. -/
def migrate (viper : Viper V F) (jobs : Jobs V F) (key : Bytes) : Except Err (Jobs V F) :=
  match Driver.ofName (jobs.pipeline key).driver with
  | none =>
    .error (.op "v2.6_to_v2.7_transition" (.str ("unknown driver name: " ++ (jobs.pipeline key).driver.text)))
  | some dr =>
    match viper.decodeStruct dr.migrated (jobs.pipeline key).options with
    | none => .error (.op "v2.6_to_v2.7_transition" (.lib "UnmarshalKey"))
    | some conf27 => .ok (jobs.set key conf27)

/-- `v26to27`. -/
def v26to27 (viper : Viper V F) : Option (Jobs V F) → Except Err (Option (Jobs V F))
  | none => .ok none
  | some jobs =>
    if viper.decodeJobs jobs.options then (jobs.names.foldlM (migrate viper) jobs).map some
    else .error (.op "v2.6_to_v2.7_transition" (.lib "UnmarshalKey"))

/-- The minors of the two versions differ when `transition` is called. -/
def transition (viper : Viper V F) (cfg rr : Version) (jobs : Option (Jobs V F)) : Except Err (Option (Jobs V F)) :=
  if (rr.minor : Int) - cfg.minor ≠ 1 then
    .error (.str ("incompatible versions passed: from: " ++ cfg.string ++ ", to: " ++ rr.string))
  else if (cfg.major, cfg.minor) = (2, 6) ∧ (rr.major, rr.minor) = (2, 7) then v26to27 viper jobs
  else .ok jobs

/-- `parseEnv` of a string. -/
def parseEnv (lookupEnv : Bytes → Option Bytes) (str : Bytes) : Bytes :=
  if str.length ≤ 3 then str
  else if str.take 2 = [36, 123] ∧ str.getLast? = some 125 then (lookupEnv (str.drop 2).dropLast).getD str
  else str

mutual

/-- The loop over `AllKeys`, which goes down into maps. -/
def Value.parseEnv (lookupEnv : Bytes → Option Bytes) : Value V → Value V
  | .str s => .str (Config.parseEnv lookupEnv s)
  | .map entries => .map (parseEnvs lookupEnv entries)
  | .other v => .other v

/-- The loop of `parseEnv` over a section. -/
def parseEnvs (lookupEnv : Bytes → Option Bytes) : Options V → Options V
  | [] => []
  | (k, v) :: entries => (k, v.parseEnv lookupEnv) :: parseEnvs lookupEnv entries

end

/-- `parseEnv` in the `config` of a pipeline. -/
def Setting.parseEnv (lookupEnv : Bytes → Option Bytes) : Setting V F → Setting V F
  | .file options => .file (parseEnvs lookupEnv options)
  | .conf fields => .conf fields

/-- `parseEnv` in a pipeline. -/
def Pipeline.parseEnv (lookupEnv : Bytes → Option Bytes) (p : Pipeline V F) : Pipeline V F where
  driver := Config.parseEnv lookupEnv p.driver
  options := parseEnvs lookupEnv p.options
  config := p.config.map (Setting.parseEnv lookupEnv)

/-- `parseEnv` in the section `jobs`. -/
def Jobs.parseEnv (lookupEnv : Bytes → Option Bytes) (jobs : Jobs V F) : Jobs V F where
  options := parseEnvs lookupEnv jobs.options
  names := jobs.names
  pipeline key := (jobs.pipeline key).parseEnv lookupEnv

/-- `Init`, after the file is read. -/
def init (viper : Viper V F) (lookupEnv : Bytes → Option Bytes) (rr cfg : Version) (jobs : Option (Jobs V F)) :
    Except Err (Option (Jobs V F)) :=
  if cfg.LessThan defaultVersion then
    .error (.op "config_plugin_init" (.str "too old configuration version used, should be at least 2.6"))
  else if rr.LessThan cfg then
    .error (.op "config_plugin_init" (.str ("RR version is older than configuration version, RR version: " ++ rr.text ++
      ", configuration version: " ++ cfg.text)))
  else if ¬ rr.Equal cfg ∧ rr.major = cfg.major ∧ rr.minor ≠ cfg.minor then
    match transition viper cfg rr jobs with
    | .error err => .error (.op "config_plugin_init" err)
    | .ok jobs => .ok (jobs.map (Jobs.parseEnv lookupEnv))
  else .ok (jobs.map (Jobs.parseEnv lookupEnv))

/-- What the driver of the pipeline decodes; `none` if it fails. -/
def Pipeline.read (viper : Viper V F) (p : Pipeline V F) : Option (List (Bytes × F)) :=
  (Driver.ofName p.driver).bind fun dr =>
    p.config.bind fun
      | .file options => viper.decodeStruct dr.config options
      | .conf fields => some (viper.copyStruct dr.config fields)

/-- What the driver of a pipeline reads after `Init`. -/
def readAfter (viper : Viper V F) (result : Except Err (Option (Jobs V F))) (key : Bytes) : Option (List (Bytes × F)) :=
  match result with
  | .ok (some jobs) => (jobs.pipeline key).read viper
  | _ => none

/-- The same options in a 2.7 file. -/
def Jobs.written (jobs : Jobs V F) : Jobs V F :=
  { jobs with
    pipeline := fun key =>
      { driver := (jobs.pipeline key).driver, config := some (.file (jobs.pipeline key).options) } }

end

/-! ## Structs -/

section

variable {V F : Type} {viper : Viper V F}

theorem lookup_map_fst {α β : Type} [BEq α] [LawfulBEq α] {γ : Type} (g : α × γ → β) {l : List (α × γ)} :
    (∀ a ∈ l, (l.map Prod.fst).Nodup → (l.map fun a => (a.1, g a)).lookup a.1 = some (g a)) ∧
      ∀ k ∉ l.map Prod.fst, (l.map fun a => (a.1, g a)).lookup k = none := by
  induction l with
  | nil => simp
  | cons b l ih => grind

/-- The struct has the value of a field for each of its tags, and none for another. -/
theorem lookup_decodeStruct {fields : Fields} {options : Options V} {conf : List (Bytes × F)}
    (h : viper.decodeStruct fields options = some conf) (hnodup : (fields.map Prod.fst).Nodup) :
    (∀ field ∈ fields, ∃ v, viper.field options field = some v ∧ conf.lookup field.1 = some v) ∧
      ∀ tag ∉ fields.map Prod.fst, conf.lookup tag = none := by
  have hsome : ∀ field ∈ fields, (viper.field options field).isSome := by
    intro field hfield
    have := Traverse.isSome_mapM_iff.mp (h ▸ rfl : (viper.decodeStruct fields options).isSome) field hfield
    rwa [Option.isSome_map] at this
  have hvalues : viper.decodeStruct fields options =
      some (fields.map fun field => (field.1, (viper.field options field).getD (viper.zero field.2))) := by
    refine Traverse.mapM_eq_some_map_iff.mpr fun field hfield => ?_
    obtain ⟨v, hv⟩ := Option.isSome_iff_exists.mp (hsome field hfield)
    rw [hv]
    rfl
  obtain rfl := Option.some.inj (h.symm.trans hvalues)
  refine ⟨fun field hfield => ?_, (lookup_map_fst _).2⟩
  obtain ⟨v, hv⟩ := Option.isSome_iff_exists.mp (hsome field hfield)
  refine ⟨v, hv, ?_⟩
  rw [(lookup_map_fst _).1 field hfield hnodup, hv]
  rfl

end

/-- A tag of a driver's own struct that is migrated is migrated with its type. -/
theorem Driver.tags (dr : Driver) : (dr.migrated.map Prod.fst).Nodup ∧
    ∀ field ∈ dr.config, field.1 ∈ dr.migrated.map Prod.fst → field ∈ dr.migrated := by
  cases dr <;> decide +kernel

theorem Driver.name_of_ofName {name : Bytes} {dr : Driver} (h : ofName name = some dr) : dr.name = name := by
  have hname := List.find?_some h
  simpa using hname

/-! ## Environment variables -/

section

variable {V F : Type} (lookupEnv : Bytes → Option Bytes)

theorem lookup_parseEnvs (options : Options V) (k : Bytes) :
    (parseEnvs lookupEnv options).lookup k = (options.lookup k).map (Value.parseEnv lookupEnv) := by
  induction options with
  | nil => rw [parseEnvs]; rfl
  | cons e options ih =>
    obtain ⟨k', v⟩ := e
    rw [parseEnvs, List.lookup_cons, List.lookup_cons, ih]
    cases k == k' <;> rfl

/-- The name of a driver is no variable. -/
theorem parseEnv_driver {name : Bytes} {dr : Driver} (h : Driver.ofName name = some dr) :
    parseEnv lookupEnv name = name := by
  have hname : ∀ dr : Driver, dr.name.take 2 ≠ [36, 123] := by
    intro dr
    cases dr <;> decide +kernel
  rw [← Driver.name_of_ofName h]
  unfold parseEnv
  split
  · rfl
  · rw [if_neg fun hvar => hname dr hvar.1]

end

/-! ## The migration -/

section

variable {V F : Type} (viper : Viper V F)

/-- The struct that the migration sets. -/
def Pipeline.conf27 (p : Pipeline V F) : Option (List (Bytes × F)) :=
  (Driver.ofName p.driver).bind fun dr => viper.decodeStruct dr.migrated p.options

/-- The pipeline as the migration leaves it. -/
def Pipeline.migrated (p : Pipeline V F) : Pipeline V F where
  driver := p.driver
  options := p.options
  config := (p.conf27 viper).map .conf

/-- The section and all its pipelines can be decoded as they stand in the file. -/
def Jobs.Migrates (jobs : Jobs V F) : Prop :=
  viper.decodeJobs jobs.options = true ∧ ∀ key ∈ jobs.names, ((jobs.pipeline key).conf27 viper).isSome

theorem pipeline_set_self (jobs : Jobs V F) (key : Bytes) (conf : List (Bytes × F)) :
    (jobs.set key conf).pipeline key = { jobs.pipeline key with config := some (.conf conf) } :=
  Function.update_self ..

theorem pipeline_set_of_ne (jobs : Jobs V F) {key other : Bytes} (h : other ≠ key) (conf : List (Bytes × F)) :
    (jobs.set key conf).pipeline other = jobs.pipeline other :=
  Function.update_of_ne h ..

/-- `Set` changes only `config`. -/
theorem pipeline_set (jobs : Jobs V F) (key : Bytes) (conf : List (Bytes × F)) (other : Bytes) :
    ((jobs.set key conf).pipeline other).conf27 viper = (jobs.pipeline other).conf27 viper ∧
      ((jobs.set key conf).pipeline other).migrated viper = (jobs.pipeline other).migrated viper := by
  by_cases h : other = key
  · subst h
    rw [pipeline_set_self]
    exact ⟨rfl, rfl⟩
  · rw [pipeline_set_of_ne jobs h]
    exact ⟨rfl, rfl⟩

variable {viper}

theorem migrate_ok {jobs : Jobs V F} {key : Bytes} {conf : List (Bytes × F)}
    (h : (jobs.pipeline key).conf27 viper = some conf) : migrate viper jobs key = .ok (jobs.set key conf) := by
  obtain ⟨dr, hdr, hconf⟩ := Option.bind_eq_some_iff.mp h
  rw [migrate, hdr]
  dsimp only
  rw [hconf]

theorem migrate_error {jobs : Jobs V F} {key : Bytes} (h : (jobs.pipeline key).conf27 viper = none) :
    ∃ err, migrate viper jobs key = .error err := by
  unfold Pipeline.conf27 at h
  unfold migrate
  cases hdr : Driver.ofName (jobs.pipeline key).driver with
  | none => exact ⟨_, rfl⟩
  | some dr =>
    rw [hdr, Option.bind_some] at h
    dsimp only
    rw [h]
    exact ⟨_, rfl⟩

/-- The loop, where all pipelines can be decoded: each of them gets its struct. -/
theorem foldlM_migrate_ok (keys : List Bytes) (jobs : Jobs V F)
    (h : ∀ key ∈ keys, ((jobs.pipeline key).conf27 viper).isSome) :
    ∃ jobs', keys.foldlM (migrate viper) jobs = .ok jobs' ∧ ∀ key, jobs'.pipeline key =
      if key ∈ keys then (jobs.pipeline key).migrated viper else jobs.pipeline key := by
  induction keys generalizing jobs with
  | nil => exact ⟨jobs, rfl, fun key => rfl⟩
  | cons k keys ih =>
    obtain ⟨hk, hkeys⟩ := List.forall_mem_cons.mp h
    obtain ⟨conf, hconf⟩ := Option.isSome_iff_exists.mp hk
    obtain ⟨jobs', hrun, hjobs'⟩ := ih (jobs.set k conf) fun key hkey => by
      rw [(pipeline_set viper jobs k conf key).1]
      exact hkeys key hkey
    refine ⟨jobs', ?_, fun key => ?_⟩
    · rw [List.foldlM_cons, migrate_ok hconf]
      exact hrun
    · rw [hjobs' key]
      by_cases hkey : key ∈ keys
      · rw [if_pos hkey, if_pos (List.mem_cons_of_mem k hkey), (pipeline_set viper jobs k conf key).2]
      · rw [if_neg hkey]
        by_cases hk : key = k
        · subst hk
          rw [if_pos List.mem_cons_self, Pipeline.migrated, hconf, pipeline_set_self]
          rfl
        · rw [if_neg fun hmem => (List.mem_cons.mp hmem).elim hk hkey, pipeline_set_of_ne jobs hk]

/-- The loop stops at a pipeline that cannot be decoded. -/
theorem foldlM_migrate_error (keys : List Bytes) (jobs : Jobs V F)
    (h : ¬ ∀ key ∈ keys, ((jobs.pipeline key).conf27 viper).isSome) :
    ∃ err, keys.foldlM (migrate viper) jobs = .error err := by
  induction keys generalizing jobs with
  | nil => exact absurd (List.forall_mem_nil _) h
  | cons k keys ih =>
    rw [List.foldlM_cons]
    cases hconf : (jobs.pipeline k).conf27 viper with
    | none =>
      obtain ⟨err, herr⟩ := migrate_error hconf
      rw [herr]
      exact ⟨err, rfl⟩
    | some conf =>
      rw [migrate_ok hconf]
      refine ih (jobs.set k conf) fun hkeys => h (List.forall_mem_cons.mpr ⟨by rw [hconf]; rfl, ?_⟩)
      intro key hkey
      rw [← (pipeline_set viper jobs k conf key).1]
      exact hkeys key hkey

variable (viper) in
/-- The migration succeeds exactly if everything can be decoded, and each pipeline has its struct then. -/
theorem v26to27_eq (jobs : Jobs V F) :
    (jobs.Migrates viper ∧ ∃ jobs', v26to27 viper (some jobs) = .ok (some jobs') ∧ ∀ key ∈ jobs.names,
      jobs'.pipeline key = (jobs.pipeline key).migrated viper) ∨
    (¬ jobs.Migrates viper ∧ ∃ err, v26to27 viper (some jobs) = .error err) := by
  unfold v26to27 Jobs.Migrates
  by_cases hdecode : viper.decodeJobs jobs.options = true
  · dsimp only
    rw [if_pos hdecode]
    by_cases hall : ∀ key ∈ jobs.names, ((jobs.pipeline key).conf27 viper).isSome
    · obtain ⟨jobs', hrun, hjobs'⟩ := foldlM_migrate_ok jobs.names jobs hall
      refine .inl ⟨⟨hdecode, hall⟩, jobs', by rw [hrun]; rfl, fun key hkey => ?_⟩
      rw [hjobs' key, if_pos hkey]
    · obtain ⟨err, herr⟩ := foldlM_migrate_error jobs.names jobs hall
      exact .inr ⟨fun h => hall h.2, err, by rw [herr]; rfl⟩
  · dsimp only
    rw [if_neg hdecode]
    exact .inr ⟨fun h => hdecode h.1, _, rfl⟩

end

/-! ## What the drivers read -/

section

variable {V F : Type} (viper : Viper V F) (lookupEnv : Bytes → Option Bytes)

/-- The driver reads the same option from the struct as from the file: if it is migrated, its value is the same
before the variables are replaced as after it; if not, the option has the value of its absence. -/
def Keeps (dr : Driver) (options : Options V) (field : Bytes × Kind) : Prop :=
  ∀ value, options.lookup field.1 = some value →
    viper.decode field.2 (value.parseEnv lookupEnv) =
      if field ∈ dr.migrated then viper.decode field.2 value else some (viper.zero field.2)

/-- Every option of the pipeline's driver is kept. -/
def Pipeline.Kept (p : Pipeline V F) : Prop :=
  ∀ dr, Driver.ofName p.driver = some dr → ∀ field ∈ dr.config, Keeps viper lookupEnv dr p.options field

variable {viper lookupEnv}

/-- A field that the struct has been decoded with, and what the driver would decode from the file. -/
theorem field_eq_iff_keeps {dr : Driver} {options : Options V} {conf : List (Bytes × F)}
    (hconf : viper.decodeStruct dr.migrated options = some conf) {field : Bytes × Kind} (hfield : field ∈ dr.config) :
    viper.field (parseEnvs lookupEnv options) field = some ((conf.lookup field.1).getD (viper.zero field.2)) ↔
      Keeps viper lookupEnv dr options field := by
  obtain ⟨hnodup, hsame⟩ := dr.tags
  obtain ⟨hmigrated, hother⟩ := lookup_decodeStruct hconf hnodup
  unfold Keeps
  by_cases hmem : field ∈ dr.migrated
  · obtain ⟨v, hv, hlookup⟩ := hmigrated field hmem
    rw [hlookup, Option.getD_some]
    simp only [if_pos hmem]
    unfold Viper.field at hv ⊢
    rw [lookup_parseEnvs]
    cases hoption : options.lookup field.1 with
    | none =>
      rw [hoption] at hv
      exact iff_of_true hv fun value h => nomatch h
    | some value =>
      rw [hoption] at hv
      simp [hv]
  · have hnone : conf.lookup field.1 = none := hother _ fun h => hmem (hsame field hfield h)
    rw [hnone, Option.getD_none]
    simp only [if_neg hmem]
    unfold Viper.field
    rw [lookup_parseEnvs]
    cases hoption : options.lookup field.1 with
    | none => exact iff_of_true rfl fun value h => nomatch h
    | some value => simp

/-- The driver reads from the struct what it would read from the file exactly if every option is kept. -/
theorem read_same_iff {p : Pipeline V F} {dr : Driver} (hdr : Driver.ofName p.driver = some dr)
    (hconf : (p.conf27 viper).isSome) :
    ((p.migrated viper).parseEnv lookupEnv).read viper =
        (Pipeline.parseEnv lookupEnv { driver := p.driver, config := some (.file p.options) }).read viper ↔
      p.Kept viper lookupEnv := by
  obtain ⟨conf, hconf⟩ := Option.isSome_iff_exists.mp hconf
  have hstruct : viper.decodeStruct dr.migrated p.options = some conf := by
    rw [Pipeline.conf27, hdr] at hconf
    exact hconf
  have hkept : p.Kept viper lookupEnv ↔ ∀ field ∈ dr.config, Keeps viper lookupEnv dr p.options field := by
    constructor
    · exact fun h => h dr hdr
    · intro h dr' hdr'
      obtain rfl := Option.some.inj (hdr.symm.trans hdr')
      exact h
  have hdriver : Driver.ofName (parseEnv lookupEnv p.driver) = some dr := by rw [parseEnv_driver lookupEnv hdr, hdr]
  have hmigrated : ((p.migrated viper).parseEnv lookupEnv).read viper = some (viper.copyStruct dr.config conf) := by
    simp only [Pipeline.read, Pipeline.parseEnv, Pipeline.migrated, hconf, hdriver]
    rfl
  have hfile : (Pipeline.parseEnv lookupEnv { driver := p.driver, config := some (.file p.options) }).read viper =
      viper.decodeStruct dr.config (parseEnvs lookupEnv p.options) := by
    simp only [Pipeline.read, Pipeline.parseEnv, hdriver]
    rfl
  rw [hmigrated, hfile, hkept, eq_comm, Viper.copyStruct, Viper.decodeStruct,
    Traverse.mapM_eq_some_map_iff]
  refine forall₂_congr fun field hfield => ?_
  rw [← field_eq_iff_keeps hstruct hfield]
  cases viper.field (parseEnvs lookupEnv p.options) field <;> simp

/-- The version of a 2.6 file, or of a 2.7 file that is not newer than the binary, is accepted. -/
theorem accepts_version {rr cfg : Version} (hrr : rr.major = 2 ∧ rr.minor = 7)
    (hcfg : cfg.major = 2 ∧ (cfg.minor = 6 ∨ cfg.minor = 7 ∧ cfg.patch ≤ rr.patch)) :
    ¬ cfg.LessThan defaultVersion ∧ ¬ rr.LessThan cfg := by
  constructor
  · simp only [Version.LessThan, defaultVersion]
    omega
  · unfold Version.LessThan
    omega

/-- A 2.7 file is not migrated. -/
theorem init_27 {rr cfg : Version} (hrr : rr.major = 2 ∧ rr.minor = 7)
    (hcfg : cfg.major = 2 ∧ cfg.minor = 7 ∧ cfg.patch ≤ rr.patch) (jobs : Jobs V F) :
    init viper lookupEnv rr cfg (some jobs) = .ok (some (jobs.parseEnv lookupEnv)) := by
  obtain ⟨hold, hless⟩ := accepts_version hrr ⟨hcfg.1, .inr hcfg.2⟩
  rw [init, if_neg hold, if_neg hless, if_neg (by omega)]
  rfl

/-- A 2.6 file is migrated, and then the variables are replaced. -/
theorem init_26 {rr cfg : Version} (hrr : rr.major = 2 ∧ rr.minor = 7) (hcfg : cfg.major = 2 ∧ cfg.minor = 6)
    (jobs : Jobs V F) :
    init viper lookupEnv rr cfg (some jobs) =
      match v26to27 viper (some jobs) with
      | .error err => .error (.op "config_plugin_init" err)
      | .ok jobs => .ok (jobs.map (Jobs.parseEnv lookupEnv)) := by
  obtain ⟨hold, hless⟩ := accepts_version hrr ⟨hcfg.1, .inl hcfg.2⟩
  have hdiffer : ¬ rr.Equal cfg ∧ rr.major = cfg.major ∧ rr.minor ≠ cfg.minor := by
    unfold Version.Equal
    omega
  have htransition : transition viper cfg rr (some jobs) = v26to27 viper (some jobs) := by
    have hversions : (cfg.major, cfg.minor) = (2, 6) ∧ (rr.major, rr.minor) = (2, 7) := by
      rw [hrr.1, hrr.2, hcfg.1, hcfg.2]
      exact ⟨rfl, rfl⟩
    rw [transition, if_neg (by omega), if_pos hversions]
  rw [init, if_neg hold, if_neg hless, if_pos hdiffer, htransition]

/-- **The migration keeps the meaning of the options** exactly if everything can be decoded before the variables
are replaced and every option of every driver is kept, or nothing can be read from the 2.7 file either. -/
theorem migration_same_iff (viper : Viper V F) (lookupEnv : Bytes → Option Bytes) (rr cfg cfg' : Version)
    (hrr : rr.major = 2 ∧ rr.minor = 7) (hcfg : cfg.major = 2 ∧ cfg.minor = 6)
    (hcfg' : cfg'.major = 2 ∧ cfg'.minor = 7 ∧ cfg'.patch ≤ rr.patch) (jobs : Jobs V F)
    (hknown : ∀ key ∈ jobs.names, (Driver.ofName (jobs.pipeline key).driver).isSome) :
    (∀ key ∈ jobs.names, readAfter viper (init viper lookupEnv rr cfg (some jobs)) key =
        readAfter viper (init viper lookupEnv rr cfg' (some jobs.written)) key) ↔
      (jobs.Migrates viper → ∀ key ∈ jobs.names, (jobs.pipeline key).Kept viper lookupEnv) ∧
        (¬ jobs.Migrates viper → ∀ key ∈ jobs.names,
          ((jobs.written.pipeline key).parseEnv lookupEnv).read viper = none) := by
  rw [init_26 hrr hcfg, init_27 hrr hcfg']
  rcases v26to27_eq viper jobs with ⟨hmigrates, jobs', hjobs', hpipelines⟩ | ⟨hmigrates, err, herr⟩
  · rw [hjobs', iff_comm, and_iff_left fun h => absurd hmigrates h, forall_prop_of_true hmigrates, iff_comm]
    refine forall₂_congr fun key hkey => ?_
    obtain ⟨dr, hdr⟩ := Option.isSome_iff_exists.mp (hknown key hkey)
    change ((jobs'.pipeline key).parseEnv lookupEnv).read viper = _ ↔ _
    rw [hpipelines key hkey]
    exact read_same_iff hdr (hmigrates.2 key hkey)
  · rw [herr, iff_comm, and_iff_right fun h => absurd h hmigrates, forall_prop_of_true hmigrates]
    refine forall₂_congr fun key hkey => ?_
    exact eq_comm

end

/-! ## A decoder -/

/-- A scalar of a file, in the examples. -/
inductive Scalar where
  | int (n : Int)
  | bool (b : Bool)

/-- A decoded field, in the examples. -/
inductive Datum where
  | null
  | flag (b : Bool)
  | num (n : Int)
  | text (s : Bytes)
  | texts (entries : List (Bytes × Bytes))
  deriving DecidableEq

/-- The text of a string. -/
def Value.string : Value Scalar → Option Bytes
  | .str s => some s
  | _ => none

/-- Values of the right type, and numbers in strings. -/
def strict : Viper Scalar Datum where
  decode
    | .bool, .other (.bool b) => some (.flag b)
    | .string, .str s | .stringPtr, .str s => some (.text s)
    | .stringMap, .map entries =>
      (entries.mapM fun (e : Bytes × Value Scalar) => e.2.string.map fun s => (e.1, s)).map .texts
    | .bool, _ | .string, _ | .stringPtr, _ | .stringMap, _ => none
    | _, .other (.int n) => some (.num n)
    | _, .str s => (Decimal.parse s).map fun n => .num n
    | _, _ => none
  zero
    | .bool => .flag false
    | .string => .text []
    | .uint32Ptr | .stringPtr | .stringMap => .null
    | _ => .num 0
  decodeJobs _ := true

/-- A version of the program, in the examples. -/
def rr271 : Version := ⟨"2.7.1", 2, 7, 1⟩

/-- A version of the configuration, in the examples. -/
def cfg27 : Version := ⟨"2.7", 2, 7, 0⟩

/-- A section with one pipeline. -/
def oneJob (dr : Driver) (options : Options Scalar) : Jobs Scalar Datum where
  names := [ascii "emails"]
  pipeline _ := { driver := dr.name, options }

/-- What its driver reads, from the 2.6 file and from the 2.7 file. -/
def readBoth (lookupEnv : Bytes → Option Bytes) (dr : Driver) (options : Options Scalar) :
    Option (List (Bytes × Datum)) × Option (List (Bytes × Datum)) :=
  (readAfter strict (init strict lookupEnv rr271 defaultVersion (some (oneJob dr options))) (ascii "emails"),
    readAfter strict (init strict lookupEnv rr271 cfg27 (some (oneJob dr options).written)) (ascii "emails"))

/-- A memory pipeline with nothing but a priority. -/
theorem migration_same_priority :
    (readBoth (fun _ => none) .memory [(ascii "priority", .other (.int 5))]).1 =
      some [(ascii "priority", .num 5), (ascii "prefetch", .num 0)] := by
  have hkept : ((oneJob .memory [(ascii "priority", .other (.int 5))]).pipeline (ascii "emails")).Kept strict
      fun _ => none := by
    intro dr hdr field hfield value hvalue
    obtain rfl : dr = .memory := by
      have hmemory : Driver.ofName Driver.memory.name = some .memory := by decide +kernel
      exact (Option.some.inj (hmemory.symm.trans hdr)).symm
    change List.lookup field.1 [(ascii "priority", .other (.int 5))] = some value at hvalue
    rcases List.mem_cons.mp hfield with rfl | hfield
    · rw [List.lookup_cons_self] at hvalue
      cases hvalue
      decide +kernel
    · rw [List.mem_singleton] at hfield
      subst hfield
      have hother : (ascii "prefetch" == ascii "priority") = false := by decide +kernel
      rw [List.lookup_cons, hother] at hvalue
      cases hvalue
  have hmigrates : (oneJob .memory [(ascii "priority", .other (.int 5))]).Migrates strict :=
    ⟨rfl, List.forall_mem_singleton.mpr (by decide +kernel)⟩
  refine ((migration_same_iff strict (fun _ => none) rr271 defaultVersion cfg27 ⟨rfl, rfl⟩ ⟨rfl, rfl⟩
    ⟨rfl, rfl, by decide⟩ (oneJob .memory [(ascii "priority", .other (.int 5))])
    (List.forall_mem_singleton.mpr (by decide +kernel))).mpr ⟨fun _ => List.forall_mem_singleton.mpr hkept,
      fun h => absurd hmigrates h⟩ (ascii "emails") List.mem_cons_self).trans ?_
  decide +kernel

/-- The prefetch of a memory pipeline is lost, and a variable is read as it stands in the file. -/
theorem migration_differs :
    readBoth (fun _ => none) .memory [(ascii "prefetch", .other (.int 100))] =
        (some [(ascii "priority", .num 0), (ascii "prefetch", .num 0)],
          some [(ascii "priority", .num 0), (ascii "prefetch", .num 100)]) ∧
      let lookupEnv := fun name => if name = ascii "QUEUE" then some (ascii "orders") else none
      let both := readBoth lookupEnv .amqp [(ascii "queue", .str (ascii "$\x7bQUEUE\x7d"))]
      both.1.bind (List.lookup (ascii "queue")) = some (.text (ascii "$\x7bQUEUE\x7d")) ∧
        both.2.bind (List.lookup (ascii "queue")) = some (.text (ascii "orders")) := by
  decide +kernel

end RoadRunner.Config
