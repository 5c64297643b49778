import RoadRunner.Boltkv.Atomic

/-!
# Get and MGet

The readers of the boltdb driver. `Set` encodes a byte slice; `MGet` decodes the stored value into a byte slice and
`Get` into a string, which gob refuses.

* `get_agrees_iff`: the two readers agree, and give these bytes, exactly for the keys without any.
-/

namespace RoadRunner.Boltkv

/-- The codec of the stored values. A byte slice and a string have different types. -/
structure Gob (V : Type) extends Env V where
  decodeBytes : V → Option Bytes
  decodeString : V → Option Bytes
  bytes_encode : ∀ b, decodeBytes (encode b) = some b
  string_encode : ∀ b, decodeString (encode b) = none

variable {V : Type} (gob : Gob V)

namespace Driver

/-- `Get`. No value is `nil`. -/
def get (key : Bytes) (d : Driver V) : Except Err (Option Bytes) :=
  if gob.blank key then .error (.op "boltdb_driver_get" (.lib "errors.EmptyKey"))
  else match d.bucket.get key with
    | none => .ok none
    | some val =>
      match gob.decodeString val with
      | none => .error (.op "boltdb_driver_get" (.op "boltdb_driver_get" (.lib "Decode")))
      | some i => .ok (some i)

/-- The loop of `MGet`. -/
def mGetKeys (d : Driver V) : List Bytes → List (Bytes × Bytes) → Except Err (List (Bytes × Bytes))
  | [], m => .ok m
  | key :: keys, m =>
    match d.bucket.get key with
    | none => mGetKeys d keys m
    | some value =>
      match gob.decodeBytes value with
      | none => .error (.op "boltdb_driver_mget" (.op "boltdb_driver_mget" (.lib "Decode")))
      | some out => mGetKeys d keys (setEntry m (key, out))

/-- `MGet`; `none` is a nil slice. -/
def mGet (keys : Option (List Bytes)) (d : Driver V) : Except Err (List (Bytes × Bytes)) :=
  match keys with
  | none => .error (.op "boltdb_driver_mget" (.lib "errors.NoKeys"))
  | some keys =>
    if keys.any gob.blank then .error (.op "boltdb_driver_mget" (.lib "errors.EmptyKey"))
    else d.mGetKeys gob keys []

end Driver

/-! ## What was last set -/

/-- The arguments of a call of `Set`, and which of its calls fail. -/
abbrev SetCall := Option (List Item) × Faults

/-- The driver after some calls of `Set`. -/
def setAll (env : Env V) (calls : List SetCall) (d : Driver V) : Driver V :=
  Run.exec (fun d c => (d.set env c.1 c.2).2) d calls

/-- The items that a call commits. -/
def committed (env : Env V) : SetCall → List Item
  | (none, _) => []
  | (some items, f) => if f.beginTx ∨ f.commit then [] else puts env f 0 items

/-- The value of the last item for the key. -/
def lastValue (items : List Item) (k : Bytes) : Option Bytes :=
  (items.filter fun item => item.key = k).getLast?.map Item.value

/-- The bytes that the calls have last set for the key. -/
def lastSet (env : Env V) (calls : List SetCall) (k : Bytes) : Option Bytes :=
  lastValue (calls.flatMap (committed env)) k

variable {gob}

section

variable {env : Env V}

theorem storeAll_append (items items' : List Item) (b : Bucket Bytes V) :
    storeAll env (items ++ items') b = storeAll env items' (storeAll env items b) := by
  rw [storeAll, List.map_append, List.foldl_append]
  rfl

/-- The last item for a key decides, so the induction is from the end. -/
theorem storeAll_get (items : List Item) (b : Bucket Bytes V) (k : Bytes) :
    (storeAll env items b).get k = ((lastValue items k).map env.encode).or (b.get k) := by
  induction items using List.reverseRecOn with
  | nil => rfl
  | append_singleton items item ih =>
    have hone : storeAll env [item] (storeAll env items b) =
        (storeAll env items b).put item.key (env.encode item.value) := rfl
    rw [storeAll_append, hone, Bucket.get_put, lastValue, List.filter_append, List.getLast?_append]
    by_cases hk : item.key = k
    · simp [hk]
    · simp only [Ne.symm hk, ↓reduceIte, ih, List.filter_singleton, hk, decide_false, cond_false,
        List.getLast?_nil, Option.none_or, lastValue]

theorem bucket_set (c : SetCall) (d : Driver V) :
    (d.set env c.1 c.2).2.bucket = storeAll env (committed env c) d.bucket := by
  obtain ⟨items, f⟩ := c
  cases items with
  | none => rfl
  | some items =>
    cases hbegin : f.beginTx with
    | true =>
      simp only [Driver.set, committed, hbegin, ↓reduceIte, true_or]
      rfl
    | false =>
      -- what is put before a failure is committed as well
      rw [(set_spec _ hbegin items d).2]
      cases hcommit : f.commit with
      | true =>
        simp only [committed, hcommit, ↓reduceIte, or_true]
        rfl
      | false => simp only [committed, hbegin, hcommit, Bool.false_eq_true, or_self, ↓reduceIte]

theorem bucket_setAll (calls : List SetCall) (d : Driver V) :
    (setAll env calls d).bucket = storeAll env (calls.flatMap (committed env)) d.bucket := by
  induction calls generalizing d with
  | nil => rfl
  | cons c calls ih =>
    rw [setAll, Run.exec_cons, ← setAll, ih, bucket_set, List.flatMap_cons, storeAll_append]

/-- The bucket has the encodings of the bytes that were last set. -/
theorem get_setAll (calls : List SetCall) (k : Bytes) :
    (setAll env calls ⟨.empty, .empty⟩).bucket.get k = (lastSet env calls k).map env.encode := by
  rw [bucket_setAll, storeAll_get]
  exact Option.or_none

end

/-! ## The readers -/

theorem get_of_stored {d : Driver V} {k : Bytes} (hk : gob.blank k = false) {v : Option Bytes}
    (hstored : d.bucket.get k = v.map gob.encode) :
    d.get gob k = v.elim (.ok none) fun _ =>
      .error (.op "boltdb_driver_get" (.op "boltdb_driver_get" (.lib "Decode"))) := by
  rw [Driver.get, hstored]
  cases v with
  | none => simp [hk]
  | some v => simp [hk, gob.string_encode]

theorem mGet_of_stored {d : Driver V} {k : Bytes} (hk : gob.blank k = false) {v : Option Bytes}
    (hstored : d.bucket.get k = v.map gob.encode) :
    d.mGet gob (some [k]) = .ok (v.toList.map fun v => (k, v)) := by
  have hany : [k].any gob.blank = false := by simp [hk]
  simp only [Driver.mGet, hany, Bool.false_eq_true, ↓reduceIte, Driver.mGetKeys, hstored]
  cases v with
  | none => rfl
  | some v =>
    simp only [Option.map_some, gob.bytes_encode]
    rfl

/-- **When `Get` and `MGet` agree.** After any calls of `Set`, whatever failed in them, and for every key that is not
blank: `Get` returns a value exactly if `MGet` does, and both return what was last set, if and only if the key was
never set. `MGet` returns the bytes that were last set in any case. -/
theorem get_agrees_iff (gob : Gob V) (calls : List SetCall) (k : Bytes) (hk : gob.blank k = false) :
    let d := setAll gob.toEnv calls ⟨.empty, .empty⟩
    let last := lastSet gob.toEnv calls k
    (((∀ v, d.get gob k = .ok (some v) ↔ ∃ m, d.mGet gob (some [k]) = .ok m ∧ m.lookup k = some v) ∧
        d.get gob k = .ok last ∧ ∃ m, d.mGet gob (some [k]) = .ok m ∧ m.lookup k = last) ↔ last = none) ∧
      ∃ m, d.mGet gob (some [k]) = .ok m ∧ m.lookup k = last := by
  intro d last
  have hstored : d.bucket.get k = last.map gob.encode := get_setAll calls k
  have hget := get_of_stored hk hstored
  have hmGet := mGet_of_stored hk hstored
  have hlookup : (last.toList.map fun v => (k, v)).lookup k = last := by
    cases last with
    | none => rfl
    | some v => exact List.lookup_cons_self
  refine ⟨⟨fun hboth => ?_, fun hnone => ?_⟩, _, hmGet, hlookup⟩
  · have hok := hboth.2.1
    rw [hget] at hok
    cases hlast : last with
    | none => rfl
    | some v =>
      rw [hlast] at hok
      cases hok
  · rw [hget, hmGet, hnone]
    refine ⟨fun v => iff_of_false nofun ?_, rfl, _, rfl, rfl⟩
    rintro ⟨m, hm, hv⟩
    cases hm
    cases hv

/-- A value with its type. -/
inductive GobValue where
  | bytes (b : Bytes)
  | string (s : Bytes)
  deriving DecidableEq

/-- A codec that keeps the type of a value, with the times of `newYearEnv`. -/
def typedGob : Gob GobValue where
  parse := newYearEnv.parse
  blank := newYearEnv.blank
  encode := .bytes
  decodeBytes
    | .bytes b => some b
    | .string _ => none
  decodeString
    | .bytes _ => none
    | .string s => some s
  bytes_encode _ := rfl
  string_encode _ := rfl

/-- Another key was set. -/
theorem get_agrees_unset :
    let d := setAll typedGob.toEnv [(some [⟨ascii "a", ascii "1", []⟩], {})] ⟨.empty, .empty⟩
    d.get typedGob (ascii "b") = .ok none ∧
      ∃ m, d.mGet typedGob (some [ascii "b"]) = .ok m ∧ m.lookup (ascii "b") = none := by
  have hlast : lastSet typedGob.toEnv [(some [⟨ascii "a", ascii "1", []⟩], {})] (ascii "b") = none := by
    decide +kernel
  have hagrees := get_agrees_iff typedGob [(some [⟨ascii "a", ascii "1", []⟩], {})] (ascii "b") (by decide +kernel)
  have h := hagrees.1.mpr hlast
  rw [hlast] at h
  exact h.2

/-- `Get` fails on a key that was set, and `MGet` returns its value. -/
theorem get_fails :
    let d := setAll typedGob.toEnv [(some [⟨ascii "a", ascii "1", []⟩], {})] ⟨.empty, .empty⟩
    d.get typedGob (ascii "a") = .error (.op "boltdb_driver_get" (.op "boltdb_driver_get" (.lib "Decode"))) ∧
      d.mGet typedGob (some [ascii "a"]) = .ok [(ascii "a", ascii "1")] := by
  decide +kernel

end RoadRunner.Boltkv
