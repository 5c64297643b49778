import RoadRunner.Basic

/-!
# The boltdb key-value driver

The model of `boltdb/boltkv/driver.go`: the bucket of the file and the map `gc` with the timeouts, which
is in memory only.

* `Env`: the library functions that the driver calls. A time is in nanoseconds, and a stored value is
  whatever the gob codec makes of a byte slice.
* `Faults`: which calls into bbolt (and the encoder) fail in one operation. The transaction of `Set` and of
  `Delete` is committed by a deferred call, on an error return too; if the commit fails the file stays as
  it was, and the map and the result are what they are.
-/

namespace RoadRunner.Boltkv

/-- `kvv1.Item`. -/
structure Item where
  key : Bytes
  value : Bytes
  timeout : Bytes
  deriving DecidableEq

/-- What the driver calls of the standard library. -/
structure Env (V : Type) where
  /-- `time.Parse(time.RFC3339, ·)`. -/
  parse : Bytes → Option Int
  /-- `strings.TrimSpace` leaves nothing of the key. -/
  blank : Bytes → Bool
  /-- The gob encoding of a byte slice. -/
  encode : Bytes → V

/-- Which calls fail. Those in a loop fail at one iteration. -/
structure Faults where
  beginTx : Bool := false
  encode : Option Nat := none
  put : Option Nat := none
  delete : Option Nat := none
  commit : Bool := false
  deriving DecidableEq

/-- `Driver`: the bucket of the file, and the map `gc`. -/
structure Driver (V : Type) where
  bucket : Bucket Bytes V
  gc : Bucket Bytes Bytes
  deriving DecidableEq

namespace Driver

variable {V : Type} (env : Env V)

/-- The loop of `Set` from the item `i` on. The bucket is that of the transaction. -/
def setItems (f : Faults) : Nat → List Item → Driver V → Option Err × Driver V
  | _, [], d => (none, d)
  | i, item :: items, d =>
    if f.encode = some i then (some (.op "boltdb_driver_set" (.lib "Encode")), d)
    else if f.put = some i then (some (.op "boltdb_driver_set" (.lib "Put")), d)
    else
      let d := { d with bucket := d.bucket.put item.key (env.encode item.value) }
      if item.timeout = [] then setItems f (i + 1) items d
      else match env.parse item.timeout with
        | none => (some (.op "boltdb_driver_set" (.lib "Parse")), d)
        | some _ => setItems f (i + 1) items { d with gc := d.gc.put item.key item.timeout }

/-- `Set`; `none` is a nil slice. -/
def set (items : Option (List Item)) (f : Faults) (d : Driver V) : Option Err × Driver V :=
  match items with
  | none => (some (.op "boltdb_driver_set" (.lib "errors.NoKeys")), d)
  | some items =>
    if f.beginTx then (some (.op "boltdb_driver_set" (.lib "Begin")), d)
    else
      let (err, d') := setItems env f 0 items d
      (err, { d' with bucket := if f.commit then d.bucket else d'.bucket })

/-- The loop of `Delete` from the key `i` on. -/
def deleteKeys (f : Faults) : Nat → List Bytes → Driver V → Option Err × Driver V
  | _, [], d => (none, d)
  | i, key :: keys, d =>
    if f.delete = some i then (some (.op "boltdb_driver_delete" (.lib "Delete")), d)
    else deleteKeys f (i + 1) keys { d with bucket := d.bucket.delete key }

/-- `Driver.Delete`. -/
def delete (keys : Option (List Bytes)) (f : Faults) (d : Driver V) : Option Err × Driver V :=
  match keys with
  | none => (some (.op "boltdb_driver_delete" (.lib "errors.NoKeys")), d)
  | some keys =>
    if keys.any env.blank then (some (.op "boltdb_driver_delete" (.lib "errors.EmptyKey")), d)
    else if f.beginTx then (some (.op "boltdb_driver_delete" (.lib "Begin")), d)
    else
      let (err, d') := deleteKeys f 0 keys d
      (err, { d' with bucket := if f.commit then d.bucket else d'.bucket })

/-- `Driver.MExpire`. -/
def mExpire : List Item → Driver V → Option Err × Driver V
  | [], d => (none, d)
  | item :: items, d =>
    if item.timeout = [] ∨ env.blank item.key then
      (some (.op "boltdb_driver_mexpire" (.str "should set timeout and at least one key")), d)
    else match env.parse item.timeout with
      | none => (some (.op "boltdb_driver_mexpire" (.lib "Parse")), d)
      | some _ => mExpire items { d with gc := d.gc.put item.key item.timeout }

/-- `Clear`; `fails` if its transaction does. -/
def clear (fails : Bool) (d : Driver V) : Option Err × Driver V :=
  if fails then (some (.lib "Update"), d) else (none, ⟨.empty, .empty⟩)

/-- One tick of the loop at the time `now`. `order` is the order of `Range`, and `fails` says for which
key the transaction fails. -/
def gcPass (now : Int) (fails : Bytes → Bool) : List Bytes → Driver V → Driver V
  | [], d => d
  | k :: order, d =>
    match d.gc.get k with
    | none => gcPass now fails order d
    | some timeout =>
      match env.parse timeout with
      | none => d
      | some v =>
        if v < now then
          let d := { d with gc := d.gc.delete k }
          if fails k then d else gcPass now fails order { d with bucket := d.bucket.delete k }
        else gcPass now fails order d

end Driver

end RoadRunner.Boltkv
