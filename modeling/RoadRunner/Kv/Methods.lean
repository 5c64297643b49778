import RoadRunner.Boltkv.Reads
import RoadRunner.Memorykv.Driver
import RoadRunner.Redis.Kv
import RoadRunner.Memcached.Kv

/-!
# The other methods of the key-value drivers

What the four drivers have beside the methods of `Boltkv`, `Memorykv`, `Redis.Kv` and `Memcached`: `Has`, `MGet`,
`TTL`, and for the two servers `Delete`, `MExpire` and `Clear`. The whole of a call is at one time `now`, and
`fails i` if the client's call in the iteration `i` fails; a key that memcached does not take is such a failure.
-/

namespace RoadRunner

/-- The entries of a map after an assignment. -/
theorem mem_setEntry_iff {V : Type} {m : List (Bytes × V)} {e x : Bytes × V} :
    x ∈ setEntry m e ↔ x.1 ≠ e.1 ∧ x ∈ m ∨ x = e := by
  simp [setEntry, and_comm]

namespace Kv

open Boltkv (Item)

section Reads

variable {β : Type}

/-- The loop of a method that reads, from the key `i` on. -/
def readLoop (read : Nat → Bytes → Except Err (Option β)) :
    Nat → List Bytes → List (Bytes × β) → Except Err (List (Bytes × β))
  | _, [], m => .ok m
  | i, key :: keys, m =>
    match read i key with
    | .error err => .error err
    | .ok none => readLoop read (i + 1) keys m
    | .ok (some v) => readLoop read (i + 1) keys (setEntry m (key, v))

/-- Where every read of `k` that succeeds gives `v`, the map has it for `k` if `k` is among the keys. -/
theorem mem_readLoop_iff {read : Nat → Bytes → Except Err (Option β)} {k : Bytes} {v : Option β}
    (hread : ∀ i r, read i k = .ok r → r = v) {i : Nat} {keys : List Bytes} {m m' : List (Bytes × β)}
    (h : readLoop read i keys m = .ok m') (w : β) :
    (k, w) ∈ m' ↔ k ∈ keys ∧ v = some w ∨ (k ∉ keys ∨ v = none) ∧ (k, w) ∈ m := by
  induction keys generalizing i m with
  | nil =>
    cases h
    simp
  | cons key keys ih =>
    rw [readLoop] at h
    by_cases hkey : key = k
    · subst hkey
      cases hr : read i key with
      | error err => rw [hr] at h; cases h
      | ok r =>
        rw [hr, hread i r hr] at h
        cases v with
        | none => simp [ih h]
        | some v => simp [ih h, mem_setEntry_iff, ← or_and_right, Classical.em, eq_comm]
    · -- another key leaves what the map has for `k`
      have hmem : k ∈ key :: keys ↔ k ∈ keys := by simp [Ne.symm hkey]
      rw [hmem]
      cases hr : read i key with
      | error err => rw [hr] at h; cases h
      | ok r =>
        rw [hr] at h
        cases r with
        | none => exact ih h
        | some u =>
          rw [ih h, mem_setEntry_iff]
          simp [Ne.symm hkey]

/-- `Has`: the keys are checked in the loop. -/
def hasKeys (op : String) (blank : Bytes → Bool) (exist : Nat → Bytes → Except Err Bool) :
    Option (List Bytes) → Except Err (List (Bytes × Bool))
  | none => .error (.op op (.lib "errors.NoKeys"))
  | some keys =>
    readLoop
      (fun i key =>
        if blank key then .error (.op op (.lib "errors.EmptyKey"))
        else (exist i key).map fun found => if found then some true else none)
      0 keys []

/-- `MGet` and `TTL`: the keys are checked before the loop. -/
def readKeys (op : String) (blank : Bytes → Bool) (read : Nat → Bytes → Except Err (Option β)) :
    Option (List Bytes) → Except Err (List (Bytes × β))
  | none => .error (.op op (.lib "errors.NoKeys"))
  | some keys =>
    if keys.any blank then .error (.op op (.lib "errors.EmptyKey"))
    else readLoop read 0 keys []

theorem mem_hasKeys_iff {op : String} {blank : Bytes → Bool} {exist : Nat → Bytes → Except Err Bool} {k : Bytes}
    {found : Bool} (hexist : ∀ i r, exist i k = .ok r → r = found) {keys : List Bytes} {m : List (Bytes × Bool)}
    (h : hasKeys op blank exist (some keys) = .ok m) : (∃ b, (k, b) ∈ m) ↔ k ∈ keys ∧ found = true := by
  have hread : ∀ i r, (if blank k then .error (.op op (.lib "errors.EmptyKey"))
      else (exist i k).map fun found => if found then some true else none) = Except.ok r →
      r = if found then some true else none := by
    intro i r hr
    split at hr
    · cases hr
    · cases he : exist i k with
      | error err => rw [he] at hr; cases hr
      | ok b =>
        rw [he] at hr
        cases hr
        rw [hexist i b he]
  rw [exists_congr (mem_readLoop_iff hread h)]
  cases found <;> simp

theorem mem_readKeys_iff {op : String} {blank : Bytes → Bool} {read : Nat → Bytes → Except Err (Option β)} {k : Bytes}
    {v : Option β} (hread : ∀ i r, read i k = .ok r → r = v) {keys : List Bytes} {m : List (Bytes × β)}
    (h : readKeys op blank read (some keys) = .ok m) (w : β) : (k, w) ∈ m ↔ k ∈ keys ∧ v = some w := by
  rw [readKeys] at h
  split at h
  · cases h
  · simp [mem_readLoop_iff hread h w]

end Reads

/-- What a server reads at the time `now`. -/
def Store.get (s : Store) (now : Int) (key : Bytes) : Option Entry := (s key).filter fun e => e.Readable now

end Kv

/-! ## The in-memory driver -/

namespace Memorykv

open Kv

variable (env : Env)

/-- `Driver.Has`. -/
def has (keys : Option (List Bytes)) (h : Heap) : Except Err (List (Bytes × Bool)) :=
  hasKeys "in_memory_plugin_has" env.blank (fun _ key => .ok (h key).isSome) keys

/-- `Driver.MGet`. -/
def mGet (keys : Option (List Bytes)) (h : Heap) : Except Err (List (Bytes × Bytes)) :=
  readKeys "in_memory_plugin_mget" env.blank (fun _ key => .ok ((h key).map Boltkv.Item.value)) keys

/-- `Driver.TTL`. -/
def ttlKeys (keys : Option (List Bytes)) (h : Heap) : Except Err (List (Bytes × Bytes)) :=
  readKeys "in_memory_plugin_ttl" env.blank (fun _ key => .ok ((h key).map Boltkv.Item.timeout)) keys

end Memorykv

/-! ## The boltdb driver -/

namespace Boltkv.Driver

open RoadRunner.Kv

variable {V : Type}

/-- `Has`. The error of the transaction is wrapped once more. -/
def has (blank : Bytes → Bool) (keys : Option (List Bytes)) (d : Driver V) : Except Err (List (Bytes × Bool)) :=
  match keys with
  | none => .error (.op "boltdb_driver_has" (.lib "errors.NoKeys"))
  | some keys =>
    (hasKeys "boltdb_driver_has" blank (fun _ key => .ok (d.bucket.get key).isSome) (some keys)).mapError
      (.op "boltdb_driver_has")

/-- `TTL`: the timeouts are in the map `gc`. -/
def ttlKeys (blank : Bytes → Bool) (keys : Option (List Bytes)) (d : Driver V) : Except Err (List (Bytes × Bytes)) :=
  readKeys "boltdb_driver_ttl" blank (fun _ key => .ok (d.gc.get key)) keys

/-- What `MGet` reads for a key. -/
def readKey (gob : Gob V) (d : Driver V) (key : Bytes) : Except Err (Option Bytes) :=
  match d.bucket.get key with
  | none => .ok none
  | some value =>
    match gob.decodeBytes value with
    | none => .error (.op "boltdb_driver_mget" (.op "boltdb_driver_mget" (.lib "Decode")))
    | some out => .ok (some out)

theorem mGetKeys_eq (gob : Gob V) (d : Driver V) (i : Nat) (keys : List Bytes) (m : List (Bytes × Bytes)) :
    d.mGetKeys gob keys m = readLoop (fun _ => d.readKey gob) i keys m := by
  induction keys generalizing i m with
  | nil => rfl
  | cons key keys ih =>
    rw [mGetKeys, readLoop, readKey]
    cases d.bucket.get key with
    | none => exact ih (i + 1) m
    | some value =>
      cases hdecode : gob.decodeBytes value with
      | none => simp only [hdecode]
      | some out =>
        simp only [hdecode]
        exact ih (i + 1) _

theorem mGet_eq (gob : Gob V) (d : Driver V) (keys : Option (List Bytes)) :
    d.mGet gob keys = readKeys "boltdb_driver_mget" gob.blank (fun _ => d.readKey gob) keys := by
  cases keys with
  | none => rfl
  | some keys => rw [mGet, readKeys, mGetKeys_eq gob d 0]

end Boltkv.Driver

/-! ## The redis driver -/

namespace Redis.Kv

open Boltkv (Item)
open RoadRunner.Kv

variable (blank : Bytes → Bool) (now : Int) (fails : Nat → Bool)

/-- `driver.Has`. -/
def has (keys : Option (List Bytes)) (s : Store) : Except Err (List (Bytes × Bool)) :=
  hasKeys "redis_driver_has" blank
    (fun i key => if fails i then .error (.lib "Exists") else .ok (s.get now key).isSome) keys

/-- `driver.MGet`. -/
def mGet (keys : Option (List Bytes)) (s : Store) : Except Err (List (Bytes × Bytes)) :=
  readKeys "redis_driver_mget" blank
    (fun i key =>
      if fails i then .error (.op "redis_driver_mget" (.lib "Get")) else .ok ((s.get now key).map Entry.value))
    keys

/-- What the client makes of the answer to `TTL`, in nanoseconds. The server rounds to seconds; -2 and -1 are
returned as they are. -/
def ttlOf : Option Entry → Int
  | none => -2
  | some e =>
    match e.expiry with
    | none => -1
    | some x => ((x - now) / 1000000 + 500) / 1000 * 1000000000

/-- `TTL`; `duration` is `time.Duration.String`. -/
def ttlKeys (duration : Int → Bytes) (keys : Option (List Bytes)) (s : Store) : Except Err (List (Bytes × Bytes)) :=
  readKeys "redis_driver_ttl" blank
    (fun i key => if fails i then .error (.lib "TTL") else .ok (some (duration (ttlOf now (s.get now key))))) keys

/-- `Delete`. One command has all keys, and the server refuses it without any. -/
def delete (keys : Option (List Bytes)) (s : Store) : Option Err × Store :=
  match keys with
  | none => (some (.op "redis_driver_delete" (.lib "errors.NoKeys")), s)
  | some keys =>
    if keys.any blank then (some (.op "redis_driver_delete" (.lib "errors.EmptyKey")), s)
    else if keys = [] ∨ fails 0 then (some (.lib "Del"), s)
    else (none, keys.foldl (fun s key => Function.update s key none) s)

/-- The seconds that the client makes of a positive expiration below a second, and of any other one. -/
def formatSec (d : Int) : Int := if 0 < d ∧ d < 1000000000 then 1 else d.tdiv 1000000000

/-- The command `EXPIRE`. A key whose expiry is over is deleted. -/
def expire (sec : Int) (key : Bytes) (s : Store) : Store :=
  match s.get now key with
  | none => s
  | some e =>
    Function.update s key (if sec ≤ 0 then none else some { e with expiry := some (now + sec * 1000000000) })

/-- `MExpire` from the item `i` on; `parse` is `time.Parse(time.RFC3339, ·)`. The result of the command is not
looked at. -/
def mExpire (parse : Bytes → Option Int) : Nat → List (Option Item) → Store → Option Err × Store
  | _, [], s => (none, s)
  | i, none :: items, s => mExpire parse (i + 1) items s
  | i, some item :: items, s =>
    if item.timeout = [] ∨ blank item.key then
      (some (.op "redis_driver_mexpire" (.str "should set timeout and at least one key")), s)
    else
      match parse item.timeout with
      | none => (some (.lib "Parse"), s)
      | some t =>
        mExpire parse (i + 1) items (if fails i then s else expire now (formatSec (sub t now)) item.key s)

/-- `driver.Clear`. -/
def clear (s : Store) : Option Err × Store :=
  if fails 0 then (some (.lib "FlushDB"), s) else (none, fun _ => none)

end Redis.Kv

/-! ## The memcached driver -/

namespace Memcached

open Boltkv (Item)
open Kv

variable (blank : Bytes → Bool) (now : Int) (fails : Nat → Bool)

/-- `driver.Has`. -/
def has (keys : Option (List Bytes)) (s : Store) : Except Err (List (Bytes × Bool)) :=
  hasKeys "memcached_plugin_has" blank
    (fun i key =>
      if fails i then .error (.op "memcached_plugin_has" (.lib "Get")) else .ok (s.get now key).isSome)
    keys

/-- `driver.MGet`. -/
def mGet (keys : Option (List Bytes)) (s : Store) : Except Err (List (Bytes × Bytes)) :=
  readKeys "memcached_plugin_mget" blank
    (fun i key =>
      if fails i then .error (.op "memcached_plugin_mget" (.lib "Get")) else .ok ((s.get now key).map Entry.value))
    keys

/-- `TTL`: memcached has none. -/
def ttlKeys (_ : Option (List Bytes)) : Except Err (List (Bytes × Bytes)) :=
  .error (.op "memcached_plugin_ttl"
    (.str "not valid request for memcached, see https://github.com/memcached/memcached/issues/239"))

/-- The loop of `Delete` from the key `i` on. -/
def deleteKeys : Nat → List Bytes → Store → Option Err × Store
  | _, [], s => (none, s)
  | i, key :: keys, s =>
    -- the operation in the source is that of `Has`
    if fails i then (some (.op "memcached_plugin_has" (.lib "Delete")), s)
    else deleteKeys (i + 1) keys (Function.update s key none)

/-- `driver.Delete`, with the operation of `Has` in its errors. -/
def delete (keys : Option (List Bytes)) (s : Store) : Option Err × Store :=
  match keys with
  | none => (some (.op "memcached_plugin_has" (.lib "errors.NoKeys")), s)
  | some keys =>
    if keys.any blank then (some (.op "memcached_plugin_has" (.lib "errors.EmptyKey")), s)
    else deleteKeys fails 0 keys s

/-- `MExpire` from the item `i` on; `parse` is `time.Parse(time.RFC3339, ·)`. A key that the server does not have is
an error. -/
def mExpire (parse : Bytes → Option Int) : Nat → List (Option Item) → Store → Option Err × Store
  | _, [], s => (none, s)
  | i, none :: items, s => mExpire parse (i + 1) items s
  | i, some item :: items, s =>
    if item.timeout = [] ∨ blank item.key then
      (some (.op "memcached_plugin_mexpire" (.str "should set timeout and at least one key")), s)
    else
      match parse item.timeout with
      | none => (some (.op "memcached_plugin_mexpire" (.lib "Parse")), s)
      | some t =>
        if fails i then (some (.op "memcached_plugin_mexpire" (.lib "Touch")), s)
        else
          match s.get now item.key with
          | none => (some (.op "memcached_plugin_mexpire" (.lib "memcache.ErrCacheMiss")), s)
          | some e =>
            mExpire parse (i + 1) items
              (Function.update s item.key (some { e with expiry := expiryOf now (unix32 t) }))

/-- `driver.Clear`. -/
def clear (s : Store) : Option Err × Store :=
  if fails 0 then (some (.lib "DeleteAll"), s) else (none, fun _ => none)

end Memcached

end RoadRunner
