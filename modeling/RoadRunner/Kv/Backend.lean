import RoadRunner.Kv.Methods

/-!
# The drivers as one storage

The four drivers behind the interface `kv.Storage`, and what their methods do to one key.

* `Backend`: what a driver keeps its keys in, and the methods of the interface by the driver.
* `Holds H k v b`: the backend has the value `v` for the key `k`, and no timeout of the key is due by the time `H`.
-/

namespace RoadRunner.Kv

open Boltkv (Item)

/-- The library functions that the drivers call. -/
structure Env (V : Type) extends Boltkv.Gob V where
  /-- `time.Duration.String`. -/
  duration : Int → Bytes

variable {V : Type}

/-- The environment of the in-memory driver. -/
def Env.memory (env : Env V) : Memorykv.Env := ⟨env.parse, env.blank⟩

/-- What a driver keeps its keys in. Two storages may be on one server. -/
inductive Backend (V : Type) where
  | memory (h : Memorykv.Heap)
  | boltdb (d : Boltkv.Driver V)
  | redis (s : Store)
  | memcached (s : Store)

/-- Which calls of a driver fail. -/
structure Faults where
  /-- The client's call of the iteration (redis, memcached). -/
  client : Nat → Bool
  bolt : Boltkv.Faults
  /-- The transaction of `Clear` (boltdb). -/
  update : Bool

namespace Backend

variable (env : Env V) (now : Int) (f : Faults)

/-- `Has`. -/
def has (keys : List Bytes) : Backend V → Except Err (List (Bytes × Bool))
  | .memory h => Memorykv.has env.memory (some keys) h
  | .boltdb d => d.has env.blank (some keys)
  | .redis s => Redis.Kv.has env.blank now f.client (some keys) s
  | .memcached s => Memcached.has env.blank now f.client (some keys) s

/-- `MGet`. -/
def mGet (keys : List Bytes) : Backend V → Except Err (List (Bytes × Bytes))
  | .memory h => Memorykv.mGet env.memory (some keys) h
  | .boltdb d => d.mGet env.toGob (some keys)
  | .redis s => Redis.Kv.mGet env.blank now f.client (some keys) s
  | .memcached s => Memcached.mGet env.blank now f.client (some keys) s

/-- `TTL`. -/
def ttl (keys : List Bytes) : Backend V → Except Err (List (Bytes × Bytes))
  | .memory h => Memorykv.ttlKeys env.memory (some keys) h
  | .boltdb d => d.ttlKeys env.blank (some keys)
  | .redis s => Redis.Kv.ttlKeys env.blank now f.client env.duration (some keys) s
  | .memcached _ => Memcached.ttlKeys (some keys)

/-- `Set`; `none` is a nil slice. -/
def set (items : Option (List Item)) : Backend V → Option Err × Backend V
  | .memory h => (Memorykv.set env.memory (items.map (·.map some)) h).map id .memory
  | .boltdb d => (d.set env.toEnv items f.bolt).map id .boltdb
  | .redis s => (Redis.Kv.set env.parse now f.client (items.map (·.map some)) s).map id .redis
  | .memcached s => (Memcached.set env.parse now f.client (items.map (·.map some)) s).map id .memcached

/-- `MExpire`. -/
def mExpire (items : List Item) : Backend V → Option Err × Backend V
  | .memory h => (Memorykv.mExpire env.memory (items.map some) h).map id .memory
  | .boltdb d => (d.mExpire env.toEnv items).map id .boltdb
  | .redis s => (Redis.Kv.mExpire env.blank now f.client env.parse 0 (items.map some) s).map id .redis
  | .memcached s => (Memcached.mExpire env.blank now f.client env.parse 0 (items.map some) s).map id .memcached

/-- `Delete`. -/
def delete (keys : List Bytes) : Backend V → Option Err × Backend V
  | .memory h => (Memorykv.delete env.memory (some keys) h).map id .memory
  | .boltdb d => (d.delete env.toEnv (some keys) f.bolt).map id .boltdb
  | .redis s => (Redis.Kv.delete env.blank f.client (some keys) s).map id .redis
  | .memcached s => (Memcached.delete env.blank f.client (some keys) s).map id .memcached

/-- `Clear`. -/
def clear : Backend V → Option Err × Backend V
  | .memory h => (none, .memory (Memorykv.clear h))
  | .boltdb d => (d.clear f.update).map id .boltdb
  | .redis s => (Redis.Kv.clear f.client s).map id .redis
  | .memcached s => (Memcached.clear f.client s).map id .memcached

/-- A tick of the loop that removes keys, in the order of `Range`; the servers have none. `fails` is for which key
the transaction of boltdb fails. -/
def gc (fails : Bytes → Bool) (order : List Bytes) : Backend V → Backend V
  | .memory h => .memory (Memorykv.gcPass env.memory now order h)
  | .boltdb d => .boltdb (d.gcPass env.toEnv now fails order)
  | b => b

/-- The value that the backend has for the key. -/
def value (k : Bytes) : Backend V → Option Bytes
  | .memory h => (h k).map Item.value
  | .boltdb d => (d.bucket.get k).bind env.decodeBytes
  | .redis s => (s k).map Entry.value
  | .memcached s => (s k).map Entry.value

end Backend

/-! ## What a call does to one key -/

/-- The value of `k` after the items are written one after another, until the call fails. -/
inductive Wrote (k : Bytes) : List Item → Bool → Option Bytes → Option Bytes → Prop where
  | done {v : Option Bytes} : Wrote k [] true v v
  | failed {items : List Item} {v : Option Bytes} : Wrote k items false v v
  | put {item : Item} {items : List Item} {ok : Bool} {v v' : Option Bytes} :
      Wrote k items ok (if item.key = k then some item.value else v) v' → Wrote k (item :: items) ok v v'

/-- The value of `k` after the keys are removed one after another, until the call fails. -/
inductive Removed (k : Bytes) : List Bytes → Bool → Option Bytes → Option Bytes → Prop where
  | done {v : Option Bytes} : Removed k [] true v v
  | failed {keys : List Bytes} {v : Option Bytes} : Removed k keys false v v
  | remove {key : Bytes} {keys : List Bytes} {ok : Bool} {v v' : Option Bytes} :
      Removed k keys ok (if key = k then none else v) v' → Removed k (key :: keys) ok v v'

/-! ## Maps -/

/-- The map has the value `v` for `k`, and its entry meets `Good`. -/
def Keeps {α : Type} (value : α → Bytes) (Good : α → Prop) (k : Bytes) (v : Option Bytes) (m : Bytes → Option α) :
    Prop :=
  (m k).map value = v ∧ ∀ e ∈ m k, Good e

section Keeps

variable {α : Type} {value : α → Bytes} {Good : α → Prop} {k key : Bytes} {v : Option Bytes} {m : Bytes → Option α}

theorem Keeps.put (h : Keeps value Good k v m) {e : α} (he : key = k → Good e) :
    Keeps value Good k (if key = k then some (value e) else v) (Function.update m key (some e)) := by
  by_cases hkey : key = k
  · subst hkey
    rw [Keeps, if_pos rfl, Function.update_self]
    exact ⟨rfl, fun e' he' => Option.some.inj he' ▸ he rfl⟩
  · rw [Keeps, if_neg hkey, Function.update_of_ne (Ne.symm hkey)]
    exact h

theorem Keeps.remove (h : Keeps value Good k v m) (key : Bytes) :
    Keeps value Good k (if key = k then none else v) (Function.update m key none) := by
  by_cases hkey : key = k
  · subst hkey
    rw [Keeps, if_pos rfl, Function.update_self]
    exact ⟨rfl, fun e he => by cases he⟩
  · rw [Keeps, if_neg hkey, Function.update_of_ne (Ne.symm hkey)]
    exact h

/-- A new entry with the old value. -/
theorem Keeps.replace (h : Keeps value Good k v m) {e e' : α} (he : m key = some e) (hvalue : value e' = value e)
    (hgood : key = k → Good e') : Keeps value Good k v (Function.update m key (some e')) := by
  have hput := h.put hgood
  have hv : (if key = k then some (value e') else v) = v := by
    split
    · rename_i hkey
      rw [hvalue, ← h.1, ← hkey, he, Option.map_some]
    · rfl
  rwa [hv] at hput

theorem keeps_none : Keeps value Good k none fun _ => none := ⟨rfl, fun e he => by cases he⟩

/-- The keys are removed all at once, or until the call fails. -/
theorem Keeps.removes (h : Keeps value Good k v m) (keys : List Bytes) :
    ∃ v', Removed k keys true v v' ∧
      Keeps value Good k v' (keys.foldl (fun m key => Function.update m key none) m) := by
  induction keys generalizing v m with
  | nil => exact ⟨v, .done, h⟩
  | cons key keys ih =>
    obtain ⟨v', hremoved, hkeeps⟩ := ih (h.remove key)
    exact ⟨v', .remove hremoved, hkeeps⟩

end Keeps

/-! ## Values that last -/

section Holds

variable (env : Env V) (H : Int)

/-- The timeout is at least a second after `H`, and before 2038. -/
def Far (t : Int) : Prop := H + 1000000000 ≤ t ∧ t < 2147483648000000000

instance (t : Int) : Decidable (Far H t) := inferInstanceAs (Decidable (_ ∧ _))

/-- If the timeout of the item is a time, it is far away. -/
def Lasting (item : Item) : Prop := ∀ t ∈ env.parse item.timeout, Far H t

/-- The items for `k` last. -/
def AllLasting (k : Bytes) (items : List Item) : Prop := ∀ item ∈ items, item.key = k → Lasting env H item

/-- The stored text is a timeout that is not due. -/
def Undue (timeout : Bytes) : Prop := ∃ t ∈ env.parse timeout, H ≤ t

/-- The entry does not expire up to `H`. -/
def Kept (e : Entry) : Prop := ∀ x ∈ e.expiry, H < x

/-- The timeout of the item, if any, is not due up to `H`. -/
def KeptItem (item : Item) : Prop := item.timeout = [] ∨ Undue env H item.timeout

/-- The map of the in-memory driver has the value for the key. -/
def HeapHolds (k : Bytes) (v : Option Bytes) (h : Memorykv.Heap) : Prop := Keeps Item.value (KeptItem env H) k v h

/-- The server has the value for the key. -/
def StoreHolds (k : Bytes) (v : Option Bytes) (s : Store) : Prop := Keeps Entry.value (Kept H) k v s

/-- The backend has the value `v` for `k`, and no timeout of `k` is due by `H`. -/
def Holds (k : Bytes) (v : Option Bytes) : Backend V → Prop
  | .memory h => HeapHolds env H k v h
  | .boltdb d => d.bucket.get k = v.map env.encode ∧ ∀ timeout ∈ d.gc.get k, Undue env H timeout
  | .redis s => StoreHolds H k v s
  | .memcached s => StoreHolds H k v s

variable {env H} {k : Bytes} {v : Option Bytes}

theorem Holds.value_eq {b : Backend V} (h : Holds env H k v b) : b.value env k = v := by
  cases b with
  | memory m => exact h.1
  | boltdb d =>
    rw [Backend.value, h.1]
    cases v with
    | none => rfl
    | some v => exact env.bytes_encode v
  | redis s => exact h.1
  | memcached s => exact h.1

theorem AllLasting.head {item : Item} {items : List Item} (h : AllLasting env H k (item :: items)) (hk : item.key = k) :
    Lasting env H item := h item List.mem_cons_self hk

theorem AllLasting.tail {item : Item} {items : List Item} (h : AllLasting env H k (item :: items)) :
    AllLasting env H k items := fun j hj => h j (List.mem_cons_of_mem _ hj)

theorem Lasting.undue {item : Item} (h : Lasting env H item) {t : Int} (ht : env.parse item.timeout = some t) :
    Undue env H item.timeout := by
  refine ⟨t, ht, ?_⟩
  have := (h t ht).1
  omega

/-! ### Set -/

theorem memory_set {items : List Item} (hitems : AllLasting env H k items)
    {h : Memorykv.Heap} (hh : HeapHolds env H k v h) :
    ∃ v', Wrote k items (Memorykv.setItems env.memory (items.map some) h).1.isNone v v' ∧
      HeapHolds env H k v' (Memorykv.setItems env.memory (items.map some) h).2 := by
  induction items generalizing v h with
  | nil => exact ⟨v, .done, hh⟩
  | cons item items ih =>
    rw [List.map_cons, Memorykv.setItems]
    split
    · exact ⟨v, .failed, hh⟩
    · rename_i htimely
      have hgood : item.key = k → KeptItem env H item := by
        intro hk
        by_cases hempty : item.timeout = []
        · exact .inl hempty
        · obtain ⟨t, ht⟩ := Option.ne_none_iff_exists'.mp fun hnone => htimely ⟨hempty, hnone⟩
          exact .inr ((hitems.head hk).undue ht)
      obtain ⟨v', hwrote, hkeeps⟩ := ih hitems.tail (hh.put hgood)
      exact ⟨v', .put hwrote, hkeeps⟩

/-- The loop of the two servers, for an expiration that makes the entry of `k` last. -/
theorem setLoop_wrote {X : Type} {nilItem : Err} {expiration : Item → Except Err X} {put : X → Item → Store → Store}
    {fails : Nat → Bool} {items : List Item}
    (hput : ∀ item ∈ items, ∀ x, expiration item = .ok x → ∀ s, ∃ e, e.value = item.value ∧
      (item.key = k → Kept H e) ∧ put x item s = Function.update s item.key (some e))
    (i : Nat) {s : Store} (hs : StoreHolds H k v s) :
    ∃ v', Wrote k items (setLoop nilItem expiration put fails i (items.map some) s).1.isNone v v' ∧
      StoreHolds H k v' (setLoop nilItem expiration put fails i (items.map some) s).2 := by
  induction items generalizing i v s with
  | nil => exact ⟨v, .done, hs⟩
  | cons item items ih =>
    rw [List.map_cons, setLoop]
    cases hx : expiration item with
    | error err => exact ⟨v, .failed, hs⟩
    | ok x =>
      dsimp only
      split
      · exact ⟨v, .failed, hs⟩
      · obtain ⟨e, hvalue, hgood, heq⟩ := hput item List.mem_cons_self x hx s
        rw [heq]
        obtain ⟨v', hwrote, hkeeps⟩ :=
          ih (fun j hj => hput j (List.mem_cons_of_mem _ hj)) (i + 1) (hs.put hgood)
        rw [hvalue] at hwrote
        exact ⟨v', .put hwrote, hkeeps⟩

theorem redis_put {now : Int} (hnow : 0 ≤ now ∧ now ≤ H) {item : Item} (hitem : item.key = k → Lasting env H item)
    {d : Int} (hd : Redis.Kv.expiration env.parse now item = .ok d) (s : Store) :
    ∃ e : Entry, e.value = item.value ∧ (item.key = k → Kept H e) ∧
      Redis.Kv.put now d item s = Function.update s item.key (some e) := by
  refine ⟨_, rfl, fun hk => ?_, rfl⟩
  rw [Redis.Kv.expiration] at hd
  split at hd
  · -- no timeout is sent as 0, which is none
    cases hd
    exact fun x hx => by cases hx
  · cases ht : env.parse item.timeout with
    | none => rw [ht] at hd; cases hd
    | some t =>
      rw [ht] at hd
      cases hd
      have hfar := hitem hk t ht
      unfold Far at hfar
      have hd : Redis.Kv.sub t now = t - now := by unfold Redis.Kv.sub; omega
      intro x hx
      rw [hd, Redis.Kv.expiryOf_of_pos now _ (by omega), if_neg (by omega)] at hx
      cases hx
      omega

theorem memcached_expiry {now t : Int} (hnow : 0 ≤ now ∧ now ≤ H) (ht : Far H t) :
    ∀ x ∈ Memcached.expiryOf now (Memcached.unix32 t), H < x := by
  obtain ⟨hmod, hlo, hhi⟩ := Memcached.unix32_spec t
  unfold Far at ht
  have hv : (Memcached.unix32 t).toInt = t / 1000000000 := by omega
  intro x hx
  rw [Memcached.expiryOf, hv, if_neg (by omega), if_neg (by omega)] at hx
  split at hx
  · cases hx
    omega
  · cases hx
    omega

theorem memcached_put {now : Int} (hnow : 0 ≤ now ∧ now ≤ H) {item : Item} (hitem : item.key = k → Lasting env H item)
    {exptime : Int32} (hexp : Memcached.expiration env.parse item = .ok exptime) (s : Store) :
    ∃ e : Entry, e.value = item.value ∧ (item.key = k → Kept H e) ∧
      Memcached.put now exptime item s = Function.update s item.key (some e) := by
  refine ⟨_, rfl, fun hk => ?_, rfl⟩
  rw [Memcached.expiration] at hexp
  split at hexp
  · cases hexp
    exact fun x hx => by cases hx
  · cases ht : env.parse item.timeout with
    | none => rw [ht] at hexp; cases hexp
    | some t =>
      rw [ht] at hexp
      cases hexp
      exact memcached_expiry hnow (hitem hk t ht)

theorem boltdb_put {d : Boltkv.Driver V} (h : Holds env H k v (.boltdb d)) (item : Item) :
    Holds env H k (if item.key = k then some item.value else v)
      (.boltdb { d with bucket := d.bucket.put item.key (env.encode item.value) }) := by
  refine ⟨?_, h.2⟩
  rw [Bucket.get_put]
  by_cases hk : item.key = k
  · rw [if_pos hk, if_pos hk.symm, Option.map_some]
  · rw [if_neg hk, if_neg (Ne.symm hk), h.1]

theorem boltdb_mark {d : Boltkv.Driver V} (h : Holds env H k v (.boltdb d)) {item : Item}
    (hitem : item.key = k → Undue env H item.timeout) :
    Holds env H k v (.boltdb { d with gc := d.gc.put item.key item.timeout }) := by
  refine ⟨h.1, fun timeout ht => ?_⟩
  rw [Bucket.get_put] at ht
  split at ht
  · rename_i hk
    cases ht
    exact hitem hk.symm
  · exact h.2 timeout ht

theorem boltdb_set {f : Boltkv.Faults} {items : List Item}
    (hitems : AllLasting env H k items) (i : Nat) {d : Boltkv.Driver V}
    (h : Holds env H k v (.boltdb d)) :
    ∃ v', Wrote k items (d.setItems env.toEnv f i items).1.isNone v v' ∧
      Holds env H k v' (.boltdb (d.setItems env.toEnv f i items).2) := by
  induction items generalizing i v d with
  | nil => exact ⟨v, .done, h⟩
  | cons item items ih =>
    have hrest := hitems.tail
    rw [Boltkv.Driver.setItems]
    split
    · exact ⟨v, .failed, h⟩
    split
    · exact ⟨v, .failed, h⟩
    have hput := boltdb_put h item
    dsimp only
    split
    · obtain ⟨v', hwrote, hholds⟩ := ih hrest (i + 1) hput
      exact ⟨v', .put hwrote, hholds⟩
    cases ht : env.parse item.timeout with
    | none => exact ⟨_, .put .failed, hput⟩
    | some t =>
      have hmark := boltdb_mark hput fun hk => (hitems.head hk).undue ht
      obtain ⟨v', hwrote, hholds⟩ := ih hrest (i + 1) hmark
      exact ⟨v', .put hwrote, hholds⟩

variable {now : Int} {f : Faults}

/-- `Set` writes the items one after another. A nil slice is an error. -/
theorem Holds.set (hnow : 0 ≤ now ∧ now ≤ H) (hcommit : f.bolt.commit = false) {items : List Item}
    (hitems : AllLasting env H k items) {b : Backend V} (h : Holds env H k v b) :
    ∃ v', Wrote k items (b.set env now f (some items)).1.isNone v v' ∧
      Holds env H k v' (b.set env now f (some items)).2 := by
  cases b with
  | memory m => exact memory_set hitems h
  | boltdb d =>
    rw [Backend.set, Boltkv.Driver.set]
    split
    · exact ⟨v, .failed, h⟩
    · rw [hcommit]
      exact boltdb_set hitems 0 h
  | redis s => exact setLoop_wrote (fun item hitem d hd => redis_put hnow (hitems item hitem) hd) 0 h
  | memcached s => exact setLoop_wrote (fun item hitem d hd => memcached_put hnow (hitems item hitem) hd) 0 h

/-! ### Delete -/

theorem memcached_delete {fails : Nat → Bool} (keys : List Bytes) (i : Nat) {s : Store}
    (hs : StoreHolds H k v s) :
    ∃ v', Removed k keys (Memcached.deleteKeys fails i keys s).1.isNone v v' ∧
      StoreHolds H k v' (Memcached.deleteKeys fails i keys s).2 := by
  induction keys generalizing i v s with
  | nil => exact ⟨v, .done, hs⟩
  | cons key keys ih =>
    rw [Memcached.deleteKeys]
    split
    · exact ⟨v, .failed, hs⟩
    · obtain ⟨v', hremoved, hkeeps⟩ := ih (i + 1) (hs.remove key)
      exact ⟨v', .remove hremoved, hkeeps⟩

theorem boltdb_remove {d : Boltkv.Driver V} (h : Holds env H k v (.boltdb d)) (key : Bytes) :
    Holds env H k (if key = k then none else v) (.boltdb { d with bucket := d.bucket.delete key }) := by
  refine ⟨?_, h.2⟩
  rw [Bucket.get_delete]
  by_cases hk : key = k
  · rw [if_pos hk, if_pos hk.symm, Option.map_none]
  · rw [if_neg hk, if_neg (Ne.symm hk), h.1]

theorem boltdb_delete {f : Boltkv.Faults} (keys : List Bytes) (i : Nat) {d : Boltkv.Driver V}
    (h : Holds env H k v (.boltdb d)) :
    ∃ v', Removed k keys (d.deleteKeys f i keys).1.isNone v v' ∧
      Holds env H k v' (.boltdb (d.deleteKeys f i keys).2) := by
  induction keys generalizing i v d with
  | nil => exact ⟨v, .done, h⟩
  | cons key keys ih =>
    rw [Boltkv.Driver.deleteKeys]
    split
    · exact ⟨v, .failed, h⟩
    · obtain ⟨v', hremoved, hholds⟩ := ih (i + 1) (boltdb_remove h key)
      exact ⟨v', .remove hremoved, hholds⟩

theorem Holds.delete (hcommit : f.bolt.commit = false) (keys : List Bytes) {b : Backend V} (h : Holds env H k v b) :
    ∃ v', Removed k keys (b.delete env f keys).1.isNone v v' ∧ Holds env H k v' (b.delete env f keys).2 := by
  cases b with
  | memory m =>
    rw [Backend.delete, Memorykv.delete]
    split
    · exact ⟨v, .failed, h⟩
    · exact Keeps.removes h keys
  | boltdb d =>
    rw [Backend.delete, Boltkv.Driver.delete]
    split
    · exact ⟨v, .failed, h⟩
    split
    · exact ⟨v, .failed, h⟩
    · rw [hcommit]
      exact boltdb_delete keys 0 h
  | redis s =>
    rw [Backend.delete, Redis.Kv.delete]
    split
    · exact ⟨v, .failed, h⟩
    split
    · exact ⟨v, .failed, h⟩
    · exact Keeps.removes h keys
  | memcached s =>
    rw [Backend.delete, Memcached.delete]
    split
    · exact ⟨v, .failed, h⟩
    · exact memcached_delete keys 0 h

/-! ### MExpire -/

/-- An item for `k` has a timeout that is a time. -/
def Parsed (env : Env V) (item : Item) : Prop := item.timeout ≠ [] → env.parse item.timeout ≠ none

theorem memory_mExpire {items : List Item} (hitems : AllLasting env H k items)
    (hparsed : ∀ item ∈ items, item.key = k → Parsed env item) {h : Memorykv.Heap}
    (hh : HeapHolds env H k v h) :
    HeapHolds env H k v (Memorykv.mExpire env.memory (items.map some) h).2 := by
  induction items generalizing h with
  | nil => exact hh
  | cons item items ih =>
    have ih := fun {h} => @ih hitems.tail
      (fun j hj => hparsed j (List.mem_cons_of_mem _ hj)) h
    rw [List.map_cons, Memorykv.mExpire]
    split
    · exact hh
    rename_i hmissing
    cases hstored : h item.key with
    | none => exact ih hh
    | some pItem =>
      dsimp only
      cases ht : env.memory.parse item.timeout with
      | none =>
        -- the key of the item is lost, so it is another one
        have hne : item.key ≠ k := by
          intro hk
          exact hparsed item List.mem_cons_self hk (fun hempty => hmissing (.inl hempty)) ht
        have hremove := hh.remove item.key
        rwa [if_neg hne] at hremove
      | some t =>
        dsimp only
        rw [Function.update_idem]
        refine ih (hh.replace hstored rfl fun hk => .inr ?_)
        exact (hitems.head hk).undue ht

theorem boltdb_mExpire {items : List Item} (hitems : AllLasting env H k items)
    {d : Boltkv.Driver V} (h : Holds env H k v (.boltdb d)) :
    Holds env H k v (.boltdb (d.mExpire env.toEnv items).2) := by
  induction items generalizing d with
  | nil => exact h
  | cons item items ih =>
    rw [Boltkv.Driver.mExpire]
    split
    · exact h
    cases ht : env.parse item.timeout with
    | none => exact h
    | some t =>
      refine ih hitems.tail (boltdb_mark h fun hk => ?_)
      exact (hitems.head hk).undue ht

theorem redis_expire {now t : Int} (hnow : now ≤ H) {key : Bytes} (hkey : key = k → Far H t) {s : Store}
    (hs : StoreHolds H k v s) (hlow : 0 ≤ now) :
    StoreHolds H k v (Redis.Kv.expire now (Redis.Kv.formatSec (Redis.Kv.sub t now)) key s) := by
  rw [Redis.Kv.expire]
  cases hget : s.get now key with
  | none => exact hs
  | some e =>
    have hstored : s key = some e := (Option.filter_eq_some_iff.mp hget).1
    dsimp only
    by_cases hk : key = k
    · have hfar := hkey hk
      unfold Far at hfar
      have hsub : Redis.Kv.sub t now = t - now := by unfold Redis.Kv.sub; omega
      have hsec : Redis.Kv.formatSec (t - now) = (t - now) / 1000000000 := by
        rw [Redis.Kv.formatSec, if_neg (by omega), Int.tdiv_eq_ediv_of_nonneg (by omega)]
      rw [hsub, hsec, if_neg (by omega)]
      refine hs.replace (e := e) hstored rfl fun _ x hx => ?_
      cases hx
      omega
    · rw [StoreHolds, Keeps, Function.update_of_ne (Ne.symm hk)]
      exact hs

theorem redis_mExpire {blank : Bytes → Bool} {fails : Nat → Bool} (hnow : 0 ≤ now ∧ now ≤ H) {items : List Item}
    (hitems : AllLasting env H k items) (i : Nat) {s : Store}
    (hs : StoreHolds H k v s) :
    StoreHolds H k v (Redis.Kv.mExpire blank now fails env.parse i (items.map some) s).2 := by
  induction items generalizing i s with
  | nil => exact hs
  | cons item items ih =>
    rw [List.map_cons, Redis.Kv.mExpire]
    split
    · exact hs
    cases ht : env.parse item.timeout with
    | none => exact hs
    | some t =>
      refine ih hitems.tail (i + 1) ?_
      split
      · exact hs
      · exact redis_expire hnow.2 (fun hk => hitems.head hk t ht) hs hnow.1

theorem memcached_mExpire {blank : Bytes → Bool} {fails : Nat → Bool} (hnow : 0 ≤ now ∧ now ≤ H) {items : List Item}
    (hitems : AllLasting env H k items) (i : Nat) {s : Store}
    (hs : StoreHolds H k v s) :
    StoreHolds H k v (Memcached.mExpire blank now fails env.parse i (items.map some) s).2 := by
  induction items generalizing i s with
  | nil => exact hs
  | cons item items ih =>
    rw [List.map_cons, Memcached.mExpire]
    split
    · exact hs
    cases ht : env.parse item.timeout with
    | none => exact hs
    | some t =>
      dsimp only
      split
      · exact hs
      cases hget : s.get now item.key with
      | none => exact hs
      | some e =>
        have hstored : s item.key = some e := (Option.filter_eq_some_iff.mp hget).1
        refine ih hitems.tail (i + 1) (hs.replace hstored rfl fun hk => ?_)
        exact memcached_expiry hnow (hitems.head hk t ht)

/-- `MExpire` leaves every value. -/
theorem Holds.mExpire (hnow : 0 ≤ now ∧ now ≤ H) {items : List Item}
    (hitems : AllLasting env H k items)
    (hparsed : ∀ item ∈ items, item.key = k → Parsed env item) {b : Backend V} (h : Holds env H k v b) :
    Holds env H k v (b.mExpire env now f items).2 := by
  cases b with
  | memory m => exact memory_mExpire hitems hparsed h
  | boltdb d => exact boltdb_mExpire hitems h
  | redis s => exact redis_mExpire hnow hitems 0 h
  | memcached s => exact memcached_mExpire hnow hitems 0 h

/-! ### Clear and the loops that remove keys -/

theorem Holds.clear {b : Backend V} (h : Holds env H k v b) :
    Holds env H k (if (b.clear f).1.isNone then none else v) (b.clear f).2 := by
  have hempty : StoreHolds H k none fun _ => none := keeps_none
  cases b with
  | memory m => exact keeps_none (k := k)
  | boltdb d =>
    rw [Backend.clear, Boltkv.Driver.clear]
    split
    · exact h
    · exact ⟨rfl, fun timeout ht => by cases ht⟩
  | redis s =>
    rw [Backend.clear, Redis.Kv.clear]
    split
    · exact h
    · exact hempty
  | memcached s =>
    rw [Backend.clear, Memcached.clear]
    split
    · exact h
    · exact hempty

theorem memory_gc (hnow : now ≤ H) (order : List Bytes) {h : Memorykv.Heap}
    (hh : HeapHolds env H k v h) :
    HeapHolds env H k v (Memorykv.gcPass env.memory now order h) := by
  induction order generalizing h with
  | nil => exact hh
  | cons key order ih =>
    rw [Memorykv.gcPass]
    cases hstored : h key with
    | none => exact ih hh
    | some item =>
      dsimp only
      split
      · exact ih hh
      rename_i hempty
      cases ht : env.memory.parse item.timeout with
      | none => exact hh
      | some t =>
        dsimp only
        split
        · rename_i hdue
          -- the timeout of `k` is not due
          have hne : key ≠ k := by
            rintro rfl
            obtain ⟨t', ht', hH⟩ := (hh.2 item hstored).resolve_left hempty
            have heq : t' = t := Option.some.inj (ht'.symm.trans ht)
            omega
          have hremove := hh.remove key
          rw [if_neg hne] at hremove
          exact ih hremove
        · exact ih hh

theorem boltdb_gc (hnow : now ≤ H) {fails : Bytes → Bool} (order : List Bytes) {d : Boltkv.Driver V}
    (h : Holds env H k v (.boltdb d)) : Holds env H k v (.boltdb (d.gcPass env.toEnv now fails order)) := by
  induction order generalizing d with
  | nil => exact h
  | cons key order ih =>
    rw [Boltkv.Driver.gcPass]
    cases hmark : d.gc.get key with
    | none => exact ih h
    | some timeout =>
      dsimp only
      cases ht : env.parse timeout with
      | none => exact h
      | some t =>
        dsimp only
        split
        · rename_i hdue
          have hne : key ≠ k := by
            rintro rfl
            obtain ⟨t', ht', hH⟩ := h.2 timeout hmark
            have heq : t' = t := Option.some.inj (ht'.symm.trans ht)
            omega
          have hunmarked : Holds env H k v (.boltdb { d with gc := d.gc.delete key }) := by
            refine ⟨h.1, fun timeout ht => h.2 timeout ?_⟩
            rwa [Bucket.get_delete, if_neg (Ne.symm hne)] at ht
          split
          · exact hunmarked
          · have hremove := boltdb_remove hunmarked key
            rw [if_neg hne] at hremove
            exact ih hremove
        · exact ih h

theorem Holds.gc (hnow : now ≤ H) {fails : Bytes → Bool} (order : List Bytes) {b : Backend V}
    (h : Holds env H k v b) : Holds env H k v (b.gc env now fails order) := by
  cases b with
  | memory m => exact memory_gc hnow order h
  | boltdb d => exact boltdb_gc hnow order h
  | redis s => exact h
  | memcached s => exact h

/-! ### The readers -/

/-- A server reads an entry that is not due. -/
theorem Keeps.get {s : Store} (hs : StoreHolds H k v s) (hnow : now ≤ H) :
    (s.get now k).map Entry.value = v := by
  rw [Store.get, ← hs.1]
  cases hstored : s k with
  | none => rfl
  | some e =>
    have hreadable : e.Readable now := fun x hx => lt_of_le_of_lt hnow (hs.2 e hstored x hx)
    rw [Option.filter_some, if_pos (decide_eq_true hreadable)]

/-- A read of a server that may fail. -/
theorem eq_of_read {β : Type} {fails : Bool} {err : Err} {x r : β}
    (h : (if fails then .error err else .ok x) = Except.ok r) : r = x := by
  cases fails with
  | false => cases h; rfl
  | true => cases h

theorem ok_of_mapError {β : Type} {x : Except Err β} {wrap : Err → Err} {y : β} (h : x.mapError wrap = .ok y) :
    x = .ok y := by
  cases x with
  | error err => cases h
  | ok z => exact h

/-- The key is in the map that `Has` returns exactly if it was asked for and has a value. -/
theorem Holds.has (hnow : now ≤ H) {b : Backend V} (h : Holds env H k v b) {keys : List Bytes}
    {m : List (Bytes × Bool)} (hm : b.has env now f keys = .ok m) :
    (∃ found, (k, found) ∈ m) ↔ k ∈ keys ∧ v.isSome = true := by
  cases b with
  | memory heap =>
    refine mem_hasKeys_iff (fun i r hr => ?_) hm
    cases hr
    rw [← h.1, Option.isSome_map]
  | boltdb d =>
    refine mem_hasKeys_iff (fun i r hr => ?_) (ok_of_mapError hm)
    cases hr
    rw [h.1, Option.isSome_map]
  | redis s =>
    refine mem_hasKeys_iff (fun i r hr => ?_) hm
    rw [eq_of_read hr, ← Keeps.get h hnow, Option.isSome_map]
  | memcached s =>
    refine mem_hasKeys_iff (fun i r hr => ?_) hm
    rw [eq_of_read hr, ← Keeps.get h hnow, Option.isSome_map]

/-- The map that `MGet` returns has the value of the key if it was asked for. -/
theorem Holds.mGet (hnow : now ≤ H) {b : Backend V} (h : Holds env H k v b) {keys : List Bytes}
    {m : List (Bytes × Bytes)} (hm : b.mGet env now f keys = .ok m) (w : Bytes) :
    (k, w) ∈ m ↔ k ∈ keys ∧ v = some w := by
  cases b with
  | memory heap =>
    refine mem_readKeys_iff (fun i r hr => ?_) hm w
    cases hr
    exact h.1
  | boltdb d =>
    rw [Backend.mGet, Boltkv.Driver.mGet_eq] at hm
    refine mem_readKeys_iff (fun i r hr => ?_) hm w
    rw [Boltkv.Driver.readKey, h.1] at hr
    cases v with
    | none => cases hr; rfl
    | some v =>
      simp only [Option.map_some, env.bytes_encode] at hr
      cases hr
      rfl
  | redis s =>
    refine mem_readKeys_iff (fun i r hr => ?_) hm w
    rw [eq_of_read hr, Keeps.get h hnow]
  | memcached s =>
    refine mem_readKeys_iff (fun i r hr => ?_) hm w
    rw [eq_of_read hr, Keeps.get h hnow]

end Holds

end RoadRunner.Kv
